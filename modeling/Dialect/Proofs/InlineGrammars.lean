import Dialect.Config
import Dialect.Proofs.RecordFields

/-!
# Grammars inside configurations

A grammar inside a configuration is read off the normal form of its document, one in a file off the
document itself. Main statement: both are the same but for the table of replacements, which the
normal form has in the order of its keys.
-/

namespace Dialect

open Json (RecordField Clean Shows commutes_optionalField commutes_nestedField
  commutes_optionalField_nestedField commutes_nestedField_optionalField alike_optionalField
  alike_nestedField keeps_view_optionalField keeps_view_nestedField)

/-! ## Values of single fields -/

namespace Json

theorem asString_normal (j : Json) : (asString j.normal).toOption = (asString j).toOption := by
  cases j <;> rfl

theorem asBool_normal (j : Json) : (asBool j.normal).toOption = (asBool j).toOption := by
  cases j <;> rfl

theorem rel_of_eq {α : Type} {a b : Option α} (same : a = b) : Option.Rel (· = ·) a b := by
  subst same
  cases a with
  | none => exact .none
  | some x => exact .some rfl

theorem mapM_asString_normal (js : List Json) :
    ((js.map normal).mapM asString).toOption = (js.mapM asString).toOption := by
  induction js with
  | nil => rfl
  | cons j js ih =>
    rw [List.map_cons, List.mapM_cons, List.mapM_cons, toOption_bind, toOption_bind,
      asString_normal]
    refine Option.bind_congr fun text _ => ?_
    rw [toOption_bind, toOption_bind, ih]

theorem asStrings_normal {j : Json} (clean : j.Clean) :
    (asStrings j.normal).toOption = (asStrings j).toOption := by
  cases j with
  | array items fault =>
    obtain ⟨rfl, -⟩ := clean.of_array
    rw [normal, list, normalItems_eq, asStrings, asStrings, toOption_bind, toOption_bind,
      mapM_asString_normal]
  | object members fault => rfl
  | null => rfl
  | bool value => rfl
  | number text => rfl
  | string text => rfl
  | flawed read skipped => rfl

/-! ## Tables -/

/-- A member that is a text. -/
def textMember (entry : String × String) : JsonMember :=
  ⟨.ok entry.1, .string entry.2⟩

theorem textMember_injective : Function.Injective textMember := by
  rintro ⟨key, text⟩ ⟨key', text'⟩ same
  simpa [textMember] using same

theorem stringMembers_eq_ok_iff {ms : List JsonMember} {entries : List (String × String)} :
    stringMembers ms = .ok entries ↔ ms = entries.map textMember := by
  constructor
  · intro read
    induction ms generalizing entries with
    | nil =>
      cases read
      rfl
    | cons m ms ih =>
      obtain ⟨key, value⟩ := m
      obtain ⟨name, named, readValue⟩ := exists_of_bind read
      obtain ⟨text, given, readRest⟩ := exists_of_bind readValue
      obtain ⟨rest, inner, done⟩ := exists_of_bind readRest
      obtain rfl := Except.ok.inj done
      cases value <;> cases given
      rw [List.map_cons, ← ih inner, named]
      rfl
  · rintro rfl
    induction entries with
    | nil => rfl
    | cons entry entries ih =>
      rw [List.map_cons, textMember, stringMembers, ih]
      rfl

theorem exists_entries {ms : List JsonMember} (texts : ∀ m ∈ ms, ∃ entry, m = textMember entry) :
    ∃ entries : List (String × String), ms = entries.map textMember := by
  induction ms with
  | nil => exact ⟨[], rfl⟩
  | cons m ms ih =>
    obtain ⟨⟨entry, rfl⟩, rest⟩ := List.forall_mem_cons.mp texts
    obtain ⟨entries, rfl⟩ := ih rest
    exact ⟨entry :: entries, rfl⟩

theorem eq_textMember_of_normal {m : JsonMember} {entry : String × String}
    (same : m.normal = textMember entry) : m = textMember entry := by
  obtain ⟨key, value⟩ := m
  cases value <;> cases same
  rfl

theorem keys_map_textMember (entries : List (String × String)) :
    keys (entries.map textMember) = entries.map Prod.fst := by
  induction entries with
  | nil => rfl
  | cons entry entries ih =>
    rw [List.map_cons, List.map_cons, ← ih]
    rfl

/-- The same entries with distinct keys, the first ones in the order of the keys. -/
structure Sorts (sorted entries : List (String × String)) : Prop where
  perm : sorted.Perm entries
  ordered : sorted.Pairwise fun a b => a.1 < b.1
  distinct : (entries.map Prod.fst).Nodup

theorem stringMembers_normal {ms : List JsonMember} (named : ∀ m ∈ ms, ∃ key, m.key = .ok key)
    (distinct : (keys ms).Nodup) :
    Option.Rel Sorts (stringMembers (Json.named (normalMembers ms))).toOption
      (stringMembers ms).toOption := by
  have perm := named_normalMembers_perm named distinct
  cases read : stringMembers ms with
  | error fault =>
    cases readNormal : stringMembers (Json.named (normalMembers ms)) with
    | error fault => exact .none
    | ok entries =>
      rw [stringMembers_eq_ok_iff] at readNormal
      rw [readNormal] at perm
      have texts : ∀ m ∈ ms, ∃ entry, m = textMember entry := fun m member => by
        have among := perm.mem_iff.mpr (List.mem_map_of_mem (f := JsonMember.normal) member)
        obtain ⟨entry, -, same⟩ := List.mem_map.mp among
        exact ⟨entry, eq_textMember_of_normal same.symm⟩
      obtain ⟨entries, same⟩ := exists_entries texts
      rw [stringMembers_eq_ok_iff.mpr same] at read
      cases read
  | ok entries =>
    obtain rfl := stringMembers_eq_ok_iff.mp read
    rw [List.map_map] at perm
    have texts : ∀ m ∈ Json.named (normalMembers (entries.map textMember)),
        ∃ entry, m = textMember entry := fun m member => by
      obtain ⟨entry, -, same⟩ := List.mem_map.mp (perm.mem_iff.mp member)
      exact ⟨entry, same.symm⟩
    obtain ⟨sorted, same⟩ := exists_entries texts
    rw [stringMembers_eq_ok_iff.mpr same]
    refine .some ⟨?_, ?_, ?_⟩
    · rw [same] at perm
      exact (List.map_perm_map_iff textMember_injective).mp perm
    · have keysSame := congrArg keys same
      rw [keys_named, keys_map_textMember] at keysSame
      have ordered := List.pairwise_map.mpr (keysInOrder_normalMembers (entries.map textMember))
      rw [keysSame] at ordered
      exact List.pairwise_map.mp ordered
    · rwa [keys_map_textMember] at distinct

theorem asStringMap_normal {j : Json} (clean : j.Clean) :
    Option.Rel Sorts (asStringMap j.normal).toOption (asStringMap j).toOption := by
  cases j with
  | object ms fault =>
    obtain ⟨rfl, distinct, inner⟩ := clean.of_object
    have members := stringMembers_normal (fun m member => (inner m member).1) distinct
    rw [normal, record, ← named, asStringMap, asStringMap, toOption_bind, toOption_bind]
    exact rel_bind members fun _ _ sorts => .some sorts
  | array items fault => exact .none
  | null => exact .none
  | bool value => exact .none
  | number text => exact .none
  | string text => exact .none
  | flawed read skipped => exact .none

end Json

namespace Replacement

def keyLe (a b : Replacement) : Bool :=
  a.key ≤ b.key

/-- The table in the order of its keys. -/
def sorted (table : List Replacement) : List Replacement :=
  table.mergeSort keyLe

/-- Every key comes after those before it. -/
def InKeyOrder (table : List Replacement) : Prop :=
  table.Pairwise fun a b => a.key < b.key

instance (table : List Replacement) : Decidable (InKeyOrder table) :=
  inferInstanceAs (Decidable (table.Pairwise _))

theorem keyLe_iff {a b : Replacement} : keyLe a b = true ↔ a.key ≤ b.key :=
  decide_eq_true_iff

theorem pairwise_sorted (table : List Replacement) :
    (sorted table).Pairwise fun a b => keyLe a b = true := by
  refine List.pairwise_mergeSort (fun a b c first second => ?_) (fun a b => ?_) table
  · rw [keyLe_iff] at first second ⊢
    exact first.trans second
  · rw [Bool.or_eq_true, keyLe_iff, keyLe_iff]
    exact le_total a.key b.key

/-- There is one order of a table. -/
theorem eq_sorted {table other : List Replacement} (perm : other.Perm table)
    (ordered : InKeyOrder other) : other = sorted table := by
  have weakly : other.Pairwise fun a b => keyLe a b = true :=
    ordered.imp fun before => keyLe_iff.mpr before.le
  have distinct : (other.map key).Nodup :=
    List.pairwise_map.mpr (ordered.imp fun before => before.ne)
  have same := perm.trans (List.mergeSort_perm table keyLe).symm
  refine List.Perm.eq_of_pairwise (fun a b left right first second => ?_) weakly
    (pairwise_sorted table) same
  have keys : a.key = b.key := le_antisymm (keyLe_iff.mp first) (keyLe_iff.mp second)
  exact List.inj_on_of_nodup_map distinct left (same.mem_iff.mpr right) keys

theorem sorted_eq_self_iff {table : List Replacement} (distinct : Distinct table) :
    sorted table = table ↔ InKeyOrder table := by
  constructor
  · intro same
    have weakly := pairwise_sorted table
    rw [same] at weakly
    have different : table.Pairwise fun a b => a.key ≠ b.key := List.pairwise_map.mp distinct
    refine (weakly.and different).imp fun {a b} both => ?_
    exact lt_of_le_of_ne (keyLe_iff.mp both.1) both.2
  · intro ordered
    exact (eq_sorted (.refl table) ordered).symm

end Replacement

namespace Grammar

theorem replacementTable_of_nodup {entries : List (String × String)}
    (distinct : (entries.map Prod.fst).Nodup) :
    replacementTable entries = entries.map fun entry => ⟨entry.1, entry.2⟩ := by
  have table : Replacement.Distinct (entries.map fun entry => ⟨entry.1, entry.2⟩) := by
    simpa [Replacement.Distinct, Function.comp_def] using distinct
  simpa [Function.comp_def] using replacementTable_entries table

/-- Entries in the order of their keys make a table in that order. -/
theorem replacementTable_of_sorts {sorted entries : List (String × String)}
    (sorts : Json.Sorts sorted entries) :
    replacementTable sorted = Replacement.sorted (replacementTable entries) := by
  have distinct := (sorts.perm.map Prod.fst).nodup_iff.mpr sorts.distinct
  rw [replacementTable_of_nodup distinct, replacementTable_of_nodup sorts.distinct]
  exact Replacement.eq_sorted (sorts.perm.map _) (List.pairwise_map.mpr sorts.ordered)

/-! ## Fields -/

section Commuting

attribute [local simp] Json.stringField Json.boolField commutes_optionalField commutes_nestedField
  commutes_optionalField_nestedField commutes_nestedField_optionalField

theorem commuting_classFields : classFields.Pairwise RecordField.Commutes := by
  simp [classFields]

theorem commuting_templateFields : templateFields.Pairwise RecordField.Commutes := by
  simp [templateFields]

theorem commuting_controlFields : controlFields.Pairwise RecordField.Commutes := by
  simp [controlFields]

theorem commuting_supportFields : supportFields.Pairwise RecordField.Commutes := by
  simp [supportFields]

theorem commuting_fileFields : fileFields.Pairwise RecordField.Commutes := by
  simp [fileFields]

theorem commuting_fields : fields.Pairwise RecordField.Commutes := by
  simp [fields]

end Commuting

section Alike

variable {σ : Type} {R : σ → σ → Prop} {name : String}

theorem alike_stringField {put : String → σ → σ} (puts : ∀ v s t, R s t → R (put v s) (put v t)) :
    (Json.stringField name put).Alike R :=
  alike_optionalField (fun j _ => Json.rel_of_eq (Json.asString_normal j)) fun v _ s t same =>
    same ▸ puts v s t

theorem alike_boolField {put : Bool → σ → σ} {otherNames : List String}
    (puts : ∀ v s t, R s t → R (put v s) (put v t)) :
    (Json.boolField name put otherNames).Alike R :=
  alike_optionalField (fun j _ => Json.rel_of_eq (Json.asBool_normal j)) fun v _ s t same =>
    same ▸ puts v s t

attribute [local simp] alike_stringField alike_boolField

theorem alike_classFields : ∀ f ∈ classFields, f.Alike (· = ·) := by
  simp [classFields]

theorem alike_templateFields : ∀ f ∈ templateFields, f.Alike (· = ·) := by
  simp [templateFields]

theorem alike_controlFields : ∀ f ∈ controlFields, f.Alike (· = ·) := by
  simp [controlFields]

theorem alike_supportFields : ∀ f ∈ supportFields, f.Alike (· = ·) := by
  have aliases : (Json.optionalField "recognizedAliases" Json.asStrings
      (fun v (s : SupportSyntax) => { s with aliases := v }) []).Alike (· = ·) :=
    alike_optionalField (fun _ clean => Json.rel_of_eq (Json.asStrings_normal clean))
      fun _ _ _ _ same related => same ▸ related ▸ rfl
  simp [supportFields, aliases]

/-- The file's syntax without its table of replacements. -/
def withoutTable (s : FileSyntax) : FileSyntax :=
  { s with replacements := [] }

/-- A draft without the table of replacements. -/
def Draft.withoutTable (d : Draft) : Draft :=
  { d with grammar.file := Grammar.withoutTable d.grammar.file }

theorem alike_fileFields :
    ∀ f ∈ fileFields, f.Alike fun s t => withoutTable s = withoutTable t := by
  have string {name : String} {put : String → FileSyntax → FileSyntax}
      (kept : ∀ v s, withoutTable (put v s) = put v (withoutTable s)) :
      (Json.stringField name put).Alike fun s t => withoutTable s = withoutTable t :=
    alike_stringField fun v s t same => by rw [kept, kept, same]
  have bool {name : String} {put : Bool → FileSyntax → FileSyntax} {otherNames : List String}
      (kept : ∀ v s, withoutTable (put v s) = put v (withoutTable s)) :
      (Json.boolField name put otherNames).Alike fun s t => withoutTable s = withoutTable t :=
    alike_boolField fun v s t same => by rw [kept, kept, same]
  simp only [fileFields, List.forall_mem_cons]
  refine ⟨string fun _ _ => rfl, bool fun _ _ => rfl, bool fun _ _ => rfl, string fun _ _ => rfl,
    string fun _ _ => rfl, string fun _ _ => rfl, string fun _ _ => rfl, ?_, ?_,
    List.forall_mem_nil _⟩
  · refine alike_nestedField commuting_supportFields alike_supportFields (fun s t same => ?_)
      fun v w s t given same => ?_
    · exact congrArg (·.support) same
    · subst given
      exact congrArg (fun s : FileSyntax => { s with support := v }) same
  · exact alike_optionalField (fun _ => Json.asStringMap_normal) fun _ _ _ _ _ same => same

theorem alike_fields : ∀ f ∈ fields, f.Alike fun d e => d.withoutTable = e.withoutTable := by
  have string {name : String} {put : String → Draft → Draft}
      (kept : ∀ v d, (put v d).withoutTable = put v d.withoutTable) :
      (Json.stringField name put).Alike fun d e => d.withoutTable = e.withoutTable :=
    alike_stringField fun v d e same => by rw [kept, kept, same]
  have parts (j : Json) (clean : j.Clean) :=
    Json.readRecord_normal commuting_templateFields alike_templateFields clean
      (rfl : ({} : TemplateParts) = {})
  simp only [fields, List.forall_mem_cons]
  refine ⟨string fun _ _ => rfl, string fun _ _ => rfl, ?_, ?_, ?_, ?_, List.forall_mem_nil _⟩
  · refine alike_nestedField commuting_classFields alike_classFields (fun d e same => ?_)
      fun v w d e given same => ?_
    · exact congrArg (·.grammar.classes) same
    · subst given
      exact congrArg (fun d : Draft => { d with grammar.classes := v }) same
  · refine alike_optionalField parts fun v w d e given same => ?_
    subst given
    exact congrArg (fun d : Draft => { d with template := some v }) same
  · refine alike_nestedField commuting_controlFields alike_controlFields (fun d e same => ?_)
      fun v w d e given same => ?_
    · exact congrArg (·.grammar.control) same
    · subst given
      exact congrArg (fun d : Draft => { d with grammar.control := v }) same
  · refine alike_nestedField commuting_fileFields alike_fileFields (fun d e same => ?_)
      fun v w d e given same => ?_
    · exact congrArg (·.grammar.file) same
    · exact congrArg₂ (fun (file : FileSyntax) (d : Draft) => { d with grammar.file := file })
        given same

end Alike

/-! ## The table -/

/-- What a value for the table makes of another table. -/
def tableFrom (j : Json) (table : List Replacement) : List Replacement :=
  if j.isNull then table else replacementTable ((Json.asStringMap j).toOption.getD [])

def tableField : RecordField FileSyntax :=
  Json.optionalField "tokenReplacements" Json.asStringMap
    (fun v s => { s with replacements := replacementTable v }) []

theorem shows_fileFields :
    Shows (fun s : FileSyntax => s.replacements) tableFrom (fileFields.take 8) tableField [] where
  own j s s' set := by
    rw [tableField, Json.optionalField_set] at set
    rw [tableFrom]
    by_cases null : j.isNull
    · rw [if_pos null] at set ⊢
      cases set
      rfl
    · rw [if_neg null] at set ⊢
      cases value : Json.asStringMap j with
      | error fault => simp [value, Except.map] at set
      | ok entries =>
        rw [value] at set
        cases set
        rfl
  others := by
    simp only [fileFields, List.take_succ_cons, List.take_zero, List.append_nil,
      List.forall_mem_cons]
    exact ⟨keeps_view_optionalField fun _ _ => rfl, keeps_view_optionalField fun _ _ => rfl,
      keeps_view_optionalField fun _ _ => rfl, keeps_view_optionalField fun _ _ => rfl,
      keeps_view_optionalField fun _ _ => rfl, keeps_view_optionalField fun _ _ => rfl,
      keeps_view_optionalField fun _ _ => rfl, keeps_view_nestedField fun _ _ => rfl,
      List.forall_mem_nil _⟩
  single := rfl
  apart := by decide

/-- The value for the table in a file's part of a document. -/
def fileTable (j : Json) (table : List Replacement) : List Replacement :=
  ((j.field? "tokenReplacements" 8).map (tableFrom · table)).getD table

theorem replacements_of_readRecord {j : Json} {s s' : FileSyntax}
    (read : Json.readRecord fileFields s j = .ok s') :
    s'.replacements = fileTable j s.replacements :=
  shows_fileFields.readRecord read

def fileField : RecordField Draft :=
  Json.nestedField "file" fileFields (·.grammar.file) fun v s => { s with grammar.file := v }

theorem shows_fields :
    Shows (fun d : Draft => d.grammar.file.replacements) fileTable (fields.take 5) fileField
      [] where
  own j d d' set := by
    simp only [fileField, Json.nestedField] at set
    cases value : Json.readRecord fileFields d.grammar.file j with
    | error fault => simp [value, Except.map] at set
    | ok file =>
      rw [value] at set
      cases set
      exact replacements_of_readRecord value
  others := by
    simp only [fields, List.take_succ_cons, List.take_zero, List.append_nil, List.forall_mem_cons]
    exact ⟨keeps_view_optionalField fun _ _ => rfl, keeps_view_optionalField fun _ _ => rfl,
      keeps_view_nestedField fun _ _ => rfl, keeps_view_optionalField fun _ _ => rfl,
      keeps_view_nestedField fun _ _ => rfl, List.forall_mem_nil _⟩
  single := rfl
  apart := by decide

/-- What the document makes of a table. -/
def documentTable (j : Json) (table : List Replacement) : List Replacement :=
  ((j.field? "file" 5).map (fileTable · table)).getD table

/-- The document has a table of its own. -/
def givesTable (j : Json) : Bool :=
  ((j.field? "file" 5).bind (Json.field? "tokenReplacements" 8)).any (!·.isNull)

theorem tableFrom_normal {j : Json} (clean : j.Clean) (table : List Replacement) :
    tableFrom j.normal table =
      if j.isNull then tableFrom j table else Replacement.sorted (tableFrom j table) := by
  rw [tableFrom, tableFrom, Json.isNull_normal]
  by_cases null : j.isNull
  · simp [null]
  · rw [if_neg null, if_neg null, if_neg null]
    have read := Json.asStringMap_normal clean
    generalize (Json.asStringMap j.normal).toOption = normal at read ⊢
    generalize (Json.asStringMap j).toOption = plain at read ⊢
    cases read with
    | none => exact Replacement.eq_sorted (.refl _) .nil
    | some sorts => exact replacementTable_of_sorts sorts

theorem fileTable_normal {j : Json} (clean : j.Clean) (table : List Replacement) :
    fileTable j.normal table =
      if (j.field? "tokenReplacements" 8).any (!·.isNull) then
        Replacement.sorted (fileTable j table)
      else fileTable j table := by
  rw [fileTable, fileTable, Json.field?_normal clean]
  cases given : j.field? "tokenReplacements" 8 with
  | none => rfl
  | some value =>
    have changed := tableFrom_normal (clean.of_field? given) table
    cases null : value.isNull <;> simpa [null] using changed

theorem documentTable_normal {j : Json} (clean : j.Clean) (table : List Replacement) :
    documentTable j.normal table =
      if givesTable j then Replacement.sorted (documentTable j table)
      else documentTable j table := by
  rw [documentTable, documentTable, givesTable, Json.field?_normal clean]
  cases found : j.field? "file" 5 with
  | none => rfl
  | some file => exact fileTable_normal (clean.of_field? found) table

/-! ## Grammars -/

/-- A grammar with another table. -/
def withTable (g : Grammar) (table : List Replacement) : Grammar :=
  { g with file.replacements := table }

/-- The grammar with its table in order, if the document gives one. -/
def inlined (j : Json) (g : Grammar) : Grammar :=
  if givesTable j then g.withTable (Replacement.sorted g.file.replacements) else g

theorem complete_inlined (j : Json) (d : Draft) :
    ({ d with grammar := inlined j d.grammar } : Draft).complete = d.complete.map (inlined j) := by
  have changed : inlined j = fun g => g.withTable
      (if givesTable j then Replacement.sorted g.file.replacements else g.file.replacements) := by
    funext g
    rw [inlined]
    split <;> rfl
  obtain ⟨g, parts⟩ := d
  rw [changed]
  cases parts with
  | none => rfl
  | some parts =>
    simp only [Draft.complete]
    cases parts.complete <;> rfl

theorem eq_withTable {d e : Draft} (same : d.withoutTable = e.withoutTable) :
    d = { e with grammar := e.grammar.withTable d.grammar.file.replacements } :=
  congrArg (fun draft : Draft =>
    { draft with grammar := draft.grammar.withTable d.grammar.file.replacements }) same

theorem readRecord_fields_normal {j : Json} (clean : j.Clean) :
    (Json.readRecord fields {} j.normal).toOption =
      (Json.readRecord fields {} j).toOption.map fun d =>
        { d with grammar := inlined j d.grammar } := by
  have default : ({} : Draft).withoutTable = ({} : Draft).withoutTable := rfl
  have read := Json.readRecord_normal commuting_fields alike_fields clean default
  cases normal : (Json.readRecord fields {} j.normal).toOption with
  | none =>
    cases plain : (Json.readRecord fields {} j).toOption with
    | none => rfl
    | some e =>
      rw [normal, plain] at read
      cases read
  | some d =>
    cases plain : (Json.readRecord fields {} j).toOption with
    | none =>
      rw [normal, plain] at read
      cases read
    | some e =>
      rw [normal, plain, Option.rel_some_some] at read
      have table : d.grammar.file.replacements = documentTable j.normal defaultReplacements :=
        shows_fields.readRecord (Json.toOption_eq_some.mp normal)
      have table' : e.grammar.file.replacements = documentTable j defaultReplacements :=
        shows_fields.readRecord (Json.toOption_eq_some.mp plain)
      -- All but the tables is the same, and both tables come from the same value.
      rw [documentTable_normal clean, ← table'] at table
      rw [Option.map_some, eq_withTable read, table, inlined]
      split <;> rfl

theorem toOption_ofJson (j : Json) :
    (ofJson j).toOption =
      (Json.readRecord fields {} j).toOption.bind fun d => d.complete.toOption := by
  rw [ofJson, ofDocument]
  cases Json.readRecord fields {} j <;> rfl

/-- The normal form of a document gives the same grammar, with its table in order. -/
theorem ofJson_normal {j : Json} (clean : j.Clean) :
    (ofJson j.normal).toOption = (ofJson j).toOption.map (inlined j) := by
  rw [toOption_ofJson, toOption_ofJson, readRecord_fields_normal clean, Option.bind_map,
    Option.map_bind]
  refine Option.bind_congr fun d _ => ?_
  rw [Function.comp_apply, complete_inlined, Json.toOption_map]
  rfl

theorem inlined_eq_self_iff (j : Json) {g : Grammar}
    (distinct : Replacement.Distinct g.file.replacements) :
    inlined j g = g ↔ (givesTable j → Replacement.InKeyOrder g.file.replacements) := by
  rw [inlined, ← Replacement.sorted_eq_self_iff distinct]
  cases givesTable j with
  | false => simp
  | true =>
    simp only [if_true, forall_const]
    constructor
    · intro same
      exact congrArg (·.file.replacements) same
    · intro same
      rw [same]
      rfl

/-- Only a grammar that is read, with a table in order, stays as it is. -/
theorem inlined_eq_iff (j : Json) (whole : Prop) [Decidable whole] {read : Option Grammar}
    (distinct : ∀ g, read = some g → Replacement.Distinct g.file.replacements) :
    (if whole then read.map (inlined j) else none) = read ↔
      ∀ g, read = some g →
        whole ∧ (givesTable j → Replacement.InKeyOrder g.file.replacements) := by
  cases read with
  | none => simp
  | some g =>
    have same := inlined_eq_self_iff j (distinct g rfl)
    by_cases readable : whole
    · simpa [readable] using same
    · simp [readable]

end Grammar

/-! ## Configurations -/

/-- The file holds a JSON document. -/
def FileSystem.HoldsJson (fs : FileSystem) (path : Path) (value : Json) : Prop :=
  ∃ text, fs.read path = .ok text ∧ Json.parse text.toList = ⟨value, none⟩

theorem Json.parse_compact {value : Json} (textual : value.Textual) :
    Json.parse value.compact.toList = ⟨value, none⟩ := by
  have parsed := Json.parse_spelled (Json.spells_compactChars textual) Json.blank_nil
  rwa [List.append_nil, ← String.toList_ofList (l := Json.compactChars value)] at parsed

theorem FileSystem.holdsJson_compact {fs : FileSystem} {path : Path} {value : Json}
    (textual : value.Textual) (read : fs.read path = .ok value.compact) :
    fs.HoldsJson path value :=
  ⟨value.compact, read, Json.parse_compact textual⟩

namespace Config

/-- The grammar that the configuration in a file names or holds. -/
def grammarOf (fs : FileSystem) (path : Path) : Except ConfigError Grammar := do
  (← load fs (some path)).selectGrammar fs none

def grammarField : RecordField Config :=
  Json.optionalField "grammar" asGrammarSource (fun v s => { s with grammar := some v }) []

/-- No other field looks at the grammar. -/
theorem ignores_grammar (source : GrammarSource) :
    ∀ f ∈ fields, f.name ≠ "grammar" → ∀ j c,
      f.set j { c with grammar := some source } =
        (f.set j c).map ({ · with grammar := some source }) := by
  have string {name : String} {put : String → Config → Config}
      (kept : ∀ v c, put v { c with grammar := some source } =
        { put v c with grammar := some source }) (j : Json) (c : Config) :
      (Json.stringField name put).set j { c with grammar := some source } =
        ((Json.stringField name put).set j c).map ({ · with grammar := some source }) := by
    rw [Json.stringField, Json.optionalField_set, Json.optionalField_set]
    split
    · rfl
    · cases Json.asString j with
      | error fault => rfl
      | ok v => exact congrArg Except.ok (kept v c)
  simp only [fields, List.forall_mem_cons]
  refine ⟨fun _ => string fun _ _ => rfl, fun _ => string fun _ _ => rfl,
    fun different => absurd rfl different, fun _ => string fun _ _ => rfl, fun _ j c => ?_,
    List.forall_mem_nil _⟩
  cases asAliases j <;> rfl

theorem step_grammar {value : Json} (given : value.isNull = false) (seen : Finset String)
    (c : Config) :
    Json.step fields (seen, c) ⟨.ok "grammar", value⟩ =
      if "grammar" ∈ seen then none
      else (asGrammarSource value).toOption.map fun source =>
        (insert "grammar" seen, { c with grammar := some source }) := by
  have found : fields.find? (·.answersTo "grammar") = some grammarField := rfl
  rw [Json.step_of_found found, RecordField.setOnce, grammarField, Json.optionalField_set, given,
    if_neg Bool.false_ne_true, Json.toOption_map, Option.map_map]
  rfl

/-- A configuration is read around its grammar. -/
theorem exists_around (before after : List JsonMember) :
    ∃ around : Option Config, ∀ value : Json, value.isNull = false →
      (Json.readRecord fields {}
          (.object (before ++ ⟨.ok "grammar", value⟩ :: after) none)).toOption =
        around.bind fun c => (asGrammarSource value).toOption.map fun source =>
          { c with grammar := some source } := by
  refine ⟨(before.foldlM (Json.step fields) (∅, {})).bind fun state =>
    if "grammar" ∈ state.1 then none
    else (after.foldlM (Json.step fields) (insert "grammar" state.1, state.2)).map Prod.snd, ?_⟩
  intro value given
  rw [Json.toOption_readRecord_object, Json.toOption_setMembers, List.foldlM_append,
    List.toFinset_nil, Option.bind_assoc, Option.bind_eq_bind, Option.map_bind]
  refine Option.bind_congr fun state _ => ?_
  obtain ⟨seen, c⟩ := state
  rw [Function.comp_apply, List.foldlM_cons, step_grammar given]
  by_cases known : "grammar" ∈ seen
  · simp [known]
  · cases asGrammarSource value with
    | error fault => simp [known, Except.toOption]
    | ok source =>
      -- The members behind it cannot set the grammar again, and nothing else looks at it.
      have around := Json.foldlM_step_ignores (ignores_grammar source) after
        (Finset.mem_insert_self "grammar" seen) c
      simpa [known, Except.toOption, Option.map_eq_bind, Function.comp_def] using around

theorem toOption_load {fs : FileSystem} {path : Path} {value : Json}
    (holds : fs.HoldsJson path value) :
    (load fs (some path)).toOption =
      (Json.readRecord fields {} value).toOption.map (relativeTo (path.parent?.getD ⟨""⟩)) := by
  obtain ⟨text, read, parsed⟩ := holds
  rw [load, loadFile, read]
  simp only [ofText, parsed]
  cases Json.readRecord fields {} value <;> rfl

theorem toOption_loadGrammar {fs : FileSystem} {path : Path} {value : Json}
    (holds : fs.HoldsJson path value) :
    (loadGrammar fs path).toOption = (Grammar.ofJson value).toOption := by
  obtain ⟨text, read, parsed⟩ := holds
  rw [loadGrammar, read]
  simp only [Grammar.ofText, parsed, Grammar.ofJson]
  cases Grammar.ofDocument ⟨value, none⟩ <;> rfl

/-- What stands around the grammar decides only whether the configuration is read. -/
theorem exists_toOption_grammarOf (fs : FileSystem) (before after : List JsonMember) :
    ∃ around : Option Config, ∀ path value, value.isNull = false →
      fs.HoldsJson path (.object (before ++ ⟨.ok "grammar", value⟩ :: after) none) →
      (grammarOf fs path).toOption =
        around.bind fun _ => (asGrammarSource value).toOption.bind fun source =>
          ((relativeTo (path.parent?.getD ⟨""⟩) { grammar := some source }).selectGrammar fs
            none).toOption := by
  have same (c : Config) (root : Path) (source : GrammarSource) :
      (relativeTo root { c with grammar := some source }).selectGrammar fs none =
        (relativeTo root { grammar := some source }).selectGrammar fs none := by
    cases source <;> rfl
  obtain ⟨around, read⟩ := exists_around before after
  refine ⟨around, fun path value given holds => ?_⟩
  rw [grammarOf, Json.toOption_bind, toOption_load holds, read value given]
  simp only [Option.map_bind, Option.bind_assoc, Function.comp_def, Option.map_map, Option.bind_map,
    same]

theorem toOption_selectGrammar_inline (fs : FileSystem) (root : Path) (value : Json) :
    ((relativeTo root { grammar := some (.inline value) }).selectGrammar fs none).toOption =
      (Grammar.ofJson value).toOption := by
  simp only [relativeTo, selectGrammar, Option.map_some]
  cases Grammar.ofJson value <;> rfl

theorem toOption_asGrammarSource (members : List JsonMember) :
    (asGrammarSource (.object members none)).toOption =
      if (Json.object members none).firstFault (Json.nestingLimit - 1) = none then
        some (.inline (Json.object members none).normal)
      else none := by
  rw [asGrammarSource]
  · cases (Json.object members none).firstFault (Json.nestingLimit - 1) <;> rfl
  · intro text same
    cases same

/-- A grammar inside a configuration and the same document in a file give the same grammar but for
the order of the table. They agree, or both fail, exactly if the document can be read as a whole one
level deep and a table in it is in the order of its keys, wherever the file gives a grammar. -/
theorem grammarOf_inline_agrees_iff {fs : FileSystem} {inlineFile pathFile : Path}
    {before after members : List JsonMember} {name : String}
    (inside : fs.HoldsJson inlineFile
      (.object (before ++ ⟨.ok "grammar", .object members none⟩ :: after) none))
    (outside : fs.HoldsJson pathFile
      (.object (before ++ ⟨.ok "grammar", .string name⟩ :: after) none))
    (document : fs.HoldsJson ((pathFile.parent?.getD ⟨""⟩).join name) (.object members none))
    (distinct : (Json.object members none).DistinctKeys) :
    (grammarOf fs inlineFile).toOption =
        (if (Json.object members none).firstFault (Json.nestingLimit - 1) = none then
          (grammarOf fs pathFile).toOption.map (Grammar.inlined (.object members none))
        else none) ∧
      ((grammarOf fs inlineFile).toOption = (grammarOf fs pathFile).toOption ↔
        ∀ g, grammarOf fs pathFile = .ok g →
          (Json.object members none).firstFault (Json.nestingLimit - 1) = none ∧
            (Grammar.givesTable (.object members none) →
              Replacement.InKeyOrder g.file.replacements)) := by
  obtain ⟨around, read⟩ := exists_toOption_grammarOf fs before after
  have filed : (grammarOf fs pathFile).toOption =
      around.bind fun _ => (Grammar.ofJson (.object members none)).toOption := by
    rw [← toOption_loadGrammar document]
    exact read pathFile (.string name) rfl outside
  have inlined : (grammarOf fs inlineFile).toOption =
      if (Json.object members none).firstFault (Json.nestingLimit - 1) = none then
        (grammarOf fs pathFile).toOption.map (Grammar.inlined (.object members none))
      else none := by
    rw [read inlineFile _ rfl inside, toOption_asGrammarSource, filed]
    split
    · next whole =>
      have normal := Grammar.ofJson_normal ⟨⟨_, whole⟩, distinct⟩
      rw [Option.map_bind]
      refine Option.bind_congr fun _ _ => ?_
      rw [Option.bind_some, toOption_selectGrammar_inline, normal]
      rfl
    · cases around <;> rfl
  have formed : ∀ g, (grammarOf fs pathFile).toOption = some g →
      Replacement.Distinct g.file.replacements := by
    intro g found
    obtain ⟨-, -, found⟩ := Option.bind_eq_some_iff.mp (filed ▸ found)
    exact (Grammar.wellFormed_of_ofDocument (Json.toOption_eq_some.mp found)).distinct
  refine ⟨inlined, ?_⟩
  rw [inlined, Grammar.inlined_eq_iff _ _ formed]
  simp only [Json.toOption_eq_some]

/-- A table out of order, between other members on either level. -/
theorem grammarOf_inline_agrees_iff_swapped :
    let members : List JsonMember :=
      [⟨.ok "functionKeyword", .string "fn"⟩,
        ⟨.ok "file", .record
          [("tokenReplacements", .record [("b", .string "c"), ("a", .string "b")]),
            ("extension", .string "x")]⟩]
    let configured (grammar : Json) : Json :=
      .object ([⟨.ok "outDir", .string "d"⟩] ++ ⟨.ok "grammar", grammar⟩ ::
        [⟨.ok "entry", .string "m.ts"⟩]) none
    let fs : FileSystem :=
      ⟨[(["a.json"], .file (.text (configured (.object members none)).compact)),
        (["b.json"], .file (.text (configured (.string "g.json")).compact)),
        (["g.json"], .file (.text (Json.object members none).compact))], []⟩
    fs.HoldsJson ⟨"a.json"⟩ (configured (.object members none)) ∧
      fs.HoldsJson ⟨"b.json"⟩ (configured (.string "g.json")) ∧
      fs.HoldsJson ⟨"g.json"⟩ (.object members none) ∧
      (Json.object members none).DistinctKeys ∧
      (grammarOf fs ⟨"a.json"⟩).toOption =
        (grammarOf fs ⟨"b.json"⟩).toOption.map (Grammar.inlined (.object members none)) ∧
      (grammarOf fs ⟨"a.json"⟩).toOption ≠ (grammarOf fs ⟨"b.json"⟩).toOption := by
  intro members configured fs
  have textual : (Json.object members none).Textual := by
    simp [members, Json.Textual, Json.TextualMembers]
  have around (grammar : Json) (inner : grammar.Textual) : (configured grammar).Textual := by
    simp [configured, Json.Textual, Json.TextualMembers, inner]
  have inside : fs.HoldsJson ⟨"a.json"⟩ (configured (.object members none)) :=
    FileSystem.holdsJson_compact (around _ textual) (by decide +kernel)
  have outside : fs.HoldsJson ⟨"b.json"⟩ (configured (.string "g.json")) :=
    FileSystem.holdsJson_compact (around _ trivial) (by decide +kernel)
  have document : fs.HoldsJson ⟨"g.json"⟩ (.object members none) :=
    FileSystem.holdsJson_compact textual (by decide +kernel)
  have place : ((⟨"b.json"⟩ : Path).parent?.getD ⟨""⟩).join "g.json" = ⟨"g.json"⟩ := by
    decide +kernel
  have distinct : (Json.object members none).DistinctKeys := by decide +kernel
  have whole : (Json.object members none).firstFault (Json.nestingLimit - 1) = none := by
    decide +kernel
  have filed : grammarOf fs ⟨"b.json"⟩ = .ok
      { functionKeyword := "fn"
        file := { extension := "x", replacements := [⟨"b", "c"⟩, ⟨"a", "b"⟩] } } := by
    decide +kernel
  obtain ⟨sorted, agree⟩ := grammarOf_inline_agrees_iff inside outside (place ▸ document) distinct
  rw [if_pos whole] at sorted
  refine ⟨inside, outside, document, distinct, sorted, fun same => ?_⟩
  have ordered := (agree.mp same _ filed).2 (by decide +kernel)
  exact absurd ordered (by decide)

/-- The table inside the configuration is read in the order of its keys, the one in a file in its
own order. -/
theorem inline_table_loses_order :
    let fs : FileSystem :=
      ⟨[(["a.json"], .file (.text ("\x7b\"grammar\": \x7b\"file\": \x7b\"tokenReplacements\": " ++
          "\x7b\"b\": \"c\", \"a\": \"b\"\x7d\x7d\x7d\x7d"))),
        (["b.json"], .file (.text "\x7b\"grammar\": \"g.json\"\x7d")),
        (["g.json"], .file (.text ("\x7b\"file\": \x7b\"tokenReplacements\": " ++
          "\x7b\"b\": \"c\", \"a\": \"b\"\x7d\x7d\x7d")))], []⟩
    (grammarOf fs ⟨"a.json"⟩).map (·.file.replacements) = .ok [⟨"a", "b"⟩, ⟨"b", "c"⟩] ∧
      (grammarOf fs ⟨"b.json"⟩).map (·.file.replacements) = .ok [⟨"b", "c"⟩, ⟨"a", "b"⟩] := by
  decide +kernel

end Config

end Dialect
