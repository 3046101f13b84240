import Dialect.Grammar.Reading
import Dialect.Grammar.Writing
import Dialect.Proofs.Spelling
import Mathlib.Data.List.Induction

/-!
# Grammars as documents

A record that is written with all its fields in the order of declaration is read field by field. Main
statement: a grammar that has been read from a text is read again from the text it is written as.
-/

namespace Dialect

namespace Json

variable {σ : Type}

/-! ## Records -/

/-- No field answers to the name of a later one. -/
def Apart (fields : List (RecordField σ)) : Prop :=
  fields.Pairwise fun a b => a.answersTo b.name = false

instance (fields : List (RecordField σ)) : Decidable (Apart fields) :=
  inferInstanceAs (Decidable (fields.Pairwise _))

theorem answersTo_name (field : RecordField σ) : field.answersTo field.name = true := by
  simp [RecordField.answersTo]

/-- Behind the fields that have been set, the members in order of declaration set the others. -/
theorem setMembers_behind (before : List (RecordField σ)) {fields : List (RecordField σ)}
    (apart : Apart (before ++ fields)) {values : List Json}
    (all : values.length = fields.length) (s : σ) :
    setMembers (before ++ fields)
        (((fields.map (·.name)).zip values).map fun (key, value) => ⟨.ok key, value⟩)
        (before.map (·.name)).reverse s =
      setItems fields values s := by
  induction fields generalizing before values s with
  | nil =>
    cases values with
    | nil => simp [setMembers, setItems]
    | cons value values => simp at all
  | cons field fields ih =>
    cases values with
    | nil => simp at all
    | cons value values =>
      have earlier : ∀ other ∈ before, other.answersTo field.name = false := by
        intro other member
        exact (List.pairwise_append.mp apart).2.2 other member field List.mem_cons_self
      have found : (before ++ field :: fields).find? (·.answersTo field.name) = some field := by
        rw [List.find?_append, List.find?_eq_none.mpr (by simpa using earlier), Option.none_or,
          List.find?_cons_of_pos (answersTo_name field)]
      have unseen : (before.map (·.name)).reverse.contains field.name = false := by
        rw [Bool.eq_false_iff]
        intro seen
        obtain ⟨other, member, same⟩ : ∃ other ∈ before, other.name = field.name := by
          simpa using seen
        have answers := earlier other member
        rw [← same, answersTo_name] at answers
        cases answers
      have regrouped : before ++ field :: fields = (before ++ [field]) ++ fields := by simp
      simp only [List.map_cons, List.zip_cons_cons, setMembers, setItems, bind, Except.bind, found,
        unseen]
      cases field.set value s with
      | error fault => rfl
      | ok next =>
        have later := ih (before ++ [field]) (regrouped ▸ apart) (by simpa using all) next
        simpa using later

/-- A record with all its fields in the order of declaration is read like the list of them. -/
theorem readRecord_record (fields : List (RecordField σ)) (apart : Apart fields)
    (values : List Json) (all : values.length = fields.length) (s : σ) :
    readRecord fields s (.record ((fields.map (·.name)).zip values)) = setItems fields values s := by
  have read := setMembers_behind [] apart all s
  simp only [List.nil_append, List.map_nil, List.reverse_nil] at read
  simp only [readRecord, Json.record, read]
  cases setItems fields values s <;> rfl

/-- Setting the field keeps a property. -/
def RecordField.Keeps (P : σ → Prop) (field : RecordField σ) : Prop :=
  ∀ j s s', P s → field.set j s = .ok s' → P s'

section Invariant

variable {P : σ → Prop} {fields : List (RecordField σ)}

theorem setMembers_keeps (kept : ∀ field ∈ fields, field.Keeps P) {ms : List JsonMember}
    {seen : List String} {s s' : σ} (start : P s) (set : setMembers fields ms seen s = .ok s') :
    P s' := by
  induction ms generalizing seen s with
  | nil =>
    cases set
    exact start
  | cons m ms ih =>
    obtain ⟨key, value⟩ := m
    cases key with
    | error fault => cases set
    | ok key =>
      simp only [setMembers, bind, Except.bind] at set
      split at set
      · next field found =>
        split at set
        · cases set
        · cases next : field.set value s with
          | error fault => simp [next] at set
          | ok t =>
            rw [next] at set
            exact ih (kept field (List.mem_of_find?_eq_some found) value s t start next) set
      · split at set
        · cases set
        · exact ih start set

theorem setItems_keeps (kept : ∀ field ∈ fields, field.Keeps P) {js : List Json} {s s' : σ}
    (start : P s) (set : setItems fields js s = .ok s') : P s' := by
  induction fields generalizing js s with
  | nil =>
    cases js with
    | nil => cases set; exact start
    | cons j js => cases set
  | cons field fields ih =>
    cases js with
    | nil => cases set; exact start
    | cons j js =>
      rw [List.forall_mem_cons] at kept
      simp only [setItems, bind, Except.bind] at set
      cases next : field.set j s with
      | error fault => simp [next] at set
      | ok t =>
        rw [next] at set
        exact ih kept.2 (kept.1 j s t start next) set

/-- What setting each field keeps, reading a record keeps. -/
theorem readRecord_keeps (kept : ∀ field ∈ fields, field.Keeps P) {j : Json} {s s' : σ}
    (start : P s) (read : readRecord fields s j = .ok s') : P s' := by
  have finished {fault : Option Fault} {result : Except Fault σ}
      (done : (result >>= fun t => finish fault t) = .ok s') : result = .ok s' := by
    cases result with
    | error f => cases done
    | ok t => cases fault <;> cases done; rfl
  cases j with
  | object members fault => exact setMembers_keeps kept start (finished read)
  | array items fault => exact setItems_keeps kept start (finished read)
  | null => cases read
  | bool value => cases read
  | number text => cases read
  | string text => cases read
  | flawed f skipped => cases read

theorem set_optionalField {α : Type} {name : String} {read : Json → Except Fault α}
    {put : α → σ → σ} {otherNames : List String} {j : Json} {v : α} {s : σ}
    (value : read j = .ok v) (given : j ≠ .null) :
    (optionalField name read put otherNames).set j s = .ok (put v s) := by
  simp only [optionalField, value, Except.map]

theorem set_nestedField {τ : Type} {name : String} {inner : List (RecordField τ)} {get : σ → τ}
    {put : τ → σ → σ} {j : Json} {v : τ} {s : σ} (value : readRecord inner (get s) j = .ok v) :
    (nestedField name inner get put).set j s = .ok (put v s) := by
  simp only [nestedField, value, Except.map]

theorem setItems_cons {field : RecordField σ} {fields : List (RecordField σ)} {j : Json}
    {js : List Json} {s t : σ} (set : field.set j s = .ok t) :
    setItems (field :: fields) (j :: js) s = setItems fields js t := by
  rw [setItems, set]
  rfl

theorem keeps_optionalField {α : Type} {name : String} {read : Json → Except Fault α}
    {put : α → σ → σ} {otherNames : List String} (kept : ∀ v s, P s → P (put v s)) :
    (optionalField name read put otherNames).Keeps P := by
  intro j s s' start set
  simp only [optionalField] at set
  split at set
  · cases set
    exact start
  · cases value : read j with
    | error f => simp [value, Except.map] at set
    | ok v =>
      rw [value] at set
      cases set
      exact kept v s start

theorem keeps_nestedField {τ : Type} {Q : τ → Prop} {name : String} {inner : List (RecordField τ)}
    {get : σ → τ} {put : τ → σ → σ} (keptInside : ∀ field ∈ inner, field.Keeps Q)
    (got : ∀ s, P s → Q (get s)) (kept : ∀ v s, P s → Q v → P (put v s)) :
    (nestedField name inner get put).Keeps P := by
  intro j s s' start set
  simp only [nestedField] at set
  cases value : readRecord inner (get s) j with
  | error f => simp [value, Except.map] at set
  | ok v =>
    rw [value] at set
    cases set
    exact kept v s start (readRecord_keeps keptInside (got s start) value)

end Invariant

end Json

/-! ## Tables of replacements -/

namespace Replacement

/-- Every key stands once. -/
def Distinct (table : List Replacement) : Prop :=
  (table.map (·.key)).Nodup

instance (table : List Replacement) : Decidable (Distinct table) :=
  inferInstanceAs (Decidable (List.Nodup _))

theorem insert_of_fresh {r : Replacement} {table : List Replacement}
    (fresh : r.key ∉ table.map (·.key)) : insert r table = table ++ [r] := by
  induction table with
  | nil => rfl
  | cons s table ih =>
    rw [List.map_cons, List.mem_cons, not_or] at fresh
    rw [insert, if_neg (Ne.symm fresh.1), ih fresh.2, List.cons_append]

theorem keys_insert_of_mem {r : Replacement} {table : List Replacement}
    (known : r.key ∈ table.map (·.key)) : (insert r table).map (·.key) = table.map (·.key) := by
  induction table with
  | nil => cases known
  | cons s table ih =>
    rw [insert]
    split
    · next same => rw [List.map_cons, List.map_cons, same]
    · next other =>
      rw [List.map_cons, List.mem_cons] at known
      rcases known with same | known
      · exact (other same.symm).elim
      · rw [List.map_cons, List.map_cons, ih known]

theorem Distinct.insert {table : List Replacement} (distinct : Distinct table) (r : Replacement) :
    Distinct (insert r table) := by
  unfold Distinct at distinct ⊢
  by_cases known : r.key ∈ table.map (·.key)
  · rwa [keys_insert_of_mem known]
  · rw [insert_of_fresh known, List.map_append]
    apply List.nodup_append.mpr
    refine ⟨distinct, by simp, ?_⟩
    intro key member other last
    rw [List.map_singleton, List.mem_singleton] at last
    rintro rfl
    exact known (last ▸ member)

end Replacement

namespace Grammar

open Json (RecordField readRecord_record keeps_optionalField keeps_nestedField)

theorem replacementTable_concat (entries : List (String × String)) (key value : String) :
    replacementTable (entries ++ [(key, value)]) =
      Replacement.insert ⟨key, value⟩ (replacementTable entries) := by
  rw [replacementTable, List.foldl_append]
  rfl

theorem distinct_replacementTable (entries : List (String × String)) :
    Replacement.Distinct (replacementTable entries) := by
  induction entries using List.reverseRecOn with
  | nil => exact List.nodup_nil
  | append_singleton entries entry ih =>
    rw [replacementTable_concat]
    exact ih.insert _

/-- The entries of a table make the same table, in the same order. -/
theorem replacementTable_entries {table : List Replacement}
    (distinct : Replacement.Distinct table) :
    replacementTable (table.map fun r => (r.key, r.value)) = table := by
  induction table using List.reverseRecOn with
  | nil => rfl
  | append_singleton table r ih =>
    rw [Replacement.Distinct, List.map_append, List.nodup_append] at distinct
    obtain ⟨earlier, -, apart⟩ := distinct
    have fresh : r.key ∉ table.map (·.key) := by
      intro known
      exact apart r.key known r.key (by simp) rfl
    rw [List.map_append, List.map_singleton, replacementTable_concat, ih earlier,
      Replacement.insert_of_fresh fresh]

/-! ## Grammars that have been read -/

/-- The variable keyword is not empty, and every key is replaced in one way. -/
structure WellFormed (g : Grammar) : Prop where
  keyword : g.variableKeyword ≠ some ""
  distinct : Replacement.Distinct g.file.replacements

theorem keyword?_ne_empty (text : String) : keyword? text ≠ some "" := by
  unfold keyword?
  split
  · simp
  · next given =>
    intro same
    cases same
    exact given rfl

theorem keeps_fileFields :
    ∀ field ∈ fileFields, field.Keeps fun s => Replacement.Distinct s.replacements := by
  have other {α : Type} {name : String} {read : Json → Except Fault α}
      {put : α → FileSyntax → FileSyntax} {names : List String}
      (same : ∀ v s, (put v s).replacements = s.replacements) :
      (Json.optionalField name read put names).Keeps fun s => Replacement.Distinct s.replacements :=
    keeps_optionalField fun v s distinct => by rwa [same]
  simp only [fileFields, List.forall_mem_cons]
  refine ⟨other fun _ _ => rfl, other fun _ _ => rfl, other fun _ _ => rfl, other fun _ _ => rfl,
    other fun _ _ => rfl, other fun _ _ => rfl, other fun _ _ => rfl, ?_, ?_, List.forall_mem_nil _⟩
  · exact keeps_nestedField (Q := fun _ => True) (fun _ _ _ _ _ _ _ => trivial)
      (fun _ _ => trivial) fun _ _ distinct _ => distinct
  · exact keeps_optionalField fun v s _ => distinct_replacementTable v

theorem keeps_fields : ∀ field ∈ fields, field.Keeps fun d => d.grammar.WellFormed := by
  simp only [fields, List.forall_mem_cons]
  refine ⟨?_, ?_, ?_, ?_, ?_, ?_, List.forall_mem_nil _⟩
  · exact keeps_optionalField fun v s formed => ⟨formed.keyword, formed.distinct⟩
  · exact keeps_optionalField fun v s formed => ⟨keyword?_ne_empty v, formed.distinct⟩
  · exact keeps_nestedField (Q := fun _ => True) (fun _ _ _ _ _ _ _ => trivial)
      (fun _ _ => trivial) fun v s formed _ => ⟨formed.keyword, formed.distinct⟩
  · exact keeps_optionalField fun v s formed => formed
  · exact keeps_nestedField (Q := fun _ => True) (fun _ _ _ _ _ _ _ => trivial)
      (fun _ _ => trivial) fun v s formed _ => ⟨formed.keyword, formed.distinct⟩
  · exact keeps_nestedField keeps_fileFields (fun s formed => formed.distinct)
      fun v s formed distinct => ⟨formed.keyword, distinct⟩

theorem wellFormed_of_complete {d : Draft} {g : Grammar} (formed : d.grammar.WellFormed)
    (completed : d.complete = .ok g) : g.WellFormed := by
  unfold Draft.complete at completed
  split at completed
  · cases completed
    exact formed
  · next parts _ =>
    cases template : parts.complete with
    | error e => simp [template, Except.map] at completed
    | ok template' =>
      rw [template] at completed
      cases completed
      exact ⟨formed.keyword, formed.distinct⟩

/-- Whatever a document says, the grammar it gives is well formed. -/
theorem wellFormed_of_ofDocument {d : Json.Document} {g : Grammar} (read : ofDocument d = .ok g) :
    g.WellFormed := by
  have default : (({} : Draft).grammar).WellFormed := ⟨by simp, by decide⟩
  unfold ofDocument at read
  cases value : Json.readRecord fields {} d.value with
  | error f => simp [value, bind, Except.bind] at read
  | ok draft =>
    have formed := Json.readRecord_keeps keeps_fields default value
    cases trailing : d.trailing with
    | some f => simp [value, trailing, bind, Except.bind, Json.finish] at read
    | none =>
      simp only [value, trailing, bind, Except.bind, Json.finish] at read
      exact wellFormed_of_complete formed read

/-! ## Reading back -/

theorem readRecord_classes (s t : ClassSyntax) : Json.readRecord classFields t s.toJson = .ok s :=
  readRecord_record classFields (by decide)
    [.string s.keyword, .string s.constructorName, .bool s.receives, .bool s.methodKeyword,
      .bool s.constructorKeyword, .bool s.keepsNew, .string s.receiverName,
      .bool s.superclassInParens] rfl t

theorem readRecord_template (s : TemplateSyntax) (t : TemplateParts) :
    Json.readRecord templateFields t s.toJson =
      .ok ⟨some s.opening, some s.closing, some s.interpolationStart, some s.interpolationEnd⟩ :=
  readRecord_record templateFields (by decide)
    [.string s.opening, .string s.closing, .string s.interpolationStart,
      .string s.interpolationEnd] rfl t

theorem readRecord_control (s t : ControlSyntax) :
    Json.readRecord controlFields t s.toJson = .ok s :=
  readRecord_record controlFields (by decide)
    [.string s.ifKeyword, .string s.elseKeyword, .string s.elseIfKeyword, .string s.forKeyword,
      .string s.inKeyword, .string s.rangeFunction, .string s.whileKeyword, .string s.withKeyword,
      .string s.asKeyword, .string s.breakKeyword, .string s.continueKeyword] rfl t

theorem asStrings_list (texts : List String) :
    Json.asStrings (.list (texts.map .string)) = .ok texts := by
  have read : (texts.map Json.string).mapM Json.asString = .ok texts := by
    induction texts with
    | nil => rfl
    | cons text texts ih =>
      simp [List.mapM_cons, Json.asString, ih, bind, Except.bind, pure, Except.pure]
  simp [Json.asStrings, Json.list, read, bind, Except.bind, Json.finish]

theorem asStringMap_record (table : List Replacement) :
    Json.asStringMap (.record (table.map fun r => (r.key, .string r.value))) =
      .ok (table.map fun r => (r.key, r.value)) := by
  have read : Json.stringMembers
      ((table.map fun r => (r.key, Json.string r.value)).map fun (key, value) => ⟨.ok key, value⟩) =
        .ok (table.map fun r => (r.key, r.value)) := by
    induction table with
    | nil => rfl
    | cons r table ih =>
      simp only [List.map_cons, Json.stringMembers, ih, bind, Except.bind, Json.asString, pure,
        Except.pure]
  simp only [Json.asStringMap, Json.record, read, bind, Except.bind, Json.finish]

theorem readRecord_support (s t : SupportSyntax) :
    Json.readRecord supportFields t s.toJson = .ok s := by
  have read := readRecord_record supportFields (by decide)
    [.string s.importName, .string s.importPath, .list (s.aliases.map .string)] rfl t
  refine read.trans ?_
  unfold supportFields
  rw [Json.setItems_cons rfl, Json.setItems_cons rfl,
    Json.setItems_cons (Json.set_optionalField (asStrings_list s.aliases) (by simp [Json.list]))]
  rfl

theorem readRecord_file {s : FileSyntax} (distinct : Replacement.Distinct s.replacements)
    (t : FileSyntax) : Json.readRecord fileFields t s.toJson = .ok s := by
  have read := readRecord_record fileFields (by decide)
    [.string s.extension, .bool s.useSemicolons, .bool s.useBraces, .string s.indent,
      .string s.emptyBlock, .string s.stringQuote, .string s.pathSeparator, s.support.toJson,
      .record (s.replacements.map fun r => (r.key, .string r.value))] rfl t
  refine read.trans ?_
  unfold fileFields
  rw [Json.setItems_cons rfl, Json.setItems_cons rfl, Json.setItems_cons rfl,
    Json.setItems_cons rfl, Json.setItems_cons rfl, Json.setItems_cons rfl,
    Json.setItems_cons rfl,
    Json.setItems_cons (Json.set_nestedField (readRecord_support s.support _)),
    Json.setItems_cons
      (Json.set_optionalField (asStringMap_record s.replacements) (by simp [Json.record])),
    replacementTable_entries distinct]
  rfl

/-- No keyword is written as `null`, which leaves the field as it is. -/
theorem set_variableKeyword {g : Grammar} (given : g.variableKeyword ≠ some "") {d : Draft}
    (unset : d.grammar.variableKeyword = none) :
    (Json.stringField "variableKeyword" fun v (s : Draft) =>
      { s with grammar.variableKeyword := keyword? v }).set
        ((g.variableKeyword.map Json.string).getD .null) d =
      .ok { d with grammar.variableKeyword := g.variableKeyword } := by
  cases keyword : g.variableKeyword with
  | none =>
    obtain ⟨⟨_, keyword, _, _, _, _⟩, _⟩ := d
    subst unset
    rfl
  | some text =>
    have written : keyword? text = some text := by
      rw [keyword, Ne, Option.some.injEq] at given
      simp [keyword?, given]
    simp only [Option.map_some, Option.getD_some, Json.stringField, Json.optionalField,
      Json.asString, Except.map, written]

theorem ofJson_toJson {g : Grammar} (formed : g.WellFormed) : ofJson g.toJson = .ok g := by
  have read := readRecord_record fields (by decide)
    [.string g.functionKeyword, (g.variableKeyword.map Json.string).getD .null, g.classes.toJson,
      g.template.toJson, g.control.toJson, g.file.toJson] rfl {}
  have record : Json.readRecord fields {} g.toJson =
      .ok { grammar := { g with template := {} },
            template := some ⟨some g.template.opening, some g.template.closing,
              some g.template.interpolationStart, some g.template.interpolationEnd⟩ } := by
    refine read.trans ?_
    unfold fields
    rw [Json.setItems_cons rfl, Json.setItems_cons (set_variableKeyword formed.keyword rfl),
      Json.setItems_cons (Json.set_nestedField (readRecord_classes g.classes _)),
      Json.setItems_cons
        (Json.set_optionalField (readRecord_template g.template _)
          (by simp [TemplateSyntax.toJson, Json.record])),
      Json.setItems_cons (Json.set_nestedField (readRecord_control g.control _)),
      Json.setItems_cons (Json.set_nestedField (readRecord_file formed.distinct _))]
    rfl
  unfold ofJson ofDocument
  rw [record]
  rfl

/-! ## The round trip -/

theorem textual_toJson (g : Grammar) : g.toJson.Textual := by
  have keyword : ((g.variableKeyword.map Json.string).getD .null).Textual := by
    cases g.variableKeyword <;> simp [Json.Textual]
  simp [toJson, ClassSyntax.toJson, TemplateSyntax.toJson, ControlSyntax.toJson, FileSyntax.toJson,
    SupportSyntax.toJson, Json.Textual, keyword]

theorem ofText_of_spells {g : Grammar} (formed : g.WellFormed) {cs bs : List Char}
    (spelled : g.toJson.Spells cs) (blank : Json.Blank bs) :
    ofText (String.ofList (cs ++ bs)) = .ok g := by
  rw [ofText, String.toList_ofList, Json.parse_spelled spelled blank]
  exact ofJson_toJson formed

/-- A grammar that has been read from a text is read again from the texts it is written as, on one
line or, as the command prints it, over several. -/
theorem ofText_written {text : String} {g : Grammar} (read : ofText text = .ok g) :
    ofText g.toJson.compact = .ok g ∧ ofText g.toJson.pretty = .ok g ∧
      ofText (g.toJson.pretty ++ "\n") = .ok g := by
  have formed := wellFormed_of_ofDocument read
  have textual := textual_toJson g
  have compact := ofText_of_spells formed (Json.spells_compactChars textual) Json.blank_nil
  have pretty := ofText_of_spells formed (Json.spells_prettyChars 0 textual) Json.blank_nil
  have printed := ofText_of_spells formed (Json.spells_prettyChars 0 textual) (Json.blank_newline 0)
  rw [List.append_nil] at compact pretty
  rw [String.ofList_append] at printed
  exact ⟨compact, pretty, printed⟩

/-- Quotes, backslashes, a control character and one beyond the first plane in a keyword, a key that
is given twice, and no aliases. -/
theorem ofText_written_escapes :
    let text := "\x7b\"variableKeyword\": \"\\u0001\\\"\\\\\\ud83d\\ude00\", \"file\": \x7b" ++
      "\"stdlib\": \x7b\"recognizedAliases\": []\x7d, \"tokenReplacements\": " ++
      "\x7b\"b\": \"1\", \"a\": \"2\", \"b\": \"\\n\"\x7d\x7d\x7d"
    let g : Grammar :=
      { variableKeyword := some "\x01\"\\😀"
        file := { support := { aliases := [] }, replacements := [⟨"b", "\n"⟩, ⟨"a", "2"⟩] } }
    ofText text = .ok g ∧ ofText g.toJson.compact = .ok g ∧ ofText g.toJson.pretty = .ok g ∧
      ofText (g.toJson.pretty ++ "\n") = .ok g := by
  intro text g
  have read : ofText text = .ok g := by decide +kernel
  exact ⟨read, ofText_written read⟩

end Grammar

end Dialect
