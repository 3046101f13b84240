import Dialect.Proofs.InlineGrammars
import Dialect.Proofs.OwnValues
import Mathlib.Logic.Relation

/-!
# Grammar documents

A grammar is read field by field from the objects of a document. Main statement: the order of the
members, members with other names, `null` for members that are not there and older names make no
difference, and every field of a grammar is the value that its own member gives, or that of the
Python grammar.
-/

namespace Dialect.Grammar

open Json (RecordField NamesApart readRecord)

/-- The objects of a grammar document. -/
inductive Place where
  | root
  | classes
  | template
  | control
  | file
  | support
  deriving DecidableEq

namespace Place

/-- The members of an object that may be `null`, each with all its names. -/
def values : Place → List (List String)
  | .root => [["functionKeyword"], ["variableKeyword"], ["templateLiteral"]]
  | .classes =>
    [["keyword"], ["constructorName"], ["prefixSelf", "doPrefixWithSelf"],
      ["prefixMethodKeyword", "doPrefixMethods"],
      ["constructorIsFunction", "constructorIsAFunction"], ["callWithNewKeyword"],
      ["receiverName"], ["inheritWithParens"]]
  | .template => [["start"], ["end"], ["interpolationStart"], ["interpolationEnd"]]
  | .control =>
    [["ifKeyword"], ["elseKeyword"], ["elseIfKeyword"], ["forKeyword"], ["inKeyword"],
      ["rangeFunction"], ["whileKeyword"], ["withKeyword"], ["asKeyword"], ["breakKeyword"],
      ["continueKeyword"]]
  | .file =>
    [["extension"], ["useSemicolons"], ["useBraces"], ["indent"], ["emptyBlock"], ["stringQuote"],
      ["modulePathSeparator"], ["tokenReplacements"]]
  | .support => [["importName"], ["importPath"], ["recognizedAliases"]]

/-- The members of an object that are objects of the document. -/
def parts : Place → List (String × Place)
  | .root =>
    [("class", .classes), ("templateLiteral", .template), ("control", .control), ("file", .file)]
  | .file => [("stdlib", .support)]
  | .classes | .template | .control | .support => []

/-- The names that mean something in an object. -/
def names (p : Place) : List String :=
  p.values.flatten ++ p.parts.map Prod.fst

end Place

/-- A change of a document that leaves its meaning as it is. The changed member stands in front, for
the members may be in any order. -/
inductive Edit : Place → Json → Json → Prop
  | reorder {p : Place} {ms ms' : List JsonMember} (perm : ms.Perm ms') :
      Edit p (.object ms none) (.object ms' none)
  | unknown {p : Place} {ms : List JsonMember} {name : String} {value : Json}
      (other : name ∉ p.names) (whole : value.skip = none) :
      Edit p (.object ms none) (.object (⟨.ok name, value⟩ :: ms) none)
  | null {p : Place} {ms : List JsonMember} {spellings : List String} {name : String}
      (field : spellings ∈ p.values) (spelled : name ∈ spellings)
      (absent : ∀ m ∈ ms, ∀ key, m.key = .ok key → key ∉ spellings) :
      Edit p (.object ms none) (.object (⟨.ok name, .null⟩ :: ms) none)
  | rename {p : Place} {ms : List JsonMember} {spellings : List String} {name other : String}
      {value : Json} (field : spellings ∈ p.values) (spelled : name ∈ spellings)
      (spelled' : other ∈ spellings) :
      Edit p (.object (⟨.ok name, value⟩ :: ms) none) (.object (⟨.ok other, value⟩ :: ms) none)
  | inside {p q : Place} {ms : List JsonMember} {name : String} {value value' : Json}
      (part : (name, q) ∈ p.parts) (edit : Edit q value value') :
      Edit p (.object (⟨.ok name, value⟩ :: ms) none) (.object (⟨.ok name, value'⟩ :: ms) none)

/-! ## The fields of each object -/

namespace Place

/-- What is made of an object. -/
def State : Place → Type
  | .root => Draft
  | .classes => ClassSyntax
  | .template => TemplateParts
  | .control => ControlSyntax
  | .file => FileSyntax
  | .support => SupportSyntax

def fields : (p : Place) → List (RecordField p.State)
  | .root => Grammar.fields
  | .classes => classFields
  | .template => templateFields
  | .control => controlFields
  | .file => fileFields
  | .support => supportFields

theorem commuting (p : Place) : p.fields.Pairwise RecordField.Commutes := by
  cases p
  · exact commuting_fields
  · exact commuting_classFields
  · exact commuting_templateFields
  · exact commuting_controlFields
  · exact commuting_fileFields
  · exact commuting_supportFields

theorem namesApart (p : Place) : NamesApart p.fields := by
  cases p <;> decide

theorem names_subset (p : Place) : ∀ f ∈ p.fields, ∀ name ∈ f.names, name ∈ p.names := by
  cases p <;> decide

theorem exists_field (p : Place) : ∀ spellings ∈ p.values, ∃ f ∈ p.fields, f.names = spellings := by
  cases p <;> decide

theorem find?_of_spelled {p : Place} {spellings : List String} (field : spellings ∈ p.values) :
    ∃ f ∈ p.fields, f.names = spellings ∧
      ∀ name ∈ spellings, p.fields.find? (·.answersTo name) = some f := by
  obtain ⟨f, member, rfl⟩ := p.exists_field spellings field
  exact ⟨f, member, rfl, fun _ named => p.namesApart.find?_eq member named⟩

theorem find?_of_other {p : Place} {name : String} (other : name ∉ p.names) :
    p.fields.find? (·.answersTo name) = none :=
  List.find?_eq_none.mpr fun f member answers =>
    other (p.names_subset f member name (Json.answersTo_iff.mp answers))

section Nulls

attribute [local simp] Json.stringField Json.boolField Json.keepsNull_optionalField
  Json.names_nestedField values

theorem keepsNull (p : Place) : ∀ f ∈ p.fields, f.names ∈ p.values → f.KeepsNull := by
  cases p with
  | root =>
    change ∀ f ∈ Grammar.fields, f.names ∈ values .root → f.KeepsNull
    simp [Grammar.fields]
  | classes =>
    change ∀ f ∈ classFields, f.names ∈ values .classes → f.KeepsNull
    simp [classFields]
  | template =>
    change ∀ f ∈ templateFields, f.names ∈ values .template → f.KeepsNull
    simp [templateFields]
  | control =>
    change ∀ f ∈ controlFields, f.names ∈ values .control → f.KeepsNull
    simp [controlFields]
  | file =>
    change ∀ f ∈ fileFields, f.names ∈ values .file → f.KeepsNull
    simp [fileFields]
  | support =>
    change ∀ f ∈ supportFields, f.names ∈ values .support → f.KeepsNull
    simp [supportFields]

end Nulls

/-- The field for an object inside another makes of it what is read from it. -/
theorem find?_of_part {p q : Place} {name : String} (part : (name, q) ∈ p.parts) :
    ∃ f, p.fields.find? (·.answersTo name) = some f ∧
      ∀ {j j' : Json}, j.isNull = false → j'.isNull = false →
        (∀ s, (readRecord q.fields s j').toOption = (readRecord q.fields s j).toOption) →
        ∀ s, (f.set j' s).toOption = (f.set j s).toOption := by
  cases p with
  | root =>
    simp only [parts, List.mem_cons, Prod.mk.injEq, List.not_mem_nil, or_false] at part
    obtain ⟨rfl, rfl⟩ | ⟨rfl, rfl⟩ | ⟨rfl, rfl⟩ | ⟨rfl, rfl⟩ := part
    · exact ⟨_, rfl, fun _ _ => Json.toOption_set_nestedField⟩
    · exact ⟨_, rfl, fun here here' same => Json.toOption_set_optionalField here here' (same _)⟩
    · exact ⟨_, rfl, fun _ _ => Json.toOption_set_nestedField⟩
    · exact ⟨_, rfl, fun _ _ => Json.toOption_set_nestedField⟩
  | file =>
    simp only [parts, List.mem_cons, Prod.mk.injEq, List.not_mem_nil, or_false] at part
    obtain ⟨rfl, rfl⟩ := part
    exact ⟨_, rfl, fun _ _ => Json.toOption_set_nestedField⟩
  | classes => cases part
  | template => cases part
  | control => cases part
  | support => cases part

end Place

/-! ## Edits -/

theorem Edit.isNull_eq_false {p : Place} {j j' : Json} (edit : Edit p j j') :
    j.isNull = false ∧ j'.isNull = false := by
  cases edit <;> exact ⟨rfl, rfl⟩

/-- Nothing that is read depends on what an edit changes. -/
theorem Edit.readRecord_eq {p : Place} {j j' : Json} (edit : Edit p j j') (s : p.State) :
    (readRecord p.fields s j').toOption = (readRecord p.fields s j).toOption := by
  induction edit with
  | reorder perm => exact Json.readRecord_perm (Place.commuting _) perm s
  | unknown other whole => exact Json.readRecord_cons_unknown (Place.find?_of_other other) whole s
  | @null p ms spellings name field spelled absent =>
    obtain ⟨f, member, rfl, found⟩ := Place.find?_of_spelled field
    have idle := p.keepsNull f member field
    exact Json.readRecord_cons_null p.namesApart (found _ spelled) idle absent s
  | rename field spelled spelled' =>
    obtain ⟨f, -, -, found⟩ := Place.find?_of_spelled field
    refine Json.readRecord_cons_congr (fun state => ?_) s
    rw [Json.step_of_found (found _ spelled), Json.step_of_found (found _ spelled')]
  | inside part edit ih =>
    obtain ⟨f, found, reads⟩ := Place.find?_of_part part
    obtain ⟨given, given'⟩ := edit.isNull_eq_false
    refine Json.readRecord_cons_congr (fun state => ?_) s
    rw [Json.step_of_found found, Json.step_of_found found, RecordField.setOnce,
      RecordField.setOnce, reads given given' ih]

/-! ## What a document describes -/

/-- The classes that an object describes. -/
def describedClasses (j : Json) : ClassSyntax where
  keyword := (j.text? ["keyword"]).getD python.classes.keyword
  constructorName := (j.text? ["constructorName"]).getD python.classes.constructorName
  receives := (j.flag? ["prefixSelf", "doPrefixWithSelf"]).getD python.classes.receives
  methodKeyword :=
    (j.flag? ["prefixMethodKeyword", "doPrefixMethods"]).getD python.classes.methodKeyword
  constructorKeyword :=
    (j.flag? ["constructorIsFunction", "constructorIsAFunction"]).getD
      python.classes.constructorKeyword
  keepsNew := (j.flag? ["callWithNewKeyword"]).getD python.classes.keepsNew
  receiverName := (j.text? ["receiverName"]).getD python.classes.receiverName
  superclassInParens := (j.flag? ["inheritWithParens"]).getD python.classes.superclassInParens

def describedTemplate (j : Json) : TemplateSyntax where
  opening := (j.text? ["start"]).getD python.template.opening
  closing := (j.text? ["end"]).getD python.template.closing
  interpolationStart := (j.text? ["interpolationStart"]).getD python.template.interpolationStart
  interpolationEnd := (j.text? ["interpolationEnd"]).getD python.template.interpolationEnd

def describedControl (j : Json) : ControlSyntax where
  ifKeyword := (j.text? ["ifKeyword"]).getD python.control.ifKeyword
  elseKeyword := (j.text? ["elseKeyword"]).getD python.control.elseKeyword
  elseIfKeyword := (j.text? ["elseIfKeyword"]).getD python.control.elseIfKeyword
  forKeyword := (j.text? ["forKeyword"]).getD python.control.forKeyword
  inKeyword := (j.text? ["inKeyword"]).getD python.control.inKeyword
  rangeFunction := (j.text? ["rangeFunction"]).getD python.control.rangeFunction
  whileKeyword := (j.text? ["whileKeyword"]).getD python.control.whileKeyword
  withKeyword := (j.text? ["withKeyword"]).getD python.control.withKeyword
  asKeyword := (j.text? ["asKeyword"]).getD python.control.asKeyword
  breakKeyword := (j.text? ["breakKeyword"]).getD python.control.breakKeyword
  continueKeyword := (j.text? ["continueKeyword"]).getD python.control.continueKeyword

def describedSupport (j : Json) : SupportSyntax where
  importName := (j.text? ["importName"]).getD python.file.support.importName
  importPath := (j.text? ["importPath"]).getD python.file.support.importPath
  aliases := (j.texts? ["recognizedAliases"]).getD python.file.support.aliases

def describedFile (j : Json) : FileSyntax where
  extension := (j.text? ["extension"]).getD python.file.extension
  useSemicolons := (j.flag? ["useSemicolons"]).getD python.file.useSemicolons
  useBraces := (j.flag? ["useBraces"]).getD python.file.useBraces
  indent := (j.text? ["indent"]).getD python.file.indent
  emptyBlock := (j.text? ["emptyBlock"]).getD python.file.emptyBlock
  stringQuote := (j.text? ["stringQuote"]).getD python.file.stringQuote
  pathSeparator := (j.text? ["modulePathSeparator"]).getD python.file.pathSeparator
  support := describedSupport (j.part "stdlib")
  replacements := (j.table? ["tokenReplacements"]).elim python.file.replacements replacementTable

/-- The grammar that a document describes: each field has the value of its own member, or that of
the Python grammar. -/
def described (j : Json) : Grammar where
  functionKeyword := (j.text? ["functionKeyword"]).getD python.functionKeyword
  variableKeyword := (j.text? ["variableKeyword"]).elim python.variableKeyword keyword?
  classes := describedClasses (j.part "class")
  template := describedTemplate (j.part "templateLiteral")
  control := describedControl (j.part "control")
  file := describedFile (j.part "file")

/-- The delimiters that an object does not give. -/
def missingFrom (t : Json) : List String :=
  ["start", "end", "interpolationStart", "interpolationEnd"].filter fun name =>
    (t.text? [name]).isNone

/-- The delimiters that are not given although template literals are described. -/
def missingDelimiters (j : Json) : List String :=
  (j.given? ["templateLiteral"]).elim [] missingFrom

/-- The objects of a document are not written as arrays. -/
structure WrittenAsObjects (j : Json) : Prop where
  root : j.isArray = false
  parts : ∀ name ∈ ["class", "templateLiteral", "control", "file"], (j.part name).isArray = false
  support : ((j.part "file").part "stdlib").isArray = false

section Described

open Json (foldlM_setOwn foldlM_valueField foldlM_optionalField foldlM_describedField
  foldlM_nestedField)

variable {j : Json}

theorem eq_describedClasses {s : ClassSyntax} (whole : j.isArray = false)
    (read : readRecord classFields python.classes j = .ok s) : s = describedClasses j := by
  obtain ⟨ms, fault, rfl⟩ := Json.exists_object whole read
  have fold := foldlM_setOwn commuting_classFields (Place.namesApart .classes) read
  -- one field after the other, in the order of declaration
  replace fold := foldlM_valueField fold fault ClassSyntax.keyword fun _ => rfl
  replace fold := foldlM_valueField fold fault ClassSyntax.constructorName fun _ => rfl
  replace fold := foldlM_valueField fold fault ClassSyntax.receives fun _ => rfl
  replace fold := foldlM_valueField fold fault ClassSyntax.methodKeyword fun _ => rfl
  replace fold := foldlM_valueField fold fault ClassSyntax.constructorKeyword fun _ => rfl
  replace fold := foldlM_valueField fold fault ClassSyntax.keepsNew fun _ => rfl
  replace fold := foldlM_valueField fold fault ClassSyntax.receiverName fun _ => rfl
  replace fold := foldlM_valueField fold fault ClassSyntax.superclassInParens fun _ => rfl
  exact (Option.some.inj fold).symm

theorem eq_describedControl {s : ControlSyntax} (whole : j.isArray = false)
    (read : readRecord controlFields python.control j = .ok s) : s = describedControl j := by
  obtain ⟨ms, fault, rfl⟩ := Json.exists_object whole read
  have fold := foldlM_setOwn commuting_controlFields (Place.namesApart .control) read
  replace fold := foldlM_valueField fold fault ControlSyntax.ifKeyword fun _ => rfl
  replace fold := foldlM_valueField fold fault ControlSyntax.elseKeyword fun _ => rfl
  replace fold := foldlM_valueField fold fault ControlSyntax.elseIfKeyword fun _ => rfl
  replace fold := foldlM_valueField fold fault ControlSyntax.forKeyword fun _ => rfl
  replace fold := foldlM_valueField fold fault ControlSyntax.inKeyword fun _ => rfl
  replace fold := foldlM_valueField fold fault ControlSyntax.rangeFunction fun _ => rfl
  replace fold := foldlM_valueField fold fault ControlSyntax.whileKeyword fun _ => rfl
  replace fold := foldlM_valueField fold fault ControlSyntax.withKeyword fun _ => rfl
  replace fold := foldlM_valueField fold fault ControlSyntax.asKeyword fun _ => rfl
  replace fold := foldlM_valueField fold fault ControlSyntax.breakKeyword fun _ => rfl
  replace fold := foldlM_valueField fold fault ControlSyntax.continueKeyword fun _ => rfl
  exact (Option.some.inj fold).symm

theorem eq_describedSupport {s : SupportSyntax} (whole : j.isArray = false)
    (read : readRecord supportFields python.file.support j = .ok s) : s = describedSupport j := by
  obtain ⟨ms, fault, rfl⟩ := Json.exists_object whole read
  have fold := foldlM_setOwn commuting_supportFields (Place.namesApart .support) read
  replace fold := foldlM_valueField fold fault SupportSyntax.importName fun _ => rfl
  replace fold := foldlM_valueField fold fault SupportSyntax.importPath fun _ => rfl
  replace fold := foldlM_valueField fold fault SupportSyntax.aliases fun _ => rfl
  exact (Option.some.inj fold).symm

theorem eq_describedFile {s : FileSyntax} (whole : j.isArray = false)
    (inner : (j.part "stdlib").isArray = false)
    (read : readRecord fileFields python.file j = .ok s) : s = describedFile j := by
  obtain ⟨ms, fault, rfl⟩ := Json.exists_object whole read
  have fold := foldlM_setOwn commuting_fileFields (Place.namesApart .file) read
  replace fold := foldlM_valueField fold fault FileSyntax.extension fun _ => rfl
  replace fold := foldlM_valueField fold fault FileSyntax.useSemicolons fun _ => rfl
  replace fold := foldlM_valueField fold fault FileSyntax.useBraces fun _ => rfl
  replace fold := foldlM_valueField fold fault FileSyntax.indent fun _ => rfl
  replace fold := foldlM_valueField fold fault FileSyntax.emptyBlock fun _ => rfl
  replace fold := foldlM_valueField fold fault FileSyntax.stringQuote fun _ => rfl
  replace fold := foldlM_valueField fold fault FileSyntax.pathSeparator fun _ => rfl
  replace fold := foldlM_nestedField fold fault describedSupport rfl rfl
    fun _ part => eq_describedSupport inner part
  replace fold := foldlM_optionalField fold fault FileSyntax.replacements
    (fun table s => { s with replacements := table }) replacementTable (fun _ => rfl)
    fun _ _ => rfl
  exact (Option.some.inj fold).symm

/-- The delimiters that an object gives. -/
def givenDelimiters (j : Json) : TemplateParts where
  opening := j.text? ["start"]
  closing := j.text? ["end"]
  interpolationStart := j.text? ["interpolationStart"]
  interpolationEnd := j.text? ["interpolationEnd"]

theorem eq_givenDelimiters {s : TemplateParts} (whole : j.isArray = false)
    (read : readRecord templateFields {} j = .ok s) : s = givenDelimiters j := by
  have value (x : Option String) : x.elim none some = x := by cases x <;> rfl
  obtain ⟨ms, fault, rfl⟩ := Json.exists_object whole read
  have fold := foldlM_setOwn commuting_templateFields (Place.namesApart .template) read
  replace fold := foldlM_optionalField fold fault TemplateParts.opening
    (fun v s => { s with opening := v }) some (fun _ => rfl) fun _ _ => rfl
  replace fold := foldlM_optionalField fold fault TemplateParts.closing
    (fun v s => { s with closing := v }) some (fun _ => rfl) fun _ _ => rfl
  replace fold := foldlM_optionalField fold fault TemplateParts.interpolationStart
    (fun v s => { s with interpolationStart := v }) some (fun _ => rfl) fun _ _ => rfl
  replace fold := foldlM_optionalField fold fault TemplateParts.interpolationEnd
    (fun v s => { s with interpolationEnd := v }) some (fun _ => rfl) fun _ _ => rfl
  simp only [value] at fold
  exact (Option.some.inj fold).symm

/-- The draft that is read from a document. -/
theorem eq_describedDraft {d : Draft} (written : WrittenAsObjects j)
    (read : readRecord fields {} j = .ok d) :
    d = { grammar := { described j with template := python.template }
          template := (j.given? ["templateLiteral"]).map givenDelimiters } := by
  obtain ⟨ms, fault, rfl⟩ := Json.exists_object written.root read
  have delimiters (t : Json) (given : (Json.object ms fault).given? ["templateLiteral"] = some t)
      {s : TemplateParts} (part : readRecord templateFields {} t = .ok s) :
      s = givenDelimiters t := by
    have whole := written.parts "templateLiteral" (by decide)
    rw [Json.part, given] at whole
    exact eq_givenDelimiters whole part
  have fold := foldlM_setOwn commuting_fields (Place.namesApart .root) read
  -- the delimiters stay apart from the grammar until it is known that none is missing
  replace fold := foldlM_valueField fold fault (·.grammar.functionKeyword) fun _ => rfl
  replace fold := foldlM_optionalField fold fault (·.grammar.variableKeyword)
    (fun v d => { d with grammar.variableKeyword := v }) keyword? (fun _ => rfl) fun _ _ => rfl
  replace fold := foldlM_nestedField fold fault describedClasses rfl rfl
    fun _ part => eq_describedClasses (written.parts "class" (by decide)) part
  replace fold := foldlM_describedField fold fault Draft.template
    (fun v d => { d with template := v }) (fun t => some (givenDelimiters t)) (fun _ => rfl)
    fun t _ given part _ => by rw [delimiters t given part]
  replace fold := foldlM_nestedField fold fault describedControl rfl rfl
    fun _ part => eq_describedControl (written.parts "control" (by decide)) part
  replace fold := foldlM_nestedField fold fault describedFile rfl rfl
    fun _ part => eq_describedFile (written.parts "file" (by decide)) written.support part
  rw [← Option.some.inj fold]
  cases (Json.object ms fault).given? ["templateLiteral"] <;> rfl

end Described

/-! ## Grammars of texts -/

theorem complete_givenDelimiters (t : Json) :
    (givenDelimiters t).complete =
      if (missingFrom t).isEmpty then .ok (describedTemplate t)
      else .error (.partialTemplate (missingFrom t)) := by
  simp only [givenDelimiters, missingFrom, describedTemplate, List.filter_cons, List.filter_nil]
  -- Each delimiter is given or not.
  cases t.text? ["start"] <;> cases t.text? ["end"] <;>
    cases t.text? ["interpolationStart"] <;> cases t.text? ["interpolationEnd"] <;> rfl

theorem complete_described (j : Json) :
    Draft.complete
        { grammar := { described j with template := python.template }
          template := (j.given? ["templateLiteral"]).map givenDelimiters } =
      if (missingDelimiters j).isEmpty then .ok (described j)
      else .error (.partialTemplate (missingDelimiters j)) := by
  have template : (described j).template =
      describedTemplate ((j.given? ["templateLiteral"]).getD .null) := rfl
  cases given : j.given? ["templateLiteral"] with
  | none =>
    have missing : missingDelimiters j = [] := by rw [missingDelimiters, given, Option.elim_none]
    have absent : (described j).template = python.template := by
      rw [template, given]
      rfl
    rw [missing, ← absent]
    rfl
  | some t =>
    have missing : missingDelimiters j = missingFrom t := by
      rw [missingDelimiters, given, Option.elim_some]
    rw [given, Option.getD_some] at template
    rw [missing, Option.map_some]
    simp only [Draft.complete, complete_givenDelimiters, ← template]
    cases (missingFrom t).isEmpty <;> rfl

theorem ofDocument_of_read {j : Json} {draft : Draft} (read : readRecord fields {} j = .ok draft) :
    ofDocument ⟨j, none⟩ = draft.complete := by
  rw [ofDocument, read]
  rfl

theorem exists_draft {d : Json.Document}
    (accepted : ∀ fault, ofDocument d ≠ .error (.document fault)) :
    ∃ j draft, d = ⟨j, none⟩ ∧ readRecord fields {} j = .ok draft := by
  obtain ⟨j, trailing⟩ := d
  cases read : readRecord fields {} j with
  | error fault =>
    refine absurd ?_ (accepted fault)
    rw [ofDocument, read]
    rfl
  | ok draft =>
    cases trailing with
    | none => exact ⟨j, draft, rfl, read⟩
    | some fault =>
      refine absurd ?_ (accepted fault)
      rw [ofDocument, read]
      rfl

/-- Edits one after the other leave what is read as it is. -/
theorem readRecord_of_edits {j j' : Json} (edits : Relation.ReflTransGen (Edit .root) j j')
    {draft : Draft} (read : readRecord fields {} j = .ok draft) :
    readRecord fields {} j' = .ok draft := by
  induction edits with
  | refl => exact read
  | tail _ edit ih =>
    rw [← Json.toOption_eq_some] at ih ⊢
    exact (edit.readRecord_eq {}).trans ih

/-- A text without faults holds a document whose members may be reordered, left `null`, renamed and
mixed with others, and each field of its grammar comes from its own member. -/
theorem ofText_reads_each_field {text : String}
    (accepted : ∀ fault, ofText text ≠ .error (.document fault)) :
    ∃ j, Json.parse text.toList = ⟨j, none⟩ ∧
      (∀ text' j', Json.parse text'.toList = ⟨j', none⟩ →
        Relation.ReflTransGen (Edit .root) j j' → ofText text' = ofText text) ∧
      (WrittenAsObjects j →
        ofText text =
          if (missingDelimiters j).isEmpty then .ok (described j)
          else .error (.partialTemplate (missingDelimiters j))) := by
  obtain ⟨j, draft, parsed, read⟩ := exists_draft accepted
  have outcome : ofText text = draft.complete := by
    rw [ofText, parsed, ofDocument_of_read read]
  refine ⟨j, parsed, fun text' j' parsed' edits => ?_, fun written => ?_⟩
  · rw [outcome, ofText, parsed', ofDocument_of_read (readRecord_of_edits edits read)]
  · rw [outcome, eq_describedDraft written read, complete_described]

theorem ofText_reads_each_field_reordered :
    ofText (Json.record
        [("note", .list [.record []]), ("variableKeyword", .null), ("functionKeyword", .string "fn"),
          ("class", .record [("doPrefixWithSelf", .bool false)])]).compact =
      ofText (Json.record
        [("class", .record [("prefixSelf", .bool false)]),
          ("functionKeyword", .string "fn")]).compact ∧
    ofText (Json.record
        [("class", .record [("prefixSelf", .bool false)]),
          ("functionKeyword", .string "fn")]).compact =
      .ok { python with functionKeyword := "fn", classes.receives := false } := by
  have parsed := Json.parse_compact (show Json.Textual (.record
    [("class", .record [("prefixSelf", .bool false)]), ("functionKeyword", .string "fn")]) by
      simp [Json.Textual])
  have parsed' := Json.parse_compact (show Json.Textual (.record
    [("note", .list [.record []]), ("variableKeyword", .null), ("functionKeyword", .string "fn"),
      ("class", .record [("doPrefixWithSelf", .bool false)])]) by simp [Json.Textual])
  have accepted (fault : Fault) : ofText (Json.record
      [("class", .record [("prefixSelf", .bool false)]),
        ("functionKeyword", .string "fn")]).compact ≠ .error (.document fault) := by
    intro failed
    rw [ofText, parsed] at failed
    cases failed
  obtain ⟨j, known, unchanged, fields⟩ := ofText_reads_each_field accepted
  obtain rfl := (Json.Document.mk.inj (known.symm.trans parsed)).1
  refine ⟨unchanged _ _ parsed' ?_, ?_⟩
  · have renamed : Edit .classes (.record [("prefixSelf", .bool false)])
        (.record [("doPrefixWithSelf", .bool false)]) :=
      .rename (by decide : ["prefixSelf", "doPrefixWithSelf"] ∈ Place.classes.values) (by decide)
        (by decide)
    refine .tail (.tail (.tail (.single (.inside (by decide) renamed)) (.reorder (.swap _ _ _)))
      (.null (by decide : ["variableKeyword"] ∈ Place.root.values) (by decide) ?_))
      (.unknown (by decide) (by decide))
    simp [JsonMember.key]
  · exact fields ⟨rfl, by decide, rfl⟩

end Dialect.Grammar
