import Dialect.Grammar
import Dialect.Json.Parsing
import Dialect.Json.Record

/-!
# Reading grammars

Each field of a grammar document changes one field of the Python grammar. The delimiters of template
literals are given together or not at all.
-/

namespace Dialect

inductive GrammarError where
  | document (fault : Fault)
  /-- Some delimiters of template literals are given, these are not. -/
  | partialTemplate (missing : List String)
  deriving DecidableEq, Repr

/-- The delimiters of template literals that a document gives. -/
structure TemplateParts where
  opening : Option String := none
  closing : Option String := none
  interpolationStart : Option String := none
  interpolationEnd : Option String := none
  deriving DecidableEq, Repr

namespace TemplateParts

def missing (t : TemplateParts) : List String :=
  let absent (name : String) (part : Option String) : List String :=
    if part.isNone then [name] else []
  absent "start" t.opening ++ absent "end" t.closing ++
    absent "interpolationStart" t.interpolationStart ++ absent "interpolationEnd" t.interpolationEnd

def complete (t : TemplateParts) : Except GrammarError TemplateSyntax :=
  match t with
  | ⟨some opening, some closing, some interpolationStart, some interpolationEnd⟩ =>
    .ok ⟨opening, closing, interpolationStart, interpolationEnd⟩
  | t => .error (.partialTemplate t.missing)

end TemplateParts

namespace Grammar

open Json (RecordField stringField boolField optionalField nestedField)

/-- A grammar under construction. -/
structure Draft where
  grammar : Grammar := {}
  template : Option TemplateParts := none

def classFields : List (RecordField ClassSyntax) :=
  [stringField "keyword" fun v s => { s with keyword := v },
   stringField "constructorName" fun v s => { s with constructorName := v },
   boolField "prefixSelf" (fun v s => { s with receives := v }) ["doPrefixWithSelf"],
   boolField "prefixMethodKeyword" (fun v s => { s with methodKeyword := v }) ["doPrefixMethods"],
   boolField "constructorIsFunction" (fun v s => { s with constructorKeyword := v })
     ["constructorIsAFunction"],
   boolField "callWithNewKeyword" (fun v s => { s with keepsNew := v }) [],
   stringField "receiverName" fun v s => { s with receiverName := v },
   boolField "inheritWithParens" (fun v s => { s with superclassInParens := v }) []]

def templateFields : List (RecordField TemplateParts) :=
  [stringField "start" fun v s => { s with opening := some v },
   stringField "end" fun v s => { s with closing := some v },
   stringField "interpolationStart" fun v s => { s with interpolationStart := some v },
   stringField "interpolationEnd" fun v s => { s with interpolationEnd := some v }]

def controlFields : List (RecordField ControlSyntax) :=
  [stringField "ifKeyword" fun v s => { s with ifKeyword := v },
   stringField "elseKeyword" fun v s => { s with elseKeyword := v },
   stringField "elseIfKeyword" fun v s => { s with elseIfKeyword := v },
   stringField "forKeyword" fun v s => { s with forKeyword := v },
   stringField "inKeyword" fun v s => { s with inKeyword := v },
   stringField "rangeFunction" fun v s => { s with rangeFunction := v },
   stringField "whileKeyword" fun v s => { s with whileKeyword := v },
   stringField "withKeyword" fun v s => { s with withKeyword := v },
   stringField "asKeyword" fun v s => { s with asKeyword := v },
   stringField "breakKeyword" fun v s => { s with breakKeyword := v },
   stringField "continueKeyword" fun v s => { s with continueKeyword := v }]

def supportFields : List (RecordField SupportSyntax) :=
  [stringField "importName" fun v s => { s with importName := v },
   stringField "importPath" fun v s => { s with importPath := v },
   optionalField "recognizedAliases" Json.asStrings (fun v s => { s with aliases := v }) []]

/-- A table from its entries in the order they are given. -/
def replacementTable (entries : List (String × String)) : List Replacement :=
  entries.foldl (fun table (key, value) => Replacement.insert ⟨key, value⟩ table) []

def fileFields : List (RecordField FileSyntax) :=
  [stringField "extension" fun v s => { s with extension := v },
   boolField "useSemicolons" (fun v s => { s with useSemicolons := v }) [],
   boolField "useBraces" (fun v s => { s with useBraces := v }) [],
   stringField "indent" fun v s => { s with indent := v },
   stringField "emptyBlock" fun v s => { s with emptyBlock := v },
   stringField "stringQuote" fun v s => { s with stringQuote := v },
   stringField "modulePathSeparator" fun v s => { s with pathSeparator := v },
   nestedField "stdlib" supportFields (·.support) fun v s => { s with support := v },
   optionalField "tokenReplacements" Json.asStringMap
     (fun v s => { s with replacements := replacementTable v }) []]

/-- An empty keyword is none. -/
def keyword? (s : String) : Option String :=
  if s.isEmpty then none else some s

def fields : List (RecordField Draft) :=
  [stringField "functionKeyword" fun v s => { s with grammar.functionKeyword := v },
   stringField "variableKeyword" fun v s => { s with grammar.variableKeyword := keyword? v },
   nestedField "class" classFields (·.grammar.classes) fun v s => { s with grammar.classes := v },
   optionalField "templateLiteral" (Json.readRecord templateFields {})
     (fun v s => { s with template := some v }) [],
   nestedField "control" controlFields (·.grammar.control)
     fun v s => { s with grammar.control := v },
   nestedField "file" fileFields (·.grammar.file) fun v s => { s with grammar.file := v }]

def Draft.complete (d : Draft) : Except GrammarError Grammar :=
  match d.template with
  | none => .ok d.grammar
  | some parts => parts.complete.map fun template => { d.grammar with template := template }

def ofDocument (d : Json.Document) : Except GrammarError Grammar := do
  let read : Except Fault Draft := do Json.finish d.trailing (← Json.readRecord fields {} d.value)
  match read with
  | .ok draft => draft.complete
  | .error f => .error (.document f)

def ofJson (j : Json) : Except GrammarError Grammar :=
  ofDocument ⟨j, none⟩

/-- The grammar that a JSON text describes. -/
def ofText (text : String) : Except GrammarError Grammar :=
  ofDocument (Json.parse text.toList)

end Grammar

namespace GrammarError

def message : GrammarError → String
  | .document _ => "invalid grammar"
  | .partialTemplate missing =>
    "templateLiteral is partially specified (missing " ++ ", ".intercalate missing ++ ")"

end GrammarError

end Dialect
