import Dialect.Replacement

/-!
# Grammars of target dialects

How a target dialect is spelled: keywords, block style, terminators, delimiters, its support library
and the tokens replaced after writing. Every field defaults to Python.
-/

namespace Dialect

structure ClassSyntax where
  keyword : String := "class"
  constructorName : String := "__init__"
  /-- The receiver comes first among the parameters of constructors and methods. -/
  receives : Bool := true
  /-- Methods begin with the function keyword. -/
  methodKeyword : Bool := true
  /-- The constructor begins with the function keyword. -/
  constructorKeyword : Bool := true
  /-- Instances are made with `new`. -/
  keepsNew : Bool := false
  receiverName : String := "self"
  /-- The superclass stands in parentheses, otherwise after `extends`. -/
  superclassInParens : Bool := true
  deriving DecidableEq, Repr

structure TemplateSyntax where
  opening : String := "f'"
  closing : String := "'"
  interpolationStart : String := "\x7b"
  interpolationEnd : String := "\x7d"
  deriving DecidableEq, Repr

structure ControlSyntax where
  ifKeyword : String := "if"
  elseKeyword : String := "else"
  elseIfKeyword : String := "elif"
  forKeyword : String := "for"
  inKeyword : String := "in"
  rangeFunction : String := "range"
  whileKeyword : String := "while"
  withKeyword : String := "with"
  asKeyword : String := "as"
  breakKeyword : String := "break"
  continueKeyword : String := "continue"
  deriving DecidableEq, Repr

structure SupportSyntax where
  /-- The name under which the support library is usually imported. -/
  importName : String := "py"
  /-- The module specifier of the support library. -/
  importPath : String := "pylib"
  aliases : List String := ["py", "pylib"]
  deriving DecidableEq, Repr

/-- The Python spellings of source tokens. -/
def defaultReplacements : List Replacement :=
  [⟨"true", "True"⟩, ⟨"false", "False"⟩, ⟨"console.log", "print"⟩, ⟨"this", "self"⟩,
   ⟨"null", "None"⟩, ⟨"undefined", "None"⟩, ⟨"!==", "!="⟩, ⟨"===", "=="⟩, ⟨"&&", "and"⟩,
   ⟨"||", "or"⟩, ⟨"++", " += 1"⟩, ⟨"--", " -= 1"⟩]

structure FileSyntax where
  extension : String := "py"
  useSemicolons : Bool := false
  useBraces : Bool := false
  /-- One level of indentation. -/
  indent : String := "    "
  /-- Stands in a block that would otherwise be empty, where blocks have no braces. -/
  emptyBlock : String := "pass"
  stringQuote : String := "'"
  /-- Takes the place of `/` in module paths. -/
  pathSeparator : String := "."
  support : SupportSyntax := {}
  replacements : List Replacement := defaultReplacements
  deriving DecidableEq, Repr

structure Grammar where
  functionKeyword : String := "def"
  variableKeyword : Option String := none
  classes : ClassSyntax := {}
  template : TemplateSyntax := {}
  control : ControlSyntax := {}
  file : FileSyntax := {}
  deriving DecidableEq, Repr

namespace SupportSyntax

/-- The names that mark a call of the support library: the import name, then the aliases, without
empty or repeated ones. -/
def qualifiers (s : SupportSyntax) : List String :=
  (s.importName :: s.aliases).foldl
    (fun found name => if name.isEmpty || found.contains name then found else found ++ [name]) []

end SupportSyntax

namespace Grammar

def python : Grammar := {}

/-- The blanks at the start of a line at some depth. -/
def indentation (g : Grammar) (depth : Nat) : String :=
  String.join (List.replicate depth g.file.indent)

/-- Ends the header of a block. -/
def blockOpening (g : Grammar) : String :=
  if g.file.useBraces then " \x7b" else ":"

/-- Ends a simple statement. -/
def terminator (g : Grammar) : String :=
  if g.file.useSemicolons then ";" else ""

def qualifiers (g : Grammar) : List String :=
  g.file.support.qualifiers

end Grammar

end Dialect
