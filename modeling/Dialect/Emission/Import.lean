import Dialect.Emission
import Dialect.Support

/-!
# Imports

A module specifier becomes a module path of the target dialect. Default and namespace imports each
get a line, the named ones share one.
-/

namespace Dialect.Import

/-- Without the steps `./` and `../` at the front. -/
def dropSteps : List Char → List Char
  | '.' :: '/' :: cs => dropSteps cs
  | '.' :: '.' :: '/' :: cs => dropSteps cs
  | cs => cs

def dropExtension (cs : List Char) : List Char :=
  ([".js", ".ts", ".mjs"].findSome? fun ending => Text.stripEnd? ending.toList cs).getD cs

/-- Each slash becomes the separator. -/
def separated (separator : String) (cs : List Char) : String :=
  String.ofList (cs.flatMap fun c => if c = '/' then separator.toList else [c])

/-- The module path of an import specifier. -/
def modulePath (g : Grammar) (specifier : String) : String :=
  match Support.submodule? g specifier with
  | some name => separated g.file.pathSeparator name.toList
  | none => separated g.file.pathSeparator (dropExtension (dropSteps specifier.toList))

/-- The import of a whole module. -/
def wholeLine? (module : String) : ImportSpecifier → Option String
  | .main name | .everything name =>
    some (if name = module then "import " ++ module else "import " ++ module ++ " as " ++ name)
  | .named _ _ => none

def namedItem? : ImportSpecifier → Option String
  | .named imported name => some (if imported = name then imported else imported ++ " as " ++ name)
  | _ => none

def linesOf (module : String) (specifiers : List ImportSpecifier) : List String :=
  let items := specifiers.filterMap namedItem?
  let namedLine :=
    if items.isEmpty then [] else ["from " ++ module ++ " import " ++ ", ".intercalate items]
  let bareLine := if specifiers.isEmpty then ["import " ++ module] else []
  specifiers.filterMap (wholeLine? module) ++ namedLine ++ bareLine

/-- Imports of the support library are dropped. -/
def emission (g : Grammar) (depth : Nat) (specifiers : List ImportSpecifier) (source : String) :
    Emission :=
  if Support.isModule g source then {}
  else
    { lines := (linesOf (modulePath g source) specifiers).map fun l => ⟨depth, l ++ g.terminator⟩ }

end Dialect.Import
