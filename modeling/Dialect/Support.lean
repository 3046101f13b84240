import Dialect.Grammar
import Dialect.Program
import Dialect.Text.Affix

/-!
# The support library

Its module exists so that sources type-check. Imports of it are dropped, imports of its submodules
name target modules, and calls of some of its functions are constructs of the target dialect.
-/

namespace Dialect.Support

/-- A call that stands for a construct of the target dialect. -/
inductive Form where
  /-- `withStatement(resource, binding, () => ...)` -/
  | scopedResource
  /-- `named(name, value)` among arguments -/
  | namedArgument
  deriving DecidableEq, Repr

def formOfName : String → Option Form
  | "withStatement" => some .scopedResource
  | "named" => some .namedArgument
  | _ => none

/-- The form a callee stands for, as a bare name or behind a qualifier. -/
def formOf (g : Grammar) (callee : Expr) : Option Form :=
  match callee.unparen with
  | .ident name _ => formOfName name
  | .member object property _ =>
    match object.identName? with
    | some name => if g.qualifiers.contains name then formOfName property else none
    | none => none
  | _ => none

/-- The characters after the last slash. -/
def lastSegment (cs : List Char) : List Char :=
  (cs.reverse.takeWhile (· ≠ '/')).reverse

/-- An import specifier that names the support library itself. -/
def isModule (g : Grammar) (specifier : String) : Bool :=
  let path := g.file.support.importPath
  !path.isEmpty && (specifier = path ||
    (lastSegment specifier.toList = path.toList && specifier.toList.head? = some '.'))

/-- The target module behind a submodule of the support library. -/
def submodule? (g : Grammar) (specifier : String) : Option String :=
  let path := g.file.support.importPath
  if path.isEmpty then none
  else
    match Text.stripStart? (path.toList ++ ['/']) specifier.toList with
    | some (c :: cs) => some (String.ofList (c :: cs))
    | _ => none

end Dialect.Support
