import Dialect.FileSystem
import Dialect.Support
import Dialect.Text.Affix

/-!
# Resolving imports

A relative specifier is looked up from the importing file, one that matches an alias at the targets
of the alias, any other below the base directory. What is found nowhere is a module of the target
dialect, unless it looked like a file of the project.
-/

namespace Dialect

/-- What the resolution of imports depends on. -/
structure Project where
  grammar : Grammar := {}
  /-- The directory of alias targets. -/
  baseUrl : Option Path := none
  /-- Patterns with at most one wildcard, and their targets. -/
  aliases : List (String × List String) := []
  deriving DecidableEq, Repr

inductive Resolution where
  /-- A file of the project. -/
  | file (path : Path)
  | support
  /-- A module of the target dialect, or a file that only declares types. -/
  | external
  | unresolved
  deriving DecidableEq, Repr

namespace Resolution

def sourceExtensions : List String :=
  ["ts", "tsx", "mts", "js", "jsx", "mjs"]

/-- The paths a module path may refer to, in order of preference. -/
def candidates (fs : FileSystem) (target : Path) : List Path :=
  target ::
    sourceExtensions.flatMap (fun e => [target.withExtension e, target.append ("." ++ e)]) ++
    (if fs.isDirectory target then
      sourceExtensions.map fun e => target.join ("index." ++ e)
    else []) ++
    [target.append ".d.ts"]

/-- The file a module path refers to. -/
def findFile? (fs : FileSystem) (target : Path) : Option Path :=
  (candidates fs target).find? fs.isFile

def isDeclaration (p : Path) : Bool :=
  p.fileNameChars?.any fun name => ".d.ts".toList.isSuffixOf name

def ofFile (p : Path) : Resolution :=
  if isDeclaration p then .external else .file p

def isRelative (specifier : List Char) : Bool :=
  specifier = ['.'] || specifier = ['.', '.'] || "./".toList.isPrefixOf specifier ||
    "../".toList.isPrefixOf specifier

/-- What the wildcard of a pattern stands for in a specifier. -/
def matchAlias? (pattern specifier : List Char) : Option (List Char) :=
  match pattern.dropWhile (· ≠ '*') with
  | [] => if pattern = specifier then some [] else none
  | _ :: ending =>
    (Text.stripStart? (pattern.takeWhile (· ≠ '*')) specifier).bind (Text.stripEnd? ending)

/-- A target with its first wildcard replaced. -/
def fillWildcard (captured target : List Char) : List Char :=
  match target.dropWhile (· ≠ '*') with
  | [] => target
  | _ :: ending => target.takeWhile (· ≠ '*') ++ captured ++ ending

end Resolution

namespace Project

open Resolution

/-- The targets of the first alias that matches. -/
def aliasTargets? (p : Project) (specifier : String) : Option (List Path) :=
  let base := p.baseUrl.getD ⟨""⟩
  p.aliases.findSome? fun (pattern, targets) =>
    (matchAlias? pattern.toList specifier.toList).map fun captured =>
      targets.map fun target => base.join (String.ofList (fillWildcard captured target.toList))

def resolve (p : Project) (fs : FileSystem) (specifier : String) (importer : Path) : Resolution :=
  if Support.isModule p.grammar specifier || (Support.submodule? p.grammar specifier).isSome then
    .support
  else if isRelative specifier.toList then
    match importer.parent?.bind fun dir => findFile? fs (dir.join specifier) with
    | some path => ofFile path
    | none => .unresolved
  else
    match p.aliasTargets? specifier with
    | some targets =>
      match targets.findSome? (findFile? fs) with
      | some path => ofFile path
      | none => .unresolved
    | none =>
      match p.baseUrl.bind fun base => findFile? fs (base.join specifier) with
      | some path => ofFile path
      | none => .external

end Project

end Dialect
