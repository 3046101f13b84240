import Dialect.Compilation
import Dialect.Resolution

/-!
# Loading units

From the entry files every imported file of the project is loaded once, breadth first. Files are
told apart by their canonical paths.
-/

namespace Dialect

structure SourceUnit where
  path : Path
  text : String
  /-- What was found while loading the unit. -/
  diagnostics : List Diagnostic := []
  deriving DecidableEq, Repr

inductive LoadError where
  | entryNotFound (path : Path)
  | unreadable (path : Path) (error : FileError)
  deriving DecidableEq, Repr

def LoadError.message : LoadError → String
  | .entryNotFound path => "entry file not found: " ++ path.text
  | .unreadable path error => "failed to read " ++ path.text ++ ": " ++ error.message

namespace Loading

/-- The paths met so far and the units not yet followed. -/
structure Frontier where
  seen : List Path := []
  pending : List SourceUnit := []

/-- Meets a file for the first time. -/
def Frontier.meet (f : Frontier) (path : Path) : Frontier :=
  { f with seen := path :: f.seen }

def Frontier.push (f : Frontier) (u : SourceUnit) : Frontier :=
  { f with pending := f.pending ++ [u] }

def enter (fs : FileSystem) (f : Frontier) (entry : Path) : Except LoadError Frontier :=
  match fs.read entry with
  | .error .notFound => .error (.entryNotFound entry)
  | .error error => .error (.unreadable entry error)
  | .ok text =>
    let path := fs.canonical entry
    .ok (if f.seen.contains path then f else (f.meet path).push ⟨path, text, []⟩)

/-- Follows one import of a file; what goes wrong is reported on that file. -/
def follow (fs : FileSystem) (p : Project) (importer : Path) (state : Frontier × List Diagnostic)
    (specifier : String) : Frontier × List Diagnostic :=
  let (f, ds) := state
  match p.resolve fs specifier importer with
  | .file target =>
    let path := fs.canonical target
    if f.seen.contains path then (f, ds)
    else
      match fs.read path with
      | .ok text => ((f.meet path).push ⟨path, text, []⟩, ds)
      | .error error =>
        let message := "failed to read " ++ path.text ++ ": " ++ error.message
        (f.meet path, ds ++ [⟨.io, message, none, some importer.text⟩])
  | .unresolved =>
    let message := "cannot resolve \x60" ++ specifier ++ "\x60"
    (f, ds ++ [⟨.resolution, message, none, some importer.text⟩])
  | .support | .external => (f, ds)

def followAll (parse : SourceParser) (fs : FileSystem) (p : Project) (f : Frontier)
    (u : SourceUnit) : Frontier × List Diagnostic :=
  (importedModules parse u.text.toList).foldl (follow fs p u.path) (f, u.diagnostics)

/-- The units in the order they were met, at most `n` of them. -/
def units (parse : SourceParser) (fs : FileSystem) (p : Project) :
    Nat → Frontier → List SourceUnit
  | 0, _ => []
  | n + 1, f =>
    match f.pending with
    | [] => []
    | u :: rest =>
      let (f, ds) := followAll parse fs p { f with pending := rest } u
      { u with diagnostics := ds } :: units parse fs p n f

end Loading

/-- Every unit is a file of its own, so there are no more units than entries of the file system. -/
def Project.load (p : Project) (parse : SourceParser) (fs : FileSystem) (entries : List Path) :
    Except LoadError (List SourceUnit) := do
  let f ← entries.foldlM (Loading.enter fs) {}
  return Loading.units parse fs p fs.entries.length f

end Dialect
