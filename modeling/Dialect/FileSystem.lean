import Dialect.Path

/-!
# File systems

A finite map from locations to files and directories, and a working directory. A location is the
list of names from the root, which is always there. A path leads to a location through existing
directories only. There are no symbolic links: a file has one location, and its canonical path keeps
its name.
-/

namespace Dialect

inductive FileError where
  | notFound
  | alreadyExists
  | notDirectory
  | isDirectory
  | invalidText
  /-- No part of a path to be created exists. -/
  | noAncestor
  deriving DecidableEq, Repr

def FileError.message : FileError → String
  | .notFound => "No such file or directory (os error 2)"
  | .alreadyExists => "File exists (os error 17)"
  | .notDirectory => "Not a directory (os error 20)"
  | .isDirectory => "Is a directory (os error 21)"
  | .invalidText => "stream did not contain valid UTF-8"
  | .noAncestor => "failed to create whole tree"

inductive Content where
  | text (text : String)
  /-- Bytes that are no UTF-8 text. -/
  | binary
  deriving DecidableEq, Repr

inductive Entry where
  | file (content : Content)
  | directory
  deriving DecidableEq, Repr

abbrev Location := List String

def Location.toPath (l : Location) : Path :=
  ⟨"/" ++ "/".intercalate l⟩

structure FileSystem where
  entries : List (Location × Entry)
  workingDirectory : Location
  deriving DecidableEq, Repr

namespace FileSystem

def entry? (fs : FileSystem) (l : Location) : Option Entry :=
  if l.isEmpty then some .directory else fs.entries.lookup l

/-- Puts an entry at a location. -/
def set (fs : FileSystem) (l : Location) (e : Entry) : FileSystem :=
  { fs with entries := (l, e) :: fs.entries.filter (·.1 ≠ l) }

/-- Puts an entry at a location and directories at the missing locations above it. -/
def place (fs : FileSystem) (l : Location) (e : Entry) : FileSystem :=
  let above := (List.range l.length).map l.take
  (above.foldl (fun fs l => if (fs.entry? l).isSome then fs else fs.set l .directory) fs).set l e

/-- Follows the parts of a path. -/
def walk (fs : FileSystem) : Location → List String → Except FileError Location
  | l, [] => .ok l
  | l, name :: names =>
    match fs.entry? l with
    | none => .error .notFound
    | some (.file _) => .error .notDirectory
    | some .directory =>
      if name = "" || name = "." then walk fs l names
      else if name = ".." then walk fs l.dropLast names
      else if (fs.entry? (l ++ [name])).isSome then walk fs (l ++ [name]) names
      else .error .notFound

def origin (fs : FileSystem) (p : Path) : Location :=
  if p.isAbsolute then [] else fs.workingDirectory

/-- The location a path leads to. -/
def locate (fs : FileSystem) (p : Path) : Except FileError Location :=
  if p.text.isEmpty then .error .notFound else fs.walk (fs.origin p) p.parts

def isFile (fs : FileSystem) (p : Path) : Bool :=
  match fs.locate p with
  | .ok l => (fs.entry? l).any fun | .file _ => true | .directory => false
  | .error _ => false

def isDirectory (fs : FileSystem) (p : Path) : Bool :=
  match fs.locate p with
  | .ok l => fs.entry? l = some .directory
  | .error _ => false

def read (fs : FileSystem) (p : Path) : Except FileError String := do
  match fs.entry? (← fs.locate p) with
  | some (.file (.text text)) => .ok text
  | some (.file .binary) => .error .invalidText
  | some .directory => .error .isDirectory
  | none => .error .notFound

/-- The absolute path of what a path leads to, or the path itself. -/
def canonical (fs : FileSystem) (p : Path) : Path :=
  match fs.locate p with
  | .ok l => l.toPath
  | .error _ => p

/-- The directory that holds the last part of a path. -/
def directoryOf (fs : FileSystem) (p : Path) (parts : List String) : Except FileError Location := do
  let l ← fs.walk (fs.origin p) parts
  match fs.entry? l with
  | some .directory => .ok l
  | _ => .error .notDirectory

/-- Creates one directory in an existing one. -/
def createDirectory (fs : FileSystem) (p : Path) : Except FileError FileSystem := do
  let parts := (p.parts.reverse.dropWhile (· = "")).reverse
  match parts.getLast? with
  | none => .error (if p.text.isEmpty then .notFound else .alreadyExists)
  | some name =>
    let l ← fs.directoryOf p parts.dropLast
    if name = "." || name = ".." || (fs.entry? (l ++ [name])).isSome then .error .alreadyExists
    else .ok (fs.set (l ++ [name]) .directory)

/-- Creates one directory unless it is there. -/
def createOrFind (fs : FileSystem) (p : Path) : Except FileError Unit × FileSystem :=
  match fs.createDirectory p with
  | .ok created => (.ok (), created)
  | .error e => (if fs.isDirectory p then .ok () else .error e, fs)

/-- Creates a directory, and those above it first where they are missing. Those stay also when a
later one cannot be created. -/
def createWithin : Nat → FileSystem → Path → Except FileError Unit × FileSystem
  | 0, fs, _ => (.error .noAncestor, fs)
  | n + 1, fs, p =>
    if p.text.isEmpty then (.ok (), fs)
    else
      match fs.createDirectory p, p.parent? with
      | .error .notFound, none => (.error .noAncestor, fs)
      | .error .notFound, some above =>
        match createWithin n fs above with
        | (.ok (), created) => created.createOrFind p
        | (.error e, created) => (.error e, created)
      | _, _ => fs.createOrFind p

/-- A path is longer than the one above it, so its length bounds the number of steps. -/
def createDirectories (fs : FileSystem) (p : Path) : Except FileError Unit × FileSystem :=
  createWithin (p.text.length + 1) fs p

/-- Writes a text file into an existing directory. -/
def write (fs : FileSystem) (p : Path) (text : String) : Except FileError FileSystem := do
  if p.text.isEmpty then .error .notFound
  else
    let parts := (p.parts.reverse.dropWhile (· = "")).reverse
    let l ← fs.directoryOf p parts.dropLast
    let name := parts.getLast?.getD "."
    if name = "." || name = ".." || parts.length < p.parts.length then .error .isDirectory
    else
      match fs.entry? (l ++ [name]) with
      | some .directory => .error .isDirectory
      | _ => .ok (fs.set (l ++ [name]) (.file (.text text)))

end FileSystem

end Dialect
