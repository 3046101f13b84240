import Dialect.Command

/-!
# The program

The working directory, and the directories of arguments that lead out of it, are read into a file
system. The command runs on it, and what it has changed is written back.
-/

namespace Dialect.Snapshot

def locationOf (path : String) : Location :=
  (Path.mk path).parts.filter (!·.isEmpty)

def contentOf (bytes : ByteArray) : Content :=
  match String.fromUTF8? bytes with
  | some text => .text text
  | none => .binary

/-- Adds a directory entry, and all that lies below it. -/
partial def add (fs : FileSystem) (entry : IO.FS.DirEntry) : IO FileSystem := do
  let location := locationOf entry.path.toString
  match (← entry.path.metadata).type with
  | .dir => (← entry.path.readDir).foldlM add (fs.place location .directory)
  | .file => return fs.place location (.file (contentOf (← IO.FS.readBinFile entry.path)))
  | _ => return fs

/-- The directories to be read besides the working directory. -/
def outside (args : List String) : List String :=
  (args.filter fun arg => ['/', '.'].any (arg.toList.head? = some ·)).filterMap fun arg =>
    (Path.mk arg).parent?.map (·.text)

/-- A directory that cannot be read adds nothing. -/
def addDirectory (fs : FileSystem) (path : String) : IO FileSystem := do
  try
    (← (← IO.FS.realPath path).readDir).foldlM add fs
  catch _ => pure fs

def take (args : List String) : IO FileSystem := do
  let here ← IO.currentDir
  let start : FileSystem := ⟨[], locationOf here.toString⟩
  let fs ← (← here.readDir).foldlM add (start.place start.workingDirectory .directory)
  (outside args).foldlM addDirectory fs

/-- Writes what differs from the file system before. -/
def writeBack (before after : FileSystem) : IO Unit := do
  for (location, entry) in after.entries.reverse do
    if before.entry? location ≠ some entry then
      match entry with
      | .directory => IO.FS.createDirAll location.toPath.text
      | .file (.text text) => IO.FS.writeFile location.toPath.text text
      | .file .binary => pure ()

end Dialect.Snapshot

open Dialect in
def main (args : List String) : IO UInt32 := do
  let before ← Snapshot.take args
  let outcome := Command.run before args
  Snapshot.writeBack before outcome.files
  IO.print outcome.output
  IO.eprint outcome.errors
  return outcome.exitCode.toUInt32
