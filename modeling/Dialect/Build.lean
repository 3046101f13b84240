import Dialect.Loading

/-!
# Builds

The units of a project are compiled one by one, each into a file of the output directory that is
named after it. A unit with a syntax error, or one that cannot be read, is not written.
-/

namespace Dialect

inductive BuildError where
  | load (error : LoadError)
  | outputDirectory (path : Path) (error : FileError)
  deriving DecidableEq, Repr

def BuildError.message : BuildError → String
  | .load error => error.message
  | .outputDirectory path error =>
    "failed to create output directory " ++ path.text ++ ": " ++ error.message

/-- The file a unit is written to. -/
def outputPath (g : Grammar) (outDir source : Path) : Path :=
  outDir.join (source.fileStem?.getD "" ++ "." ++ g.file.extension)

structure UnitReport where
  source : Path
  /-- The file that was written. -/
  output : Option Path
  generated : String
  diagnostics : List Diagnostic
  deriving DecidableEq, Repr

/-- The unit could not be parsed, or a file could not be read or written. -/
def UnitReport.failed (r : UnitReport) : Bool :=
  r.diagnostics.any fun d => d.kind = .parse || d.kind = .io

namespace Build

variable (parse : SourceParser)

/-- Compiles one unit and writes what it gives. -/
def unit (g : Grammar) (outDir : Path) (fs : FileSystem) (u : SourceUnit) :
    UnitReport × FileSystem :=
  let loaded := u.diagnostics.map fun d => if d.path.isNone then d.withPath u.path.text else d
  match compile parse g u.text with
  | .error error =>
    let failure : Diagnostic := ⟨.parse, error.message, none, some u.path.text⟩
    (⟨u.path, none, "", loaded ++ [failure]⟩, fs)
  | .ok compiled =>
    let diagnostics := loaded ++ compiled.diagnostics.map (·.withPath u.path.text)
    if diagnostics.any (·.kind = .parse) then (⟨u.path, none, compiled.text, diagnostics⟩, fs)
    else
      let output := outputPath g outDir u.path
      match fs.write output compiled.text with
      | .ok fs => (⟨u.path, some output, compiled.text, diagnostics⟩, fs)
      | .error error =>
        let message := "failed to write " ++ output.text ++ ": " ++ error.message
        let failure : Diagnostic := ⟨.io, message, none, some u.path.text⟩
        (⟨u.path, none, compiled.text, diagnostics ++ [failure]⟩, fs)

def units (g : Grammar) (outDir : Path) (fs : FileSystem) :
    List SourceUnit → List UnitReport × FileSystem
  | [] => ([], fs)
  | u :: us =>
    let (report, fs) := unit parse g outDir fs u
    let (reports, fs) := units g outDir fs us
    (report :: reports, fs)

/-- Compiles what has been loaded. The output directory is created first, and what was created stays
when a later step fails. -/
def run (g : Grammar) (outDir : Path) (fs : FileSystem) :
    Except LoadError (List SourceUnit) → Except BuildError (List UnitReport) × FileSystem
  | .error error => (.error (.load error), fs)
  | .ok us =>
    match fs.createDirectories outDir with
    | (.ok (), created) =>
      let (reports, written) := units parse g outDir created us
      (.ok reports, written)
    | (.error error, created) => (.error (.outputDirectory outDir error), created)

end Build

/-- Compiles a project from an entry file. -/
def Project.build (p : Project) (parse : SourceParser) (fs : FileSystem) (entry outDir : Path) :
    Except BuildError (List UnitReport) × FileSystem :=
  Build.run parse p.grammar outDir fs (p.load parse fs [entry])

end Dialect
