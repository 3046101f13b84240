import Dialect.Emission.Statement
import Dialect.Erasure
import Dialect.Program.Reading
import Dialect.Qualifier

/-!
# Compiling one text

Types are erased, then the qualifiers of the support library are stripped. What remains is read and
written in the target dialect, and the tokens of the written text are replaced. Spans in diagnostics
refer to the text that was read. Any parser will do; where it gives no tree, there is no result.
-/

namespace Dialect

variable (parse : SourceParser)

/-- The program of a source text. -/
def Program.ofSource (source : List Char) : Except ReadError Program :=
  (parse source).map (.ofTree source)

/-- A source text without types. -/
def eraseTypes (source : List Char) : Except ReadError (List Char) :=
  (parse source).map (·.erase source)

def Stmt.importedModule? : Stmt → Option String
  | .importDecl _ module _ => some module
  | _ => none

/-- The module specifiers a program imports, in order. -/
def Program.importedModules (p : Program) : List String :=
  p.body.filterMap Stmt.importedModule?

/-- A text that cannot be read imports nothing. -/
def importedModules (source : List Char) : List String :=
  match Program.ofSource parse source with
  | .ok p => p.importedModules
  | .error _ => []

structure Compiled where
  text : String
  diagnostics : List Diagnostic
  deriving DecidableEq, Repr

/-- The text that is read as a program. -/
def prepare (g : Grammar) (source : String) : Except ReadError (List Char) := do
  let erased ← eraseTypes parse source.toList
  return (Qualifier.stripAll g.qualifiers (String.ofList erased)).toList

def compile (g : Grammar) (source : String) : Except ReadError Compiled := do
  let text ← prepare parse g source
  let program ← Program.ofSource parse text
  let emission := program.emit g text
  return ⟨Replacement.applyAll g.file.replacements (emission.text g), emission.diagnostics⟩

variable {parse}

theorem compile_of_ok {g : Grammar} {source : String} {text : List Char} {p : Program}
    (prepared : prepare parse g source = .ok text) (read : Program.ofSource parse text = .ok p) :
    compile parse g source =
      .ok ⟨Replacement.applyAll g.file.replacements ((p.emit g text).text g),
        (p.emit g text).diagnostics⟩ := by
  simp only [compile, prepared, read, bind, Except.bind, pure, Except.pure]

def Compiled.hasSyntaxError (c : Compiled) : Bool :=
  c.diagnostics.any (·.kind = .parse)

end Dialect
