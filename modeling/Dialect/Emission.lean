import Dialect.Diagnostic
import Dialect.Grammar

/-!
# Emissions

What writing a piece of a program gives: whole lines, each at a depth, and diagnostics.
-/

namespace Dialect

structure Line where
  depth : Nat
  text : String
  deriving DecidableEq, Repr

def Line.render (g : Grammar) (l : Line) : String :=
  g.indentation l.depth ++ l.text ++ "\n"

structure Emission where
  lines : List Line := []
  diagnostics : List Diagnostic := []
  deriving DecidableEq, Repr

namespace Emission

instance : Append Emission :=
  ⟨fun a b => ⟨a.lines ++ b.lines, a.diagnostics ++ b.diagnostics⟩⟩

def line (depth : Nat) (text : String) : Emission :=
  { lines := [⟨depth, text⟩] }

def report (d : Diagnostic) : Emission :=
  { diagnostics := [d] }

def reports (ds : List Diagnostic) : Emission :=
  { diagnostics := ds }

def text (g : Grammar) (e : Emission) : String :=
  String.join (e.lines.map (·.render g))

/-- The lines of a body. Where blocks have no braces, an empty one gets the placeholder. -/
def filled (g : Grammar) (depth : Nat) (body : Emission) : Emission :=
  if body.lines.isEmpty && !g.file.useBraces && !g.file.emptyBlock.isEmpty then
    body ++ line depth g.file.emptyBlock
  else
    body

/-- The line that closes a block. -/
def closing (g : Grammar) (depth : Nat) : Emission :=
  if g.file.useBraces then line depth "\x7d" else {}

/-- A header with the opening of its block. -/
def header (g : Grammar) (depth : Nat) (text : String) : Emission :=
  line depth (text ++ g.blockOpening)

/-- A header, the body below it, and the closing. -/
def block (g : Grammar) (depth : Nat) (text : String) (body : Emission) : Emission :=
  header g depth text ++ filled g (depth + 1) body ++ closing g depth

@[simp]
theorem lines_append (a b : Emission) : (a ++ b).lines = a.lines ++ b.lines := rfl

@[simp]
theorem diagnostics_append (a b : Emission) :
    (a ++ b).diagnostics = a.diagnostics ++ b.diagnostics := rfl

end Emission

end Dialect
