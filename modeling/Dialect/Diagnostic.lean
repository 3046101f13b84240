import Dialect.Span

/-!
# Diagnostics

What a run reports about a unit: a kind, a message, and where it was found.
-/

namespace Dialect

inductive DiagnosticKind where
  | unsupported
  | missingStructure
  | resolution
  | parse
  | io
  deriving DecidableEq, Repr

def DiagnosticKind.label : DiagnosticKind → String
  | .unsupported => "unsupported"
  | .missingStructure => "missing structure"
  | .resolution => "unresolved import"
  | .parse => "parse error"
  | .io => "io error"

structure Diagnostic where
  kind : DiagnosticKind
  message : String
  span : Option Span := none
  path : Option String := none
  deriving DecidableEq, Repr

namespace Diagnostic

/-- A construct the target dialect has no counterpart for. -/
def unsupported (what : String) (span : Span) : Diagnostic :=
  ⟨.unsupported, what ++ " is not supported", some span, none⟩

def missing (message : String) (span : Span) : Diagnostic :=
  ⟨.missingStructure, message, some span, none⟩

def syntaxError (span : Span) : Diagnostic :=
  ⟨.parse, "syntax error", some span, none⟩

def withPath (path : String) (d : Diagnostic) : Diagnostic :=
  { d with path := some path }

def shift (n : Nat) (d : Diagnostic) : Diagnostic :=
  { d with span := d.span.map (·.shift n) }

def render (d : Diagnostic) : String :=
  let origin := match d.path with
    | some path => path ++ ": "
    | none => ""
  let place := match d.span with
    | some s => " (bytes " ++ toString s.start ++ ".." ++ toString s.stop ++ ")"
    | none => ""
  origin ++ d.kind.label ++ ": " ++ d.message ++ place

end Diagnostic

end Dialect
