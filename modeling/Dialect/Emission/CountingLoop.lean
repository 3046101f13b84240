import Dialect.Emission.Bound
import Dialect.Emission.Rendering

/-!
# Counting loops

A loop over one variable that starts somewhere, is compared with a bound and goes on by a step is
written over a range.
-/

namespace Dialect

structure CountingLoop where
  name : String
  start : String
  stop : String
  step : String
  deriving DecidableEq, Repr

namespace Context

variable (c : Context)

/-- The variable and its first value. -/
def loopStart? : Option Stmt → Option (String × String)
  | some (.variableDecl _ [.mk (some name) (some value) _] _) => some (name, c.text value.span)
  | _ => none

/-- The end of the range, which does not belong to it. -/
def loopStop? (name : String) (test : Option Expr) : Option String :=
  match test.map Expr.unparen with
  | some (.binary left op right _) =>
    if left.identName? = some name then
      let bound := c.text right.span
      match op with
      | "<" | ">" | "!=" | "!==" => some bound
      | "<=" => some (Bound.offset 1 bound)
      | ">=" => some (Bound.offset (-1) bound)
      | _ => none
    else none
  | _ => none

def loopStep? (name : String) (update : Option Expr) : Option String :=
  match update.map Expr.unparen with
  | some (.update argument op _) =>
    if argument.identName? = some name then
      match op with
      | "++" => some "1"
      | "--" => some "-1"
      | _ => none
    else none
  | some (.assign left op right _) =>
    if left.identName? = some name then
      let amount := c.text right.span
      match op with
      | "+=" => some amount
      | "-=" => some (Bound.negate amount)
      | _ => none
    else none
  | _ => none

def countingLoop? (init : Option Stmt) (test update : Option Expr) : Option CountingLoop := do
  let (name, start) ← c.loopStart? init
  let stop ← c.loopStop? name test
  let step ← c.loopStep? name update
  return ⟨name, start, stop, step⟩

def countingHeader (l : CountingLoop) : String :=
  let control := c.grammar.control
  control.forKeyword ++ " " ++ l.name ++ " " ++ control.inKeyword ++ " " ++ control.rangeFunction ++
    "(" ++ l.start ++ ", " ++ l.stop ++ ", " ++ l.step ++ ")"

end Context

end Dialect
