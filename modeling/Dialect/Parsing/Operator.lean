import Dialect.Parsing.Cursor

/-!
# Binary operators

A run of operands and operators becomes a tree by the strength of the operators. Casts stand among
the operators at the strength of a comparison.
-/

namespace Dialect.Parsing

structure Strength where
  level : Nat
  rightward : Bool := false

def comparison : Nat := 8

def strengthOf? : String → Option Strength
  | "**" => some ⟨12, true⟩
  | "*" | "/" | "%" => some ⟨11, false⟩
  | "+" | "-" => some ⟨10, false⟩
  | "<<" | ">>" | ">>>" => some ⟨9, false⟩
  | "<" | ">" | "<=" | ">=" | "in" | "instanceof" => some ⟨comparison, false⟩
  | "==" | "!=" | "===" | "!==" => some ⟨7, false⟩
  | "&" => some ⟨6, false⟩
  | "^" => some ⟨5, false⟩
  | "|" => some ⟨4, false⟩
  | "&&" => some ⟨3, false⟩
  | "||" => some ⟨2, false⟩
  | "??" => some ⟨1, false⟩
  | _ => none

/-- What may follow an operand. -/
inductive Continuation where
  | operation (operator : Tree) (strength : Strength) (right : Tree)
  | cast (kind : Kind) (stop : Nat) (parts : List Tree)

/-- A left operand and an operator that still wait for their right operand. -/
structure Waiting where
  left : Tree
  operator : Tree
  level : Nat

def binaryNode (left operator right : Tree) : Tree :=
  .node .plain .binaryExpression (left.span.through right.span)
    [left.as .left, operator.as .operator, right.as .right]

/-- Completes the waiting operations that bind at least as tightly as `level`. -/
def complete (level : Nat) : List Waiting → Tree → List Waiting × Tree
  | w :: ws, t =>
    if level ≤ w.level then complete level ws (binaryNode w.left w.operator t) else (w :: ws, t)
  | [], t => ([], t)

def assemble : List Waiting → Tree → List Continuation → Tree
  | ws, t, [] => (complete 0 ws t).2
  | ws, t, .operation operator strength right :: rest =>
    let (ws, t) := complete (if strength.rightward then strength.level + 1 else strength.level) ws t
    assemble (⟨t, operator, strength.level⟩ :: ws) right rest
  | ws, t, .cast kind stop parts :: rest =>
    let (ws, t) := complete comparison ws t
    assemble ws (.node .plain kind ⟨t.span.start, stop⟩ (t :: parts)) rest

end Dialect.Parsing
