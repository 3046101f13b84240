import Dialect.Parsing.Statement

/-!
# Parsing a source text

The rules of the language refer to each other through `Goal`; `rules` unfolds them to a given depth.
Between two references that read nothing there are at most six steps, so a depth of six per
character is never reached. Comments are passed over with the white space and have no nodes.
-/

namespace Dialect.Parsing

def rule (self : Rules) : Rules
  | .statement => statementRule self
  | .block endsExpression => blockRule self endsExpression
  | .sequence => sequenceRule self
  | .expression => expressionRule self
  | .unary => unaryRule self
  | .binding => bindingRule self
  | .type => typeRule self
  | .typeOperand => typeOperandRule self

def rules : Nat → Rules
  | 0 => fun _ => failure
  | n + 1 => fun goal => rule (rules n) goal

def hashBang : Parser Tree := do
  match ← ahead with
  | '#' :: '!' :: cs =>
    let text := cs.takeWhile (· ≠ '\n')
    return leaf .hashBangLine (← advance (2 + Text.byteLength text) (cs.drop text.length))
  | _ => failure

def program (self : Rules) : Parser (List Tree) := do
  let first ← maybe hashBang
  let rest ← statements self false
  return first ++ rest

end Dialect.Parsing

namespace Dialect

/-- The syntax tree of a source text. Text that breaks the rules is kept in error nodes. -/
def Tree.parse (source : List Char) : Tree :=
  let span : Span := ⟨0, Text.byteLength source⟩
  let rules := Parsing.rules (6 * (source.length + 2))
  match (Parsing.program rules).run (Parsing.Cursor.ofChars source) with
  | some (statements, _) => .node .plain .program span statements
  | none => .node .plain .program span [.node .plain .error span []]

/-- There is a tree for every text. -/
def Tree.parser : SourceParser := fun source => .ok (Tree.parse source)

end Dialect
