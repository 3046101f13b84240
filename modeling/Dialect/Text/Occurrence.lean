/-!
# Occurrences of a key

A text falls into the occurrences of a key, taken from the left without overlaps, and the characters
between them. Each occurrence knows the characters around it in the text.
-/

namespace Dialect.Text

inductive Piece where
  | plain (c : Char)
  | occurrence (before after : Option Char)
  deriving DecidableEq, Repr

/-- Splits a text; `inside` characters still belong to the last occurrence. -/
def piecesFrom (key : List Char) : Nat → Option Char → List Char → List Piece
  | _, _, [] => []
  | inside + 1, _, c :: cs => piecesFrom key inside (some c) cs
  | 0, before, c :: cs =>
    if key.isPrefixOf (c :: cs) then
      .occurrence before ((c :: cs).drop key.length).head? ::
        piecesFrom key (key.length - 1) (some c) cs
    else
      .plain c :: piecesFrom key 0 (some c) cs

def pieces (key text : List Char) : List Piece :=
  piecesFrom key 0 none text

/-- A text with each occurrence of a key replaced as a rule says. -/
def mapOccurrences (key : List Char) (rule : Option Char → Option Char → List Char)
    (text : List Char) : List Char :=
  (pieces key text).flatMap fun
    | .plain c => [c]
    | .occurrence before after => rule before after

/-- The key stands somewhere in the text. -/
def occursIn (key : List Char) : List Char → Bool
  | [] => key.isEmpty
  | c :: cs => key.isPrefixOf (c :: cs) || occursIn key cs

end Dialect.Text
