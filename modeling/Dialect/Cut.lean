import Dialect.Span

/-!
# Cutting spans out of a text

The spans to cut are put in order of their starts. One that begins inside an earlier cut, or ends
behind the text to be cut, is left alone.
-/

namespace Dialect.Cut

def insertByStart (s : Span) : List Span → List Span
  | [] => [s]
  | t :: ts => if s.start ≤ t.start then s :: t :: ts else t :: insertByStart s ts

/-- In order of the starts; spans of one start keep their order. -/
def sortByStart (spans : List Span) : List Span :=
  spans.foldr insertByStart []

/-- The text from `pos` to `stop` without the cuts. -/
def keep (source : List Char) (stop : Nat) : Nat → List Span → List Char
  | pos, [] => Span.chars source ⟨pos, stop⟩
  | pos, cut :: cuts =>
    if cut.start < pos || stop < cut.stop then keep source stop pos cuts
    else Span.chars source ⟨pos, cut.start⟩ ++ keep source stop cut.stop cuts

/-- The text of a span without the cuts. -/
def within (source : List Char) (whole : Span) (cuts : List Span) : List Char :=
  keep source whole.stop whole.start (sortByStart cuts)

theorem insertByStart_perm (s : Span) (ts : List Span) : (insertByStart s ts).Perm (s :: ts) := by
  induction ts with
  | nil => exact .refl _
  | cons t ts ih =>
    unfold insertByStart
    split
    · exact .refl _
    · exact (ih.cons t).trans (.swap s t ts)

theorem sortByStart_perm (spans : List Span) : (sortByStart spans).Perm spans := by
  induction spans with
  | nil => exact .refl _
  | cons s spans ih => exact (insertByStart_perm s _).trans (ih.cons s)

end Dialect.Cut
