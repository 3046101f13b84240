import Dialect.Cut
import Dialect.Proofs.Slice
import Dialect.Tree

/-!
# Places in a text

A place between two characters divides a text. The nodes of a tree are placed in a text where they lie
between such places, inside their parents and behind their siblings.
-/

namespace Dialect

/-! ## Boundaries -/

/-- The offset lies between two characters of the text, or at one of its ends. -/
def Text.isBoundary (source : List Char) (n : Nat) : Bool :=
  (dropBytes? source n).isSome

namespace Text

theorem exists_append_of_dropBytes? {cs rest : List Char} {n : Nat}
    (dropped : dropBytes? cs n = some rest) : ∃ as, cs = as ++ rest ∧ byteLength as = n := by
  induction cs generalizing n with
  | nil =>
    cases n with
    | zero => exact ⟨[], by simpa using dropped, rfl⟩
    | succ n => cases dropped
  | cons c cs ih =>
    cases n with
    | zero => exact ⟨[], by simpa using dropped, rfl⟩
    | succ n =>
      simp only [dropBytes?] at dropped
      split at dropped
      · next fits =>
        obtain ⟨as, same, length⟩ := ih dropped
        exact ⟨c :: as, by rw [same, List.cons_append], by rw [byteLength_cons]; omega⟩
      · cases dropped

theorem isBoundary_iff {source : List Char} {n : Nat} :
    isBoundary source n = true ↔ ∃ as bs, source = as ++ bs ∧ byteLength as = n := by
  constructor
  · intro boundary
    obtain ⟨bs, dropped⟩ := Option.isSome_iff_exists.mp boundary
    obtain ⟨as, same, length⟩ := exists_append_of_dropBytes? dropped
    exact ⟨as, bs, same, length⟩
  · rintro ⟨as, bs, rfl, rfl⟩
    have dropped := dropBytes?_length_append as bs 0
    rw [Nat.zero_add, dropBytes?_zero] at dropped
    rw [isBoundary, dropped]
    rfl

theorem byteLength_eq_zero {cs : List Char} (empty : byteLength cs = 0) : cs = [] := by
  cases cs with
  | nil => rfl
  | cons c cs =>
    have positive := c.utf8Size_pos
    rw [byteLength_cons] at empty
    omega

/-- What stands before the earlier of two boundaries begins what stands before the later one. -/
theorem exists_append_of_byteLength_le {as bs cs ds : List Char} (same : as ++ bs = cs ++ ds)
    (shorter : byteLength as ≤ byteLength cs) : ∃ mid, cs = as ++ mid := by
  rcases List.append_eq_append_iff.mp same with ⟨mid, rfl, -⟩ | ⟨mid, rfl, -⟩
  · exact ⟨mid, rfl⟩
  · rw [byteLength_append] at shorter
    obtain rfl : mid = [] := byteLength_eq_zero (by omega)
    exact ⟨[], by rw [List.append_nil, List.append_nil]⟩

end Text

namespace Span

theorem slice?_all (cs : List Char) : slice? cs ⟨0, Text.byteLength cs⟩ = some cs := by
  have taken (cs : List Char) : Text.takeBytes? cs (Text.byteLength cs) = some cs := by
    induction cs with
    | nil => rfl
    | cons c cs ih =>
      have positive := c.utf8Size_pos
      obtain ⟨m, size⟩ : ∃ m, Text.byteLength (c :: cs) = m + 1 :=
        ⟨Text.byteLength (c :: cs) - 1, by rw [Text.byteLength_cons]; omega⟩
      have rest : m + 1 - c.utf8Size = Text.byteLength cs := by
        rw [← size, Text.byteLength_cons]
        omega
      have fits : c.utf8Size ≤ m + 1 := by
        rw [← size, Text.byteLength_cons]
        omega
      rw [size, Text.takeBytes?, if_pos fits, rest, ih]
      rfl
  rw [slice?, if_pos (Nat.zero_le _), Text.dropBytes?_zero, Option.bind_some, Nat.sub_zero, taken]

/-- The part of a text that stands between two others. -/
theorem slice?_between (as bs cs : List Char) :
    slice? (as ++ (bs ++ cs)) ⟨Text.byteLength as, Text.byteLength as + Text.byteLength bs⟩ =
      some bs := by
  have moved : (⟨Text.byteLength as, Text.byteLength as + Text.byteLength bs⟩ : Span) =
      (⟨0, Text.byteLength bs⟩ : Span).shift (Text.byteLength as) := by
    rw [shift, Nat.zero_add, Nat.add_comm]
  rw [moved, slice?_append_right, slice?_append_left (Nat.le_refl _), slice?_all]

theorem chars_between (as bs cs : List Char) :
    chars (as ++ (bs ++ cs)) ⟨Text.byteLength as, Text.byteLength as + Text.byteLength bs⟩ = bs := by
  rw [chars, slice?_between, Option.getD_some]

/-- A boundary inside a span divides it. -/
theorem chars_split {source : List Char} {start mid stop : Nat} (before : start ≤ mid)
    (behind : mid ≤ stop) (starts : Text.isBoundary source start = true)
    (divides : Text.isBoundary source mid = true) (stops : Text.isBoundary source stop = true) :
    chars source ⟨start, stop⟩ = chars source ⟨start, mid⟩ ++ chars source ⟨mid, stop⟩ := by
  obtain ⟨as, more, rfl, rfl⟩ := Text.isBoundary_iff.mp starts
  obtain ⟨upTo, _, same, rfl⟩ := Text.isBoundary_iff.mp divides
  obtain ⟨whole, rest, same', rfl⟩ := Text.isBoundary_iff.mp stops
  obtain ⟨bs, rfl⟩ := Text.exists_append_of_byteLength_le same before
  obtain ⟨cs, rfl⟩ := Text.exists_append_of_byteLength_le (same.symm.trans same') behind
  have text : as ++ more = as ++ (bs ++ (cs ++ rest)) := by
    rw [same', List.append_assoc, List.append_assoc]
  have first := chars_between as bs (cs ++ rest)
  have second := chars_between (as ++ bs) cs rest
  have both := chars_between as (bs ++ cs) rest
  simp only [List.append_assoc, Text.byteLength_append, ← Nat.add_assoc] at first second both
  rw [text]
  simp only [List.append_assoc, Text.byteLength_append, ← Nat.add_assoc]
  rw [first, second, both]

end Span

/-! ## Where the nodes of a tree lie -/

namespace Tree

mutual

/-- The node lies between two offsets and on boundaries of the text, and its children lie in it, one
behind the other. -/
def isPlaced (source : List Char) (start stop : Nat) : Tree → Bool
  | .node _ _ span children =>
    start ≤ span.start && span.start ≤ span.stop && span.stop ≤ stop &&
      Text.isBoundary source span.start && Text.isBoundary source span.stop &&
      arePlaced source span.start span.stop children

def arePlaced (source : List Char) (start stop : Nat) : List Tree → Bool
  | [] => true
  | t :: ts => t.isPlaced source start stop && arePlaced source t.span.stop stop ts

end

end Tree

end Dialect
