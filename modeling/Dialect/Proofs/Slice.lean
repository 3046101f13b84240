import Dialect.Span

/-!
# Slices of joined texts

A span that ends inside the first of two joined texts selects what it selects there; moved behind
the first text, a span selects what it selects in the second.
-/

namespace Dialect

namespace Text

@[simp]
theorem dropBytes?_zero (cs : List Char) : dropBytes? cs 0 = some cs := by
  cases cs <;> rfl

@[simp]
theorem takeBytes?_zero (cs : List Char) : takeBytes? cs 0 = some [] := by
  cases cs <;> rfl

theorem dropBytes?_append {as : List Char} {n : Nat} (fits : n ≤ byteLength as) (bs : List Char) :
    dropBytes? (as ++ bs) n = (dropBytes? as n).map (· ++ bs) := by
  induction as generalizing n with
  | nil =>
    obtain rfl : n = 0 := by simpa using fits
    simp
  | cons a as ih =>
    cases n with
    | zero => simp
    | succ n =>
      simp only [List.cons_append, dropBytes?]
      split
      · exact ih (by simp at fits; omega)
      · rfl

theorem takeBytes?_append {as : List Char} {n : Nat} (fits : n ≤ byteLength as) (bs : List Char) :
    takeBytes? (as ++ bs) n = takeBytes? as n := by
  induction as generalizing n with
  | nil =>
    obtain rfl : n = 0 := by simpa using fits
    simp
  | cons a as ih =>
    cases n with
    | zero => simp
    | succ n =>
      simp only [List.cons_append, takeBytes?]
      split
      · rw [ih (by simp at fits; omega)]
      · rfl

theorem dropBytes?_length_append (as bs : List Char) (n : Nat) :
    dropBytes? (as ++ bs) (n + byteLength as) = dropBytes? bs n := by
  induction as with
  | nil => simp
  | cons a as ih =>
    -- the length of `a :: as` is not zero, so the drop goes past `a` first
    have positive := a.utf8Size_pos
    obtain ⟨m, size⟩ : ∃ m, n + byteLength (a :: as) = m + 1 :=
      ⟨n + byteLength (a :: as) - 1, by simp; omega⟩
    have rest : m + 1 - a.utf8Size = n + byteLength as := by simp at size; omega
    have fits : a.utf8Size ≤ m + 1 := by simp at size; omega
    rw [size, List.cons_append, dropBytes?, if_pos fits, rest, ih]

theorem byteLength_of_dropBytes? {cs rest : List Char} {n : Nat}
    (dropped : dropBytes? cs n = some rest) : n + byteLength rest = byteLength cs := by
  induction cs generalizing n with
  | nil =>
    cases n with
    | zero => simp_all
    | succ n => cases dropped
  | cons c cs ih =>
    cases n with
    | zero => simp_all
    | succ n =>
      simp only [dropBytes?] at dropped
      split at dropped
      · have rest := ih dropped
        simp
        omega
      · cases dropped

end Text

namespace Span

@[simp]
theorem shift_start (n : Nat) (s : Span) : (s.shift n).start = s.start + n := rfl

@[simp]
theorem shift_stop (n : Nat) (s : Span) : (s.shift n).stop = s.stop + n := rfl

@[simp]
theorem shift_zero (s : Span) : s.shift 0 = s := rfl

/-- A span that ends inside the first text does not see the second. -/
theorem slice?_append_left {as : List Char} {s : Span} (fits : s.stop ≤ Text.byteLength as)
    (bs : List Char) : s.slice? (as ++ bs) = s.slice? as := by
  unfold slice?
  split
  · next ordered =>
    rw [Text.dropBytes?_append (by omega)]
    cases dropped : Text.dropBytes? as s.start with
    | none => rfl
    | some rest =>
      have length := Text.byteLength_of_dropBytes? dropped
      exact Text.takeBytes?_append (by omega) bs
  · rfl

/-- A span behind the first text sees the second alone. -/
theorem slice?_append_right (as bs : List Char) (s : Span) :
    (s.shift (Text.byteLength as)).slice? (as ++ bs) = s.slice? bs := by
  have ordered : s.start + Text.byteLength as ≤ s.stop + Text.byteLength as ↔ s.start ≤ s.stop := by
    omega
  have extent : s.stop + Text.byteLength as - (s.start + Text.byteLength as) = s.stop - s.start := by
    omega
  simp only [slice?, shift_start, shift_stop, Text.dropBytes?_length_append, ordered, extent]

theorem chars_append_left {as : List Char} {s : Span} (fits : s.stop ≤ Text.byteLength as)
    (bs : List Char) : s.chars (as ++ bs) = s.chars as := by
  rw [chars, slice?_append_left fits, chars]

theorem chars_append_right (as bs : List Char) (s : Span) :
    (s.shift (Text.byteLength as)).chars (as ++ bs) = s.chars bs := by
  rw [chars, slice?_append_right, chars]

end Span

end Dialect
