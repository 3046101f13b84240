/-!
# Beginnings and endings of texts
-/

namespace Dialect.Text

/-- What remains of a text behind a beginning. -/
def stripStart? (start text : List Char) : Option (List Char) :=
  if start.isPrefixOf text then some (text.drop start.length) else none

/-- What remains of a text before an ending. -/
def stripEnd? (ending text : List Char) : Option (List Char) :=
  if ending.isSuffixOf text then some (text.take (text.length - ending.length)) else none

theorem stripStart?_eq_some_iff {start text rest : List Char} :
    stripStart? start text = some rest ↔ text = start ++ rest := by
  unfold stripStart?
  constructor
  · intro found
    split at found
    · next begins =>
      obtain ⟨tail, rfl⟩ := List.isPrefixOf_iff_prefix.mp begins
      rw [List.drop_left] at found
      rw [Option.some.inj found]
    · cases found
  · rintro rfl
    have begins := List.isPrefixOf_iff_prefix.mpr (List.prefix_append start rest)
    rw [if_pos begins, List.drop_left]

theorem stripEnd?_eq_some_iff {ending text rest : List Char} :
    stripEnd? ending text = some rest ↔ text = rest ++ ending := by
  unfold stripEnd?
  constructor
  · intro found
    split at found
    · next ends =>
      obtain ⟨front, rfl⟩ := List.isSuffixOf_iff_suffix.mp ends
      rw [List.length_append, Nat.add_sub_cancel, List.take_left] at found
      rw [Option.some.inj found]
    · cases found
  · rintro rfl
    rw [if_pos (List.isSuffixOf_iff_suffix.mpr (List.suffix_append rest ending)),
      List.length_append, Nat.add_sub_cancel, List.take_left]

/-! ## Up to the first occurrence of a character -/

variable {c : Char} {before cs : List Char}

theorem forall_ne_of_not_mem (absent : c ∉ cs) : ∀ d ∈ cs, decide (d ≠ c) = true := by
  intro d member
  exact decide_eq_true fun same => absent (same ▸ member)

theorem takeWhile_ne_append (first : c ∉ before) (rest : List Char) :
    (before ++ c :: rest).takeWhile (· ≠ c) = before := by
  rw [List.takeWhile_append_of_pos (forall_ne_of_not_mem first),
    List.takeWhile_cons_of_neg (by simp), List.append_nil]

theorem dropWhile_ne_append (first : c ∉ before) (rest : List Char) :
    (before ++ c :: rest).dropWhile (· ≠ c) = c :: rest := by
  rw [List.dropWhile_append_of_pos (forall_ne_of_not_mem first),
    List.dropWhile_cons_of_neg (by simp)]

theorem dropWhile_ne_eq_nil (absent : c ∉ cs) : cs.dropWhile (· ≠ c) = [] := by
  rw [← List.append_nil cs, List.dropWhile_append_of_pos (forall_ne_of_not_mem absent),
    List.dropWhile_nil]

end Dialect.Text
