import Dialect.Text.Occurrence
import Mathlib.Data.List.Basic

/-!
# Rewriting the occurrences of a key

A text is rewritten from the left: where the key stands its occurrence is replaced, anywhere else one
character is kept. The rule sees the characters around an occurrence in the text that is rewritten, so
a text can be rewritten piece by piece if the character before each piece is known.
-/

namespace Dialect.Text

/-- The rest of a text behind the character `before`, with each occurrence of the key replaced. -/
def rewriteFrom (key : List Char) (rule : Option Char → Option Char → List Char)
    (before : Option Char) (text : List Char) : List Char :=
  (piecesFrom key 0 before text).flatMap fun
    | .plain c => [c]
    | .occurrence before after => rule before after

theorem mapOccurrences_eq_rewriteFrom (key : List Char)
    (rule : Option Char → Option Char → List Char) (text : List Char) :
    mapOccurrences key rule text = rewriteFrom key rule none text := rfl

/-- The last character of a text that stands behind another character. -/
def lastOr (before : Option Char) (text : List Char) : Option Char :=
  text.getLast?.or before

@[simp]
theorem lastOr_nil (before : Option Char) : lastOr before [] = before := rfl

@[simp]
theorem lastOr_cons (before : Option Char) (c : Char) (cs : List Char) :
    lastOr before (c :: cs) = lastOr (some c) cs := by
  cases cs <;> simp [lastOr, List.getLast?_cons]

@[simp]
theorem lastOr_append (before : Option Char) (as bs : List Char) :
    lastOr before (as ++ bs) = lastOr (lastOr before as) bs := by
  simp [lastOr, List.getLast?_append, Option.or_assoc]

/-- The characters that still belong to an occurrence are passed over. -/
theorem piecesFrom_inside (key : List Char) (before : Option Char) (inside rest : List Char) :
    piecesFrom key inside.length before (inside ++ rest) =
      piecesFrom key 0 (lastOr before inside) rest := by
  induction inside generalizing before with
  | nil => rfl
  | cons c cs ih => rw [List.length_cons, List.cons_append, piecesFrom, ih, lastOr_cons]

theorem piecesFrom_key {key : List Char} (given : key ≠ []) (before : Option Char)
    (rest : List Char) :
    piecesFrom key 0 before (key ++ rest) =
      .occurrence before rest.head? :: piecesFrom key 0 (lastOr before key) rest := by
  obtain ⟨c, cs, rfl⟩ := List.exists_cons_of_ne_nil given
  have stands : (c :: cs).isPrefixOf (c :: (cs ++ rest)) = true := by
    rw [List.isPrefixOf_iff_prefix]
    exact List.prefix_append (c :: cs) rest
  have behind : (c :: (cs ++ rest)).drop (c :: cs).length = rest := List.drop_left
  rw [List.cons_append, piecesFrom, if_pos stands, behind, List.length_cons, Nat.add_sub_cancel,
    piecesFrom_inside, lastOr_cons]

theorem piecesFrom_cons {key : List Char} {c : Char} {cs : List Char} (apart : ¬key <+: c :: cs)
    (before : Option Char) :
    piecesFrom key 0 before (c :: cs) = .plain c :: piecesFrom key 0 (some c) cs := by
  have absent : ¬key.isPrefixOf (c :: cs) = true := fun stands =>
    apart (List.isPrefixOf_iff_prefix.mp stands)
  rw [piecesFrom, if_neg absent]

section

variable {key : List Char} {rule : Option Char → Option Char → List Char}

@[simp]
theorem rewriteFrom_nil (before : Option Char) : rewriteFrom key rule before [] = [] := rfl

theorem rewriteFrom_key (given : key ≠ []) (before : Option Char) (rest : List Char) :
    rewriteFrom key rule before (key ++ rest) =
      rule before rest.head? ++ rewriteFrom key rule (lastOr before key) rest := by
  rw [rewriteFrom, piecesFrom_key given]
  rfl

theorem rewriteFrom_cons {c : Char} {cs : List Char} (apart : ¬key <+: c :: cs)
    (before : Option Char) :
    rewriteFrom key rule before (c :: cs) = c :: rewriteFrom key rule (some c) cs := by
  rw [rewriteFrom, piecesFrom_cons apart]
  rfl

/-- A text is gone through as it is rewritten: past an occurrence of the key, or past a character. -/
theorem key_induction (given : key ≠ []) {motive : List Char → Prop} (nil : motive [])
    (found : ∀ rest, motive rest → motive (key ++ rest))
    (other : ∀ c cs, ¬key <+: c :: cs → motive cs → motive (c :: cs)) (text : List Char) :
    motive text := by
  by_cases stands : key <+: text
  · obtain ⟨rest, shape⟩ := stands
    have shorter : rest.length < text.length := by
      have given := List.length_pos_iff.mpr given
      rw [← shape, List.length_append]
      omega
    rw [← shape]
    exact found rest (key_induction given nil found other rest)
  · cases text with
    | nil => exact nil
    | cons c cs => exact other c cs stands (key_induction given nil found other cs)
termination_by text.length

/-- A text in which the key does not occur stays as it is. -/
theorem rewriteFrom_of_not_occursIn {text : List Char} (absent : occursIn key text = false)
    (before : Option Char) :
    rewriteFrom key rule before text = text := by
  induction text generalizing before with
  | nil => rfl
  | cons c cs ih =>
    rw [occursIn, Bool.or_eq_false_iff] at absent
    have apart : ¬key <+: c :: cs := fun stands => by
      rw [List.isPrefixOf_iff_prefix.mpr stands] at absent
      exact absurd absent.1 (by decide)
    rw [rewriteFrom_cons apart, ih absent.2]

end

theorem occursIn_iff {key text : List Char} : occursIn key text = true ↔ key <:+: text := by
  induction text with
  | nil => rw [occursIn, List.isEmpty_iff, List.infix_nil]
  | cons c cs ih =>
    rw [occursIn, Bool.or_eq_true, List.isPrefixOf_iff_prefix, ih, List.infix_cons_iff]

/-- Where the key occurs, what it is replaced by stands in the text. -/
theorem mem_rewriteFrom_of_occursIn {key : List Char} (given : key ≠ []) (mark : Char)
    {text : List Char} (occurs : occursIn key text = true) (before : Option Char) :
    mark ∈ rewriteFrom key (fun _ _ => [mark]) before text := by
  induction text generalizing before with
  | nil =>
    rw [occursIn, List.isEmpty_iff] at occurs
    exact absurd occurs given
  | cons c cs ih =>
    by_cases stands : key <+: c :: cs
    · obtain ⟨rest, shape⟩ := stands
      rw [← shape, rewriteFrom_key given]
      exact List.mem_cons_self
    · rw [rewriteFrom_cons stands]
      have apart : key.isPrefixOf (c :: cs) = false :=
        Bool.eq_false_iff.mpr fun prefixed => stands (List.isPrefixOf_iff_prefix.mp prefixed)
      rw [occursIn, apart, Bool.false_or] at occurs
      exact List.mem_cons_of_mem c (ih occurs (some c))

end Dialect.Text
