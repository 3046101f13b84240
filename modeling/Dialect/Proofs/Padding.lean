import Dialect.Proofs.Occurrences
import Dialect.Replacement

/-!
# Words in the place of marks

A key of marks that becomes a word is set off by a space from an identifier that it touches in the
text. Main statement: a copy of the word never runs into a character of the text, but it does run into
another copy, exactly where two occurrences of the key follow each other.
-/

namespace Dialect

namespace Text

/-- The part of the text that a piece stands for. -/
def Piece.source (key : List Char) : Piece → List Char
  | .plain c => [c]
  | .occurrence _ _ => key

def Piece.isOccurrence : Piece → Bool
  | .plain _ => false
  | .occurrence _ _ => true

theorem any_isOccurrence_iff {p : Option Piece} :
    p.any Piece.isOccurrence = true ↔ ∃ before after, p = some (.occurrence before after) := by
  rcases p with _ | _ | _ <;> simp [Piece.isOccurrence]

section

variable {key : List Char} (given : key ≠ [])
include given

theorem flatMap_source (text : List Char) (before : Option Char) :
    (piecesFrom key 0 before text).flatMap (Piece.source key) = text := by
  induction text using key_induction given generalizing before with
  | nil => rfl
  | found rest ih => rw [piecesFrom_key given, List.flatMap_cons, ih, Piece.source]
  | other c cs stands ih =>
    rw [piecesFrom_cons stands, List.flatMap_cons, ih, Piece.source, List.singleton_append]

/-- An occurrence knows the characters that the pieces around it put next to it. -/
theorem occurrence_around {text : List Char} {start before after : Option Char}
    {left right : List Piece}
    (split : piecesFrom key 0 start text = left ++ .occurrence before after :: right) :
    before = lastOr start (left.flatMap (Piece.source key)) ∧
      after = (right.flatMap (Piece.source key)).head? := by
  induction text using key_induction given generalizing start left with
  | nil => exact absurd split (by simp [piecesFrom])
  | found rest ih =>
    rw [piecesFrom_key given] at split
    cases left with
    | nil =>
      obtain ⟨first, rfl⟩ := List.cons.inj split
      obtain ⟨rfl, rfl⟩ := Piece.occurrence.inj first
      exact ⟨rfl, by rw [flatMap_source given]⟩
    | cons p left =>
      obtain ⟨rfl, later⟩ := List.cons.inj split
      rw [List.flatMap_cons, lastOr_append]
      exact ih later
  | other c cs stands ih =>
    rw [piecesFrom_cons stands] at split
    cases left with
    | nil => cases (List.cons.inj split).1
    | cons p left =>
      obtain ⟨rfl, later⟩ := List.cons.inj split
      rw [List.flatMap_cons, lastOr_append]
      exact ih later

end

end Text

namespace Replacement

open Text

/-- The occurrence is kept: an identifier goes on where the key begins or ends with an identifier
character. -/
def rejects (key : List Char) (before after : Option Char) : Bool :=
  (startsIdent key && before.any isIdentChar) || (endsIdent key && after.any isIdentChar)

def leftPad (key value : List Char) (before : Option Char) : List Char :=
  if !startsIdent key && startsIdent value && before.any isIdentChar then [' '] else []

def rightPad (key value : List Char) (after : Option Char) : List Char :=
  if !endsIdent key && endsIdent value && after.any isIdentChar then [' '] else []

theorem substitute_eq (key value : List Char) (before after : Option Char) :
    substitute key value before after =
      if rejects key before after then key
      else leftPad key value before ++ value ++ rightPad key value after := rfl

/-- What a piece of the text becomes. -/
def written (key value : List Char) : Piece → List Char
  | .plain c => [c]
  | .occurrence before after => substitute key value before after

theorem applyChars_eq_flatMap (key value text : List Char) :
    applyChars key value text = (pieces key text).flatMap (written key value) := by
  refine List.flatMap_congr fun p _ => ?_
  cases p <;> rfl

/-- A place where a copy of the value is put in: an occurrence of the key among the pieces of the
text. -/
structure Copy (key text : List Char) where
  left : List Piece
  before : Option Char
  after : Option Char
  right : List Piece
  split : pieces key text = left ++ .occurrence before after :: right

namespace Copy

variable {key text : List Char}

/-- What stands before the copy. -/
def front (value : List Char) (copy : Copy key text) : List Char :=
  copy.left.flatMap (written key value) ++ leftPad key value copy.before

/-- What stands behind the copy. -/
def back (value : List Char) (copy : Copy key text) : List Char :=
  rightPad key value copy.after ++ copy.right.flatMap (written key value)

end Copy

/-! ## Neighbours -/

theorem any_lastOr {cs : List Char} (given : cs ≠ []) (before : Option Char) :
    (lastOr before cs).any isIdentChar = endsIdent cs := by
  rw [lastOr, endsIdent, List.getLast?_eq_some_getLast given, Option.some_or]

theorem endsIdent_append (as : List Char) {bs : List Char} (given : bs ≠ []) :
    endsIdent (as ++ bs) = endsIdent bs := by
  rw [endsIdent, endsIdent, List.getLast?_append_of_ne_nil as given]

theorem startsIdent_append {as : List Char} (given : as ≠ []) (bs : List Char) :
    startsIdent (as ++ bs) = startsIdent as := by
  rw [startsIdent, startsIdent, List.head?_append_of_ne_nil as given]

theorem ne_nil_of_endsIdent {cs : List Char} (ends : endsIdent cs = true) : cs ≠ [] := by
  rintro rfl
  exact Bool.false_ne_true ends

theorem ne_nil_of_startsIdent {cs : List Char} (starts : startsIdent cs = true) : cs ≠ [] := by
  rintro rfl
  exact Bool.false_ne_true starts

section

variable {key value text : List Char} (opens : startsIdent key = false)
  (closes : endsIdent key = false)

theorem leftPad_of_apart {before : Option Char} (apart : before.any isIdentChar = false) :
    leftPad key value before = [] := by
  rw [leftPad, apart, Bool.and_false]
  rfl

theorem rightPad_of_apart {after : Option Char} (apart : after.any isIdentChar = false) :
    rightPad key value after = [] := by
  rw [rightPad, apart, Bool.and_false]
  rfl

include opens in
theorem leftPad_of_touching (starts : startsIdent value = true) {before : Option Char}
    (touches : before.any isIdentChar = true) : leftPad key value before = [' '] := by
  rw [leftPad, opens, starts, touches]
  rfl

include closes in
theorem rightPad_of_touching (ends : endsIdent value = true) {after : Option Char}
    (touches : after.any isIdentChar = true) : rightPad key value after = [' '] := by
  rw [rightPad, closes, ends, touches]
  rfl

include opens closes

theorem substitute_of_marks (before after : Option Char) :
    substitute key value before after =
      leftPad key value before ++ value ++ rightPad key value after := by
  rw [substitute_eq, rejects, opens, closes]
  rfl

theorem applyChars_eq_copy (copy : Copy key text) :
    applyChars key value text = copy.front value ++ value ++ copy.back value := by
  rw [applyChars_eq_flatMap, copy.split, List.flatMap_append, List.flatMap_cons, written,
    substitute_of_marks opens closes, Copy.front, Copy.back]
  simp only [List.append_assoc]

variable (given : key ≠ []) (starts : startsIdent value = true) (ends : endsIdent value = true)
include given starts ends

/-- Before a copy stands an identifier character exactly if another copy ends there. -/
theorem endsIdent_front (copy : Copy key text) :
    endsIdent (copy.front value) = copy.left.getLast?.any Piece.isOccurrence := by
  obtain ⟨left, before, after, right, split⟩ := copy
  have known := (occurrence_around given split).1
  simp only [Copy.front]
  rcases List.eq_nil_or_concat' left with rfl | ⟨left, p, rfl⟩
  · have apart : before.any isIdentChar = false := by rw [known]; rfl
    rw [leftPad_of_apart apart]
    rfl
  · rw [List.flatMap_append, List.flatMap_singleton, lastOr_append] at known
    rw [List.flatMap_append, List.flatMap_singleton, List.getLast?_concat, List.append_assoc]
    cases p with
    | plain c =>
      -- the character itself, or the space behind it, is no identifier character
      obtain rfl : before = some c := known
      cases ident : (some c).any isIdentChar with
      | true =>
        rw [leftPad_of_touching opens starts ident, written,
          endsIdent_append _ (List.append_ne_nil_of_left_ne_nil (List.cons_ne_nil c []) _)]
        rfl
      | false =>
        rw [leftPad_of_apart ident, List.append_nil, written,
          endsIdent_append _ (List.cons_ne_nil c [])]
        exact ident
    | occurrence b a =>
      -- neither key sees an identifier, so nothing is put in between
      rw [List.append_assoc] at split
      have next : a = (key ++ right.flatMap (Piece.source key)).head? :=
        (occurrence_around given split).2
      have apart : before.any isIdentChar = false := by
        rw [known, Piece.source, any_lastOr given, closes]
      have apart' : a.any isIdentChar = false := by
        rw [next]
        exact (startsIdent_append given _).trans opens
      rw [leftPad_of_apart apart, written, substitute_of_marks opens closes,
        rightPad_of_apart apart', List.append_nil, List.append_nil, ← List.append_assoc,
        endsIdent_append _ (ne_nil_of_endsIdent ends), ends]
      rfl

/-- Behind a copy stands an identifier character exactly if another copy begins there. -/
theorem startsIdent_back (copy : Copy key text) :
    startsIdent (copy.back value) = copy.right.head?.any Piece.isOccurrence := by
  obtain ⟨left, before, after, right, split⟩ := copy
  have known := (occurrence_around given split).2
  simp only [Copy.back]
  cases right with
  | nil =>
    have apart : after.any isIdentChar = false := by rw [known]; rfl
    rw [rightPad_of_apart apart]
    rfl
  | cons p right =>
    rw [List.flatMap_cons, List.head?_cons]
    cases p with
    | plain c =>
      obtain rfl : after = some c := known
      cases ident : (some c).any isIdentChar with
      | true =>
        rw [rightPad_of_touching closes ends ident]
        rfl
      | false =>
        rw [rightPad_of_apart ident, written]
        exact ident
    | occurrence b a =>
      rw [List.append_cons] at split
      have previous := (occurrence_around given split).1
      rw [List.flatMap_append, List.flatMap_singleton, lastOr_append] at previous
      have apart : b.any isIdentChar = false := by
        rw [previous, Piece.source, any_lastOr given, closes]
      have apart' : after.any isIdentChar = false := by
        rw [known]
        exact (startsIdent_append given _).trans opens
      rw [rightPad_of_apart apart', written, substitute_of_marks opens closes,
        leftPad_of_apart apart, List.nil_append, List.nil_append, List.append_assoc,
        startsIdent_append (ne_nil_of_startsIdent starts), starts]
      rfl

end

/-- Each copy of a word put in for a key of marks stands between its front and its back in the result.
It runs into an identifier character there exactly if the key occurs again right before it or right
behind it. -/
theorem copy_fuses_iff (key value text : String) (given : key.isEmpty = false)
    (marks : startsIdent key.toList = false ∧ endsIdent key.toList = false)
    (word : startsIdent value.toList = true ∧ endsIdent value.toList = true)
    (copy : Copy key.toList text.toList) :
    (applyAll [⟨key, value⟩] text).toList =
        copy.front value.toList ++ value.toList ++ copy.back value.toList ∧
      (endsIdent (copy.front value.toList) = true ↔
        ∃ before after, copy.left.getLast? = some (.occurrence before after)) ∧
      (startsIdent (copy.back value.toList) = true ↔
        ∃ before after, copy.right.head? = some (.occurrence before after)) := by
  obtain ⟨opens, closes⟩ := marks
  obtain ⟨starts, ends⟩ := word
  have named : key.toList ≠ [] := by simpa using given
  have once : (applyAll [⟨key, value⟩] text).toList =
      applyChars key.toList value.toList text.toList := by
    rw [applyAll, List.foldl_cons, List.foldl_nil, apply, given]
    exact String.toList_ofList
  refine ⟨once.trans (applyChars_eq_copy opens closes copy), ?_, ?_⟩
  · rw [endsIdent_front opens closes named starts ends, any_isOccurrence_iff]
  · rw [startsIdent_back opens closes named starts ends, any_isOccurrence_iff]

/-- Behind the first of two occurrences the second copy follows at once. -/
theorem copy_fuses_iff_repeated :
    "&&".isEmpty = false ∧
      (startsIdent "&&".toList = false ∧ endsIdent "&&".toList = false) ∧
      (startsIdent "and".toList = true ∧ endsIdent "and".toList = true) ∧
      applyAll [⟨"&&", "and"⟩] "a&&&&b" = "a andand b" ∧
      ∃ copy : Copy "&&".toList "a&&&&b".toList,
        endsIdent (copy.front "and".toList) = false ∧
        startsIdent (copy.back "and".toList) = true := by
  let copy : Copy "&&".toList "a&&&&b".toList :=
    ⟨[.plain 'a'], some 'a', some '&', [.occurrence (some '&') (some 'b'), .plain 'b'], by decide⟩
  obtain ⟨whole, front, back⟩ := copy_fuses_iff "&&" "and" "a&&&&b" (by decide) (by decide)
    (by decide) copy
  refine ⟨by decide, by decide, by decide, String.toList_inj.mp (whole.trans (by decide)), copy,
    ?_, back.mpr ⟨_, _, rfl⟩⟩
  rw [← Bool.not_eq_true, front]
  rintro ⟨before, after, last⟩
  cases last

/-- Two negations in a row become one word. -/
theorem repeated_mark_fuses :
    applyAll [⟨"!", "not"⟩] "!!x" = "notnot x" ∧
      ¬∀ copy : Copy "!".toList "!!x".toList,
        endsIdent (copy.front "not".toList) = false ∧
        startsIdent (copy.back "not".toList) = false := by
  refine ⟨by decide, fun apart => ?_⟩
  have first := apart ⟨[], none, some '!', [.occurrence (some '!') (some 'x'), .plain 'x'], by decide⟩
  exact absurd first.2 (by decide)

end Replacement

end Dialect
