import Dialect.Proofs.Qualifiers

/-!
# What stripping a qualifier deletes

Whether a qualifier is deleted is decided at its own place in the text, whatever has been deleted or
kept before it. Main statement: the characters that are left are those that lie in no qualifier that
stands on its own with a member name behind its point.
-/

namespace Dialect.Qualifier

open Text

/-- At a place of the text stand the qualifier and a point, with no name or chain of names before them
and a member name behind them. -/
structure StandsAt (q text : List Char) (i : Nat) : Prop where
  named : q ++ ['.'] <+: text.drop i
  alone : ∀ c, (text.take i).getLast? = some c → isIdentChar c = false ∧ c ≠ '.'
  member : ∃ c, (text.drop (i + (q.length + 1))).head? = some c ∧ isIdentChar c = true ∧
    c.isDigit = false

/-- The character at a place of the text belongs to a qualifier that stands on its own, or to the
point behind one. -/
def Deleted (q text : List Char) (n : Nat) : Prop :=
  ∃ i < n + 1, n < i + (q.length + 1) ∧ StandsAt q text i

theorem length_key (q : List Char) : (key q).length = q.length + 1 :=
  List.length_append

theorem standsAlone_iff {before : Option Char} :
    standsAlone before = true ↔ ∀ c, before = some c → isIdentChar c = false ∧ c ≠ '.' := by
  cases before <;> simp [standsAlone]

theorem beginsMember_iff {after : Option Char} :
    beginsMember after = true ↔
      ∃ c, after = some c ∧ isIdentChar c = true ∧ c.isDigit = false := by
  cases after <;> simp [beginsMember]

theorem standsAt_iff {q text : List Char} {i : Nat} :
    StandsAt q text i ↔ key q <+: text.drop i ∧
      (standsAlone (text.take i).getLast? &&
        beginsMember (text.drop (i + (key q).length)).head?) = true := by
  rw [Bool.and_eq_true, standsAlone_iff, beginsMember_iff, length_key]
  exact ⟨fun h => ⟨h.named, h.alone, h.member⟩, fun h => ⟨h.1, h.2.1, h.2.2⟩⟩

instance (q text : List Char) (i : Nat) : Decidable (StandsAt q text i) :=
  decidable_of_iff _ standsAt_iff.symm

instance (q text : List Char) (n : Nat) : Decidable (Deleted q text n) :=
  inferInstanceAs (Decidable (∃ i < n + 1, _))

/-- The characters from a place on that are not deleted. -/
def keptFrom (q text : List Char) (n : Nat) (part : List Char) : List Char :=
  ((part.zipIdx n).filter fun p => ¬Deleted q text p.2).map Prod.fst

theorem keptFrom_append (q text : List Char) (n : Nat) (as bs : List Char) :
    keptFrom q text n (as ++ bs) =
      keptFrom q text n as ++ keptFrom q text (n + as.length) bs := by
  simp only [keptFrom, List.zipIdx_append, List.filter_append, List.map_append]

theorem keptFrom_of_forall {q text : List Char} {n : Nat} {part : List Char}
    (kept : ∀ m, n ≤ m → m < n + part.length → ¬Deleted q text m) :
    keptFrom q text n part = part := by
  rw [keptFrom, List.filter_eq_self.mpr, List.zipIdx_map_fst]
  intro p member
  obtain ⟨low, high, -⟩ := List.mem_zipIdx member
  exact decide_eq_true (kept p.2 low high)

theorem keptFrom_eq_nil {q text : List Char} {n : Nat} {part : List Char}
    (deleted : ∀ m, n ≤ m → m < n + part.length → Deleted q text m) :
    keptFrom q text n part = [] := by
  rw [keptFrom, List.filter_eq_nil_iff.mpr, List.map_nil]
  intro p member
  obtain ⟨low, high, -⟩ := List.mem_zipIdx member
  simpa using deleted p.2 low high

/-! ## Places between keys -/

section

variable {q : List Char}

/-- Every key that begins before a place of the text ends before it. -/
def Settled (q text : List Char) (n : Nat) : Prop :=
  ∀ i < n, key q <+: text.drop i → i + (key q).length ≤ n

/-- A key in which a character behind a settled place lies begins behind it too. -/
theorem Settled.le_of_covers {text : List Char} {n i m : Nat} (settled : Settled q text n)
    (named : key q <+: text.drop i) (behind : n ≤ m) (covers : m < i + (key q).length) : n ≤ i := by
  by_contra earlier
  have := settled i (by omega) named
  omega

theorem Settled.past_char {text : List Char} {n : Nat} (settled : Settled q text n)
    (other : ¬key q <+: text.drop n) : Settled q text (n + 1) := by
  intro i inside named
  rcases Nat.lt_or_eq_of_le (Nat.le_of_lt_succ inside) with earlier | rfl
  · exact Nat.le_succ_of_le (settled i earlier named)
  · exact absurd named other

/-- A character at which no key begins is kept behind a settled place. -/
theorem Settled.not_deleted {text : List Char} {n : Nat} (settled : Settled q text n)
    (other : ¬StandsAt q text n) : ¬Deleted q text n := by
  rintro ⟨i, low, high, stands⟩
  have size := length_key q
  have named := (standsAt_iff.mp stands).1
  have := settled.le_of_covers named (Nat.le_refl n) (by omega)
  have same : i = n := by omega
  exact other (same ▸ stands)

variable (word : q.all isIdentChar = true)
include word

/-- Two keys in a text do not overlap, for the point of the first would be a character of the other's
qualifier. -/
theorem key_apart {text : List Char} {i j : Nat} (first : key q <+: text.drop i)
    (second : key q <+: text.drop j) (before : i < j) : i + (key q).length ≤ j := by
  have size := length_key q
  by_contra overlap
  have inside : i + q.length - j < q.length := by omega
  have point : text[i + q.length]? = some '.' := by
    have char := List.prefix_iff_getElem?.mp first q.length (by omega)
    rw [List.getElem?_drop] at char
    simpa [key] using char
  have letter : text[i + q.length]? = some q[i + q.length - j] := by
    have char := List.prefix_iff_getElem?.mp second (i + q.length - j) (by omega)
    have place : j + (i + q.length - j) = i + q.length := by omega
    rw [List.getElem?_drop, place] at char
    simpa [key, List.getElem_append_left inside] using char
  have same := Option.some.inj (letter.symm.trans point)
  have ident := List.all_eq_true.mp word _ (List.getElem_mem inside)
  rw [same] at ident
  exact absurd ident (by decide)

theorem Settled.past_key {text : List Char} {n : Nat} (settled : Settled q text n)
    (here : key q <+: text.drop n) : Settled q text (n + (key q).length) := by
  intro i inside named
  rcases Nat.lt_trichotomy i n with earlier | rfl | later
  · have := settled i earlier named
    omega
  · exact Nat.le_refl _
  · have := key_apart word here named later
    omega

/-- The characters of a key behind a settled place are deleted if it stands on its own, all of them,
and otherwise none. -/
theorem Settled.deleted_iff {text : List Char} {n m : Nat} (settled : Settled q text n)
    (here : key q <+: text.drop n) (low : n ≤ m) (high : m < n + (key q).length) :
    Deleted q text m ↔ StandsAt q text n := by
  have size := length_key q
  constructor
  · rintro ⟨i, low', high', stands⟩
    have named := (standsAt_iff.mp stands).1
    have behind := settled.le_of_covers named low (by omega)
    rcases Nat.lt_or_eq_of_le behind with later | rfl
    · have := key_apart word here named later
      omega
    · exact stands
  · exact fun stands => ⟨n, by omega, by omega, stands⟩

/-- What one key leaves. -/
theorem rule_eq_keptFrom {before rest : List Char}
    (settled : Settled q (before ++ (key q ++ rest)) before.length) :
    rule q before.getLast? rest.head? =
      keptFrom q (before ++ (key q ++ rest)) before.length (key q) := by
  have behind : (before ++ (key q ++ rest)).drop before.length = key q ++ rest := List.drop_left
  have here : key q <+: (before ++ (key q ++ rest)).drop before.length := by
    rw [behind]
    exact List.prefix_append _ _
  have around : StandsAt q (before ++ (key q ++ rest)) before.length ↔
      (standsAlone before.getLast? && beginsMember rest.head?) = true := by
    rw [standsAt_iff, List.take_left, ← List.drop_drop, behind, List.drop_left]
    exact and_iff_right (List.prefix_append _ _)
  rw [rule]
  split
  next alone =>
    exact (keptFrom_eq_nil fun m low high =>
      (settled.deleted_iff word here low high).mpr (around.mpr alone)).symm
  next joined =>
    exact (keptFrom_of_forall fun m low high deleted =>
      joined (around.mp ((settled.deleted_iff word here low high).mp deleted))).symm

/-- Behind a settled place the rest of a text is stripped to the characters that are not deleted. -/
theorem rewriteFrom_eq_keptFrom (rest before : List Char)
    (settled : Settled q (before ++ rest) before.length) :
    rewriteFrom (key q) (rule q) before.getLast? rest =
      keptFrom q (before ++ rest) before.length rest := by
  induction rest using key_induction (key_ne_nil q) generalizing before with
  | nil => rfl
  | found rest ih =>
    have last : lastOr before.getLast? (key q) = (before ++ key q).getLast? := by simp [key]
    have here : key q <+: (before ++ (key q ++ rest)).drop before.length := by
      rw [List.drop_left]
      exact List.prefix_append _ _
    have next := settled.past_key word here
    have tail := ih (before ++ key q)
    rw [List.append_assoc, List.length_append] at tail
    rw [rewriteFrom_key (key_ne_nil q), keptFrom_append, rule_eq_keptFrom word settled, last,
      tail next]
  | other c cs stands ih =>
    have absent : ¬key q <+: (before ++ c :: cs).drop before.length := by
      rwa [List.drop_left]
    have tail := ih (before ++ [c])
    rw [List.append_assoc, List.length_append, List.singleton_append, List.length_singleton,
      List.getLast?_concat] at tail
    have kept : ¬Deleted q (before ++ c :: cs) before.length :=
      settled.not_deleted fun found => absent (standsAt_iff.mp found).1
    have first : keptFrom q (before ++ c :: cs) before.length [c] = [c] :=
      keptFrom_of_forall fun m low high => by
        rw [List.length_singleton] at high
        obtain rfl : m = before.length := by omega
        exact kept
    have parts := keptFrom_append q (before ++ c :: cs) before.length [c] cs
    rw [List.singleton_append, List.length_singleton, first, List.singleton_append] at parts
    rw [rewriteFrom_cons stands, tail (settled.past_char absent), parts]

end

/-- Stripping one qualifier keeps, in their order, the characters of the text that belong to no
occurrence of the qualifier and its point that stands on its own before a member name. -/
theorem stripAll_keeps_undeleted (qualifier text : String) (given : qualifier.isEmpty = false)
    (word : qualifier.toList.all isIdentChar = true) :
    (stripAll [qualifier] text).toList =
      ((text.toList.zipIdx.filter fun p => ¬Deleted qualifier.toList text.toList p.2).map
        Prod.fst) := by
  have start : Settled qualifier.toList ([] ++ text.toList) ([] : List Char).length :=
    fun i earlier => absurd earlier (Nat.not_lt_zero i)
  exact (toList_strip given text).trans (rewriteFrom_eq_keptFrom word text.toList [] start)

/-- Only the first part of a chain is a qualifier, and a name that ends in one or has no member behind
it is none. -/
theorem stripAll_keeps_undeleted_chain :
    "py".isEmpty = false ∧ "py".toList.all isIdentChar = true ∧
      stripAll ["py"] "py.py.a + numpy.b(py.c, a.py.d, py.1) + py." =
        "py.a + numpy.b(c, a.py.d, py.1) + py." := by
  refine ⟨by decide, by decide, String.toList_inj.mp ?_⟩
  rw [stripAll_keeps_undeleted "py" _ (by decide) (by decide)]
  decide +kernel

end Dialect.Qualifier
