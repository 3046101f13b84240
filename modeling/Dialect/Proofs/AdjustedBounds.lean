import Dialect.Compilation
import Dialect.Parsing.Program
import Dialect.Proofs.ArithmeticText

/-!
# Bounds and steps with arithmetic in them

A bound that is no integer literal is moved by writing a number behind it, and the sign of a step is
turned by writing a minus sign before it, or by taking one away. Main statement: for which
expressions the written text stands for the sum, and for which it stands for the negated value.
-/

namespace Dialect.Arithmetic

/-! ## Moved bounds -/

namespace Term

/-- A number added behind a term, which goes to the amount of a shift that ends the term. -/
def followedBy (e : Term) (op : Operator) (amount : Term) : Term :=
  match e with
  | binary .left l r => binary .left l (binary op r amount)
  | binary .right l r => binary .right l (binary op r amount)
  | e => binary op e amount

theorem followedBy_reads {e : Term} (fits : e.Fits) {op : Operator}
    (sum : op.level = Operator.plus.level) {cs : List Char} (operand : isOperand cs = true) :
    (e.followedBy op (.word cs)).Fits ∧
      (e.followedBy op (.word cs)).tokens = e.tokens ++ [.operator op, .word cs] := by
  rw [Operator.level_plus] at sum
  have small : op.level < closedLevel := by rw [sum]; decide
  have join {d : Term} (fits : d.Fits) (tight : op.level ≤ d.level) :
      (binary op d (.word cs)).Fits := ⟨fits, operand, tight, small⟩
  cases e with
  | word ds => exact ⟨join fits (Nat.le_of_lt small), rfl⟩
  | group inner => exact ⟨join fits (Nat.le_of_lt small), rfl⟩
  | negative inner => exact ⟨join fits (Nat.le_of_lt op.level_lt_signLevel), rfl⟩
  | binary other l r =>
    have apart : (l.tokens ++ .operator other :: r.tokens) ++ [.operator op, .word cs] =
        l.tokens ++ .operator other :: (r.tokens ++ [.operator op, .word cs]) :=
      List.append_assoc _ _ _
    -- Behind a shift the new operator binds more tightly, behind a sum or product it does not.
    have behind (shift : other.level = 9) : (binary other l (binary op r (.word cs))).Fits := by
      obtain ⟨fitsLeft, fitsRight, leftLevel, rightLevel⟩ := fits
      exact ⟨fitsLeft, join fitsRight (by omega), leftLevel, by rw [level]; omega⟩
    cases other with
    | times => exact ⟨join fits (by simp [level, sum]), rfl⟩
    | plus => exact ⟨join fits (by simp [level, sum]), rfl⟩
    | minus => exact ⟨join fits (by simp [level, sum]), rfl⟩
    | left => exact ⟨behind Operator.level_left, apart.symm⟩
    | right => exact ⟨behind Operator.level_right, apart.symm⟩

end Term

/-- The operator that is written before the size of a number to add it. -/
def sumOperator (delta : Int) : Operator :=
  if 0 ≤ delta then .plus else .minus

theorem sumOperator_level (delta : Int) : (sumOperator delta).level = Operator.plus.level := by
  rw [sumOperator]
  split <;> rfl

theorem sumOperator_apply (delta m : Int) :
    (sumOperator delta).apply m delta.natAbs = some (m + delta) := by
  rw [sumOperator]
  split
  · have size : (delta.natAbs : Int) = delta := by omega
    rw [Operator.apply, size]
  · have size : (delta.natAbs : Int) = -delta := by omega
    rw [Operator.apply, size, Int.sub_neg]

theorem toList_offset {text : String} (other : Bound.int64? (Text.trim text.toList) = none)
    (delta : Int) :
    (Bound.offset delta text).toList = text.toList ++ ' ' ::
      ((sumOperator delta).text.toList ++ ' ' :: Nat.toDigits 10 delta.natAbs) := by
  rw [Bound.offset, other, sumOperator]
  dsimp only
  split
  · next positive =>
    obtain ⟨n, rfl⟩ := Int.eq_ofNat_of_zero_le positive
    simp only [String.toList_append, List.append_assoc]
    rw [← Int.ofNat_eq_natCast, Numeral.toList_toString_ofNat]
    rfl
  · next negative =>
    obtain ⟨n, turned⟩ := Int.eq_ofNat_of_zero_le (a := -delta) (by omega)
    have size : delta.natAbs = n := by omega
    simp only [String.toList_append, List.append_assoc]
    rw [turned, size, ← Int.ofNat_eq_natCast, Numeral.toList_toString_ofNat]
    rfl

theorem read?_offset {text : String} {e : Term} (reads : read? text.toList = some e)
    (other : Bound.int64? (Text.trim text.toList) = none) (delta : Int) :
    read? (Bound.offset delta text).toList =
      some (e.followedBy (sumOperator delta) (.word (Nat.toDigits 10 delta.natAbs))) := by
  have literal := Numeral.natural?_toDigits delta.natAbs
  obtain ⟨fits, divided⟩ := read?_eq_some_iff.mp reads
  obtain ⟨fitsSum, tokens⟩ :=
    Term.followedBy_reads fits (sumOperator_level delta) (isOperand_of_natural? literal)
  have blank : isGap ' ' = true := by decide
  have skip (cs : List Char) : tokens? 0 (' ' :: cs) = tokens? 0 cs := by
    rw [tokens?, if_pos blank]
  have sign : tokens? 0 (sumOperator delta).text.toList = some [.operator (sumOperator delta)] := by
    rw [sumOperator]
    split <;> decide
  have number := (read?_eq_some_iff.mp (read?_natural? literal).1).2
  have separates := separates_of_isGap blank
  refine read?_eq_some_iff.mpr ⟨fitsSum, ?_⟩
  rw [toList_offset other, tokens, tokens?_append separates (Nat.zero_le _), divided, skip,
    tokens?_append separates (Nat.zero_le _), sign, skip, number]
  rfl

/-- The number written behind the term is added to the value: the term is no shift, or a shift whose
value happens to move by the number with the amount. -/
def Term.Moves (delta : Int) (names : List Char → Int) : Term → Prop
  | .binary .left l r =>
    l.value names = some 1 ∧ ∃ n, r.value names = some n ∧ min n (n + delta) = 0
  | .binary .right l r =>
    ∃ m n, l.value names = some m ∧ r.value names = some n ∧ 0 ≤ min n (n + delta) ∧
      (m / 2 ^ (min n (n + delta)).toNat = -2 ∨ m / 2 ^ (min n (n + delta)).toNat = -3)
  | _ => True

theorem shiftLeft_eq_some_iff {m n v : Int} :
    Operator.left.apply m n = some v ↔ 0 ≤ n ∧ m * 2 ^ n.toNat = v := by
  simp [Operator.apply]

theorem shiftRight_eq_some_iff {m n v : Int} :
    Operator.right.apply m n = some v ↔ 0 ≤ n ∧ m / 2 ^ n.toNat = v := by
  simp [Operator.apply]

theorem mul_two_pow_eq_one_iff {m : Int} {k : Nat} : m * 2 ^ k = 1 ↔ m = 1 ∧ k = 0 := by
  constructor
  · intro one
    have unit : (2 : Int) ^ k = 1 :=
      Int.eq_one_of_dvd_one (Int.pow_nonneg (by decide)) (Dvd.intro_left m one)
    cases k with
    | zero => exact ⟨by simpa using one, rfl⟩
    | succ k =>
      rw [Int.pow_succ] at unit
      omega
  · rintro ⟨rfl, rfl⟩
    rfl

/-- Two neighbouring amounts of a shift, if there are two. -/
theorem amount_cases {n delta : Int} (small : delta = 1 ∨ delta = -1) (amount : 0 ≤ n) :
    n + delta < 0 ∨ ∃ k : Nat, delta = 1 ∧ n = k ∨ delta = -1 ∧ n = k + 1 := by
  rcases small with rfl | rfl
  · exact .inr ⟨n.toNat, .inl ⟨rfl, by omega⟩⟩
  · by_cases positive : 0 < n
    · exact .inr ⟨(n - 1).toNat, .inr ⟨rfl, by omega⟩⟩
    · exact .inl (by omega)

/-- One shift to the left more doubles the value, which adds one only if the value is one. -/
theorem shiftLeft_moves_iff {m n delta : Int} (small : delta = 1 ∨ delta = -1) (amount : 0 ≤ n) :
    Operator.left.apply m (n + delta) = some (m * 2 ^ n.toNat + delta) ↔
      m = 1 ∧ min n (n + delta) = 0 := by
  have doubled (k : Nat) : m * 2 ^ ((k : Int) + 1).toNat = m * 2 ^ k * 2 := by
    rw [Int.toNat_natCast_add_one, Int.pow_succ, Int.mul_assoc]
  rw [shiftLeft_eq_some_iff]
  rcases amount_cases small amount with below | ⟨k, ⟨rfl, rfl⟩ | ⟨rfl, rfl⟩⟩
  · omega
  · have one := @mul_two_pow_eq_one_iff m k
    rw [doubled, Int.toNat_natCast]
    omega
  · have one := @mul_two_pow_eq_one_iff m k
    rw [doubled, Int.add_neg_cancel_right, Int.toNat_natCast]
    omega

/-- One shift to the right more halves the value, which moves two numbers by one. -/
theorem shiftRight_moves_iff {m n delta : Int} (small : delta = 1 ∨ delta = -1) (amount : 0 ≤ n) :
    Operator.right.apply m (n + delta) = some (m / 2 ^ n.toNat + delta) ↔
      0 ≤ min n (n + delta) ∧
        (m / 2 ^ (min n (n + delta)).toNat = -2 ∨ m / 2 ^ (min n (n + delta)).toNat = -3) := by
  have halved (k : Nat) : m / 2 ^ ((k : Int) + 1).toNat = m / 2 ^ k / 2 := by
    rw [Int.toNat_natCast_add_one, Int.pow_succ,
      Int.ediv_ediv_of_nonneg (Int.pow_nonneg (by decide))]
  rw [shiftRight_eq_some_iff]
  rcases amount_cases small amount with below | ⟨k, ⟨rfl, rfl⟩ | ⟨rfl, rfl⟩⟩
  · omega
  · have least : min (k : Int) (k + 1) = k := by omega
    rw [halved, least, Int.toNat_natCast]
    omega
  · have least : min ((k : Int) + 1) k = k := by omega
    rw [halved, Int.add_neg_cancel_right, least, Int.toNat_natCast]
    omega

theorem Term.value_binary_iff {op : Operator} {l r : Term} {names : List Char → Int} {v : Int} :
    (binary op l r).value names = some v ↔
      ∃ m n, l.value names = some m ∧ r.value names = some n ∧ op.apply m n = some v := by
  rw [value, Option.bind_eq_some_iff]
  constructor
  · rintro ⟨m, left, rest⟩
    obtain ⟨n, right, result⟩ := Option.bind_eq_some_iff.mp rest
    exact ⟨m, n, left, right, result⟩
  · rintro ⟨m, n, left, right, result⟩
    exact ⟨m, left, Option.bind_eq_some_iff.mpr ⟨n, right, result⟩⟩

theorem followedBy_value_iff {e : Term} {names : List Char → Int} {v delta : Int}
    (value : e.value names = some v) (small : delta = 1 ∨ delta = -1) :
    (e.followedBy (sumOperator delta) (.word (Nat.toDigits 10 delta.natAbs))).value names =
      some (v + delta) ↔ e.Moves delta names := by
  have number := value_word (Numeral.natural?_toDigits delta.natAbs) names
  have added {d : Term} {w : Int} (known : d.value names = some w) :
      (Term.binary (sumOperator delta) d (.word (Nat.toDigits 10 delta.natAbs))).value names =
        some (w + delta) := by
    rw [Term.value, known, number]
    exact sumOperator_apply delta w
  cases e with
  | word cs => exact iff_of_true (added value) trivial
  | group inner => exact iff_of_true (added value) trivial
  | negative inner => exact iff_of_true (added value) trivial
  | binary op l r =>
    cases op with
    | times => exact iff_of_true (added value) trivial
    | plus => exact iff_of_true (added value) trivial
    | minus => exact iff_of_true (added value) trivial
    | left =>
      obtain ⟨m, n, left, right, result⟩ := Term.value_binary_iff.mp value
      obtain ⟨amount, rfl⟩ := shiftLeft_eq_some_iff.mp result
      rw [Term.followedBy, Term.value, left, added right, Term.Moves, left, right]
      exact (shiftLeft_moves_iff small amount).trans (by simp)
    | right =>
      obtain ⟨m, n, left, right, result⟩ := Term.value_binary_iff.mp value
      obtain ⟨amount, rfl⟩ := shiftRight_eq_some_iff.mp result
      rw [Term.followedBy, Term.value, left, added right, Term.Moves, left, right]
      exact (shiftRight_moves_iff small amount).trans (by simp)

/-- A number that is computed with is no shift. -/
theorem moves_of_int64? {text : List Char} {e : Term} {n : Int} (reads : read? text = some e)
    (found : Bound.int64? (Text.trim text) = some n) (delta : Int) (names : List Char → Int) :
    e.Moves delta names ∧ e.value names = some n := by
  rw [← read?_trim] at reads
  obtain ⟨w, k, literal, ⟨rfl, rfl⟩ | ⟨rfl, rfl⟩⟩ := literal_of_int64? reads found
  · exact ⟨trivial, value_word literal names⟩
  · refine ⟨trivial, ?_⟩
    rw [Term.value, value_word literal]
    rfl

theorem add64_eq_iff {n delta : Int} :
    Bound.add64 n delta = n + delta ↔ Bound.IsInt64 (n + delta) := by
  rw [Bound.add64, Bound.IsInt64, Int.bmod_def]
  omega

/-! ## Turned signs -/

namespace Term

/-- The term without the minus sign that begins it. -/
def unsigned : Term → Term
  | negative inner => inner
  | binary op left right => binary op left.unsigned right
  | e => e

theorem unsigned_reads {e : Term} (fits : e.Fits) (signed : e.signed = true) :
    e.unsigned.Fits ∧ e.level ≤ e.unsigned.level ∧
      e.tokens = .operator .minus :: e.unsigned.tokens := by
  induction e with
  | word cs => cases signed
  | group inner => cases signed
  | negative inner => exact ⟨fits.1, fits.2, rfl⟩
  | binary op left right ih =>
    obtain ⟨fitsLeft, fitsRight, leftLevel, rightLevel⟩ := fits
    obtain ⟨fitsRest, tighter, tokens⟩ := ih fitsLeft signed
    refine ⟨⟨fitsRest, fitsRight, Nat.le_trans leftLevel tighter, rightLevel⟩, Nat.le_refl _, ?_⟩
    rw [Term.tokens, tokens]
    rfl

/-- What begins a sum. -/
def lead : Term → Term
  | binary .plus left _ => left.lead
  | binary .minus left _ => left.lead
  | e => e

/-- The value without the minus sign that begins the term: that sign is one of the first product of
a sum, and of the sum that is shifted. -/
def turned (names : List Char → Int) : Term → Option Int
  | binary .left l r =>
    (l.turned names).bind fun m => (r.value names).bind fun n => Operator.left.apply m n
  | binary .right l r =>
    (l.turned names).bind fun m => (r.value names).bind fun n => Operator.right.apply m n
  | e => (e.value names).bind fun v => (e.lead.value names).map fun p => v - 2 * p

/-- The minus sign that begins the term is one of the whole term. -/
def Negates (names : List Char → Int) : Term → Prop
  | binary .left l _ => l.Negates names
  | binary .right l r =>
    ∃ m t n, l.value names = some m ∧ l.turned names = some t ∧ r.value names = some n ∧
      t / 2 ^ n.toNat = -(m / 2 ^ n.toNat)
  | e => e.value names = e.lead.value names

theorem not_shift_of_sum {e : Term} (sum : Operator.plus.level ≤ e.level) :
    (∀ l r, e ≠ binary .left l r) ∧ ∀ l r, e ≠ binary .right l r := by
  constructor
  all_goals
    rintro l r rfl
    simp [level] at sum

theorem turned_of_sum {e : Term} (sum : Operator.plus.level ≤ e.level) (names : List Char → Int) :
    e.turned names = (e.value names).bind fun v => (e.lead.value names).map fun p => v - 2 * p := by
  obtain ⟨noLeft, noRight⟩ := not_shift_of_sum sum
  rw [turned]
  · exact noLeft
  · exact noRight

theorem negates_of_sum {e : Term} (sum : Operator.plus.level ≤ e.level) (names : List Char → Int) :
    e.Negates names ↔ e.value names = e.lead.value names := by
  obtain ⟨noLeft, noRight⟩ := not_shift_of_sum sum
  rw [Negates]
  · exact noLeft
  · exact noRight

theorem lead_of_product {e : Term} (level : Operator.times.level ≤ e.level) : e.lead = e := by
  cases e with
  | word cs => rfl
  | group inner => rfl
  | negative inner => rfl
  | binary op l r =>
    cases op with
    | times => rfl
    | plus => exact absurd level (by simp [Term.level])
    | minus => exact absurd level (by simp [Term.level])
    | left => rfl
    | right => rfl

/-- Without its first minus sign a sum has twice its first product less. -/
theorem unsigned_sum {e : Term} {names : List Char → Int} {v : Int} (fits : e.Fits)
    (signed : e.signed = true) (level : Operator.plus.level ≤ e.level)
    (value : e.value names = some v) :
    ∃ p, e.lead.value names = some p ∧ e.unsigned.value names = some (v - 2 * p) := by
  induction e generalizing v with
  | word cs => cases signed
  | group inner => cases signed
  | negative inner =>
    obtain ⟨n, inside, rfl⟩ := Option.map_eq_some_iff.mp value
    refine ⟨-n, value, inside.trans ?_⟩
    congr 1
    omega
  | binary op l r ih =>
    obtain ⟨fitsLeft, -, leftLevel, -⟩ := fits
    obtain ⟨m, n, left, right, result⟩ := value_binary_iff.mp value
    obtain ⟨p, first, rest⟩ := ih fitsLeft signed (Nat.le_trans level leftLevel) left
    cases op with
    | times =>
      obtain rfl : m = p := by
        rw [lead_of_product leftLevel, left] at first
        exact Option.some.inj first
      obtain rfl := Option.some.inj result
      refine ⟨m * n, value, value_binary_iff.mpr ⟨_, n, rest, right, ?_⟩⟩
      rw [Operator.apply, Int.sub_mul, Int.mul_assoc]
    | plus =>
      obtain rfl := Option.some.inj result
      refine ⟨p, first, value_binary_iff.mpr ⟨_, n, rest, right, ?_⟩⟩
      rw [Operator.apply]
      congr 1
      omega
    | minus =>
      obtain rfl := Option.some.inj result
      refine ⟨p, first, value_binary_iff.mpr ⟨_, n, rest, right, ?_⟩⟩
      rw [Operator.apply]
      congr 1
      omega
    | left => exact absurd level (by simp [Term.level])
    | right => exact absurd level (by simp [Term.level])

theorem unsigned_value {e : Term} {names : List Char → Int} {v : Int} (fits : e.Fits)
    (signed : e.signed = true) (value : e.value names = some v) :
    e.unsigned.value names = e.turned names := by
  have ofSum {e : Term} {v : Int} (fits : e.Fits) (signed : e.signed = true)
      (value : e.value names = some v) (sum : Operator.plus.level ≤ e.level) :
      e.unsigned.value names = e.turned names := by
    obtain ⟨p, first, rest⟩ := unsigned_sum fits signed sum value
    rw [rest, turned_of_sum sum, value, first]
    rfl
  induction e generalizing v with
  | word cs => cases signed
  | group inner => cases signed
  | negative inner => exact ofSum fits signed value (Nat.le_of_lt (Operator.level_lt_signLevel _))
  | binary op l r ih =>
    obtain ⟨m, n, left, -, -⟩ := value_binary_iff.mp value
    have part := ih fits.1 signed left
    cases op with
    | times => exact ofSum fits signed value (by simp [level])
    | plus => exact ofSum fits signed value (Nat.le_refl _)
    | minus => exact ofSum fits signed value (Nat.le_refl _)
    | left => rw [unsigned, turned, Term.value, part]
    | right => rw [unsigned, turned, Term.value, part]

theorem turned_eq_neg_iff {e : Term} {names : List Char → Int} {v : Int}
    (value : e.value names = some v) : e.turned names = some (-v) ↔ e.Negates names := by
  have ofSum {e : Term} {v : Int} (value : e.value names = some v)
      (sum : Operator.plus.level ≤ e.level) : e.turned names = some (-v) ↔ e.Negates names := by
    rw [turned_of_sum sum, negates_of_sum sum, value, Option.bind_some]
    cases e.lead.value names with
    | none => simp
    | some p =>
      rw [Option.map_some, Option.some_inj, Option.some_inj]
      omega
  have closed : Operator.plus.level ≤ closedLevel := by decide
  induction e generalizing v with
  | word cs => exact ofSum value closed
  | group inner => exact ofSum value closed
  | negative inner => exact ofSum value (Nat.le_of_lt (Operator.level_lt_signLevel _))
  | binary op l r ih =>
    obtain ⟨m, n, left, right, result⟩ := value_binary_iff.mp value
    cases op with
    | times => exact ofSum value (by simp [level])
    | plus => exact ofSum value (Nat.le_refl _)
    | minus => exact ofSum value (Nat.le_refl _)
    | left =>
      obtain ⟨amount, rfl⟩ := shiftLeft_eq_some_iff.mp result
      have scale : (2 : Int) ^ n.toNat ≠ 0 := Int.pow_ne_zero (by decide)
      rw [turned, Negates, right]
      refine Iff.trans ?_ (ih left)
      constructor
      · intro same
        obtain ⟨t, turned, applied⟩ := Option.bind_eq_some_iff.mp same
        have product := (shiftLeft_eq_some_iff.mp applied).2
        rw [← Int.neg_mul] at product
        rw [turned, Int.eq_of_mul_eq_mul_right scale product]
      · intro same
        rw [same]
        exact shiftLeft_eq_some_iff.mpr ⟨amount, Int.neg_mul _ _⟩
    | right =>
      obtain ⟨amount, rfl⟩ := shiftRight_eq_some_iff.mp result
      rw [turned, Negates, left, right]
      constructor
      · intro same
        obtain ⟨t, turned, applied⟩ := Option.bind_eq_some_iff.mp same
        exact ⟨m, t, n, rfl, turned, rfl, (shiftRight_eq_some_iff.mp applied).2⟩
      · rintro ⟨_, t, _, ⟨⟩, turned, ⟨⟩, quotient⟩
        rw [turned]
        exact shiftRight_eq_some_iff.mpr ⟨amount, quotient⟩

end Term

/-- A step that begins with a minus sign loses it. -/
theorem read?_negate_signed {text : String} {e : Term} {cs : List Char}
    (reads : read? text.toList = some e) (minus : Text.trim text.toList = '-' :: cs) :
    e.signed = true ∧ read? (Bound.negate text).toList = some e.unsigned := by
  obtain ⟨fits, divided⟩ := read?_eq_some_iff.mp reads
  rw [← tokens?_trim, minus] at divided
  obtain ⟨more, same, rest⟩ := tokens?_of_sign (.inl ⟨rfl, rfl⟩) divided
  have signed : e.signed = true := ((e.head_tokens .minus).mp (by rw [same]; rfl)).2
  obtain ⟨fitsRest, -, tokens⟩ := Term.unsigned_reads fits signed
  refine ⟨signed, read?_eq_some_iff.mpr ⟨fitsRest, ?_⟩⟩
  rw [tokens] at same
  rw [Bound.negate, String.toList_ofList, Bound.negateChars, minus]
  show tokens? 0 (Text.trimStart cs) = _
  rw [tokens?_trimStart, rest, (List.cons.inj same).2]

/-- A minus sign is written before any other step, which gets parentheses unless it is a word. -/
theorem read?_negate_unsigned {text : String} {e : Term} (reads : read? text.toList = some e)
    (unsigned : (Text.trim text.toList).head? ≠ some '-') :
    ∃ d, read? (Bound.negate text).toList = some (.negative d) ∧
      ∀ names, d.value names = e.value names := by
  rw [← read?_trim] at reads
  obtain ⟨fits, divided⟩ := read?_eq_some_iff.mp reads
  rw [Bound.negate, String.toList_ofList, Bound.negateChars]
  generalize Text.trim text.toList = cs at *
  split
  · exact absurd rfl unsigned
  · split
    · next plain =>
      have ident : ∀ ch ∈ cs, Text.isIdentChar ch = true := by
        rcases (Bool.or_eq_true _ _).mp plain with number | word
        · exact isIdentChar_of_isNumber reads unsigned number
        · exact List.all_eq_true.mp word
      obtain ⟨given, operand, rfl⟩ := eq_word_of_read? ident reads
      refine ⟨.word cs, read?_eq_some_iff.mpr ⟨⟨fits, signLevel_le_closedLevel⟩, ?_⟩, fun _ => rfl⟩
      rw [tokens?_minus_ident given ident, divided]
      rfl
    · refine ⟨.group e, read?_eq_some_iff.mpr ⟨⟨fits, signLevel_le_closedLevel⟩, ?_⟩, fun _ => rfl⟩
      have closing : tokens? 0 [')'] = some [.closing] := by decide
      show tokens? 0 ('-' :: '(' :: (cs ++ [')'])) = _
      rw [tokens?_minus (by decide), tokens?_opening,
        tokens?_append separates_closing (Nat.zero_le _), divided, closing]
      rfl

/-! ## Meaning of adjusted bounds and steps -/

/-- The text of a moved bound reads as a term again, which has the sum as its value exactly if a
computed sum fits into 64 bits and the number is not taken for a part of a shift. So does the text
of a step with its sign turned, which has the negated value exactly if the step does not begin with
a minus sign or that sign is one of the whole step. -/
theorem adjusted_value_iff {text : String} {e : Term} {names : List Char → Int} {v : Int}
    (reads : read? text.toList = some e) (value : e.value names = some v) :
    (∀ delta : Int, delta = 1 ∨ delta = -1 →
      ∃ sum, read? (Bound.offset delta text).toList = some sum ∧
        (sum.value names = some (v + delta) ↔
          (Bound.int64? (Text.trim text.toList) = some v → Bound.IsInt64 (v + delta)) ∧
            e.Moves delta names)) ∧
      ∃ opposite, read? (Bound.negate text).toList = some opposite ∧
        (opposite.value names = some (-v) ↔
          ((Text.trim text.toList).head? = some '-' → e.Negates names)) := by
  constructor
  · intro delta small
    cases folded : Bound.int64? (Text.trim text.toList) with
    | none =>
      refine ⟨_, read?_offset reads folded delta, (followedBy_value_iff value small).trans ?_⟩
      simp
    | some n =>
      obtain ⟨moves, known⟩ := moves_of_int64? reads folded delta names
      obtain rfl : n = v := Option.some.inj (known.symm.trans value)
      obtain ⟨sum, read, result⟩ := exists_read?_toString (Bound.add64 n delta)
      refine ⟨sum, ?_, ?_⟩
      · rw [Bound.offset, folded]
        exact read
      · rw [result, Option.some_inj, add64_eq_iff]
        simp [moves]
  · by_cases minus : (Text.trim text.toList).head? = some '-'
    · obtain ⟨cs, begins⟩ := List.head?_eq_some_iff.mp minus
      obtain ⟨signed, read⟩ := read?_negate_signed reads begins
      refine ⟨e.unsigned, read, ?_⟩
      rw [Term.unsigned_value (read?_eq_some_iff.mp reads).1 signed value,
        Term.turned_eq_neg_iff value]
      simp [minus]
    · obtain ⟨d, read, same⟩ := read?_negate_unsigned reads minus
      refine ⟨.negative d, read, iff_of_true ?_ fun begins => absurd begins minus⟩
      rw [Term.value, same, value]
      rfl

/-- The minus sign before a shifted value is one of the shift; a number behind a shift goes to the
amount. -/
theorem adjusted_value_iff_shift :
    let names : List Char → Int := fun word => if word = ['a'] then 3 else 2
    (read? "-a << b".toList).bind (·.value names) = some (-12) ∧
      (∃ sum, read? (Bound.offset 1 "-a << b").toList = some sum ∧
        sum.value names ≠ some (-12 + 1)) ∧
      ∃ opposite, read? (Bound.negate "-a << b").toList = some opposite ∧
        opposite.value names = some 12 := by
  intro names
  have reads : read? "-a << b".toList =
      some (.binary .left (.negative (.word ['a'])) (.word ['b'])) := by decide +kernel
  have value : (Term.binary .left (.negative (.word ['a'])) (.word ['b'])).value names =
      some (-12) := by decide +kernel
  obtain ⟨moved, opposite, read, negated⟩ := adjusted_value_iff reads value
  obtain ⟨sum, readSum, added⟩ := moved 1 (.inl rfl)
  refine ⟨by decide +kernel, ⟨sum, readSum, fun same => ?_⟩, opposite, read, ?_⟩
  · have one : (Term.negative (.word ['a'])).value names = some 1 := (added.mp same).2.1
    exact absurd one (by decide +kernel)
  · exact negated.mpr fun _ => rfl

/-- The end of a range with a shift in it, and a step whose minus sign is not one of the whole sum,
stand for other numbers than they should. -/
theorem shifted_bound_and_signed_sum_differ :
    let text := "for (let i = 0; i <= a << b; i -= -a + b) f(i);".toList
    let value (text : String) : Option Int := (read? text.toList).bind (·.value fun _ => 1)
    ((Program.ofTree text (Tree.parse text)).emit .python text).text .python =
        "for i in range(0, a << b + 1, a + b):\n    f(i)\n" ∧
      Bound.offset 1 "a << b" = "a << b + 1" ∧ value "a << b" = some 2 ∧
      value "a << b + 1" = some 4 ∧
      Bound.negate "-a + b" = "a + b" ∧ value "-a + b" = some 0 ∧ value "a + b" = some 2 := by
  intro text value
  exact ⟨by decide +kernel, by decide +kernel, by decide +kernel, by decide +kernel,
    by decide +kernel, by decide +kernel, by decide +kernel⟩

end Dialect.Arithmetic
