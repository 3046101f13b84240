import Dialect.Compilation
import Dialect.Parsing.Program
import Dialect.Proofs.Numerals
import Mathlib.Algebra.Order.Ring.Int

/-!
# Counting loops over integers

A loop whose start, bound and step are integer literals is written over a range. The loop is given
its meaning by the values its variable takes, the range by the numbers it lists. Main statements: a
loop that counts towards its bound takes exactly the numbers of its range, and when the range of a
loop that does not run is empty.
-/

namespace Dialect

/-! ## Ranges -/

namespace Range

/-- The number lies before the end, on the way that the step goes. -/
def precedes (stop step i : Int) : Bool :=
  if 0 < step then i < stop else stop < i

/-- The numbers from `start` on by a step other than zero, up to the end, which is left out. -/
def values (start stop step : Int) : List Int :=
  ((List.range (stop - start).natAbs).map fun (k : Nat) => start + step * k).takeWhile
    (precedes stop step)

variable {start stop step : Int}

theorem not_precedes_natAbs (nonzero : step ≠ 0) :
    precedes stop step (start + step * ((stop - start).natAbs : Int)) = false := by
  rw [precedes]
  split
  · next positive =>
    have far : ((stop - start).natAbs : Int) ≤ step * ((stop - start).natAbs : Int) :=
      le_mul_of_one_le_left (by omega) (by omega)
    rw [decide_eq_false_iff_not]
    omega
  · have far : ((stop - start).natAbs : Int) ≤ -step * ((stop - start).natAbs : Int) :=
      le_mul_of_one_le_left (by omega) (by omega)
    rw [Int.neg_mul] at far
    rw [decide_eq_false_iff_not]
    omega

theorem exists_count (start stop : Int) (nonzero : step ≠ 0) :
    ∃ k : Nat, (∀ j < k, precedes stop step (start + step * (j : Int)) = true) ∧
      precedes stop step (start + step * (k : Int)) = false := by
  have ends : ∃ k : Nat, precedes stop step (start + step * (k : Int)) = false :=
    ⟨_, not_precedes_natAbs nonzero⟩
  refine ⟨Nat.find ends, fun j before => ?_, Nat.find_spec ends⟩
  exact Bool.not_eq_false _ ▸ Nat.find_min ends before

theorem count_le (nonzero : step ≠ 0) {k : Nat}
    (inside : ∀ j < k, precedes stop step (start + step * (j : Int)) = true) :
    k ≤ (stop - start).natAbs := by
  by_contra beyond
  have late := inside (stop - start).natAbs (by omega)
  rw [not_precedes_natAbs nonzero] at late
  cases late

theorem values_eq (nonzero : step ≠ 0) {k : Nat}
    (inside : ∀ j < k, precedes stop step (start + step * (j : Int)) = true)
    (ends : precedes stop step (start + step * (k : Int)) = false) :
    values start stop step = (List.range k).map fun (j : Nat) => start + step * j := by
  obtain ⟨m, length⟩ := Nat.le.dest (count_le nonzero inside)
  rw [values, ← length, List.range_add, List.map_append, List.takeWhile_append_of_pos]
  · cases m with
    | zero => simp
    | succ m => simp [List.range_succ_eq_map, ends]
  · intro i member
    obtain ⟨j, before, rfl⟩ := List.mem_map.mp member
    exact inside j (List.mem_range.mp before)

theorem values_eq_nil_iff (nonzero : step ≠ 0) :
    values start stop step = [] ↔ precedes stop step start = false := by
  obtain ⟨k, inside, ends⟩ := exists_count start stop nonzero
  rw [values_eq nonzero inside ends]
  cases k with
  | zero => simpa using ends
  | succ k =>
    have first := inside 0 (Nat.succ_pos k)
    simp only [Int.natCast_zero, Int.mul_zero, Int.add_zero] at first
    simp [first]

end Range

/-! ## Loops -/

inductive Comparison where
  | less
  | lessOrEqual
  | greater
  | greaterOrEqual
  | unequal
  deriving DecidableEq, Repr

namespace Comparison

def ofText? : String → Option Comparison
  | "<" => some less
  | "<=" => some lessOrEqual
  | ">" => some greater
  | ">=" => some greaterOrEqual
  | "!=" | "!==" => some unequal
  | _ => none

def holds : Comparison → Int → Int → Bool
  | less, i, n => i < n
  | lessOrEqual, i, n => i ≤ n
  | greater, i, n => n < i
  | greaterOrEqual, i, n => n ≤ i
  | unequal, i, n => i ≠ n

end Comparison

/-- A loop over one variable. It is an integer, and nothing but the update changes it. -/
structure IntegerLoop where
  start : Int
  comparison : Comparison
  bound : Int
  step : Int

namespace IntegerLoop

def continues (l : IntegerLoop) (i : Int) : Bool :=
  l.comparison.holds i l.bound

/-- From some value on the variable takes these values one after the other, and the loop ends. -/
inductive Takes (l : IntegerLoop) : Int → List Int → Prop
  | done {i : Int} (ends : l.continues i = false) : Takes l i []
  | again {i : Int} {is : List Int} (runs : l.continues i = true) (rest : Takes l (i + l.step) is) :
      Takes l i (i :: is)

def Approaches (l : IntegerLoop) : Prop :=
  match l.comparison with
  | .less | .lessOrEqual => 0 < l.step
  | .greater | .greaterOrEqual => l.step < 0
  | .unequal => ∃ k : Nat, l.bound = l.start + l.step * k

/-- The bound, adjusted so that it does not belong to the loop. -/
def stop (l : IntegerLoop) : Int :=
  match l.comparison with
  | .lessOrEqual => l.bound + 1
  | .greaterOrEqual => l.bound - 1
  | .less | .greater | .unequal => l.bound

/-- Where the written range may end: at the adjusted bound, or before it if that does not fit. -/
def EndsAt (l : IntegerLoop) (b : Int) : Prop :=
  match l.comparison with
  | .lessOrEqual => b ≤ l.stop
  | .greaterOrEqual => l.stop ≤ b
  | .less | .greater | .unequal => b = l.stop

variable {l : IntegerLoop}

theorem takes_of_count {i : Int} {k : Nat}
    (runs : ∀ j < k, l.continues (i + l.step * (j : Int)) = true)
    (ends : l.continues (i + l.step * (k : Int)) = false) :
    l.Takes i ((List.range k).map fun (j : Nat) => i + l.step * j) := by
  induction k generalizing i with
  | zero => exact .done (by simpa using ends)
  | succ k ih =>
    have next (j : Nat) : i + l.step * ((j + 1 : Nat) : Int) = i + l.step + l.step * (j : Int) := by
      rw [Int.natCast_add, Int.mul_add, Int.natCast_one, Int.mul_one]
      omega
    have first : l.continues i = true := by simpa using runs 0 (Nat.succ_pos k)
    rw [next] at ends
    have rest := ih (fun j before => next j ▸ runs (j + 1) (by omega)) ends
    rw [List.range_succ_eq_map, List.map_cons, List.map_map]
    have shifted : ((fun (j : Nat) => i + l.step * (j : Int)) ∘ Nat.succ) =
        fun (j : Nat) => i + l.step + l.step * j := funext next
    rw [shifted, Int.natCast_zero, Int.mul_zero, Int.add_zero]
    exact .again first rest

theorem continues_eq_precedes (directed : l.comparison ≠ .unequal) (approaches : l.Approaches)
    (i : Int) : l.continues i = Range.precedes l.stop l.step i := by
  rw [continues, Range.precedes, stop]
  rw [Approaches] at approaches
  cases same : l.comparison with
  | less =>
    rw [same] at approaches
    rw [if_pos approaches]
    rfl
  | lessOrEqual =>
    rw [same] at approaches
    rw [if_pos approaches]
    exact decide_eq_decide.mpr Int.lt_add_one_iff.symm
  | greater =>
    rw [same] at approaches
    rw [if_neg (Int.not_lt.mpr (Int.le_of_lt approaches))]
    rfl
  | greaterOrEqual =>
    rw [same] at approaches
    rw [if_neg (Int.not_lt.mpr (Int.le_of_lt approaches))]
    exact decide_eq_decide.mpr Int.sub_one_lt_iff.symm
  | unequal => contradiction

theorem precedes_of_reached (nonzero : l.step ≠ 0) {j k : Nat}
    (reached : l.bound = l.start + l.step * (k : Int)) (before : j < k) :
    Range.precedes l.bound l.step (l.start + l.step * (j : Int)) = true := by
  have shorter : (j : Int) < k := Int.ofNat_lt.mpr before
  rw [Range.precedes, reached]
  split
  · next positive =>
    have less := Int.mul_lt_mul_of_pos_left shorter positive
    rw [decide_eq_true_eq]
    omega
  · next other =>
    have less := Int.mul_lt_mul_of_neg_left shorter (show l.step < 0 by omega)
    rw [decide_eq_true_eq]
    omega

theorem takes_values (nonzero : l.step ≠ 0) (approaches : l.Approaches) :
    l.Takes l.start (Range.values l.start l.stop l.step) := by
  by_cases directed : l.comparison = .unequal
  · have bound : l.stop = l.bound := by rw [stop, directed]
    rw [Approaches, directed] at approaches
    obtain ⟨k, reached⟩ := approaches
    have inside (j : Nat) (before : j < k) := precedes_of_reached nonzero reached before
    have ends : Range.precedes l.bound l.step (l.start + l.step * (k : Int)) = false := by
      simp [Range.precedes, reached]
    rw [bound, Range.values_eq nonzero inside ends]
    have stops : l.continues (l.start + l.step * (k : Int)) = false := by
      simp [continues, directed, Comparison.holds, reached]
    refine takes_of_count (fun j before => ?_) stops
    have differs : l.start + l.step * (j : Int) ≠ l.bound := by
      intro same
      have precedes := inside j before
      simp [Range.precedes, same] at precedes
    simp [continues, directed, Comparison.holds, differs]
  · obtain ⟨k, inside, ends⟩ := Range.exists_count l.start l.stop nonzero
    rw [Range.values_eq nonzero inside ends]
    refine takes_of_count (fun j before => ?_) ?_
    · rw [continues_eq_precedes directed approaches, inside j before]
    · rw [continues_eq_precedes directed approaches, ends]

/-- A loop that does not run starts at the end of its range, or behind it in one direction. -/
theorem idle_cases {b : Int} (idle : l.continues l.start = false) (ends : l.EndsAt b) :
    (b ≤ l.start ∧ (l.Approaches ↔ 0 < l.step)) ∨ (l.start ≤ b ∧ (l.Approaches ↔ l.step < 0)) ∨
      l.start = b := by
  rw [continues] at idle
  unfold EndsAt stop at ends
  unfold Approaches
  cases same : l.comparison with
  | less =>
    rw [same] at idle ends
    have passed : ¬l.start < l.bound := decide_eq_false_iff_not.mp idle
    have last : b = l.bound := ends
    exact .inl ⟨by omega, Iff.rfl⟩
  | lessOrEqual =>
    rw [same] at idle ends
    have passed : ¬l.start ≤ l.bound := decide_eq_false_iff_not.mp idle
    have last : b ≤ l.bound + 1 := ends
    exact .inl ⟨by omega, Iff.rfl⟩
  | greater =>
    rw [same] at idle ends
    have passed : ¬l.bound < l.start := decide_eq_false_iff_not.mp idle
    have last : b = l.bound := ends
    exact .inr (.inl ⟨by omega, Iff.rfl⟩)
  | greaterOrEqual =>
    rw [same] at idle ends
    have passed : ¬l.bound ≤ l.start := decide_eq_false_iff_not.mp idle
    have last : l.bound - 1 ≤ b := ends
    exact .inr (.inl ⟨by omega, Iff.rfl⟩)
  | unequal =>
    rw [same] at idle ends
    have equal : l.start = l.bound := not_not.mp (decide_eq_false_iff_not.mp idle)
    have last : b = l.bound := ends
    exact .inr (.inr (by omega))

theorem values_eq_nil_iff {b : Int} (nonzero : l.step ≠ 0) (idle : l.continues l.start = false)
    (ends : l.EndsAt b) : Range.values l.start b l.step = [] ↔ l.Approaches ∨ l.start = b := by
  rw [Range.values_eq_nil_iff nonzero, Range.precedes]
  rcases idle_cases idle ends with ⟨behind, approaches⟩ | ⟨behind, approaches⟩ | same
  · rw [approaches]
    split <;> (rw [decide_eq_false_iff_not]; omega)
  · rw [approaches]
    split <;> (rw [decide_eq_false_iff_not]; omega)
  · simp [same]

end IntegerLoop

/-! ## Loops of a program -/

namespace Context

variable (c : Context)

def integer? (e : Expr) : Option Int :=
  Numeral.integer? (c.text e.span).toList

inductive Moves (name : String) : Expr → Int → Prop
  | up {e : Expr} {s : Span} (moved : e.identName? = some name) :
      Moves name (.update e "++" s) 1
  | down {e : Expr} {s : Span} (moved : e.identName? = some name) :
      Moves name (.update e "--" s) (-1)
  | plus {left right : Expr} {s : Span} {n : Int} (moved : left.identName? = some name)
      (amount : c.integer? right = some n) : Moves name (.assign left "+=" right s) n
  | minus {left right : Expr} {s : Span} {n : Int} (moved : left.identName? = some name)
      (amount : c.integer? right = some n) : Moves name (.assign left "-=" right s) (-n)

/-- The head of a loop declares a variable with an integer, compares it with another one and moves
it by a third. -/
structure Counts (name : String) (init : Option Stmt) (test update : Option Expr)
    (l : IntegerLoop) : Prop where
  starts : ∃ kind value s t, init = some (.variableDecl kind [.mk (some name) (some value) s] t) ∧
    c.integer? value = some l.start
  compares : ∃ e left op right s, test = some e ∧ e.unparen = .binary left op right s ∧
    left.identName? = some name ∧ Comparison.ofText? op = some l.comparison ∧
    c.integer? right = some l.bound
  moves : ∃ e, update = some e ∧ c.Moves name e.unparen l.step

/-- The loop is written as one over a range: its variable, and start, end and step as arguments in
this order, which stand for these integers. -/
def WritesRange (name : String) (init : Option Stmt) (test update : Option Expr)
    (a b d : Int) : Prop :=
  ∃ start stop step : String,
    (∀ depth body span, c.stmt depth (.forLoop init test update body span) =
      .block c.grammar depth
        (c.grammar.control.forKeyword ++ " " ++ name ++ " " ++ c.grammar.control.inKeyword ++ " " ++
          c.grammar.control.rangeFunction ++ "(" ++ start ++ ", " ++ stop ++ ", " ++ step ++ ")")
        (c.stmt (depth + 1) body)) ∧
    Numeral.value? start.toList = some a ∧ Numeral.value? stop.toList = some b ∧
    Numeral.value? step.toList = some d

variable {c} {name : String} {init : Option Stmt} {test update : Option Expr} {l : IntegerLoop}

theorem loopStart?_of_counts (counts : c.Counts name init test update l) :
    ∃ start : String, c.loopStart? init = some (name, start) ∧
      Numeral.value? start.toList = some l.start := by
  obtain ⟨kind, value, s, t, rfl, found⟩ := counts.starts
  exact ⟨c.text value.span, rfl, Numeral.value?_of_integer? found⟩

theorem loopStep?_of_moves {e : Expr} {n : Int} (moves : c.Moves name e.unparen n) :
    ∃ step : String, c.loopStep? name (some e) = some step ∧
      Numeral.value? step.toList = some n := by
  rw [loopStep?, Option.map_some]
  generalize e.unparen = update at moves
  cases moves with
  | up moved => exact ⟨"1", by simp [moved], by decide⟩
  | down moved => exact ⟨"-1", by simp [moved], by decide⟩
  | @plus left right s n moved amount =>
    exact ⟨c.text right.span, by simp [moved], Numeral.value?_of_integer? amount⟩
  | @minus left right s n moved amount =>
    exact ⟨Bound.negate (c.text right.span), by simp [moved],
      Numeral.value?_of_integer? (Numeral.integer?_negate amount)⟩

theorem loopStop?_of_counts (counts : c.Counts name init test update l) :
    ∃ (stop : String) (b : Int), c.loopStop? name test = some stop ∧
      Numeral.value? stop.toList = some b ∧ l.EndsAt b ∧ (Bound.IsInt64 l.stop → b = l.stop) := by
  obtain ⟨e, left, op, right, s, rfl, shape, compared, comparison, found⟩ := counts.compares
  have kept := Numeral.value?_of_integer? found
  have moved := Numeral.exists_value?_offset found
  rw [loopStop?, Option.map_some, shape]
  simp only [compared, if_true]
  rw [Comparison.ofText?.eq_def] at comparison
  unfold IntegerLoop.EndsAt IntegerLoop.stop
  split at comparison
  case h_1 | h_3 | h_5 | h_6 =>
    rw [← Option.some.inj comparison]
    exact ⟨_, l.bound, rfl, kept, rfl, fun _ => rfl⟩
  case h_2 =>
    obtain ⟨b, value, exact, upper, -⟩ := moved 1
    rw [← Option.some.inj comparison]
    exact ⟨_, b, rfl, value, upper (by decide), exact⟩
  case h_4 =>
    obtain ⟨b, value, exact, -, lower⟩ := moved (-1)
    rw [← Option.some.inj comparison]
    exact ⟨_, b, rfl, value, lower (by decide), exact⟩
  case h_7 => cases comparison

theorem writesRange_of_counts (counts : c.Counts name init test update l) :
    ∃ b, c.WritesRange name init test update l.start b l.step ∧ l.EndsAt b ∧
      (Bound.IsInt64 l.stop → b = l.stop) := by
  obtain ⟨start, startFound, startValue⟩ := loopStart?_of_counts counts
  obtain ⟨stop, b, stopFound, stopValue, ends, exact⟩ := loopStop?_of_counts counts
  obtain ⟨e, rfl, moves⟩ := counts.moves
  obtain ⟨step, stepFound, stepValue⟩ := loopStep?_of_moves moves
  have found : c.countingLoop? init test (some e) = some ⟨name, start, stop, step⟩ := by
    simp only [countingLoop?, startFound, stopFound, stepFound, Option.bind_eq_bind,
      Option.bind_some, Option.pure_def]
  have written : c.WritesRange name init test (some e) l.start b l.step := by
    refine ⟨start, stop, step, fun depth body span => ?_, startValue, stopValue, stepValue⟩
    rw [stmt, found]
    rfl
  exact ⟨b, written, ends, exact⟩

/-- The variable is an integer that only the update moves: no statement of the body assigns to it.
Where the loop counts towards its bound, and the adjusted bound fits into 64 bits, the three arguments
of the written range, read as integers, list exactly the values it takes. -/
theorem forLoop_takes_range (counts : c.Counts name init test update l) (nonzero : l.step ≠ 0)
    (approaches : l.Approaches) (fits : Bound.IsInt64 l.stop) :
    ∃ a b d : Int, c.WritesRange name init test update a b d ∧
      l.Takes l.start (Range.values a b d) := by
  obtain ⟨b, written, -, exact⟩ := writesRange_of_counts counts
  refine ⟨l.start, b, l.step, written, ?_⟩
  rw [exact fits]
  exact l.takes_values nonzero approaches

theorem forLoop_takes_range_countdown :
    let text := "for (let i = 10; i >= -3; i -= 0x2) f(i);".toList
    let c : Context := ⟨.python, text⟩
    let l : IntegerLoop := ⟨10, .greaterOrEqual, -3, -2⟩
    let init := Stmt.variableDecl .blockScoped
      [.mk (some "i") (some (.literal .number ⟨13, 15⟩)) ⟨9, 15⟩] ⟨5, 16⟩
    let test := Expr.binary (.ident "i" ⟨17, 18⟩) ">="
      (.unary "-" (.literal .number ⟨23, 24⟩) ⟨22, 24⟩) ⟨17, 24⟩
    let update := Expr.assign (.ident "i" ⟨26, 27⟩) "-=" (.literal .number ⟨31, 34⟩) ⟨26, 34⟩
    ((Program.ofTree text (Tree.parse text)).emit .python text).text .python =
        "for i in range(10, -4, -0x2):\n    f(i)\n" ∧
      c.Counts "i" (some init) (some test) (some update) l ∧ l.Approaches ∧ Bound.IsInt64 l.stop ∧
      Range.values 10 (-4) (-2) = [10, 8, 6, 4, 2, 0, -2] ∧
      ∃ a b d : Int, c.WritesRange "i" (some init) (some test) (some update) a b d ∧
        l.Takes l.start (Range.values a b d) := by
  intro text c l init test update
  have counts : c.Counts "i" (some init) (some test) (some update) l :=
    { starts := ⟨_, _, _, _, rfl, by decide +kernel⟩
      compares := ⟨test, _, _, _, _, rfl, rfl, rfl, rfl, by decide +kernel⟩
      moves := ⟨update, rfl, .minus rfl (n := 2) (by decide +kernel)⟩ }
  have approaches : l.Approaches := show (-2 : Int) < 0 by decide
  have fits : Bound.IsInt64 l.stop := ⟨by decide, by decide⟩
  exact ⟨by decide +kernel, counts, approaches, fits, by decide +kernel,
    forLoop_takes_range counts (by decide) approaches fits⟩

/-- Where the test fails at once, the written range is empty exactly if the loop counts towards its
bound or the range begins where it ends. -/
theorem idle_range_empty_iff (counts : c.Counts name init test update l) (nonzero : l.step ≠ 0)
    (idle : l.continues l.start = false) :
    ∃ a b d : Int, c.WritesRange name init test update a b d ∧
      (Range.values a b d = [] ↔ l.Approaches ∨ a = b) := by
  obtain ⟨b, written, ends, -⟩ := writesRange_of_counts counts
  exact ⟨l.start, b, l.step, written, l.values_eq_nil_iff nonzero idle ends⟩

theorem idle_range_empty_iff_boundary :
    let text := "for (let i = 5; i <= 4; i--) f(i);".toList
    let c : Context := ⟨.python, text⟩
    let l : IntegerLoop := ⟨5, .lessOrEqual, 4, -1⟩
    let init := Stmt.variableDecl .blockScoped
      [.mk (some "i") (some (.literal .number ⟨13, 14⟩)) ⟨9, 14⟩] ⟨5, 15⟩
    let test := Expr.binary (.ident "i" ⟨16, 17⟩) "<=" (.literal .number ⟨21, 22⟩) ⟨16, 22⟩
    let update := Expr.update (.ident "i" ⟨24, 25⟩) "--" ⟨24, 27⟩
    ((Program.ofTree text (Tree.parse text)).emit .python text).text .python =
        "for i in range(5, 5, -1):\n    f(i)\n" ∧
      c.Counts "i" (some init) (some test) (some update) l ∧ l.continues l.start = false ∧
      ∃ a b d : Int, c.WritesRange "i" (some init) (some test) (some update) a b d ∧
        (Range.values a b d = [] ↔ l.Approaches ∨ a = b) := by
  intro text c l init test update
  have counts : c.Counts "i" (some init) (some test) (some update) l :=
    { starts := ⟨_, _, _, _, rfl, by decide +kernel⟩
      compares := ⟨test, _, _, _, _, rfl, rfl, rfl, rfl, by decide +kernel⟩
      moves := ⟨update, rfl, .down rfl⟩ }
  exact ⟨by decide +kernel, counts, by decide, idle_range_empty_iff counts (by decide) (by decide)⟩

/-- A loop that counts down and is to stay below its bound does not run, its range does. -/
theorem idle_loop_counts_away :
    let text := "for (let i = 5; i < 0; i--) f(i);".toList
    let c : Context := ⟨.python, text⟩
    let l : IntegerLoop := ⟨5, .less, 0, -1⟩
    ((Program.ofTree text (Tree.parse text)).emit .python text).text .python =
        "for i in range(5, 0, -1):\n    f(i)\n" ∧
      c.Counts "i"
        (some (.variableDecl .blockScoped
          [.mk (some "i") (some (.literal .number ⟨13, 14⟩)) ⟨9, 14⟩] ⟨5, 15⟩))
        (some (.binary (.ident "i" ⟨16, 17⟩) "<" (.literal .number ⟨20, 21⟩) ⟨16, 21⟩))
        (some (.update (.ident "i" ⟨23, 24⟩) "--" ⟨23, 26⟩)) l ∧
      l.continues l.start = false ∧ Range.values 5 0 (-1) = [5, 4, 3, 2, 1] := by
  intro text c l
  have counts : c.Counts "i"
      (some (.variableDecl .blockScoped
        [.mk (some "i") (some (.literal .number ⟨13, 14⟩)) ⟨9, 14⟩] ⟨5, 15⟩))
      (some (.binary (.ident "i" ⟨16, 17⟩) "<" (.literal .number ⟨20, 21⟩) ⟨16, 21⟩))
      (some (.update (.ident "i" ⟨23, 24⟩) "--" ⟨23, 26⟩)) l :=
    { starts := ⟨_, _, _, _, rfl, by decide +kernel⟩
      compares := ⟨_, _, _, _, _, rfl, rfl, rfl, rfl, by decide +kernel⟩
      moves := ⟨_, rfl, .down rfl⟩ }
  exact ⟨by decide +kernel, counts, by decide, by decide +kernel⟩

end Context

end Dialect
