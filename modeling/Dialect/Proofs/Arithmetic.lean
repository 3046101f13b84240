import Dialect.Parsing.Operator
import Dialect.Proofs.Numerals
import Mathlib.Algebra.Order.Ring.Int

/-!
# Arithmetic terms

Words, parentheses, minus signs and the operators `*`, `+`, `-`, `<<` and `>>`. Tokens become a term
by the strength of the operators. Main statement: the term read from some tokens is the only one
that has these tokens and needs no further parentheses.
-/

namespace Dialect.Arithmetic

/-! ## Terms and their values -/

inductive Operator where
  | times
  | plus
  | minus
  | left
  | right
  deriving DecidableEq

namespace Operator

def text : Operator → String
  | times => "*"
  | plus => "+"
  | minus => "-"
  | left => "<<"
  | right => ">>"

/-- How tightly the operator binds. -/
def level (op : Operator) : Nat :=
  ((Parsing.strengthOf? op.text).map (·.level)).getD 0

/-- The result for two integers; an amount to shift by is not negative. -/
def apply : Operator → Int → Int → Option Int
  | times, m, n => some (m * n)
  | plus, m, n => some (m + n)
  | minus, m, n => some (m - n)
  | left, m, n => if 0 ≤ n then some (m * 2 ^ n.toNat) else none
  | right, m, n => if 0 ≤ n then some (m / 2 ^ n.toNat) else none

@[simp] theorem level_times : times.level = 11 := by decide
@[simp] theorem level_plus : plus.level = 10 := by decide
@[simp] theorem level_minus : minus.level = 10 := by decide
@[simp] theorem level_left : left.level = 9 := by decide
@[simp] theorem level_right : right.level = 9 := by decide

end Operator

/-- Behind a minus sign stands nothing that binds less than this. -/
def signLevel : Nat := 13

/-- Words and parentheses are not torn apart by any operator. -/
def closedLevel : Nat := 14

theorem signLevel_le_closedLevel : signLevel ≤ closedLevel := by decide

theorem Operator.level_lt_signLevel (op : Operator) : op.level < signLevel := by
  cases op <;> decide

inductive Term where
  /-- An integer literal or a name. -/
  | word (cs : List Char)
  | group (inner : Term)
  | negative (inner : Term)
  | binary (op : Operator) (left right : Term)
  deriving DecidableEq

/-- A literal, or a word that does not begin with a digit. -/
def isOperand (cs : List Char) : Bool :=
  (Numeral.natural? cs).isSome || cs.head?.any fun ch => !ch.isDigit

inductive Token where
  | word (cs : List Char)
  | operator (op : Operator)
  | opening
  | closing
  deriving DecidableEq

namespace Term

/-- The value, where names stand for integers. -/
def value (names : List Char → Int) : Term → Option Int
  | word cs => some ((Numeral.natural? cs).elim (names cs) Int.ofNat)
  | group inner => inner.value names
  | negative inner => (inner.value names).map fun n => -n
  | binary op left right =>
    (left.value names).bind fun m => (right.value names).bind fun n => op.apply m n

def level : Term → Nat
  | word _ | group _ => closedLevel
  | negative _ => signLevel
  | binary op _ _ => op.level

/-- Words are literals or names, and no operand would be torn apart without parentheses. -/
def Fits : Term → Prop
  | word cs => isOperand cs = true
  | group inner => inner.Fits
  | negative inner => inner.Fits ∧ signLevel ≤ inner.level
  | binary op left right => left.Fits ∧ right.Fits ∧ op.level ≤ left.level ∧ op.level < right.level

def tokens : Term → List Token
  | word cs => [.word cs]
  | group inner => .opening :: (inner.tokens ++ [.closing])
  | negative inner => .operator .minus :: inner.tokens
  | binary op left right => left.tokens ++ .operator op :: right.tokens

end Term

/-! ## Tokens of a term -/

/-- The term begins with a minus sign. -/
def Term.signed : Term → Bool
  | .negative _ => true
  | .binary _ left _ => left.signed
  | _ => false

theorem Term.tokens_ne_nil (e : Term) : e.tokens ≠ [] := by
  cases e <;> simp [tokens]

/-- The only operator that begins a term is the minus sign. -/
theorem Term.head_tokens (e : Term) (op : Operator) :
    e.tokens.head? = some (.operator op) ↔ op = .minus ∧ e.signed = true := by
  induction e with
  | word cs => simp [tokens, signed]
  | group inner => simp [tokens, signed]
  | negative inner => simp [tokens, signed, eq_comm]
  | binary other left right ih =>
    obtain ⟨t, ts, same⟩ := List.exists_cons_of_ne_nil left.tokens_ne_nil
    rw [tokens, signed, ← ih, same]
    rfl

theorem Term.isOperand_of_mem_tokens {e : Term} (fits : e.Fits) {cs : List Char}
    (member : .word cs ∈ e.tokens) : isOperand cs = true := by
  induction e with
  | word ds =>
    obtain rfl : cs = ds := by simpa [tokens] using member
    exact fits
  | group inner ih => exact ih fits (by simpa [tokens] using member)
  | negative inner ih => exact ih fits.1 (by simpa [tokens] using member)
  | binary op left right ihLeft ihRight =>
    have parts : .word cs ∈ left.tokens ∨ .word cs ∈ right.tokens := by
      simpa [tokens] using member
    rcases parts with inLeft | inRight
    · exact ihLeft fits.1 inLeft
    · exact ihRight fits.2.1 inRight

/-! ## Reading tokens -/

/-- What waits for an operand. -/
inductive Frame where
  | negative
  | operand (left : Term) (op : Operator)
  | group

/-- Completes the waiting operations that bind at least as tightly as `level`. -/
def complete (level : Nat) : List Frame → Term → List Frame × Term
  | .negative :: fs, e => complete level fs (.negative e)
  | .operand left op :: fs, e =>
    if level ≤ op.level then complete level fs (.binary op left e) else (.operand left op :: fs, e)
  | .group :: fs, e => (.group :: fs, e)
  | [], e => ([], e)

/-- The term that some tokens make up, with an operand before them or none. -/
def assemble : List Frame → Option Term → List Token → Option Term
  | fs, none, .word cs :: ts =>
    if isOperand cs then assemble fs (some (.word cs)) ts else none
  | fs, none, .operator .minus :: ts => assemble (.negative :: fs) none ts
  | fs, none, .opening :: ts => assemble (.group :: fs) none ts
  | fs, some e, .operator op :: ts =>
    let done := complete op.level fs e
    assemble (.operand done.2 op :: done.1) none ts
  | fs, some e, .closing :: ts =>
    match complete 0 fs e with
    | (.group :: fs, e) => assemble fs (some (.group e)) ts
    | _ => none
  | fs, some e, [] =>
    match complete 0 fs e with
    | ([], e) => some e
    | _ => none
  | _, _, _ => none

/-- An operand of this level may stand behind the frame. -/
def Frame.Admits (level : Nat) : Frame → Prop
  | negative => signLevel ≤ level
  | operand _ op => op.level < level
  | group => True

/-- An operand of this level may stand behind the last frame. -/
def Admits (fs : List Frame) (level : Nat) : Prop :=
  ∀ f ∈ fs.head?, f.Admits level

theorem Admits.mono {fs : List Frame} {m n : Nat} (admits : Admits fs m) (le : m ≤ n) :
    Admits fs n := by
  intro f first
  have := admits f first
  cases f with
  | negative => exact Nat.le_trans this le
  | operand l op => exact Nat.lt_of_lt_of_le this le
  | group => trivial

/-- What binds as tightly as a minus sign may stand behind any frame. -/
theorem admits_of_signLevel_le (fs : List Frame) {level : Nat} (le : signLevel ≤ level) :
    Admits fs level := by
  intro f _
  cases f with
  | negative => exact le
  | operand l op => exact Nat.lt_of_lt_of_le op.level_lt_signLevel le
  | group => trivial

/-! ### Terms are read back -/

/-- The next token does not tear apart an operand of this level. -/
def Spares (level : Nat) (ts : List Token) : Prop :=
  ∀ op, ts.head? = some (.operator op) → op.level ≤ level

theorem Spares.mono {ts : List Token} {m n : Nat} (spares : Spares m ts) (le : m ≤ n) :
    Spares n ts :=
  fun op next => Nat.le_trans (spares op next) le

theorem complete_of_admits {fs : List Frame} {level : Nat} (admits : Admits fs level)
    (below : level < signLevel) (e : Term) : complete level fs e = (fs, e) := by
  cases fs with
  | nil => rfl
  | cons f fs =>
    have first := admits f rfl
    cases f with
    | negative => exact absurd first (Nat.not_le.mpr below)
    | operand l op => rw [complete, if_neg (Nat.not_le.mpr first)]
    | group => rfl

/-- Only what is completed before the next token counts. -/
theorem assemble_congr {fs gs : List Frame} {d e : Term} {ts : List Token}
    (ends : complete 0 fs d = complete 0 gs e)
    (continues : ∀ op, ts.head? = some (.operator op) →
      complete op.level fs d = complete op.level gs e) :
    assemble fs (some d) ts = assemble gs (some e) ts := by
  cases ts with
  | nil => rw [assemble, assemble, ends]
  | cons t ts =>
    cases t with
    | word cs => rfl
    | operator op => rw [assemble, assemble, continues op rfl]
    | opening => rfl
    | closing => rw [assemble, assemble, ends]

theorem assemble_tokens {e : Term} (fits : e.Fits) {fs : List Frame} {ts : List Token}
    (admits : Admits fs e.level) (spares : Spares e.level ts) :
    assemble fs none (e.tokens ++ ts) = assemble fs (some e) ts := by
  induction e generalizing fs ts with
  | word cs =>
    have operand : isOperand cs = true := fits
    rw [Term.tokens, List.singleton_append, assemble, if_pos operand]
  | group inner ih =>
    have inside : Admits (.group :: fs) inner.level := by
      intro f first
      cases first
      trivial
    have closes : Spares inner.level (.closing :: ts) := fun op next => by cases next
    rw [Term.tokens, List.cons_append, List.append_assoc, List.singleton_append, assemble,
      ih fits inside closes, assemble, complete]
  | negative inner ih =>
    have behind : Admits (.negative :: fs) inner.level := by
      intro f first
      cases first
      exact fits.2
    have turn (level : Nat) :
        complete level (.negative :: fs) inner = complete level fs (.negative inner) := rfl
    rw [Term.tokens, List.cons_append, assemble, ih fits.1 behind (spares.mono fits.2)]
    exact assemble_congr (turn 0) fun op _ => turn op.level
  | binary op left right ihLeft ihRight =>
    obtain ⟨fitsLeft, fitsRight, leftLevel, rightLevel⟩ := fits
    have next : Spares left.level (.operator op :: (right.tokens ++ ts)) := by
      intro other same
      cases same
      exact leftLevel
    have behind : Admits (.operand left op :: fs) right.level := by
      intro f first
      cases first
      exact rightLevel
    have join (level : Nat) (le : level ≤ op.level) :
        complete level (.operand left op :: fs) right =
          complete level fs (.binary op left right) := by
      rw [complete, if_pos le]
    have alone : complete op.level fs left = (fs, left) :=
      complete_of_admits admits op.level_lt_signLevel left
    rw [Term.tokens, List.append_assoc, List.cons_append,
      ihLeft fitsLeft (admits.mono leftLevel) next, assemble, alone,
      ihRight fitsRight behind (spares.mono (Nat.le_of_lt rightLevel))]
    exact assemble_congr (join 0 (Nat.zero_le _)) fun other same => join _ (spares other same)

/-! ### What is read has the tokens -/

/-- The tokens of the frames, the last frame first in the list. -/
def frameTokens : List Frame → List Token
  | [] => []
  | .negative :: fs => frameTokens fs ++ [.operator .minus]
  | .operand left op :: fs => frameTokens fs ++ (left.tokens ++ [.operator op])
  | .group :: fs => frameTokens fs ++ [.opening]

/-- Each frame may stand behind the one before it. -/
def Stacked : List Frame → Prop
  | [] => True
  | .negative :: fs => Stacked fs ∧ Admits fs signLevel
  | .operand left op :: fs => Stacked fs ∧ left.Fits ∧ op.level ≤ left.level ∧ Admits fs op.level
  | .group :: fs => Stacked fs

/-- The operand may stand behind the frames. -/
structure Placed (fs : List Frame) (e : Term) : Prop where
  stacked : Stacked fs
  fits : e.Fits
  admits : Admits fs e.level

theorem complete_placed {fs : List Frame} {e : Term} {level : Nat} (placed : Placed fs e)
    (below : level < signLevel) (above : level ≤ e.level) :
    Placed (complete level fs e).1 (complete level fs e).2 ∧
      level ≤ (complete level fs e).2.level ∧ Admits (complete level fs e).1 level ∧
      frameTokens (complete level fs e).1 ++ (complete level fs e).2.tokens =
        frameTokens fs ++ e.tokens := by
  induction fs generalizing e with
  | nil => exact ⟨placed, above, fun f first => by simp [complete] at first, rfl⟩
  | cons f fs ih =>
    cases f with
    | negative =>
      have waiting : Placed fs (.negative e) :=
        ⟨placed.stacked.1, ⟨placed.fits, placed.admits _ rfl⟩, placed.stacked.2⟩
      obtain ⟨done, stays, admits, tokens⟩ := ih waiting (Nat.le_of_lt below)
      refine ⟨done, stays, admits, tokens.trans ?_⟩
      simp [frameTokens, Term.tokens]
    | operand left op =>
      rw [complete]
      split
      · next le =>
        obtain ⟨stacked, fitsLeft, leftLevel, admits⟩ := placed.stacked
        have waiting : Placed fs (.binary op left e) :=
          ⟨stacked, ⟨fitsLeft, placed.fits, leftLevel, placed.admits _ rfl⟩, admits⟩
        obtain ⟨done, stays, admits, tokens⟩ := ih waiting le
        refine ⟨done, stays, admits, tokens.trans ?_⟩
        simp [frameTokens, Term.tokens]
      · next gt =>
        refine ⟨placed, above, fun f first => ?_, rfl⟩
        cases first
        exact Nat.not_le.mp gt
    | group =>
      refine ⟨placed, above, fun f first => ?_, rfl⟩
      cases first
      trivial

theorem tokens_of_assemble {fs : List Frame} {operand : Option Term} {ts : List Token} {e : Term}
    (stacked : Stacked fs) (placed : ∀ d ∈ operand, Placed fs d ∧ signLevel ≤ d.level)
    (read : assemble fs operand ts = some e) :
    e.Fits ∧ e.tokens = frameTokens fs ++ (operand.elim [] Term.tokens ++ ts) := by
  have positive : 0 < signLevel := by decide
  have closed (fs : List Frame) : Admits fs closedLevel :=
    admits_of_signLevel_le fs signLevel_le_closedLevel
  have none {fs : List Frame} : ∀ d ∈ (none : Option Term), Placed fs d ∧ signLevel ≤ d.level :=
    fun d member => by cases member
  fun_induction assemble fs operand ts
  case case1 fs cs ts isWord ih =>
    refine ih stacked (fun d member => ?_) read
    cases member
    exact ⟨⟨stacked, isWord, closed fs⟩, signLevel_le_closedLevel⟩
  case case3 fs ts ih =>
    obtain ⟨fits, tokens⟩ := ih ⟨stacked, admits_of_signLevel_le fs (Nat.le_refl _)⟩ none read
    refine ⟨fits, tokens.trans ?_⟩
    simp [frameTokens]
  case case4 fs ts ih =>
    obtain ⟨fits, tokens⟩ := ih stacked none read
    refine ⟨fits, tokens.trans ?_⟩
    simp [frameTokens]
  case case5 fs d op ts done ih =>
    obtain ⟨before, tight⟩ := placed d rfl
    obtain ⟨after, stays, admits, same⟩ := complete_placed before op.level_lt_signLevel
      (Nat.le_trans (Nat.le_of_lt op.level_lt_signLevel) tight)
    obtain ⟨fits, tokens⟩ := ih ⟨after.stacked, after.fits, stays, admits⟩ none read
    refine ⟨fits, tokens.trans ?_⟩
    simp only [frameTokens, Option.elim, List.nil_append, List.append_assoc, List.singleton_append]
    rw [← List.append_assoc, same, List.append_assoc]
  case case6 fs d ts gs inner completed ih =>
    obtain ⟨before, -⟩ := placed d rfl
    obtain ⟨after, -, -, same⟩ := complete_placed before positive (Nat.zero_le _)
    rw [completed] at after same
    obtain ⟨fits, tokens⟩ := ih after.stacked (fun d member => by
      cases member
      exact ⟨⟨after.stacked, after.fits, closed gs⟩, signLevel_le_closedLevel⟩) read
    refine ⟨fits, ?_⟩
    calc e.tokens = frameTokens gs ++ ((Term.group inner).tokens ++ ts) := tokens
      _ = frameTokens (.group :: gs) ++ inner.tokens ++ .closing :: ts := by
        simp [frameTokens, Term.tokens]
      _ = frameTokens fs ++ d.tokens ++ .closing :: ts := by rw [same]
      _ = frameTokens fs ++ (d.tokens ++ .closing :: ts) := List.append_assoc _ _ _
  case case8 fs d inner completed =>
    obtain ⟨before, -⟩ := placed d rfl
    obtain ⟨after, -, -, same⟩ := complete_placed before positive (Nat.zero_le _)
    rw [completed] at after same
    cases read
    exact ⟨after.fits, by rw [List.append_nil]; exact same⟩
  all_goals cases read

/-- The term read from some tokens is the one that has them. -/
theorem assemble_eq_some_iff {ts : List Token} {e : Term} :
    assemble [] none ts = some e ↔ e.Fits ∧ e.tokens = ts := by
  constructor
  · intro read
    have start : Stacked [] := trivial
    exact tokens_of_assemble start (fun d member => by cases member) read
  · rintro ⟨fits, rfl⟩
    have spares : Spares e.level [] := fun op next => by cases next
    have admits : Admits [] e.level := fun f first => by cases first
    have back := assemble_tokens fits admits spares
    rw [List.append_nil] at back
    rw [back]
    rfl

end Dialect.Arithmetic
