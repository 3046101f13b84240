import Dialect.Emission.Bound
import Dialect.Json.Parsing
import Mathlib.Data.Nat.Digits.Defs

/-!
# Integers in texts

An integer literal is decimal, without leading zeros, or has a base mark, and may have low lines
between its digits; so it is read in the source and in the target dialect. Main statements: the text
of a bound plus a number, and that of a step with its sign turned, stand for the integers they
should.
-/

namespace Dialect

def Bound.IsInt64 (n : Int) : Prop :=
  -0x8000000000000000 ≤ n ∧ n < 0x8000000000000000

namespace Numeral

/-! ## Reading -/

def digit? (base : Nat) (ch : Char) : Option Nat :=
  (Json.hexDigit? ch).filter (· < base)

/-- The digits behind those read so far; a low line may stand before each of them. -/
def extend? (base : Nat) : Nat → List Char → Option Nat
  | n, [] => some n
  | n, '_' :: ch :: cs => (digit? base ch).bind fun d => extend? base (base * n + d) cs
  | n, ch :: cs => (digit? base ch).bind fun d => extend? base (base * n + d) cs

def digits? (base : Nat) : List Char → Option Nat
  | [] => none
  | ch :: cs => (digit? base ch).bind fun d => extend? base d cs

def base? : Char → Option Nat
  | 'x' | 'X' => some 16
  | 'o' | 'O' => some 8
  | 'b' | 'B' => some 2
  | _ => none

def natural? : List Char → Option Nat
  | ['0'] => some 0
  | '0' :: mark :: cs => (base? mark).bind fun base => digits? base cs
  | cs => digits? 10 cs

/-- A literal at the front of a text, and what follows it. -/
def front? (cs : List Char) : Option (Nat × List Char) :=
  (natural? (cs.takeWhile Text.isIdentChar)).map fun n => (n, cs.dropWhile Text.isIdentChar)

/-- A literal with a minus sign before it or none, and what follows it. -/
def term? : List Char → Option (Int × List Char)
  | '-' :: cs => (front? (Text.trimStart cs)).map fun t => (-(t.1 : Int), t.2)
  | cs => (front? cs).map fun t => ((t.1 : Int), t.2)

def integer? (cs : List Char) : Option Int :=
  match term? cs with
  | some (n, []) => some n
  | _ => none

/-- An integer, or one plus or minus another. -/
def value? (cs : List Char) : Option Int :=
  match term? cs with
  | some (n, []) => some n
  | some (n, ' ' :: '+' :: ' ' :: cs) => (integer? cs).map (n + ·)
  | some (n, ' ' :: '-' :: ' ' :: cs) => (integer? cs).map (n - ·)
  | _ => none

/-! ## Digits -/

theorem digit?_of_isDigit {ch : Char} (digit : ch.isDigit = true) :
    digit? 10 ch = some (ch.toNat - '0'.toNat) := by
  obtain ⟨lower, upper⟩ := Char.isDigit_iff_toNat.mp digit
  have inside : '0' ≤ ch ∧ ch ≤ '9' := ⟨lower, upper⟩
  have first : '0'.toNat = 48 := rfl
  have last : '9'.toNat = 57 := rfl
  have small : ch.toNat - 48 < 10 := by omega
  rw [digit?, Json.hexDigit?, if_pos inside, first]
  simp [small]

/-- A digit of a base above ten may be a letter. -/
def IsHexLetter (ch : Char) : Prop :=
  ('a' ≤ ch ∧ ch ≤ 'f') ∨ ('A' ≤ ch ∧ ch ≤ 'F')

theorem digit?_cases {base d : Nat} {ch : Char} (found : digit? base ch = some d) :
    ch.isDigit = true ∨ IsHexLetter ch ∧ 10 < base := by
  obtain ⟨hex, below⟩ := Option.filter_eq_some_iff.mp found
  rw [decide_eq_true_eq] at below
  rw [Json.hexDigit?] at hex
  split at hex
  · next inside => exact .inl (Char.isDigit_iff_toNat.mpr inside)
  · split at hex
    · next inside =>
      have lower : 97 ≤ ch.toNat := inside.1
      have value := Option.some.inj hex
      exact .inr ⟨.inl inside, by omega⟩
    · split at hex
      · next inside =>
        have lower : 65 ≤ ch.toNat := inside.1
        have value := Option.some.inj hex
        exact .inr ⟨.inr inside, by omega⟩
      · cases hex

theorem isDigit_of_digit? {ch : Char} {d : Nat} (found : digit? 10 ch = some d) :
    ch.isDigit = true := by
  rcases digit?_cases found with digit | ⟨-, large⟩
  · exact digit
  · omega

theorem isIdentChar_of_isDigit {ch : Char} (digit : ch.isDigit = true) :
    Text.isIdentChar ch = true := by
  have ascii : ch.toNat < 0x80 := Nat.lt_of_le_of_lt (Char.isDigit_iff_toNat.mp digit).2 (by decide)
  rw [Text.isIdentChar, Text.isAlphanumeric, if_pos ascii, Text.isAsciiAlphanumeric, digit,
    Bool.or_true]
  rfl

theorem isIdentChar_of_isAlpha {ch : Char} (alpha : ch.isAlpha = true) :
    Text.isIdentChar ch = true := by
  have ascii : ch.toNat < 0x80 := by
    rcases (Bool.or_eq_true _ _).mp alpha with upper | lower
    · have bound : ch.toNat ≤ 90 := (of_decide_eq_true upper).2
      omega
    · have bound : ch.toNat ≤ 122 := of_decide_eq_true ((Bool.and_eq_true _ _).mp lower).2
      omega
  rw [Text.isIdentChar, Text.isAlphanumeric, if_pos ascii, Text.isAsciiAlphanumeric, alpha]
  rfl

theorem isIdentChar_of_isHexLetter {ch : Char} (letter : IsHexLetter ch) :
    Text.isIdentChar ch = true := by
  apply isIdentChar_of_isAlpha
  apply (Bool.or_eq_true _ _).mpr
  rcases letter with ⟨lower, upper⟩ | ⟨lower, upper⟩
  · have below : ch ≤ 'z' := Char.le_trans upper (by decide)
    exact .inr ((Bool.and_eq_true _ _).mpr ⟨decide_eq_true lower, decide_eq_true below⟩)
  · have below : ch ≤ 'Z' := Char.le_trans upper (by decide)
    exact .inl (decide_eq_true ⟨lower, below⟩)

theorem isIdentChar_of_digit? {base d : Nat} {ch : Char} (found : digit? base ch = some d) :
    Text.isIdentChar ch = true := by
  rcases digit?_cases found with digit | ⟨letter, -⟩
  · exact isIdentChar_of_isDigit digit
  · exact isIdentChar_of_isHexLetter letter

theorem extend?_of_isDigit {cs : List Char} (digits : ∀ ch ∈ cs, ch.isDigit = true) (n : Nat) :
    extend? 10 n cs = some (Nat.ofDigitChars 10 cs n) := by
  induction cs generalizing n with
  | nil => rfl
  | cons ch cs ih =>
    obtain ⟨digit, digits⟩ := List.forall_mem_cons.mp digits
    rw [Nat.ofDigitChars_cons, ← ih digits, extend?.eq_def]
    split
    · contradiction
    · next same =>
      cases same
      contradiction
    · next same =>
      cases same
      rw [digit?_of_isDigit digit]
      rfl

theorem isIdentChar_of_extend? {base n m : Nat} {cs : List Char}
    (found : extend? base n cs = some m) : ∀ ch ∈ cs, Text.isIdentChar ch = true := by
  fun_induction extend? base n cs with
  | case1 => exact List.forall_mem_nil _
  | case2 n ch cs ih =>
    obtain ⟨d, digit, rest⟩ := Option.bind_eq_some_iff.mp found
    exact List.forall_mem_cons.mpr
      ⟨by decide, List.forall_mem_cons.mpr ⟨isIdentChar_of_digit? digit, ih d rest⟩⟩
  | case3 n ch cs _ ih =>
    obtain ⟨d, digit, rest⟩ := Option.bind_eq_some_iff.mp found
    exact List.forall_mem_cons.mpr ⟨isIdentChar_of_digit? digit, ih d rest⟩

theorem isIdentChar_of_digits? {base n : Nat} {cs : List Char} (found : digits? base cs = some n) :
    ∀ ch ∈ cs, Text.isIdentChar ch = true := by
  cases cs with
  | nil => cases found
  | cons ch cs =>
    obtain ⟨d, digit, rest⟩ := Option.bind_eq_some_iff.mp found
    exact List.forall_mem_cons.mpr ⟨isIdentChar_of_digit? digit, isIdentChar_of_extend? rest⟩

/-! ## Literals -/

/-- The marks of the bases other than ten. -/
def baseMarks : List Char :=
  ['x', 'X', 'o', 'O', 'b', 'B']

theorem mem_baseMarks {mark : Char} {base : Nat} (found : base? mark = some base) :
    mark ∈ baseMarks := by
  rw [base?.eq_def] at found
  split at found
  case h_7 => cases found
  all_goals simp [baseMarks]

/-- A literal begins with a decimal digit and consists of characters that may stand in names. -/
theorem natural?_shape {cs : List Char} {n : Nat} (found : natural? cs = some n) :
    (∃ ch rest, cs = ch :: rest ∧ ch.isDigit = true) ∧ ∀ ch ∈ cs, Text.isIdentChar ch = true := by
  have zero : Text.isIdentChar '0' = true := by decide
  rw [natural?.eq_def] at found
  split at found
  · exact ⟨⟨'0', [], rfl, rfl⟩, List.forall_mem_singleton.mpr zero⟩
  · next mark cs =>
    obtain ⟨base, marked, digits⟩ := Option.bind_eq_some_iff.mp found
    have marks : baseMarks.all Text.isIdentChar = true := by decide
    have ident : Text.isIdentChar mark = true :=
      List.all_eq_true.mp marks mark (mem_baseMarks marked)
    exact ⟨⟨'0', mark :: cs, rfl, rfl⟩, List.forall_mem_cons.mpr
      ⟨zero, List.forall_mem_cons.mpr ⟨ident, isIdentChar_of_digits? digits⟩⟩⟩
  · refine ⟨?_, isIdentChar_of_digits? found⟩
    cases cs with
    | nil => cases found
    | cons ch cs =>
      obtain ⟨d, digit, -⟩ := Option.bind_eq_some_iff.mp found
      exact ⟨ch, cs, rfl, isDigit_of_digit? digit⟩

/-- Decimal digits, if they are a literal, stand for what they stand for as digits. -/
theorem natural?_of_isDigit {cs : List Char} {n : Nat} (digits : ∀ ch ∈ cs, ch.isDigit = true)
    (found : natural? cs = some n) : n = Nat.ofDigitChars 10 cs 0 := by
  rw [natural?.eq_def] at found
  split at found
  · exact (Option.some.inj found).symm
  · next mark cs =>
    obtain ⟨base, marked, -⟩ := Option.bind_eq_some_iff.mp found
    have marks : baseMarks.all (fun ch => !ch.isDigit) = true := by decide
    have letter := List.all_eq_true.mp marks mark (mem_baseMarks marked)
    rw [digits mark (by simp)] at letter
    contradiction
  · cases cs with
    | nil => cases found
    | cons ch cs =>
      obtain ⟨digit, digits⟩ := List.forall_mem_cons.mp digits
      rw [digits?, digit?_of_isDigit digit, Option.bind_some, extend?_of_isDigit digits] at found
      rw [Nat.ofDigitChars_cons, Nat.mul_zero, Nat.zero_add]
      exact (Option.some.inj found).symm

theorem isDigit_of_mem_toDigits {n : Nat} : ∀ ch ∈ Nat.toDigits 10 n, ch.isDigit = true :=
  fun _ member => Nat.isDigit_of_mem_toDigits (by decide) (by decide) member

/-- The decimal digits of a number have no leading zero. -/
theorem head_toDigits {n : Nat} (positive : 0 < n) :
    ∃ ch cs, Nat.toDigits 10 n = ch :: cs ∧ ch ≠ '0' := by
  induction n using Nat.strong_induction_on with
  | h n ih =>
    rw [Nat.toDigits_eq_if (by decide)]
    split
    · next small =>
      refine ⟨n.digitChar, [], rfl, fun zero => ?_⟩
      have digits : ∀ d < 10, d.digitChar = '0' → d = 0 := by decide
      exact absurd (digits n small zero) (by omega)
    · next large =>
      obtain ⟨ch, cs, same, nonzero⟩ := ih (n / 10) (by omega) (by omega)
      exact ⟨ch, cs ++ [(n % 10).digitChar], by rw [same, List.cons_append], nonzero⟩

theorem natural?_toDigits (n : Nat) : natural? (Nat.toDigits 10 n) = some n := by
  rcases Nat.eq_zero_or_pos n with rfl | positive
  · rfl
  · obtain ⟨ch, cs, same, nonzero⟩ := head_toDigits positive
    have digits := isDigit_of_mem_toDigits (n := n)
    have value := Nat.ofDigitChars_toDigits (b := 10) (n := n) (by decide) (by decide)
    rw [same] at digits value ⊢
    obtain ⟨digit, digits⟩ := List.forall_mem_cons.mp digits
    rw [natural?.eq_def]
    split
    · next only => exact absurd (List.cons.inj only).1 nonzero
    · next marked => exact absurd (List.cons.inj marked).1 nonzero
    · rw [digits?, digit?_of_isDigit digit, Option.bind_some, extend?_of_isDigit digits]
      rw [Nat.ofDigitChars_cons, Nat.mul_zero, Nat.zero_add] at value
      rw [value]

/-! ## Blanks -/

/-- The code points of all blanks. -/
def blankPoints : List Nat :=
  List.range' 0x9 5 ++ [0x20, 0x85, 0xA0, 0x1680] ++ List.range' 0x2000 11 ++
    [0x2028, 0x2029, 0x202F, 0x205F, 0x3000]

theorem mem_blankPoints {ch : Char} (blank : Text.isBlank ch = true) : ch.toNat ∈ blankPoints := by
  simp only [Text.isBlank, Bool.or_eq_true, Bool.and_eq_true, decide_eq_true_eq] at blank
  simp only [blankPoints, List.mem_append, List.mem_range'_1, List.mem_cons, List.not_mem_nil,
    or_false]
  omega

/-- No blank may stand in a name. -/
theorem isBlank_of_isIdentChar {ch : Char} (ident : Text.isIdentChar ch = true) :
    Text.isBlank ch = false := by
  have foreign : blankPoints.all (fun n => !Text.isIdentChar (Char.ofNat n)) = true := by
    decide +kernel
  cases blank : Text.isBlank ch with
  | false => rfl
  | true =>
    have none := List.all_eq_true.mp foreign _ (mem_blankPoints blank)
    rw [Char.ofNat_toNat, ident] at none
    cases none

theorem trimStart_of_isIdentChar {ch : Char} (ident : Text.isIdentChar ch = true) (cs : List Char) :
    Text.trimStart (ch :: cs) = ch :: cs := by
  rw [Text.trimStart, List.dropWhile_cons_of_neg (by simp [isBlank_of_isIdentChar ident])]

/-- A text that ends in a character of a name has no blanks at its end. -/
theorem trimEnd_of_isIdentChar {cs word : List Char} (given : word ≠ [])
    (ident : ∀ ch ∈ word, Text.isIdentChar ch = true) : Text.trimEnd (cs ++ word) = cs ++ word := by
  have visible := isBlank_of_isIdentChar (ident _ (List.getLast_mem given))
  rw [← List.dropLast_concat_getLast given, ← List.append_assoc, Text.trimEnd,
    Text.dropEndWhile_append_singleton, visible]
  rfl

/-! ## Signed literals -/

theorem front?_of_natural? {cs rest : List Char} {n : Nat} (found : natural? cs = some n)
    (ends : rest.head?.all (fun ch => !Text.isIdentChar ch) = true) :
    front? (cs ++ rest) = some (n, rest) := by
  have ident := (natural?_shape found).2
  have none : rest.takeWhile Text.isIdentChar = [] ∧ rest.dropWhile Text.isIdentChar = rest := by
    cases rest with
    | nil => exact ⟨rfl, rfl⟩
    | cons ch rest =>
      have stops : Text.isIdentChar ch = false := by simpa using ends
      simp [stops]
  rw [front?, List.takeWhile_append_of_pos ident, List.dropWhile_append_of_pos ident, none.1,
    none.2, List.append_nil, found, Option.map_some]

theorem natural?_of_front? {cs : List Char} {n : Nat} (found : front? cs = some (n, [])) :
    natural? cs = some n := by
  obtain ⟨m, read, same⟩ := Option.map_eq_some_iff.mp found
  obtain ⟨rfl, rest⟩ := Prod.mk.inj same
  have whole := List.takeWhile_append_dropWhile (p := Text.isIdentChar) (l := cs)
  rw [rest, List.append_nil] at whole
  rw [← read, whole]

/-- An integer is a literal, or a minus sign, blanks and a literal. -/
theorem integer?_cases {cs : List Char} {n : Int} (found : integer? cs = some n) :
    (∃ k : Nat, natural? cs = some k ∧ n = k) ∨
      ∃ rest, ∃ k : Nat, cs = '-' :: rest ∧ natural? (Text.trimStart rest) = some k ∧ n = -k := by
  rw [integer?] at found
  split at found
  · next m read =>
    obtain rfl := Option.some.inj found
    rw [term?.eq_def] at read
    split at read
    · next rest =>
      obtain ⟨t, front, same⟩ := Option.map_eq_some_iff.mp read
      obtain ⟨rfl, ended⟩ := Prod.mk.inj same
      exact .inr ⟨rest, t.1, rfl, natural?_of_front? (by rw [front, ← ended]), rfl⟩
    · obtain ⟨t, front, same⟩ := Option.map_eq_some_iff.mp read
      obtain ⟨rfl, ended⟩ := Prod.mk.inj same
      exact .inl ⟨t.1, natural?_of_front? (by rw [front, ← ended]), rfl⟩
  · cases found

theorem term?_of_natural? {cs rest : List Char} {n : Nat} (found : natural? cs = some n)
    (ends : rest.head?.all (fun ch => !Text.isIdentChar ch) = true) :
    term? (cs ++ rest) = some ((n : Int), rest) := by
  obtain ⟨ch, cs, rfl, digit⟩ := (natural?_shape found).1
  rw [term?.eq_def]
  split
  · next same =>
    obtain ⟨rfl, -⟩ := List.cons.inj same
    contradiction
  · rw [front?_of_natural? found ends, Option.map_some]

theorem term?_of_minus {cs rest : List Char} {n : Nat}
    (found : natural? (Text.trimStart cs) = some n)
    (ends : rest.head?.all (fun ch => !Text.isIdentChar ch) = true) :
    term? ('-' :: cs ++ rest) = some (-(n : Int), rest) := by
  have given : (cs.dropWhile Text.isBlank).isEmpty = false := by
    obtain ⟨ch, word, same, -⟩ := (natural?_shape found).1
    rw [Text.trimStart] at same
    rw [same]
    rfl
  have trimmed : Text.trimStart (cs ++ rest) = Text.trimStart cs ++ rest := by
    rw [Text.trimStart, List.dropWhile_append, given]
    rfl
  rw [List.cons_append, term?, trimmed, front?_of_natural? found ends, Option.map_some]

theorem term?_of_integer? {cs rest : List Char} {n : Int} (found : integer? cs = some n)
    (ends : rest.head?.all (fun ch => !Text.isIdentChar ch) = true) :
    term? (cs ++ rest) = some (n, rest) := by
  rcases integer?_cases found with ⟨k, literal, rfl⟩ | ⟨cs, k, rfl, literal, rfl⟩
  · exact term?_of_natural? literal ends
  · exact term?_of_minus literal ends

theorem integer?_of_natural? {cs : List Char} {n : Nat} (found : natural? cs = some n) :
    integer? cs = some (n : Int) := by
  have term : term? (cs ++ []) = some ((n : Int), []) := term?_of_natural? found rfl
  rw [List.append_nil] at term
  rw [integer?, term]

theorem integer?_of_minus {cs : List Char} {n : Nat}
    (found : natural? (Text.trimStart cs) = some n) :
    integer? ('-' :: cs) = some (-(n : Int)) := by
  have term : term? ('-' :: cs ++ []) = some (-(n : Int), []) := term?_of_minus found rfl
  rw [List.append_nil] at term
  rw [integer?, term]

theorem toList_toString_ofNat (n : Nat) : (toString (Int.ofNat n)).toList = Nat.toDigits 10 n := by
  show n.repr.toList = _
  rw [Nat.repr_eq_ofList_toDigits, String.toList_ofList]

theorem toList_toString_negSucc (n : Nat) :
    (toString (Int.negSucc n)).toList = '-' :: Nat.toDigits 10 (n + 1) := by
  show ("-" ++ (n + 1).repr).toList = _
  simp only [String.toList_append, Nat.repr_eq_ofList_toDigits, String.toList_ofList]
  rfl

theorem integer?_toString (n : Int) : integer? (toString n).toList = some n := by
  cases n with
  | ofNat n =>
    rw [toList_toString_ofNat, integer?_of_natural? (natural?_toDigits n)]
    rfl
  | negSucc n =>
    have literal := natural?_toDigits (n + 1)
    obtain ⟨ch, cs, same, -⟩ := head_toDigits (Nat.succ_pos n)
    have ident := (natural?_shape literal).2 ch (by rw [same]; exact List.mem_cons_self)
    rw [same] at literal
    rw [toList_toString_negSucc, same,
      integer?_of_minus (by rw [trimStart_of_isIdentChar ident, literal])]
    rfl

/-! ## Values of written bounds and steps -/

theorem value?_of_integer? {cs : List Char} {n : Int} (found : integer? cs = some n) :
    value? cs = some n := by
  have term : term? (cs ++ []) = some (n, []) := term?_of_integer? found rfl
  rw [List.append_nil] at term
  rw [value?, term]

theorem value?_plus {cs ds : List Char} {m n : Int} (left : integer? cs = some m)
    (right : integer? ds = some n) : value? (cs ++ " + ".toList ++ ds) = some (m + n) := by
  rw [List.append_assoc, value?, term?_of_integer? left rfl]
  exact congrArg (Option.map (m + ·)) right

theorem value?_minus {cs ds : List Char} {m n : Int} (left : integer? cs = some m)
    (right : integer? ds = some n) : value? (cs ++ " - ".toList ++ ds) = some (m - n) := by
  rw [List.append_assoc, value?, term?_of_integer? left rfl]
  exact congrArg (Option.map (m - ·)) right

theorem trim_of_integer? {cs : List Char} {n : Int} (found : integer? cs = some n) :
    Text.trim cs = cs := by
  rcases integer?_cases found with ⟨k, literal, -⟩ | ⟨rest, k, rfl, literal, -⟩
  · obtain ⟨⟨ch, cs, rfl, -⟩, ident⟩ := natural?_shape literal
    have ends : Text.trimEnd ([] ++ ch :: cs) = [] ++ ch :: cs :=
      trimEnd_of_isIdentChar (List.cons_ne_nil ch cs) ident
    rw [List.nil_append] at ends
    rw [Text.trim, trimStart_of_isIdentChar (ident ch List.mem_cons_self), ends]
  · obtain ⟨⟨ch, cs, same, -⟩, ident⟩ := natural?_shape literal
    have split := List.takeWhile_append_dropWhile (p := Text.isBlank) (l := rest)
    have given : Text.trimStart rest ≠ [] := by rw [same]; exact List.cons_ne_nil ch cs
    have ends : Text.trimEnd ('-' :: rest.takeWhile Text.isBlank ++ Text.trimStart rest) =
        '-' :: rest.takeWhile Text.isBlank ++ Text.trimStart rest :=
      trimEnd_of_isIdentChar given ident
    rw [Text.trimStart, List.cons_append, split] at ends
    rw [Text.trim, Text.trimStart, List.dropWhile_cons_of_neg (by decide), ends]

theorem ofDigitChars_of_digits? {cs : List Char} {n : Nat} (found : Bound.digits? cs = some n) :
    (∀ ch ∈ cs, ch.isDigit = true) ∧ n = Nat.ofDigitChars 10 cs 0 := by
  rw [Bound.digits?] at found
  split at found
  · next digits =>
    rw [Bool.and_eq_true] at digits
    refine ⟨List.all_eq_true.mp digits.2, ?_⟩
    rw [← Option.some.inj found, Nat.ofDigitChars]
    congr 1
    funext n d
    rw [Nat.mul_comm]
    rfl
  · cases found

/-- A literal that is read as an integer of 64 bits stands for that integer. -/
theorem eq_of_int64? {cs : List Char} {m n : Int} (found : integer? cs = some n)
    (fits : Bound.int64? cs = some m) : m = n := by
  have read := (Option.filter_eq_some_iff.mp fits).1
  rcases integer?_cases found with ⟨k, literal, rfl⟩ | ⟨rest, k, rfl, literal, rfl⟩
  · obtain ⟨ch, rest, rfl, digit⟩ := (natural?_shape literal).1
    rw [Bound.integer?.eq_def] at read
    split at read
    · next same =>
      obtain ⟨rfl, -⟩ := List.cons.inj same
      contradiction
    · next same =>
      obtain ⟨rfl, -⟩ := List.cons.inj same
      contradiction
    · obtain ⟨j, digits, rfl⟩ := Option.map_eq_some_iff.mp read
      obtain ⟨all, rfl⟩ := ofDigitChars_of_digits? digits
      rw [natural?_of_isDigit all literal]
      rfl
  · obtain ⟨j, digits, rfl⟩ := Option.map_eq_some_iff.mp read
    obtain ⟨all, rfl⟩ := ofDigitChars_of_digits? digits
    have trimmed : Text.trimStart rest = rest := by
      cases rest with
      | nil => rfl
      | cons ch rest =>
        exact trimStart_of_isIdentChar (isIdentChar_of_isDigit (all ch List.mem_cons_self)) rest
    rw [trimmed] at literal
    rw [natural?_of_isDigit all literal]
    rfl

/-- A bound is moved by a number, in 64 bits if it fits into them. -/
theorem value?_offset {bound : String} {n : Int} (found : integer? bound.toList = some n)
    (delta : Int) :
    value? (Bound.offset delta bound).toList = some (n + delta) ∨
      Bound.int64? bound.toList = some n ∧
        value? (Bound.offset delta bound).toList = some (Bound.add64 n delta) := by
  rw [Bound.offset, trim_of_integer? found]
  split
  · next m fits =>
    obtain rfl := eq_of_int64? found fits
    exact .inr ⟨fits, value?_of_integer? (integer?_toString _)⟩
  · refine .inl ?_
    split
    · simp only [String.toList_append]
      exact value?_plus found (integer?_toString delta)
    · simp only [String.toList_append]
      rw [value?_minus found (integer?_toString (-delta)), Int.sub_neg]

/-- A moved bound stands for the sum, or for one that wrapped around to the other side. -/
theorem exists_value?_offset {bound : String} {n : Int} (found : integer? bound.toList = some n)
    (delta : Int) :
    ∃ b : Int, value? (Bound.offset delta bound).toList = some b ∧
      (Bound.IsInt64 (n + delta) → b = n + delta) ∧ (0 ≤ delta → b ≤ n + delta) ∧
      (delta ≤ 0 → n + delta ≤ b) := by
  rcases value?_offset found delta with value | ⟨fits, value⟩
  · exact ⟨n + delta, value, fun _ => rfl, fun _ => Int.le_refl _, fun _ => Int.le_refl _⟩
  · have range := (Option.filter_eq_some_iff.mp fits).2
    simp only [Bool.and_eq_true, decide_eq_true_eq] at range
    refine ⟨_, value, ?_, ?_, ?_⟩ <;> rw [Bound.add64, Int.bmod_def]
    · intro fits
      rw [Bound.IsInt64] at fits
      omega
    · omega
    · omega

/-- The step with its sign turned is the negated integer. -/
theorem integer?_negate {amount : String} {n : Int} (found : integer? amount.toList = some n) :
    integer? (Bound.negate amount).toList = some (-n) := by
  rw [Bound.negate, String.toList_ofList, Bound.negateChars, trim_of_integer? found]
  rcases integer?_cases found with ⟨k, literal, rfl⟩ | ⟨rest, k, minus, literal, rfl⟩
  · obtain ⟨⟨ch, rest, same, digit⟩, ident⟩ := natural?_shape literal
    have words : amount.toList.all Text.isIdentChar = true := List.all_eq_true.mpr ident
    have started := ident ch (by rw [same]; exact List.mem_cons_self)
    split
    · next minus =>
      obtain ⟨rfl, -⟩ := List.cons.inj (same.symm.trans minus)
      contradiction
    · rw [words, Bool.or_true, if_pos rfl]
      refine integer?_of_minus ?_
      rw [same, trimStart_of_isIdentChar started, ← same, literal]
  · rw [minus, Int.neg_neg]
    exact integer?_of_natural? literal

end Numeral

end Dialect
