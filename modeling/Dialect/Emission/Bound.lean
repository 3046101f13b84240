import Dialect.Text.Alphanumeric
import Dialect.Text.Blank

/-!
# Bounds and steps of counting loops

They are texts. An integer literal is computed with, anything else is put into a larger text.
-/

namespace Dialect.Bound

/-- The value of decimal digits, of which there is at least one. -/
def digits? (cs : List Char) : Option Nat :=
  if !cs.isEmpty && cs.all Char.isDigit then
    some (cs.foldl (fun n d => n * 10 + (d.toNat - 48)) 0)
  else none

/-- A signed integer. -/
def integer? : List Char → Option Int
  | '+' :: cs => (digits? cs).map Int.ofNat
  | '-' :: cs => (digits? cs).map fun n => -(Int.ofNat n)
  | cs => (digits? cs).map Int.ofNat

/-- A signed integer of 64 bits. -/
def int64? (cs : List Char) : Option Int :=
  (integer? cs).filter fun n => -0x8000000000000000 ≤ n && n < 0x8000000000000000

/-- The sum of two integers of 64 bits, which wraps around. -/
def add64 (m n : Int) : Int :=
  (m + n).bmod 0x10000000000000000

/-- The bound plus or minus a small number. -/
def offset (delta : Int) (bound : String) : String :=
  match int64? (Text.trim bound.toList) with
  | some n => toString (add64 n delta)
  | none =>
    if 0 ≤ delta then bound ++ " + " ++ toString delta
    else bound ++ " - " ++ toString (-delta)

def isDigits (cs : List Char) : Bool :=
  !cs.isEmpty && cs.all Char.isDigit

/-- An exponent with its mark, or nothing. -/
def isExponent : List Char → Bool
  | [] => true
  | c :: cs =>
    (c = 'e' || c = 'E') &&
      match cs with
      | '+' :: cs | '-' :: cs => isDigits cs
      | cs => isDigits cs

/-- Digits with a point among, before or behind them, and an exponent. -/
def isDecimal (cs : List Char) : Bool :=
  let whole := cs.takeWhile Char.isDigit
  match cs.dropWhile Char.isDigit with
  | '.' :: cs =>
    let fraction := cs.takeWhile Char.isDigit
    (!whole.isEmpty || !fraction.isEmpty) && isExponent (cs.dropWhile Char.isDigit)
  | cs => !whole.isEmpty && isExponent cs

def isSpecialNumber (cs : List Char) : Bool :=
  ["inf", "infinity", "nan"].contains (String.ofList (cs.map Char.toLower))

/-- A floating point number with an optional sign. -/
def isNumber : List Char → Bool
  | '+' :: cs | '-' :: cs => isDecimal cs || isSpecialNumber cs
  | cs => isDecimal cs || isSpecialNumber cs

/-- The step with its sign turned. -/
def negateChars (amount : List Char) : List Char :=
  match Text.trim amount with
  | '-' :: cs => Text.trimStart cs
  | cs =>
    if isNumber cs || cs.all Text.isIdentChar then '-' :: cs
    else ['-', '('] ++ cs ++ [')']

def negate (amount : String) : String :=
  String.ofList (negateChars amount.toList)

end Dialect.Bound
