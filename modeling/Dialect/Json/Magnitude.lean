/-!
# The size of numbers

A number is held as a double: its digits as long as they fit into a word of 64 bits, times a power
of ten. Both factors and their product are rounded to 53 bits, and a product that comes out too
large cannot be held. Digits that are not scaled up always fit.
-/

namespace Dialect.Json

def digitValue (d : Char) : Nat :=
  d.toNat - '0'.toNat

/-- The number that decimal digits stand for. -/
def decimal (ds : List Char) : Nat :=
  ds.foldl (fun n d => n * 10 + digitValue d) 0

/-- Appends digits to a number as long as it fits into a word. What is left are the digits from the
first on that does not fit. -/
def appendDigits : Nat → List Char → Nat × List Char
  | n, [] => (n, [])
  | n, d :: ds =>
    if n * 10 + digitValue d < 2 ^ 64 then appendDigits (n * 10 + digitValue d) ds
    else (n, d :: ds)

/-- A significand and the exponent of ten it is scaled by. -/
structure Scaled where
  significand : Nat
  exponent : Int

/-- Digits before the point that do not fit still count as places; those behind it are dropped. -/
def Scaled.ofDigits (whole fraction : List Char) (exponent : Int) : Scaled :=
  let (n, unread) := appendDigits 0 whole
  let (significand, dropped) := appendDigits n fraction
  ⟨significand, exponent + unread.length - (fraction.length - dropped.length : Nat)⟩

/-- The nearest number of 53 significant bits; a tie goes to the even one. -/
def roundToDouble (n : Nat) : Nat :=
  let unit := Nat.pow 2 (n.log2 - 52)
  let twice := 2 * (n % unit)
  if unit < twice || (unit = twice && n / unit % 2 = 1) then unit * (n / unit + 1)
  else unit * (n / unit)

/-- The number when it is scaled up. -/
def Scaled.product (s : Scaled) : Nat :=
  roundToDouble (roundToDouble s.significand * roundToDouble (Nat.pow 10 s.exponent.toNat))

/-- Ten to the power of 308 is the largest that a double holds. -/
def Scaled.fitsDouble (s : Scaled) : Bool :=
  s.significand = 0 || s.exponent ≤ 0 || (s.exponent ≤ 308 && s.product < Nat.pow 2 1024)

end Dialect.Json
