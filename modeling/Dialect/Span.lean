/-!
# Spans

Half-open byte ranges of a UTF-8 text. A text is a list of characters; a range that does not fit the
text, is reversed, or cuts a character, selects nothing.
-/

namespace Dialect

structure Span where
  start : Nat
  stop : Nat
  deriving DecidableEq, Repr

namespace Text

def byteLength : List Char → Nat
  | [] => 0
  | c :: cs => c.utf8Size + byteLength cs

/-- Drops the first `n` bytes; fails past the end and inside a character. -/
def dropBytes? : List Char → Nat → Option (List Char)
  | cs, 0 => some cs
  | [], _ + 1 => none
  | c :: cs, n + 1 => if c.utf8Size ≤ n + 1 then dropBytes? cs (n + 1 - c.utf8Size) else none

/-- Keeps the first `n` bytes; fails past the end and inside a character. -/
def takeBytes? : List Char → Nat → Option (List Char)
  | _, 0 => some []
  | [], _ + 1 => none
  | c :: cs, n + 1 =>
    if c.utf8Size ≤ n + 1 then (takeBytes? cs (n + 1 - c.utf8Size)).map (c :: ·) else none

@[simp]
theorem byteLength_nil : byteLength [] = 0 := rfl

@[simp]
theorem byteLength_cons (c : Char) (cs : List Char) :
    byteLength (c :: cs) = c.utf8Size + byteLength cs := rfl

@[simp]
theorem byteLength_append (as bs : List Char) :
    byteLength (as ++ bs) = byteLength as + byteLength bs := by
  induction as with
  | nil => simp
  | cons c as ih => simp [ih, Nat.add_assoc]

end Text

namespace Span

def isEmpty (s : Span) : Bool :=
  s.stop ≤ s.start

def shift (n : Nat) (s : Span) : Span :=
  ⟨s.start + n, s.stop + n⟩

def slice? (source : List Char) (s : Span) : Option (List Char) :=
  if s.start ≤ s.stop then
    (Text.dropBytes? source s.start).bind fun rest => Text.takeBytes? rest (s.stop - s.start)
  else
    none

/-- The characters a span selects, none when it does not fit the text. -/
def chars (source : List Char) (s : Span) : List Char :=
  (s.slice? source).getD []

def text (source : List Char) (s : Span) : String :=
  String.ofList (s.chars source)

/-- From the start of one span to the end of another. -/
def through (s t : Span) : Span :=
  ⟨s.start, t.stop⟩

end Span

end Dialect
