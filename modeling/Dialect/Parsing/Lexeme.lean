/-!
# Lexemes

Scanners for words, punctuation, numbers, strings and regular expressions. Each takes the text from
its first character on. A scanner that can fail returns the number of bytes it accepts and the rest.
-/

namespace Dialect.Parsing

/-- White space between tokens. -/
def isSpace (c : Char) : Bool :=
  let n := c.toNat
  (0x9 ≤ n && n ≤ 0xD) || n = 0x20 || n = 0xA0 || n = 0x1680 || (0x2000 ≤ n && n ≤ 0x200B) ||
    n = 0x2028 || n = 0x2029 || n = 0x202F || n = 0x205F || n = 0x2060 || n = 0x3000 || n = 0xFEFF

def isLineBreak (c : Char) : Bool :=
  c = '\n' || c = '\r' || c.toNat = 0x2028 || c.toNat = 0x2029

/-! ## Words -/

/-- From the last ASCII character on, every character but white space may stand in a word. -/
def isWordChar (c : Char) : Bool :=
  if c.toNat < 0x7F then c.isAlphanum || c = '_' || c = '$' else !isSpace c

def isHexDigit (c : Char) : Bool :=
  c.isDigit || ('a' ≤ c && c ≤ 'f') || ('A' ≤ c && c ≤ 'F')

/-- How many characters behind a backslash make up an escape: `u` with four digits, or with digits
in braces. -/
def escapeLength? : List Char → Option Nat
  | 'u' :: '{' :: cs =>
    let n := (cs.takeWhile isHexDigit).length
    if 0 < n && (cs.drop n).head? = some '}' then some (n + 3) else none
  | 'u' :: cs =>
    if (cs.take 4).length = 4 && (cs.take 4).all isHexDigit then some 5 else none
  | _ => none

/-- The word characters and escapes at the front; `pending` characters belong to an escape. -/
def wordTail : (pending : Nat) → List Char → List Char
  | _, [] => []
  | pending + 1, c :: cs => c :: wordTail pending cs
  | 0, c :: cs =>
    if c = '\\' then
      match escapeLength? cs with
      | some n => c :: wordTail n cs
      | none => []
    else if isWordChar c then c :: wordTail 0 cs
    else []

/-- The word at the front, empty when there is none. -/
def wordAt : List Char → List Char
  | [] => []
  | c :: cs => if c.isDigit then [] else wordTail 0 (c :: cs)

/-- Words that never name anything. -/
def reservedWords : List String :=
  ["break", "case", "catch", "class", "const", "continue", "debugger", "default", "delete", "do",
   "else", "enum", "export", "extends", "false", "finally", "for", "function", "if", "import", "in",
   "instanceof", "new", "null", "return", "super", "switch", "this", "throw", "true", "try",
   "typeof", "var", "void", "while", "with"]

/-! ## Punctuation -/

/-- The punctuation that starts with a character, longest first. -/
def symbolsFrom : Char → List String
  | '>' => [">>>=", ">>>", ">>=", ">>", ">=", ">"]
  | '<' => ["<<=", "<<", "<=", "<"]
  | '=' => ["===", "==", "=>", "="]
  | '!' => ["!==", "!=", "!"]
  | '*' => ["**=", "**", "*=", "*"]
  | '&' => ["&&=", "&&", "&=", "&"]
  | '|' => ["||=", "||", "|=", "|"]
  | '?' => ["??=", "??", "?.", "?"]
  | '+' => ["++", "+=", "+"]
  | '-' => ["--", "-=", "-"]
  | '/' => ["/=", "/"]
  | '%' => ["%=", "%"]
  | '^' => ["^=", "^"]
  | '.' => ["...", "."]
  | '(' => ["("]
  | ')' => [")"]
  | '[' => ["["]
  | ']' => ["]"]
  | '{' => ["\x7b"]
  | '}' => ["\x7d"]
  | ';' => [";"]
  | ',' => [","]
  | ':' => [":"]
  | '~' => ["~"]
  | '@' => ["@"]
  | '#' => ["#"]
  | _ => []

/-- The longest punctuation at the front, empty when there is none. A `?.` before a digit is a
conditional and a decimal point. -/
def symbolAt (cs : List Char) : String :=
  match cs with
  | [] => ""
  | '?' :: '.' :: c :: _ => if c.isDigit then "?" else "?."
  | c :: _ => ((symbolsFrom c).find? fun s => s.toList.isPrefixOf cs).getD ""

/-! ## Numbers -/

def isOctalDigit (c : Char) : Bool :=
  '0' ≤ c && c ≤ '7'

def isBinaryDigit (c : Char) : Bool :=
  c = '0' || c = '1'

/-- Further digits, each with at most one low line before it. -/
def digitTail (p : Char → Bool) : List Char → Nat × List Char
  | '_' :: d :: cs =>
    if p d then
      let (n, rest) := digitTail p cs
      (n + 2, rest)
    else (0, '_' :: d :: cs)
  | d :: cs =>
    if p d then
      let (n, rest) := digitTail p cs
      (n + 1, rest)
    else (0, d :: cs)
  | [] => (0, [])

def digits? (p : Char → Bool) : List Char → Option (Nat × List Char)
  | [] => none
  | d :: cs =>
    if p d then
      let (n, rest) := digitTail p cs
      some (n + 1, rest)
    else none

/-- The digits at the front, if any. -/
def digits (p : Char → Bool) (cs : List Char) : Nat × List Char :=
  (digits? p cs).getD (0, cs)

def exponent (cs : List Char) : Nat × List Char :=
  let marked (n : Nat) (rest : List Char) :=
    match digits? Char.isDigit rest with
    | some (k, rest) => (n + k, rest)
    | none => (0, cs)
  match cs with
  | e :: '+' :: rest => if e = 'e' || e = 'E' then marked 2 rest else (0, cs)
  | e :: '-' :: rest => if e = 'e' || e = 'E' then marked 2 rest else (0, cs)
  | e :: rest => if e = 'e' || e = 'E' then marked 1 rest else (0, cs)
  | [] => (0, cs)

/-- An optional `n` after an integer of `n` bytes. -/
def bigSuffix : Nat × List Char → Nat × List Char
  | (n, 'n' :: rest) => (n + 1, rest)
  | r => r

def radixNumber? (p : Char → Bool) (cs : List Char) : Option (Nat × List Char) :=
  (digits? p cs).map fun (n, rest) => bigSuffix (n + 2, rest)

/-- Digits take a point and an exponent unless a zero leads other than before one to nine. -/
def takesFraction : List Char → Bool
  | '0' :: '0' :: _ => false
  | '0' :: '_' :: _ => false
  | _ => true

def decimalNumber? (cs : List Char) : Option (Nat × List Char) :=
  match digits? Char.isDigit cs with
  | none =>
    match cs with
    | '.' :: rest =>
      (digits? Char.isDigit rest).map fun (n, rest) =>
        let (k, rest) := exponent rest
        (n + k + 1, rest)
    | _ => none
  | some (n, rest) =>
    match takesFraction cs, rest with
    | false, rest => some (bigSuffix (n, rest))
    | true, '.' :: rest =>
      let (m, rest) := digits Char.isDigit rest
      let (k, rest) := exponent rest
      some (n + 1 + m + k, rest)
    | true, rest =>
      let (k, after) := exponent rest
      if k = 0 then some (bigSuffix (n, rest)) else some (n + k, after)

def number? : List Char → Option (Nat × List Char)
  | '0' :: x :: cs =>
    if x = 'x' || x = 'X' then radixNumber? isHexDigit cs
    else if x = 'o' || x = 'O' then radixNumber? isOctalDigit cs
    else if x = 'b' || x = 'B' then radixNumber? isBinaryDigit cs
    else decimalNumber? ('0' :: x :: cs)
  | cs => decimalNumber? cs

/-! ## Strings and regular expressions -/

/-- The rest of a string literal after its opening quote. -/
def stringTail? (quote : Char) : List Char → Option (Nat × List Char)
  | '\\' :: '\r' :: '\n' :: cs => (stringTail? quote cs).map fun (n, rest) => (n + 3, rest)
  | '\\' :: 'x' :: a :: b :: cs =>
    if isHexDigit a && isHexDigit b then
      (stringTail? quote cs).map fun (n, rest) => (n + 4, rest)
    else
      none
  | '\\' :: c :: cs => (stringTail? quote cs).map fun (n, rest) => (n + 1 + c.utf8Size, rest)
  | c :: cs =>
    if c = quote then some (1, cs)
    else if c = '\n' || c = '\r' then none
    else (stringTail? quote cs).map fun (n, rest) => (n + c.utf8Size, rest)
  | [] => none

def string? : List Char → Option (Nat × List Char)
  | '"' :: cs => (stringTail? '"' cs).map fun (n, rest) => (n + 1, rest)
  | '\'' :: cs => (stringTail? '\'' cs).map fun (n, rest) => (n + 1, rest)
  | _ => none

/-- The rest of a regular expression after its opening slash; a slash inside a character class does
not end it. -/
def regexTail? : Bool → List Char → Option (Nat × List Char)
  | inClass, '\\' :: c :: cs =>
    if c = '\n' then none
    else (regexTail? inClass cs).map fun (n, rest) => (n + 1 + c.utf8Size, rest)
  | inClass, c :: cs =>
    if c = '\n' then none
    else if c = '/' && !inClass then some (1, cs)
    else
      let inClass := if c = '[' then true else if c = ']' then false else inClass
      (regexTail? inClass cs).map fun (n, rest) => (n + c.utf8Size, rest)
  | _, [] => none

def regex? : List Char → Option (Nat × List Char)
  | '/' :: cs =>
    (regexTail? false cs).map fun (n, rest) =>
      (n + 1 + (rest.takeWhile fun c => 'a' ≤ c && c ≤ 'z').length,
       rest.dropWhile fun c => 'a' ≤ c && c ≤ 'z')
  | _ => none

end Dialect.Parsing
