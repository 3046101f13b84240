import Dialect.Json
import Dialect.Json.Magnitude
import Dialect.Span

/-!
# Parsing JSON

Strings are scanned by a machine over their characters. A surrogate escape without its partner and a
number beyond the doubles are flaws that only count where the value is read.
-/

namespace Dialect.Json

def isBlank (c : Char) : Bool :=
  c = ' ' || c = '\n' || c = '\t' || c = '\r'

def skipBlank (cs : List Char) : List Char :=
  cs.dropWhile isBlank

/-! ## Strings -/

/-- A scanned string: its content or the first flaw in it, and the text behind its closing quote or
the fault that ends the scan. -/
structure StringScan where
  content : Except Fault (List Char)
  rest : Except Fault (List Char)

namespace StringScan

def stop (f : Fault) : StringScan :=
  ⟨.error f, .error f⟩

def cons (c : Char) (s : StringScan) : StringScan :=
  { s with content := s.content.map (c :: ·) }

def flaw (f : Fault) (s : StringScan) : StringScan :=
  { s with content := .error f }

end StringScan

def hexDigit? (c : Char) : Option Nat :=
  if '0' ≤ c ∧ c ≤ '9' then some (c.toNat - 48)
  else if 'a' ≤ c ∧ c ≤ 'f' then some (c.toNat - 87)
  else if 'A' ≤ c ∧ c ≤ 'F' then some (c.toNat - 55)
  else none

/-- The character behind a backslash stands for another one. -/
def unescape? : Char → Option Char
  | '"' => some '"'
  | '\\' => some '\\'
  | '/' => some '/'
  | 'b' => some '\x08'
  | 'f' => some '\x0c'
  | 'n' => some '\n'
  | 'r' => some '\r'
  | 't' => some '\t'
  | _ => none

def isLeading (n : Nat) : Bool :=
  0xD800 ≤ n && n ≤ 0xDBFF

def isTrailing (n : Nat) : Bool :=
  0xDC00 ≤ n && n ≤ 0xDFFF

def joinSurrogates (leading trailing : Nat) : Char :=
  Char.ofNat ((leading - 0xD800) * 0x400 + (trailing - 0xDC00) + 0x10000)

inductive StringMode where
  | plain
  | escape
  /-- So many digits of an escape are still to come, after a leading surrogate or none. -/
  | hex (leading : Option Nat) (digits value : Nat)
  | leading (value : Nat)
  | leadingEscape (value : Nat)

/-- Fewer than four bytes are left for the digits of an escape. -/
def lacksDigits (cs : List Char) : Bool :=
  Text.byteLength (cs.take 4) < 4

/-- Scans a string behind its opening quote. -/
def scanString : StringMode → List Char → StringScan
  | _, [] => .stop .ended
  | .plain, c :: cs =>
    if c = '"' then ⟨.ok [], .ok cs⟩
    else if c = '\\' then scanString .escape cs
    else if c.toNat < 0x20 then .stop .malformed
    else (scanString .plain cs).cons c
  | .escape, c :: cs =>
    if c = 'u' then if lacksDigits cs then .stop .ended else scanString (.hex none 4 0) cs
    else
      match unescape? c with
      | some d => (scanString .plain cs).cons d
      | none => .stop .malformed
  | .hex leading digits value, c :: cs =>
    match hexDigit? c with
    | none => .stop .malformed
    | some d =>
      let n := value * 16 + d
      if 1 < digits then scanString (.hex leading (digits - 1) n) cs
      else
        match leading with
        | some first =>
          if isTrailing n then (scanString .plain cs).cons (joinSurrogates first n)
          else (scanString .plain cs).flaw .malformed
        | none =>
          if isLeading n then scanString (.leading n) cs
          else if isTrailing n then (scanString .plain cs).flaw .malformed
          else (scanString .plain cs).cons (Char.ofNat n)
  | .leading first, c :: cs =>
    if c = '\\' then scanString (.leadingEscape first) cs
    else if c = '"' then ⟨.error .malformed, .ok cs⟩
    else if c.toNat < 0x20 then .stop .malformed
    else (scanString .plain cs).flaw .malformed
  | .leadingEscape first, c :: cs =>
    if c = 'u' then if lacksDigits cs then .stop .ended else scanString (.hex (some first) 4 0) cs
    else if (unescape? c).isSome then (scanString .plain cs).flaw .malformed
    else .stop .malformed

/-! ## Numbers -/

/-- A scanned part of a number: its characters and the rest, or a flawed value. -/
abbrev NumberScan := Except Json (List Char × List Char)

/-- A text that breaks off inside a number is cut short for a reader, malformed for a skipper. -/
def missingDigit (cs : List Char) : Json :=
  if cs.isEmpty then .flawed .ended (some .malformed) else .flawed .malformed (some .malformed)

def digits (cs : List Char) : NumberScan :=
  if (cs.takeWhile Char.isDigit).isEmpty then .error (missingDigit cs)
  else .ok (cs.takeWhile Char.isDigit, cs.dropWhile Char.isDigit)

/-- No further digit follows a leading zero. -/
def integerPart : List Char → NumberScan
  | '0' :: cs =>
    if cs.head?.any Char.isDigit then .error (.flawed .malformed (some .malformed))
    else .ok (['0'], cs)
  | cs => digits cs

def fractionPart : List Char → NumberScan
  | '.' :: cs => digits cs
  | cs => .ok ([], cs)

/-- The sign of an exponent is negative, and what follows the sign. -/
def exponentSign : List Char → Bool × List Char
  | '-' :: cs => (true, cs)
  | '+' :: cs => (false, cs)
  | cs => (false, cs)

def exponentPart : List Char → Except Json (Int × List Char)
  | c :: cs =>
    if c = 'e' || c = 'E' then do
      let (negative, cs) := exponentSign cs
      let (ds, rest) ← digits cs
      return (if negative then -(decimal ds : Int) else decimal ds, rest)
    else .ok (0, c :: cs)
  | [] => .ok (0, [])

/-- A number behind its sign; `text` is the whole of it and what follows. -/
def numberTail (text cs : List Char) : Json × Option (List Char) :=
  let scan : Except Json (Bool × List Char) := do
    let (whole, cs) ← integerPart cs
    let (fraction, cs) ← fractionPart cs
    let (exponent, cs) ← exponentPart cs
    return ((Scaled.ofDigits whole fraction exponent).fitsDouble, cs)
  match scan with
  | .ok (true, rest) => (.number (String.ofList (text.take (text.length - rest.length))), some rest)
  | .ok (false, rest) => (.flawed .malformed none, some rest)
  | .error j => (j, none)

/-! ## Values -/

def broken (f : Fault) : Json × Option (List Char) :=
  (.flawed f (some f), none)

/-- The letters of a literal word, one after the other. -/
def literalWord (value : Json) : List Char → List Char → Json × Option (List Char)
  | [], rest => (value, some rest)
  | _ :: _, [] => broken .ended
  | w :: ws, c :: cs => if c = w then literalWord value ws cs else broken .malformed

def stringValue (cs : List Char) : Json × Option (List Char) :=
  match scanString .plain cs with
  | ⟨.ok text, .ok rest⟩ => (.string (String.ofList text), some rest)
  | ⟨.error f, .ok rest⟩ => (.flawed f none, some rest)
  | ⟨.error f, .error g⟩ => (.flawed f (some g), none)
  | ⟨.ok _, .error g⟩ => (.flawed g (some g), none)

mutual

/-- A value at the front of a text, and the rest if the text is well formed so far. -/
def parseValue : Nat → List Char → Json × Option (List Char)
  | 0, _ => broken .malformed
  | n + 1, cs =>
    match skipBlank cs with
    | [] => broken .ended
    | c :: cs =>
      if c = '"' then stringValue cs
      else if c = '[' then
        let (items, fault, rest) := parseItems n true cs
        (.array items fault, rest)
      else if c = '{' then
        let (members, fault, rest) := parseMembers n true cs
        (.object members fault, rest)
      else if c = 'n' then literalWord .null "ull".toList cs
      else if c = 't' then literalWord (.bool true) "rue".toList cs
      else if c = 'f' then literalWord (.bool false) "alse".toList cs
      else if c = '-' then numberTail (c :: cs) cs
      else if c.isDigit then numberTail (c :: cs) (c :: cs)
      else broken .malformed

/-- The items of an array behind its bracket or, unless `first`, behind an item. -/
def parseItems : Nat → Bool → List Char → List Json × Option Fault × Option (List Char)
  | 0, _, _ => ([], some .malformed, none)
  | n + 1, first, cs =>
    match skipBlank cs with
    | [] => ([], some .ended, none)
    | c :: cs =>
      if c = ']' then ([], none, some cs)
      else if first || c = ',' then
        let (value, rest) := parseValue n (if first then c :: cs else cs)
        match rest with
        | none => ([value], none, none)
        | some rest =>
          let (items, fault, rest) := parseItems n false rest
          (value :: items, fault, rest)
      else ([], some .malformed, none)

/-- The members of an object behind its brace or, unless `first`, behind a member. -/
def parseMembers : Nat → Bool → List Char → List JsonMember × Option Fault × Option (List Char)
  | 0, _, _ => ([], some .malformed, none)
  | n + 1, first, cs =>
    match skipBlank cs with
    | [] => ([], some .ended, none)
    | c :: cs =>
      if c = '}' then ([], none, some cs)
      else if first then parseMember n (c :: cs)
      else if c = ',' then parseMember n (skipBlank cs)
      else ([], some .malformed, none)

/-- A member and those behind it. -/
def parseMember : Nat → List Char → List JsonMember × Option Fault × Option (List Char)
  | 0, _ => ([], some .malformed, none)
  | _ + 1, [] => ([], some .ended, none)
  | n + 1, c :: cs =>
    if c = '"' then
      match scanString .plain cs with
      | ⟨content, .error g⟩ => ([⟨content.map String.ofList, .flawed g (some g)⟩], none, none)
      | ⟨content, .ok rest⟩ =>
        let key := content.map String.ofList
        match skipBlank rest with
        | [] => ([⟨key, .flawed .ended (some .ended)⟩], none, none)
        | d :: rest =>
          if d = ':' then
            let (value, rest) := parseValue n rest
            match rest with
            | none => ([⟨key, value⟩], none, none)
            | some rest =>
              let (members, fault, rest) := parseMembers n false rest
              (⟨key, value⟩ :: members, fault, rest)
          else ([⟨key, .flawed .malformed (some .malformed)⟩], none, none)
    else ([], some .malformed, none)

end

/-- A document: its value, and the fault behind it. -/
structure Document where
  value : Json
  trailing : Option Fault

/-- Every step reads a character or hands on to one of the three others, which do. -/
def parse (text : List Char) : Document :=
  let (value, rest) := parseValue (4 * text.length + 4) text
  ⟨value, rest.bind fun rest => if (skipBlank rest).isEmpty then none else some .malformed⟩

end Dialect.Json
