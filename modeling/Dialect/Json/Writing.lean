import Dialect.Json

/-!
# Writing JSON

On one line without blanks, or over several lines with two blanks a level. Characters above ASCII
stand for themselves.
-/

namespace Dialect.Json

def hexDigit (n : Nat) : Char :=
  if n < 10 then Char.ofNat (48 + n) else Char.ofNat (87 + n)

/-- How a character stands in a string. -/
def escape (c : Char) : List Char :=
  match c with
  | '"' => ['\\', '"']
  | '\\' => ['\\', '\\']
  | '\x08' => ['\\', 'b']
  | '\x0c' => ['\\', 'f']
  | '\n' => ['\\', 'n']
  | '\r' => ['\\', 'r']
  | '\t' => ['\\', 't']
  | c =>
    if c.toNat < 0x20 then ['\\', 'u', '0', '0', hexDigit (c.toNat / 16), hexDigit (c.toNat % 16)]
    else [c]

def quoted (text : String) : List Char :=
  '"' :: text.toList.flatMap escape ++ ['"']

mutual

def compactChars : Json → List Char
  | .null => "null".toList
  | .bool value => (if value then "true" else "false").toList
  | .number text => text.toList
  | .string text => quoted text
  | .array items _ => '[' :: compactItems true items ++ [']']
  | .object members _ => '{' :: compactMembers true members ++ ['}']
  | .flawed _ _ => []

def compactItems (first : Bool) : List Json → List Char
  | [] => []
  | j :: js => (if first then [] else [',']) ++ compactChars j ++ compactItems false js

def compactMembers (first : Bool) : List JsonMember → List Char
  | [] => []
  | .mk key j :: ms =>
    (if first then [] else [',']) ++ quoted (key.toOption.getD "") ++ ':' :: compactChars j ++
      compactMembers false ms

end

def newline (depth : Nat) : List Char :=
  '\n' :: List.replicate (2 * depth) ' '

mutual

def prettyChars (depth : Nat) : Json → List Char
  | .array [] _ => "[]".toList
  | .array (j :: js) _ =>
    '[' :: newline (depth + 1) ++ prettyChars (depth + 1) j ++ prettyItems (depth + 1) js ++
      newline depth ++ [']']
  | .object [] _ => "\x7b\x7d".toList
  | .object (.mk key j :: ms) _ =>
    '{' :: newline (depth + 1) ++ quoted (key.toOption.getD "") ++ ": ".toList ++
      prettyChars (depth + 1) j ++ prettyMembers (depth + 1) ms ++ newline depth ++ ['}']
  | .null => "null".toList
  | .bool value => (if value then "true" else "false").toList
  | .number text => text.toList
  | .string text => quoted text
  | .flawed _ _ => []

/-- The items behind the first one. -/
def prettyItems (depth : Nat) : List Json → List Char
  | [] => []
  | j :: js => ',' :: newline depth ++ prettyChars depth j ++ prettyItems depth js

def prettyMembers (depth : Nat) : List JsonMember → List Char
  | [] => []
  | .mk key j :: ms =>
    ',' :: newline depth ++ quoted (key.toOption.getD "") ++ ": ".toList ++ prettyChars depth j ++
      prettyMembers depth ms

end

def compact (j : Json) : String :=
  String.ofList (compactChars j)

def pretty (j : Json) : String :=
  String.ofList (prettyChars 0 j)

end Dialect.Json
