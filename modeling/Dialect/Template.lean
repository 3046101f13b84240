import Dialect.Grammar

/-!
# Template literals

A template gets the delimiters of the target dialect. The scan goes by characters: inside an
interpolation only braces are counted.
-/

namespace Dialect.Template

/-- The character of a delimiter that consists of one. -/
def single? (s : String) : Option Char :=
  match s.toList with
  | [c] => some c
  | _ => none

/-- The text between the backticks, or the whole text when one of them is missing. -/
def inner : List Char → List Char
  | '\x60' :: cs => if cs.getLast? = some '\x60' then cs.dropLast else '\x60' :: cs
  | cs => cs

/-- A character outside interpolations: a brace that would open one is doubled, the closing quote is
escaped. -/
def literalChar (t : TemplateSyntax) (c : Char) : List Char :=
  if (c = '{' || c = '}') && t.interpolationStart = "\x7b" then [c, c]
  else if single? t.closing = some c then ['\\', c]
  else [c]

/-- The text of a template in the target dialect; `depth` braces of an interpolation are open. -/
def scan (t : TemplateSyntax) : Nat → List Char → List Char
  | _, [] => []
  | depth + 1, c :: cs =>
    if c = '{' then c :: scan t (depth + 2) cs
    else if c = '}' then
      if depth = 0 then t.interpolationEnd.toList ++ scan t 0 cs else c :: scan t depth cs
    else c :: scan t (depth + 1) cs
  | 0, ['\\'] => ['\\']
  | 0, '\\' :: c :: cs => '\\' :: c :: scan t 0 cs
  | 0, '$' :: '{' :: cs => t.interpolationStart.toList ++ scan t 1 cs
  | 0, c :: cs => literalChar t c ++ scan t 0 cs

def convertChars (t : TemplateSyntax) (raw : List Char) : List Char :=
  t.opening.toList ++ scan t 0 (inner raw) ++ t.closing.toList

def convert (t : TemplateSyntax) (raw : String) : String :=
  String.ofList (convertChars t raw.toList)

end Dialect.Template
