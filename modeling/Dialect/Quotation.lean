import Dialect.Text.Occurrence

/-!
# Quoted strings
-/

namespace Dialect.Quotation

def between? (quote : Char) : List Char → Option (List Char)
  | c :: cs => if c = quote && cs.getLast? = some quote then some cs.dropLast else none
  | [] => none

/-- The text between matching quotes, double or single. -/
def content? (raw : List Char) : Option (List Char) :=
  (between? '"' raw).or (between? '\'' raw)

/-- The same string between other quotes, unless it contains them. -/
def requoteChars (quote raw : List Char) : List Char :=
  match content? raw with
  | some text =>
    if !quote.isEmpty && !Text.occursIn quote text then quote ++ text ++ quote else raw
  | none => raw

def content (raw : String) : Option String :=
  (content? raw.toList).map String.ofList

def requote (quote raw : String) : String :=
  String.ofList (requoteChars quote.toList raw.toList)

end Dialect.Quotation
