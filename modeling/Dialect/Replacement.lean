import Dialect.Text.Alphanumeric
import Dialect.Text.Occurrence

/-!
# Token replacement

A table of replacements is applied in order to a whole text. A key that begins or ends with an
identifier character only counts where the identifier ends on that side. A key of marks that becomes
a word is set off by a space from the identifiers it touches.
-/

namespace Dialect

structure Replacement where
  key : String
  value : String
  deriving DecidableEq, Repr

namespace Replacement

open Text

def startsIdent (cs : List Char) : Bool :=
  cs.head?.any isIdentChar

def endsIdent (cs : List Char) : Bool :=
  cs.getLast?.any isIdentChar

/-- What stands for one occurrence of the key between two neighbours. -/
def substitute (key value : List Char) (before after : Option Char) : List Char :=
  let touchesLeft := before.any isIdentChar
  let touchesRight := after.any isIdentChar
  if (startsIdent key && touchesLeft) || (endsIdent key && touchesRight) then key
  else
    let left := if !startsIdent key && startsIdent value && touchesLeft then [' '] else []
    let right := if !endsIdent key && endsIdent value && touchesRight then [' '] else []
    left ++ value ++ right

def applyChars (key value text : List Char) : List Char :=
  mapOccurrences key (substitute key value) text

/-- An empty key replaces nothing. -/
def apply (r : Replacement) (text : String) : String :=
  if r.key.isEmpty then text
  else String.ofList (applyChars r.key.toList r.value.toList text.toList)

def applyAll (table : List Replacement) (text : String) : String :=
  table.foldl (fun text r => r.apply text) text

/-- Adds an entry to a table; a key already there keeps its place and takes the new value. -/
def insert (r : Replacement) : List Replacement → List Replacement
  | [] => [r]
  | s :: table => if s.key = r.key then r :: table else s :: insert r table

end Replacement

end Dialect
