import Dialect.Text.Alphanumeric
import Dialect.Text.Occurrence

/-!
# Qualifiers of the support library

`py.open(f)` means `open(f)`: a qualifier and its point are dropped where the qualifier stands on
its own and a member name follows.
-/

namespace Dialect.Qualifier

open Text

/-- The character before a qualifier lets it stand on its own. -/
def standsAlone (before : Option Char) : Bool :=
  !before.any fun c => isIdentChar c || c = '.'

/-- The character after the point begins a member name. -/
def beginsMember (after : Option Char) : Bool :=
  after.any fun c => isIdentChar c && !c.isDigit

def stripChars (qualifier text : List Char) : List Char :=
  let key := qualifier ++ ['.']
  mapOccurrences key
    (fun before after => if standsAlone before && beginsMember after then [] else key) text

def strip (qualifier text : String) : String :=
  if qualifier.isEmpty then text else String.ofList (stripChars qualifier.toList text.toList)

/-- Drops several qualifiers, one after the other. -/
def stripAll (qualifiers : List String) (text : String) : String :=
  qualifiers.foldl (fun text q => strip q text) text

end Dialect.Qualifier
