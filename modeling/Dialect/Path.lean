/-!
# Paths

A path is kept as it is written. Looking at its last component ignores slashes and single points at
the end.
-/

namespace Dialect

structure Path where
  text : String
  deriving DecidableEq, Repr

namespace Path

def isAbsolute (p : Path) : Bool :=
  p.text.toList.head? = some '/'

/-- An absolute path replaces the one it is joined to. -/
def joinChars (a b : List Char) : List Char :=
  if b.head? = some '/' || a.isEmpty then b
  else if a.getLast? = some '/' then a ++ b
  else a ++ '/' :: b

def join (p : Path) (rest : String) : Path :=
  ⟨String.ofList (joinChars p.text.toList rest.toList)⟩

/-- A reversed path without slashes and single points at the end. -/
def dropTrail : List Char → List Char
  | '/' :: cs => dropTrail cs
  | '.' :: '/' :: cs => dropTrail cs
  | cs => cs

/-- The text before the last component, with its slash, and the component. -/
def splitLast (cs : List Char) : List Char × List Char :=
  let r := dropTrail cs.reverse
  ((r.dropWhile (· ≠ '/')).reverse, (r.takeWhile (· ≠ '/')).reverse)

/-- The path without its last component. The root and the empty path have none. -/
def parent? (p : Path) : Option Path :=
  let (before, last) := splitLast p.text.toList
  if last.isEmpty then none
  else
    let cs := (dropTrail before.reverse).reverse
    some ⟨String.ofList (if cs.isEmpty && before.head? = some '/' then ['/'] else cs)⟩

/-- The last component, if it is a name. -/
def fileNameChars? (p : Path) : Option (List Char) :=
  let name := (splitLast p.text.toList).2
  if name.isEmpty || name = ['.'] || name = ['.', '.'] then none else some name

/-- A name without its extension. A point at its start belongs to the name. -/
def stemChars (name : List Char) : List Char :=
  let r := name.reverse
  match r.dropWhile (· ≠ '.') with
  | _ :: c :: cs => (c :: cs).reverse
  | _ => name

def fileStem? (p : Path) : Option String :=
  p.fileNameChars?.map fun name => String.ofList (stemChars name)

/-- The path with another extension; one that does not end with a name is left as it is. -/
def withExtension (p : Path) (extension : String) : Path :=
  match p.fileNameChars? with
  | some name =>
    let before := (splitLast p.text.toList).1
    ⟨String.ofList (before ++ stemChars name ++ '.' :: extension.toList)⟩
  | none => p

def append (p : Path) (ending : String) : Path :=
  ⟨p.text ++ ending⟩

/-- The parts between slashes. -/
def partsOf : List Char → List (List Char)
  | [] => [[]]
  | c :: cs =>
    if c = '/' then [] :: partsOf cs
    else
      match partsOf cs with
      | [] => [[c]]
      | part :: parts => (c :: part) :: parts

def parts (p : Path) : List String :=
  (partsOf p.text.toList).map String.ofList

end Path

end Dialect
