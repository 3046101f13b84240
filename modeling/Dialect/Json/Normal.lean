import Dialect.Json

/-!
# Normal documents

A document whose objects have their members in order of the keys, each key once. Of members with the
same key the last one stays.
-/

namespace Dialect.Json

/-- Lists and objects that are read may be nested so deep. -/
def nestingLimit : Nat := 127

mutual

/-- The first fault of a value that is read as a whole, where lists and objects may still be nested
`room` deep. -/
def firstFault : Nat → Json → Option Fault
  | 0, .array _ _ => some .malformed
  | 0, .object _ _ => some .malformed
  | room + 1, .array items fault => (firstItemFault room items).or fault
  | room + 1, .object members fault => (firstMemberFault room members).or fault
  | _, .flawed read _ => some read
  | _, .null | _, .bool _ | _, .number _ | _, .string _ => none

def firstItemFault (room : Nat) : List Json → Option Fault
  | [] => none
  | j :: js => (firstFault room j).or (firstItemFault room js)

def firstMemberFault (room : Nat) : List JsonMember → Option Fault
  | [] => none
  | .mk (.error f) _ :: _ => some f
  | .mk (.ok _) j :: ms => (firstFault room j).or (firstMemberFault room ms)

end

/-- Puts a member in its place; one that is already there stays. -/
def insertMember (key : String) (value : Json) : List (String × Json) → List (String × Json)
  | [] => [(key, value)]
  | (k, v) :: ms =>
    if key < k then (key, value) :: (k, v) :: ms
    else if key = k then (k, v) :: ms
    else (k, v) :: insertMember key value ms

mutual

def normal : Json → Json
  | .array items _ => .list (normalItems items)
  | .object members _ => .record (normalMembers members)
  | j => j

def normalItems : List Json → List Json
  | [] => []
  | j :: js => normal j :: normalItems js

def normalMembers : List JsonMember → List (String × Json)
  | [] => []
  | .mk (.ok key) j :: ms => insertMember key (normal j) (normalMembers ms)
  | .mk (.error _) _ :: ms => normalMembers ms

end

end Dialect.Json
