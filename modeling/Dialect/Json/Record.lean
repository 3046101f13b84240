import Dialect.Json

/-!
# Reading records

A record is written as an object, with its fields under their names in any order, or as an array of
them in the order of declaration. Every field may be missing. Names that belong to no field are
skipped with their values.
-/

namespace Dialect.Json

/-- A field of a record under construction: its name, other names for it, and how it is set. -/
structure RecordField (σ : Type) where
  name : String
  otherNames : List String := []
  set : Json → σ → Except Fault σ

def RecordField.answersTo {σ : Type} (key : String) (f : RecordField σ) : Bool :=
  f.name = key || f.otherNames.contains key

/-- What a reader reports about a value it did not expect. -/
def unexpected : Json → Fault
  | .flawed f _ => f
  | _ => .mismatch

def asString : Json → Except Fault String
  | .string text => .ok text
  | j => .error j.unexpected

def asBool : Json → Except Fault Bool
  | .bool value => .ok value
  | j => .error j.unexpected

/-- The fault at the end of a list or object, after all of it has been read. -/
def finish {α : Type} (fault : Option Fault) (a : α) : Except Fault α :=
  match fault with
  | some f => .error f
  | none => .ok a

def asStrings : Json → Except Fault (List String)
  | .array items fault => do finish fault (← items.mapM asString)
  | j => .error j.unexpected

/-- The members of an object whose values are strings, in their order. -/
def stringMembers : List JsonMember → Except Fault (List (String × String))
  | [] => .ok []
  | .mk key value :: ms => do
    let key ← key
    let text ← asString value
    return (key, text) :: (← stringMembers ms)

def asStringMap : Json → Except Fault (List (String × String))
  | .object members fault => do finish fault (← stringMembers members)
  | j => .error j.unexpected

/-- A field that is left alone by `null`. -/
def optionalField {σ α : Type} (name : String) (read : Json → Except Fault α) (put : α → σ → σ)
    (otherNames : List String) : RecordField σ where
  name := name
  otherNames := otherNames
  set := fun j s =>
    match j with
    | .null => .ok s
    | j => (read j).map (put · s)

def stringField {σ : Type} (name : String) (put : String → σ → σ) : RecordField σ :=
  optionalField name asString put []

def boolField {σ : Type} (name : String) (put : Bool → σ → σ) (otherNames : List String) :
    RecordField σ :=
  optionalField name asBool put otherNames

/-- Sets the fields of an object's members; `seen` are the names of the fields set so far. A field
may be set once. -/
def setMembers {σ : Type} (fields : List (RecordField σ)) :
    List JsonMember → List String → σ → Except Fault σ
  | [], _, s => .ok s
  | .mk key value :: ms, seen, s => do
    let key ← key
    match fields.find? (·.answersTo key) with
    | some field =>
      if seen.contains field.name then .error .mismatch
      else setMembers fields ms (field.name :: seen) (← field.set value s)
    | none =>
      match value.skip with
      | some f => .error f
      | none => setMembers fields ms seen s

/-- Sets the fields in order; there may be no more items than fields. -/
def setItems {σ : Type} : List (RecordField σ) → List Json → σ → Except Fault σ
  | _, [], s => .ok s
  | [], _ :: _, _ => .error .malformed
  | field :: fields, j :: js, s => do setItems fields js (← field.set j s)

def readRecord {σ : Type} (fields : List (RecordField σ)) (s : σ) : Json → Except Fault σ
  | .object members fault => do finish fault (← setMembers fields members [] s)
  | .array items fault => do finish fault (← setItems fields items s)
  | j => .error j.unexpected

/-- A field that is itself a record. -/
def nestedField {σ τ : Type} (name : String) (fields : List (RecordField τ)) (get : σ → τ)
    (put : τ → σ → σ) : RecordField σ where
  name := name
  set := fun j s => (readRecord fields (get s) j).map (put · s)

end Dialect.Json
