/-!
# JSON documents

A document is kept as far as it is well formed. Where the text breaks off the value holds the fault,
so that a reader that walks the document from the left meets the first fault in its place.
-/

namespace Dialect

/-- What can be wrong with a document. -/
inductive Fault where
  /-- The text ends too early. -/
  | ended
  | malformed
  /-- Well formed, but not what is expected there. -/
  | mismatch
  deriving DecidableEq, Repr

mutual

inductive Json where
  | null
  | bool (value : Bool)
  | number (text : String)
  | string (text : String)
  /-- The fault stands behind the last item. -/
  | array (items : List Json) (fault : Option Fault)
  | object (members : List JsonMember) (fault : Option Fault)
  /-- A faulty scalar: what one finds who reads it, and who skips it. -/
  | flawed (read : Fault) (skipped : Option Fault)

inductive JsonMember where
  | mk (key : Except Fault String) (value : Json)

end

namespace Json

def list (items : List Json) : Json :=
  .array items none

/-- An object without faults. -/
def record (members : List (String × Json)) : Json :=
  .object (members.map fun (key, value) => ⟨.ok key, value⟩) none

mutual

/-- The first fault of a value that nobody reads. -/
def skip : Json → Option Fault
  | .array items fault => (skipItems items).or fault
  | .object members fault => (skipMembers members).or fault
  | .flawed _ skipped => skipped
  | .null | .bool _ | .number _ | .string _ => none

def skipItems : List Json → Option Fault
  | [] => none
  | j :: js => (skip j).or (skipItems js)

def skipMembers : List JsonMember → Option Fault
  | [] => none
  | .mk _ j :: ms => (skip j).or (skipMembers ms)

end

end Json

end Dialect
