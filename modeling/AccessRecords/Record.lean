/-
Records: documents read as roles, as policies or as they are, one by one and in lists.
-/
import AccessRecords.Failure
import AccessRecords.Record.Policy

namespace AccessRecords

open Json

/-- What documents are read as. -/
inductive Shape where
  | roles
  | policies
  | raw
deriving DecidableEq, Repr, Inhabited

/-- The name of a shape. -/
def Shape.name : Shape → String
  | .roles => "roles"
  | .policies => "policies"
  | .raw => "raw"

/-! ## Single records -/

/-- A document that has been read. -/
inductive Record where
  | role (r : Role)
  | policy (p : Policy)
  | raw (v : Value)
deriving Repr, Inhabited

namespace Record

/-- The shape of a record. -/
def shape : Record → Shape
  | .role _ => .roles
  | .policy _ => .policies
  | .raw _ => .raw

/-- The document of a record. -/
def toValue : Record → Value
  | .role r => r.toValue
  | .policy p => p.toValue
  | .raw v => v

/-- The record that a document describes. -/
def ofValue (shape : Shape) (v : Value) : Except Fault Record :=
  match shape with
  | .roles => (Role.schema.ofValue v).map .role
  | .policies => (Policy.schema.ofValue v).map .policy
  | .raw => .ok (.raw v)

/-- The record that a stored document describes. -/
def decode (shape : Shape) (v : Value) : Except Failure Record :=
  (ofValue shape v).mapError .serialization

/-- A request body that describes no record. -/
def invalidBody (message : String) : Failure := ⟨.userInput, "invalid_body", message⟩

/-- The record that a request body describes. -/
def ofBody (shape : Shape) (body : List UInt8) : Except Failure Record := do
  let v ← (Value.parse body).mapError fun fault =>
    invalidBody ("request body is not valid JSON: " ++ fault.message)
  (ofValue shape v).mapError fun fault =>
    invalidBody ("request body is not a valid " ++ shape.name ++ ": " ++ fault.message)

end Record

/-! ## Lists of records -/

/-- Documents that have been read as one shape, in order. -/
inductive Listing where
  | roles (items : List Role)
  | policies (items : List Policy)
  | raw (items : List Value)
deriving Repr, Inhabited

namespace Listing

/-- The shape of a listing. -/
def shape : Listing → Shape
  | .roles _ => .roles
  | .policies _ => .policies
  | .raw _ => .raw

/-- How many records a listing has. -/
def length : Listing → Nat
  | .roles items => items.length
  | .policies items => items.length
  | .raw items => items.length

/-- The records of a listing. -/
def records : Listing → List Record
  | .roles items => items.map .role
  | .policies items => items.map .policy
  | .raw items => items.map .raw

/-- The documents of a listing. -/
def values : Listing → List Value
  | .roles items => items.map Role.toValue
  | .policies items => items.map Policy.toValue
  | .raw items => items

/-- The list of a listing's documents. -/
def toValue (l : Listing) : Value := .list l.values

/-- The listing that documents describe, or what is wrong with the first that does not describe a
record. -/
def ofValues (shape : Shape) (values : List Value) : Except Fault Listing :=
  match shape with
  | .roles => (values.mapM Role.schema.ofValue).map .roles
  | .policies => (values.mapM Policy.schema.ofValue).map .policies
  | .raw => .ok (.raw values)

/-- The listing that stored documents describe. -/
def decode (shape : Shape) (values : List Value) : Except Failure Listing :=
  (ofValues shape values).mapError .serialization

end Listing

end AccessRecords
