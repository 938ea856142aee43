/-
Collections by name. The last segment of a name says what is kept in the collection: `roles` and
`policies` hold records of that kind, every other collection holds documents of any form.
-/
import AccessRecords.Query
import AccessRecords.Record

namespace AccessRecords.Collection

/-- The name of a collection in a namespace. -/
def name (ns collection : String) : String := ns ++ "/" ++ collection

/-- The collection of the roles of a namespace. -/
def roles (ns : String) : String := name ns "roles"

/-- The collection of the policies of a namespace. -/
def policies (ns : String) : String := name ns "policies"

/-- What a collection holds. -/
inductive Kind where
  | roles
  | policies
  | other
deriving DecidableEq, Repr, Inhabited

/-- The part of a name after its last slash. -/
def lastSegment (collection : String) : String :=
  String.ofList (collection.toList.reverse.takeWhile (· ≠ '/')).reverse

/-- What a collection holds, by its name. -/
def kind (collection : String) : Kind :=
  let last := lastSegment collection
  if last = "roles" then .roles else if last = "policies" then .policies else .other

namespace Kind

/-- What the documents of a collection are read as. -/
def shape : Kind → Shape
  | .roles => .roles
  | .policies => .policies
  | .other => .raw

/-- The query keys that call for the whole collection to be searched. -/
def scanDimensions : Kind → List String
  | .roles => ["member"]
  | .policies => ["action", "subject", "resource"]
  | .other => []

/-- Whether a query has one of these keys. -/
def isFilter (kind : Kind) (q : Query) : Bool := kind.scanDimensions.any q.contains

end Kind

/-- What the documents of a collection are read as, by its name. -/
def shape (collection : String) : Shape := (kind collection).shape

end AccessRecords.Collection
