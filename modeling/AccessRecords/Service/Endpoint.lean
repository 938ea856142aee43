/-
Endpoints: how incoming requests turn into typed ones. A fixed endpoint serves one collection, whose
records are addressed by the path parameter `id`; a generic endpoint serves every collection of a
namespace by the path parameters `name` and `key`. What a collection holds follows from its name on
both.
-/
import AccessRecords.Search
import AccessRecords.Service.Incoming

namespace AccessRecords

/-! ## Typed requests -/

/-- Fetch the record under a key, read as a shape. -/
structure GetRequest where
  collection : String
  key : String
  shape : Shape
deriving DecidableEq, Repr, Inhabited

/-- Remove the record under a key. -/
structure DeleteRequest where
  collection : String
  key : String
deriving DecidableEq, Repr, Inhabited

/-- Write a record under a key. -/
structure UpsertRequest where
  collection : String
  key : String
  record : Record
deriving Repr, Inhabited

/-- Turns an incoming request into a typed one. -/
abbrev Resolver (α : Type) := Context → Incoming → Except Failure α

/-- The resolvers of the four operations. -/
structure Endpoint where
  get : Resolver GetRequest
  delete : Resolver DeleteRequest
  upsert : Resolver UpsertRequest
  list : Resolver Search.Request

namespace Endpoint

/-! ## Bodies -/

/-- A body whose id is not the one of the path. -/
def idMismatch (bodyId key : String) : Failure :=
  ⟨.userInput, "id_mismatch", "body id '" ++ bodyId ++ "' does not match path id '" ++ key ++ "'"⟩

/-- The id of a record under a key: one that is missing is filled in, another one is a failure. -/
def reconcile (key id : String) : Except Failure String :=
  if id.isEmpty then .ok key
  else if id = key then .ok id
  else .error (idMismatch id key)

/-- A record with its id reconciled with the key; a raw document is taken as it is. -/
def keyed (key : String) : Record → Except Failure Record
  | .role r => (reconcile key r.id).map fun id => .role { r with id }
  | .policy p => (reconcile key p.id).map fun id => .policy { p with id }
  | .raw v => .ok (.raw v)

/-- The record that a body describes under a key. -/
def readBody (shape : Shape) (key : String) (inc : Incoming) : Except Failure Record := do
  keyed key (← Record.ofBody shape inc.body)

/-! ## Fixed endpoints -/

/-- One collection, whose records are addressed by `id`. -/
def fixed (collection : String) : Endpoint where
  get _ inc := return ⟨collection, ← inc.param "id", Collection.shape collection⟩
  delete _ inc := return ⟨collection, ← inc.param "id"⟩
  upsert _ inc := do
    let key ← inc.param "id"
    return ⟨collection, key, ← readBody (Collection.shape collection) key inc⟩
  list _ _ := return .ofCollection collection

/-! ## Generic endpoints -/

/-- A collection name with a slash in it. -/
def invalidCollection (name : String) : Failure :=
  ⟨.userInput, "invalid_collection", "collection name '" ++ name ++ "' must not contain '/'"⟩

/-- The collection that a request names in a namespace. -/
def collectionOf (ns : String) (inc : Incoming) : Except Failure String := do
  let name ← inc.param "name"
  if name.toList.contains '/' then .error (invalidCollection name)
  else return Collection.name ns name

/-- Every collection of a namespace, addressed by `name`, with records addressed by `key`. -/
def generic (ns : String) : Endpoint where
  get _ inc := do
    let collection ← collectionOf ns inc
    return ⟨collection, ← inc.param "key", Collection.shape collection⟩
  delete _ inc := do
    let collection ← collectionOf ns inc
    return ⟨collection, ← inc.param "key"⟩
  upsert _ inc := do
    let collection ← collectionOf ns inc
    let key ← inc.param "key"
    return ⟨collection, key, ← readBody (Collection.shape collection) key inc⟩
  list _ inc := return .ofCollection (← collectionOf ns inc)

end Endpoint

end AccessRecords
