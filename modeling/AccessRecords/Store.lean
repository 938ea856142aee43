/-
The store: documents in memory, each under a collection and a key. Every collection that was ever
written to has a table of its own, which stays, empty, when the last document goes. No answer of the
store tells an empty table from one that is missing.
-/
import AccessRecords.Backend
import AccessRecords.Record

namespace AccessRecords

open Json

/-- A table of documents for each collection, by the name of the collection. -/
structure Store where
  tables : Table String (Table String Value) := ∅

namespace Store

/-- The store without collections. -/
def empty : Store := {}

instance : EmptyCollection Store := ⟨empty⟩

instance : Inhabited Store := ⟨empty⟩

/-! ## Reading -/

/-- The document under a key of a collection. -/
def get? (s : Store) (collection key : String) : Option Value :=
  (s.tables.get? collection).bind (·.get? key)

/-- The documents of a collection with their keys, by ascending key. -/
def documents (s : Store) (collection : String) : List (String × Value) :=
  match s.tables.get? collection with
  | some table => table.entries
  | none => []

/-- How many documents a collection has. -/
def length (s : Store) (collection : String) : Nat := (s.documents collection).length

/-- Of some tables, listed in any order, the names of those that have documents, ascending. -/
def namesOf (tables : List (String × Table String Value)) : List String :=
  ((tables.filter fun e => !e.2.isEmpty).map (·.1)).mergeSort fun a b => (compare a b).isLE

/-- The names of the collections that have documents, ascending. -/
def collections (s : Store) : List String := namesOf s.tables.entries

/-- All documents of a collection by ascending key. -/
def values (s : Store) (collection : String) : List Value := (s.documents collection).map (·.2)

/-- One page of the documents of a collection by ascending key. -/
def page (s : Store) (collection : String) (p : Page) : List Value :=
  let (start, stop) := p.index (s.length collection)
  ((s.values collection).drop start).take (stop - start)

/-! ## Writing -/

/-- Puts a document under a key of a collection, over the one that was there. A collection without a
table gets one. -/
def insert (s : Store) (collection key : String) (document : Value) : Store :=
  let table := (s.tables.get? collection).getD ∅
  ⟨s.tables.insert collection (table.insert key document)⟩

/-- Takes the document under a key out of a collection, which keeps its table. -/
def erase (s : Store) (collection key : String) : Store :=
  match s.tables.get? collection with
  | some table => ⟨s.tables.insert collection (table.erase key)⟩
  | none => s

/-- Puts roles into a collection, each under its own id, in order. -/
def insertRoles (s : Store) (collection : String) (roles : List Role) : Store :=
  roles.foldl (fun s r => s.insert collection r.id r.toValue) s

/-- Puts policies into a collection, each under its own id, in order. -/
def insertPolicies (s : Store) (collection : String) (policies : List Policy) : Store :=
  policies.foldl (fun s p => s.insert collection p.id p.toValue) s

/-! ## The store as a backend -/

/-- A document that is not there. -/
def notFound (collection key : String) : Failure :=
  ⟨.notFound, "not_found", "no record '" ++ key ++ "' in collection '" ++ collection ++ "'"⟩

/-- The store behind the backend operations, each of which first makes sure that the caller still
waits. -/
def backend : Backend Store where
  get ctx collection key := do
    Action.ofExcept ctx.ensureActive
    match (← get).get? collection key with
    | some document => return document
    | none => throw (notFound collection key)
  delete ctx collection key := do
    Action.ofExcept ctx.ensureActive
    match (← get).get? collection key with
    | some _ => modify (·.erase collection key)
    | none => throw (notFound collection key)
  upsert ctx collection key document := do
    Action.ofExcept ctx.ensureActive
    modify (·.insert collection key document)
    return document
  list ctx collection page := do
    Action.ofExcept ctx.ensureActive
    return (← get).page collection page
  listAll ctx collection := do
    Action.ofExcept ctx.ensureActive
    return (← get).values collection

end Store

end AccessRecords
