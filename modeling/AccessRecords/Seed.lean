/-
Seeds: files of roles and policies that a store starts with. A seed is loaded as a whole or not at
all.
-/
import AccessRecords.Collection
import AccessRecords.FileTree
import AccessRecords.Store

namespace AccessRecords

open Json

/-- The roles and policies of a seed file, in order. -/
structure Seed where
  roles : List Role := []
  policies : List Policy := []
deriving Repr, Inhabited

namespace Seed

/-- The fields of a seed. -/
def schema : Schema Seed where
  title := "struct SeedFile"
  blank := {}
  fields := [
    .of "roles" (.list Role.schema.decoder) fun roles s => { s with roles },
    .of "policies" (.list Policy.schema.decoder) fun policies s => { s with policies }]

/-- The fields of a seed with their values, in order. -/
def toMembers (s : Seed) : List (String × Value) :=
  [("roles", .list (s.roles.map fun r => .object r.toMembers)),
   ("policies", .list (s.policies.map fun p => .object p.toMembers))]

/-- The text of a seed file, each record with its fields in order. -/
def print (s : Seed) : String := (Value.object s.toMembers).print

/-- The seed that the bytes of a file describe. -/
def parse (bytes : List UInt8) : Except Failure Seed :=
  (schema.decoder.parse bytes).mapError .serialization

/-- How many records a seed has. -/
def size (s : Seed) : Nat := s.roles.length + s.policies.length

/-! ## Checking -/

/-- A seed that cannot be loaded. -/
def invalid (message : String) : Failure := ⟨.userInput, "invalid_seed", message⟩

/-- Fails at the first role without an id, and otherwise if any policy has none. -/
def validate (s : Seed) : Except Failure Unit :=
  match s.roles.find? (·.id.isEmpty) with
  | some r =>
    .error (invalid ("role with members " ++ Text.quotedList r.members ++ " has no id"))
  | none =>
    if s.policies.any (·.id.isEmpty) then .error (invalid "policy without id in seed file")
    else .ok ()

/-! ## Loading -/

/-- A file: where it is, and its bytes or why they cannot be read. -/
structure File where
  path : String
  contents : Except Unreadable (List UInt8)

/-- A file that cannot be read. -/
def unreadable (path : String) (reason : Unreadable) : Failure :=
  ⟨.backend, "io", "cannot read seed file " ++ path ++ ": " ++ reason.message⟩

/-- The seed that the bytes of a file describe, if all of its records have an id. -/
def ofBytes (bytes : List UInt8) : Except Failure Seed := do
  let seed ← parse bytes
  seed.validate
  return seed

/-- The seed of a file. -/
def ofFile (file : File) : Except Failure Seed :=
  match file.contents with
  | .ok bytes => ofBytes bytes
  | .error reason => .error (unreadable file.path reason)

end Seed

namespace Store

/-- Puts the roles and then the policies of a seed into the collections of a namespace. -/
def insertSeed (s : Store) (ns : String) (seed : Seed) : Store :=
  (s.insertRoles (Collection.roles ns) seed.roles).insertPolicies (Collection.policies ns)
    seed.policies

/-- Loads a seed file into the collections of a namespace and gives the number of its records. -/
def load (ns : String) (file : Seed.File) : Action Store Nat := do
  let seed ← Action.ofExcept (Seed.ofFile file)
  modify (·.insertSeed ns seed)
  return seed.size

end Store

end AccessRecords
