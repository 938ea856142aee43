/-
Roles: a name and the members that hold it.
-/
import AccessRecords.Json.Schema

namespace AccessRecords

open Json

/-- A role and its members. -/
structure Role where
  id : String := ""
  members : List String := []
deriving DecidableEq, Repr, Inhabited

/-- Whether some text occurs in both lists. -/
def intersects (held wanted : List String) : Bool := held.any wanted.contains

namespace Role

/-- The fields of a role. -/
def schema : Schema Role where
  title := "struct Role"
  blank := {}
  fields := [
    .of "id" .text fun id r => { r with id },
    .of "members" (.list .text) fun members r => { r with members }]

/-- The fields of a role with their values, in order. -/
def toMembers (r : Role) : List (String × Value) :=
  [("id", .text r.id), ("members", .texts r.members)]

/-- The document of a role. -/
def toValue (r : Role) : Value := .object r.toMembers

/-- Whether a wanted member holds the role. -/
def hasAnyMember (r : Role) (wanted : List String) : Bool := intersects r.members wanted

end Role

end AccessRecords
