/-
Policies: who may or may not do what to which resources, under which conditions. A policy that
names no effect denies.
-/
import AccessRecords.Record.Effect
import AccessRecords.Record.Role

namespace AccessRecords

open Json

/-- A policy. The conditions may be any value, and nothing depends on them. -/
structure Policy where
  id : String := ""
  description : String := ""
  subjects : List String := []
  resources : List String := []
  actions : List String := []
  effect : Effect := .deny
  conditions : Value := .emptyObject
deriving Repr, Inhabited

namespace Policy

/-- The fields of a policy. -/
def schema : Schema Policy where
  title := "struct Policy"
  blank := {}
  fields := [
    .of "id" .text fun id p => { p with id },
    .of "description" .text fun description p => { p with description },
    .of "subjects" (.list .text) fun subjects p => { p with subjects },
    .of "resources" (.list .text) fun resources p => { p with resources },
    .of "actions" (.list .text) fun actions p => { p with actions },
    .of "effect" Effect.decoder fun effect p => { p with effect },
    .of "conditions" .any fun conditions p => { p with conditions }]

/-- The fields of a policy with their values, in order. -/
def toMembers (p : Policy) : List (String × Value) :=
  [("id", .text p.id),
   ("description", .text p.description),
   ("subjects", .texts p.subjects),
   ("resources", .texts p.resources),
   ("actions", .texts p.actions),
   ("effect", .text p.effect.name),
   ("conditions", p.conditions)]

/-- The document of a policy: its fields by ascending name. -/
def toValue (p : Policy) : Value :=
  .object
    [("actions", .texts p.actions),
     ("conditions", p.conditions),
     ("description", .text p.description),
     ("effect", .text p.effect.name),
     ("id", .text p.id),
     ("resources", .texts p.resources),
     ("subjects", .texts p.subjects)]

/-- Whether the policy is about a wanted subject. -/
def hasAnySubject (p : Policy) (wanted : List String) : Bool := intersects p.subjects wanted

/-- Whether the policy is about a wanted resource. -/
def hasAnyResource (p : Policy) (wanted : List String) : Bool := intersects p.resources wanted

/-- Whether the policy is about a wanted action. -/
def hasAnyAction (p : Policy) (wanted : List String) : Bool := intersects p.actions wanted

end Policy

end AccessRecords
