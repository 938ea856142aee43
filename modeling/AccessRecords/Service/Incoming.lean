/-
Incoming requests: what a transport hands over, before anything in it has been looked at.
-/
import AccessRecords.Failure
import AccessRecords.Page

namespace AccessRecords

/-- Path parameters by name, query parameters and a body. -/
structure Incoming where
  params : Table String String := ∅
  query : Query := ∅
  body : List UInt8 := []

namespace Incoming

/-- A path parameter that is absent or blank. -/
def missingParam (name : String) : Failure :=
  ⟨.userInput, "missing_param", "path parameter '" ++ name ++ "' is required"⟩

/-- A path parameter without the blanks around it. One that is absent or blank is a failure. -/
def param (inc : Incoming) (name : String) : Except Failure String :=
  match (inc.params.get? name).map Text.trim with
  | some value => if value.isEmpty then .error (missingParam name) else .ok value
  | none => .error (missingParam name)

end Incoming

end AccessRecords
