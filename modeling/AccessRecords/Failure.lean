/-
Failures: what a caller is told when an operation does not succeed. A failure has a kind, which
decides the status it is answered with, a short code and a message.
-/
import AccessRecords.Json.Fault

namespace AccessRecords

open Json

/-- Who or what a failure is due to. -/
inductive Failure.Kind where
  | userInput
  | notFound
  | backend
  | contract
  | cancelled
  | internal
deriving DecidableEq, Repr, Inhabited

/-- A failure of an operation. -/
structure Failure where
  kind : Failure.Kind
  code : String
  message : String
deriving DecidableEq, Repr, Inhabited

namespace Failure

/-- All kinds. -/
def Kind.all : List Kind := [.userInput, .notFound, .backend, .contract, .cancelled, .internal]

/-- The name of a kind, as written in a failure's document. -/
def Kind.name : Kind → String
  | .userInput => "user_input"
  | .notFound => "not_found"
  | .backend => "backend"
  | .contract => "contract"
  | .cancelled => "cancelled"
  | .internal => "internal"

/-- The kind with a name. -/
def Kind.ofName? (name : String) : Option Kind := Kind.all.find? (·.name == name)

/-- The status that a failure of a kind is answered with. -/
def Kind.status : Kind → Nat
  | .userInput => 400
  | .notFound => 404
  | .backend => 503
  | .contract => 500
  | .cancelled => 499
  | .internal => 500

/-- The status that a failure is answered with. -/
def status (f : Failure) : Nat := f.kind.status

/-- Whether a failure reports that there is no such record. -/
def isNotFound (f : Failure) : Bool := f.kind == .notFound

/-- A failure in one line. -/
def display (f : Failure) : String := f.code ++ ": " ++ f.message

/-- The members of a failure's document. -/
def toMembers (f : Failure) : List (String × Value) :=
  [("type", .text f.kind.name), ("code", .text f.code), ("message", .text f.message)]

/-- The document of a failure. -/
def toValue (f : Failure) : Value := .object f.toMembers

/-- The body of the answer that reports a failure. -/
def answer (f : Failure) : Value :=
  .object [("code", .text f.code), ("message", .text f.message), ("status", .text "error")]

/-! ## The failures of this library -/

/-- A document that does not describe what it should. -/
def serialization (fault : Fault) : Failure := ⟨.backend, "serialization", fault.message⟩

/-- An error of which nothing but its text is known. -/
def ofText (text : String) : Failure := ⟨.internal, "internal", text⟩

end Failure

end AccessRecords
