/-
The service: the four operations on a backend. Each resolves the incoming request, runs on the
backend and replies with what the backend gave, read as the shape that the request asks for.
-/
import AccessRecords.Service.Endpoint

namespace AccessRecords

open Json

/-- What an operation that succeeded replies. -/
inductive Reply where
  | json (document : Value)
  | noContent
deriving Repr, Inhabited

namespace Service

variable {σ : Type}

/-- The reply with a document read as a shape. -/
def replyAs (shape : Shape) (document : Value) : Except Failure Reply :=
  (Record.decode shape document).map fun record => .json record.toValue

/-- Fetches a record. -/
def get (b : Backend σ) (resolve : Resolver GetRequest) (ctx : Context) (inc : Incoming) :
    Action σ Reply := do
  let request ← Action.ofExcept (resolve ctx inc)
  let document ← b.get ctx request.collection request.key
  Action.ofExcept (replyAs request.shape document)

/-- Removes a record. -/
def delete (b : Backend σ) (resolve : Resolver DeleteRequest) (ctx : Context) (inc : Incoming) :
    Action σ Reply := do
  let request ← Action.ofExcept (resolve ctx inc)
  b.delete ctx request.collection request.key
  return .noContent

/-- Writes a record and replies with what was written. -/
def upsert (b : Backend σ) (resolve : Resolver UpsertRequest) (ctx : Context) (inc : Incoming) :
    Action σ Reply := do
  let request ← Action.ofExcept (resolve ctx inc)
  let written ← b.upsert ctx request.collection request.key request.record.toValue
  Action.ofExcept (replyAs request.record.shape written)

/-- Lists the records that a query asks for. -/
def list (b : Backend σ) (resolve : Resolver Search.Request) (ctx : Context) (inc : Incoming) :
    Action σ Reply := do
  let request ← Action.ofExcept (resolve ctx inc)
  let listing ← Search.run b ctx request inc.query
  return .json listing.toValue

/-! ## Operations by name -/

/-- The four operations. -/
inductive Operation where
  | get
  | delete
  | upsert
  | list
deriving DecidableEq, Repr, Inhabited

/-- Runs an operation of an endpoint. -/
def run (b : Backend σ) (endpoint : Endpoint) (operation : Operation) (ctx : Context)
    (inc : Incoming) : Action σ Reply :=
  match operation with
  | .get => get b endpoint.get ctx inc
  | .delete => delete b endpoint.delete ctx inc
  | .upsert => upsert b endpoint.upsert ctx inc
  | .list => list b endpoint.list ctx inc

/-! ## Sites -/

/-- The endpoints of a namespace. -/
inductive Family where
  | roles
  | policies
  | collections
deriving DecidableEq, Repr, Inhabited

/-- The endpoint of a family in a namespace. -/
def Family.endpoint (ns : String) : Family → Endpoint
  | .roles => .fixed (Collection.roles ns)
  | .policies => .fixed (Collection.policies ns)
  | .collections => .generic ns

end Service

end AccessRecords
