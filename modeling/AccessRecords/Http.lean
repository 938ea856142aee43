/-
The service over HTTP: which operation a method and a path ask for, and how replies and failures are
answered.
-/
import AccessRecords.Http.Target
import AccessRecords.Service

namespace AccessRecords.Http

open Json Text

/-! ## Messages -/

/-- A request. -/
structure Request where
  method : String
  target : String
  body : List UInt8 := []
deriving Repr, Inhabited

/-- An answer. The methods that a path allows are listed where another one was asked for. -/
structure Response where
  status : Nat
  contentType : Option String := none
  body : String := ""
  allow : List String := []
deriving DecidableEq, Repr, Inhabited

namespace Response

/-- An answer in plain text. -/
def plain (status : Nat) (body : String) : Response :=
  { status, contentType := some "text/plain; charset=utf-8", body }

/-- An answer with a document. -/
def json (status : Nat) (document : Value) : Response :=
  { status, contentType := some "application/json", body := document.print }

/-- The answer to an operation that failed. -/
def ofFailure (f : Failure) : Response := json f.status f.answer

/-- The answer to an operation that succeeded. -/
def ofReply : Reply → Response
  | .json document => json 200 document
  | .noContent => { status := 204 }

/-- The same answer without its body. -/
def withoutBody (r : Response) : Response := { r with body := "" }

end Response

/-! ## Routes -/

/-- What a path leads to. -/
inductive Route where
  | home
  | listing (family : Service.Family)
  | item (family : Service.Family)
deriving DecidableEq, Repr, Inhabited

/-- The route of a path, and the segments that are its parameters by name. Segments are compared as
they are written, and a parameter at the end of a path has at least one byte. -/
def route? (path : List UInt8) : Option (Route × List (String × List UInt8)) :=
  match (segments path).map fun s => (s, Utf8.decode? s) with
  | [([], _)] => some (.home, [])
  | [(_, some "roles")] => some (.listing .roles, [])
  | [(_, some "policies")] => some (.listing .policies, [])
  | [(_, some "roles"), (b :: bs, _)] => some (.item .roles, [("id", b :: bs)])
  | [(_, some "policies"), (b :: bs, _)] => some (.item .policies, [("id", b :: bs)])
  | [(_, some "collections"), (b :: bs, _)] => some (.listing .collections, [("name", b :: bs)])
  | [(_, some "collections"), (name, _), (b :: bs, _)] =>
    some (.item .collections, [("name", name), ("key", b :: bs)])
  | _ => none

/-- The methods that a route allows. -/
def Route.allow : Route → List String
  | .home | .listing _ => ["GET", "HEAD"]
  | .item _ => ["DELETE", "GET", "HEAD", "PUT"]

/-- The operation that a method asks for on an item. -/
def itemOperation (method : String) : Service.Operation :=
  if method = "PUT" then .upsert else if method = "DELETE" then .delete else .get

/-- The path parameters, or the name of the first that is not well-formed text. -/
def decodeParams (raw : List (String × List UInt8)) : Except String (List (String × String)) :=
  raw.mapM fun p =>
    match pathText? p.2 with
    | some value => .ok (p.1, value)
    | none => .error p.1

/-! ## Serving -/

variable {σ : Type}

/-- Runs an operation of a family and answers with its outcome. -/
def respond (b : Backend σ) (ns : String) (family : Service.Family) (operation : Service.Operation)
    (inc : Incoming) : StateM σ Response := fun s =>
  match (Service.run b (family.endpoint ns) operation {} inc).runOn s with
  | (.ok reply, s') => (.ofReply reply, s')
  | (.error f, s') => (.ofFailure f, s')

/-- Answers a request whose method the route allows. -/
def answer (b : Backend σ) (ns : String) (route : Route) (params : Table String String)
    (query : List UInt8) (request : Request) : StateM σ Response :=
  match route with
  | .home => return .plain 200 "aclstore ok"
  | .listing family =>
    respond b ns family .list { params, query := .ofPairs (queryPairs query) }
  | .item family =>
    match itemOperation request.method with
    | .upsert => respond b ns family .upsert { params, body := request.body }
    | operation => respond b ns family operation { params }

/-- Answers a request to the namespace `ns` on a backend. -/
def serve (b : Backend σ) (ns : String) (request : Request) : StateM σ Response := do
  let (path, query) := splitTarget request.target
  match route? path with
  | none => return { status := 404 }
  | some (route, raw) =>
    if !route.allow.contains request.method then return { status := 405, allow := route.allow }
    let response ← match decodeParams raw with
      | .ok params => answer b ns route (.ofList params) query request
      | .error name => pure (.plain 400 ("Invalid URL: Invalid UTF-8 in `" ++ name ++ "`"))
    return if request.method = "HEAD" then response.withoutBody else response

end AccessRecords.Http
