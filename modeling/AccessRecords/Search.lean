/-
Searches: listing the records of a collection that a query asks for. A query with a key that calls
for it has the whole collection fetched, filtered and then cut to the page; any other query has the
backend cut the page, of which the records that match are kept. Either way the page is cut once.
-/
import AccessRecords.Backend
import AccessRecords.Collection

namespace AccessRecords

open Json

/-! ## Matching -/

/-- No wanted values admit everything; otherwise the test decides. -/
def admits (wanted : List String) (test : List String → Bool) : Bool :=
  wanted.isEmpty || test wanted

/-- Whether a role is one that a query asks for. -/
def Role.matches (r : Role) (q : Query) : Bool :=
  admits (q.values "member") r.hasAnyMember && admits (q.values "id") (·.contains r.id)

/-- Whether a policy is one that a query asks for. -/
def Policy.matches (p : Policy) (q : Query) : Bool :=
  admits (q.values "subject") p.hasAnySubject && admits (q.values "resource") p.hasAnyResource &&
    admits (q.values "action") p.hasAnyAction && admits (q.values "id") (·.contains p.id)

namespace Listing

/-- Documents of any form have nothing that a query could be held against. -/
def notFilterable : Failure :=
  ⟨.contract, "unfilterable_shape", "raw listings cannot be filtered by query"⟩

/-- The records of a listing that a query asks for, in order. -/
def filter (l : Listing) (q : Query) : Except Failure Listing :=
  match l with
  | .roles items => .ok (.roles (items.filter (·.matches q)))
  | .policies items => .ok (.policies (items.filter (·.matches q)))
  | .raw _ => .error notFilterable

/-- The records of a listing that lie on a page. -/
def window (l : Listing) (page : Page) : Listing :=
  match l with
  | .roles items => .roles (page.window items)
  | .policies items => .policies (page.window items)
  | .raw items => .raw (page.window items)

end Listing

namespace Search

/-! ## Requests -/

/-- Whether the records of a listing are held against the query. -/
inductive Strategy where
  | byQuery
  | passthrough
deriving DecidableEq, Repr, Inhabited

/-- Holds a listing against a query, or leaves it as it is. -/
def Strategy.apply (strategy : Strategy) (l : Listing) (q : Query) : Except Failure Listing :=
  match strategy with
  | .byQuery => l.filter q
  | .passthrough => .ok l

/-- What to list: a collection, what its documents are read as, and how they are filtered. -/
structure Request where
  collection : String
  shape : Shape
  strategy : Strategy
deriving DecidableEq, Repr, Inhabited

namespace Request

/-- The roles of a collection that match the query. -/
def roles (collection : String) : Request := ⟨collection, .roles, .byQuery⟩

/-- The policies of a collection that match the query. -/
def policies (collection : String) : Request := ⟨collection, .policies, .byQuery⟩

/-- The documents of a collection. -/
def raw (collection : String) : Request := ⟨collection, .raw, .passthrough⟩

/-- What the name of a collection calls for. -/
def ofCollection (collection : String) : Request :=
  match Collection.kind collection with
  | .roles => roles collection
  | .policies => policies collection
  | .other => raw collection

/-- A request that would hold documents of any form against a query. -/
def notFilterable (collection : String) : Failure :=
  ⟨.contract, "unfilterable_shape",
    "list request for '" ++ collection ++ "' binds a query filter to raw documents"⟩

/-- Fails if the records cannot be held against a query as requested. -/
def validate (r : Request) : Except Failure Unit :=
  if r.strategy = .byQuery ∧ r.shape = .raw then .error (notFilterable r.collection) else .ok ()

end Request

/-! ## Plans -/

/-- How a request is served: by a search of the whole collection or by one page of it. -/
structure Plan where
  kind : Collection.Kind
  scan : Bool
  page : Page
deriving DecidableEq, Repr, Inhabited

/-- The plan for a collection and a query. -/
def Plan.make (collection : String) (q : Query) : Plan :=
  let kind := Collection.kind collection
  ⟨kind, kind.isFilter q, Page.ofQuery {} q⟩

/-! ## Serving -/

variable {σ : Type}

/-- The documents that a plan calls for. -/
def fetch (b : Backend σ) (ctx : Context) (collection : String) (plan : Plan) :
    Action σ (List Value) :=
  if plan.scan then b.listAll ctx collection else b.list ctx collection plan.page

/-- The listing of fetched documents: read, filtered, and cut to the page if they were not fetched
by page. -/
def select (r : Request) (q : Query) (plan : Plan) (documents : List Value) :
    Except Failure Listing := do
  let listing ← Listing.decode r.shape documents
  let listing ← r.strategy.apply listing q
  return if plan.scan then listing.window plan.page else listing

/-- Serves a request. -/
def run (b : Backend σ) (ctx : Context) (r : Request) (q : Query) : Action σ Listing := do
  Action.ofExcept r.validate
  let plan := Plan.make r.collection q
  let documents ← fetch b ctx r.collection plan
  Action.ofExcept (select r q plan documents)

end Search

end AccessRecords
