/-
Backends: keyed collections of documents behind five operations. An operation runs on a state,
which it leaves changed or unchanged whether it succeeds or fails.
-/
import AccessRecords.Context
import AccessRecords.Page

namespace AccessRecords

open Json

/-- An operation on a state that may fail. -/
abbrev Action (σ α : Type) := ExceptT Failure (StateM σ) α

namespace Action

variable {σ α : Type}

/-- Runs an operation on a state. -/
def runOn (a : Action σ α) (s : σ) : Except Failure α × σ := (ExceptT.run a).run s

/-- The operation that does nothing but give a result that is already known. -/
def ofExcept (r : Except Failure α) : Action σ α := ExceptT.mk (pure r)

@[simp] theorem runOn_ofExcept (r : Except Failure α) (s : σ) : (ofExcept r).runOn s = (r, s) := rfl

/-- An operation that fails ends a sequence in the state it leaves. -/
theorem runOn_bind {β : Type} (a : Action σ α) (f : α → Action σ β) (s : σ) :
    (a >>= f).runOn s =
      match a.runOn s with
      | (.ok x, s') => (f x).runOn s'
      | (.error e, s') => (.error e, s') := by
  show ExceptT.bindCont f (a.runOn s).1 (a.runOn s).2 = _
  rcases a.runOn s with ⟨_ | _, _⟩ <;> rfl

end Action

/-- Keyed collections of documents: fetch a document, remove one, write one and give back what was
written, and list a page or all of a collection by ascending key. -/
structure Backend (σ : Type) where
  get : Context → String → String → Action σ Value
  delete : Context → String → String → Action σ Unit
  upsert : Context → String → String → Value → Action σ Value
  list : Context → String → Page → Action σ (List Value)
  listAll : Context → String → Action σ (List Value)

namespace Backend

variable {σ : Type}

/-! ## Recording -/

/-- A call of a backend operation. -/
inductive Call where
  | get (collection key : String)
  | delete (collection key : String)
  | upsert (collection key : String) (document : Value)
  | list (collection : String) (page : Page)
  | listAll (collection : String)
deriving Repr, Inhabited

/-- Notes a call before running it. -/
def noting {α : Type} (call : Call) (a : Action σ α) : Action (σ × List Call) α := fun s =>
  let (r, s') := a.runOn s.1
  (r, s', s.2 ++ [call])

/-- A backend that also keeps the list of the calls made to it, the failing ones included. -/
def recorded (b : Backend σ) : Backend (σ × List Call) where
  get ctx collection key := noting (.get collection key) (b.get ctx collection key)
  delete ctx collection key := noting (.delete collection key) (b.delete ctx collection key)
  upsert ctx collection key document :=
    noting (.upsert collection key document) (b.upsert ctx collection key document)
  list ctx collection page := noting (.list collection page) (b.list ctx collection page)
  listAll ctx collection := noting (.listAll collection) (b.listAll ctx collection)

/-! ## Prepared answers -/

/-- Answers that are given instead of running operations: a failure for all of them, or documents
for some of them. -/
structure Prepared where
  fail : Option Failure := none
  get : Option Value := none
  upsert : Option Value := none
  list : Option (List Value) := none
deriving Repr, Inhabited

/-- A prepared answer if there is one, and an operation otherwise. -/
def answer {α : Type} (fail : Option Failure) (reply : Option α) (a : Action σ α) : Action σ α :=
  match fail, reply with
  | some f, _ => Action.ofExcept (.error f)
  | none, some x => Action.ofExcept (.ok x)
  | none, none => a

/-- A backend that gives prepared answers, whatever the context, and has another backend do the
rest. -/
def prepared (p : Prepared) (b : Backend σ) : Backend σ where
  get ctx collection key := answer p.fail p.get (b.get ctx collection key)
  delete ctx collection key := answer p.fail none (b.delete ctx collection key)
  upsert ctx collection key document :=
    answer p.fail p.upsert (b.upsert ctx collection key document)
  list ctx collection page := answer p.fail p.list (b.list ctx collection page)
  listAll ctx collection := answer p.fail p.list (b.listAll ctx collection)

end Backend

end AccessRecords
