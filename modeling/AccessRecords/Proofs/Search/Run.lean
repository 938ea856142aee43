/-
Searches step by step: a request that passes its check has its documents fetched in one backend
call, and the answer is selected from them. On the store a search changes nothing, and its answer
follows from the documents of the collection that it lists.
-/
import AccessRecords.Proofs.Store.Operations
import AccessRecords.Search

namespace AccessRecords.Search

open Json

variable {σ : Type}

namespace Request

@[simp] theorem collection_ofCollection (c : String) : (ofCollection c).collection = c := by
  unfold ofCollection
  cases Collection.kind c <;> rfl

@[simp] theorem shape_ofCollection (c : String) : (ofCollection c).shape = Collection.shape c := by
  unfold ofCollection Collection.shape
  cases Collection.kind c <;> rfl

end Request

theorem Plan.scan_make (c : String) (q : Query) : (make c q).scan = (Collection.kind c).isFilter q := rfl

theorem Plan.page_make (c : String) (q : Query) : (make c q).page = Page.ofQuery {} q := rfl

theorem run_runOn (b : Backend σ) (ctx : Context) (r : Request) (q : Query) (s : σ) :
    (run b ctx r q).runOn s =
      match r.validate with
      | .error f => (.error f, s)
      | .ok _ =>
        match (fetch b ctx r.collection (Plan.make r.collection q)).runOn s with
        | (.ok documents, s') => (select r q (Plan.make r.collection q) documents, s')
        | (.error f, s') => (.error f, s') := by
  unfold run
  rw [Action.runOn_bind, Action.runOn_ofExcept]
  cases r.validate with
  | error f => rfl
  | ok _ =>
    show Action.runOn (fetch b ctx r.collection _ >>= _) s = _
    rw [Action.runOn_bind]
    rcases (fetch b ctx r.collection (Plan.make r.collection q)).runOn s with ⟨_ | _, s'⟩ <;> rfl

/-! ## On the store -/

/-- The documents of the store that a plan calls for. -/
def Plan.documents (plan : Plan) (s : Store) (collection : String) : List Value :=
  if plan.scan then s.values collection else s.page collection plan.page

theorem fetch_store (ctx : Context) (c : String) (plan : Plan) (s : Store) :
    (fetch Store.backend ctx c plan).runOn s =
      if ctx.isCancelled then (.error ctx.cancelled, s) else (.ok (plan.documents s c), s) := by
  unfold fetch Plan.documents
  cases plan.scan
  · exact Store.backend_list
  · exact Store.backend_listAll

/-- The answer to a request on the store. -/
def result (r : Request) (q : Query) (ctx : Context) (s : Store) : Except Failure Listing := do
  r.validate
  ctx.ensureActive
  let plan := Plan.make r.collection q
  select r q plan (plan.documents s r.collection)

theorem run_store (ctx : Context) (r : Request) (q : Query) (s : Store) :
    (run Store.backend ctx r q).runOn s = (result r q ctx s, s) := by
  rw [run_runOn]
  unfold result Context.ensureActive
  cases r.validate with
  | error f => rfl
  | ok _ =>
    dsimp only
    rw [fetch_store]
    cases ctx.isCancelled <;> rfl

theorem documents_congr {s t : Store} {c : String} (plan : Plan) (h : s.documents c = t.documents c) :
    plan.documents s c = plan.documents t c := by
  unfold Plan.documents
  rw [Store.values_congr h, Store.page_congr h]

theorem result_congr {s t : Store} {r : Request} (q : Query) (ctx : Context)
    (h : s.documents r.collection = t.documents r.collection) : result r q ctx s = result r q ctx t := by
  unfold result
  dsimp only
  rw [documents_congr _ h]

end AccessRecords.Search
