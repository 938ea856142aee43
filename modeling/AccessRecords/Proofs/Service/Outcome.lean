/-
What one operation of the service does. On any backend it resolves the request, calls the backend
and replies. On the store a request is about one collection: it leaves the store as it is, takes a
document out of that collection or puts the document of a record in, and what it replies follows
from the documents of that collection.
-/
import AccessRecords.Proofs.Except
import AccessRecords.Proofs.Search.Run
import AccessRecords.Service

namespace AccessRecords.Service

open Json

/-! ## On any backend -/

section Backend

variable {σ : Type} (b : Backend σ) (ctx : Context) (inc : Incoming) (s : σ)

theorem get_runOn (resolve : Resolver GetRequest) :
    (get b resolve ctx inc).runOn s =
      match resolve ctx inc with
      | .error f => (.error f, s)
      | .ok r =>
        match (b.get ctx r.collection r.key).runOn s with
        | (.ok d, s') => (replyAs r.shape d, s')
        | (.error f, s') => (.error f, s') := by
  unfold get
  rw [Action.runOn_bind, Action.runOn_ofExcept]
  cases resolve ctx inc with
  | error f => rfl
  | ok r =>
    dsimp only
    rw [Action.runOn_bind]
    rcases (b.get ctx r.collection r.key).runOn s with ⟨_ | _, s'⟩ <;> rfl

theorem delete_runOn (resolve : Resolver DeleteRequest) :
    (delete b resolve ctx inc).runOn s =
      match resolve ctx inc with
      | .error f => (.error f, s)
      | .ok r =>
        match (b.delete ctx r.collection r.key).runOn s with
        | (.ok _, s') => (.ok .noContent, s')
        | (.error f, s') => (.error f, s') := by
  unfold delete
  rw [Action.runOn_bind, Action.runOn_ofExcept]
  cases resolve ctx inc with
  | error f => rfl
  | ok r =>
    dsimp only
    rw [Action.runOn_bind]
    rcases (b.delete ctx r.collection r.key).runOn s with ⟨_ | _, s'⟩ <;> rfl

theorem upsert_runOn (resolve : Resolver UpsertRequest) :
    (upsert b resolve ctx inc).runOn s =
      match resolve ctx inc with
      | .error f => (.error f, s)
      | .ok r =>
        match (b.upsert ctx r.collection r.key r.record.toValue).runOn s with
        | (.ok d, s') => (replyAs r.record.shape d, s')
        | (.error f, s') => (.error f, s') := by
  unfold upsert
  rw [Action.runOn_bind, Action.runOn_ofExcept]
  cases resolve ctx inc with
  | error f => rfl
  | ok r =>
    dsimp only
    rw [Action.runOn_bind]
    rcases (b.upsert ctx r.collection r.key r.record.toValue).runOn s with ⟨_ | _, s'⟩ <;> rfl

theorem list_runOn (resolve : Resolver Search.Request) :
    (list b resolve ctx inc).runOn s =
      match resolve ctx inc with
      | .error f => (.error f, s)
      | .ok r =>
        match (Search.run b ctx r inc.query).runOn s with
        | (.ok l, s') => (.ok (.json l.toValue), s')
        | (.error f, s') => (.error f, s') := by
  unfold list
  rw [Action.runOn_bind, Action.runOn_ofExcept]
  cases resolve ctx inc with
  | error f => rfl
  | ok r =>
    dsimp only
    rw [Action.runOn_bind]
    rcases (Search.run b ctx r inc.query).runOn s with ⟨_ | _, s'⟩ <;> rfl

end Backend

/-- The collection that a request is about. -/
def target (e : Endpoint) (operation : Operation) (ctx : Context) (inc : Incoming) :
    Except Failure String :=
  match operation with
  | .get => (e.get ctx inc).map (·.collection)
  | .delete => (e.delete ctx inc).map (·.collection)
  | .upsert => (e.upsert ctx inc).map (·.collection)
  | .list => (e.list ctx inc).map (·.collection)

/-- A request that its endpoint refuses never reaches the backend. -/
theorem run_of_target_eq_error {σ : Type} (b : Backend σ) {e : Endpoint} {operation : Operation} {ctx : Context}
    {inc : Incoming} {f : Failure} (h : target e operation ctx inc = .error f) (s : σ) :
    (run b e operation ctx inc).runOn s = (.error f, s) := by
  cases operation with
  | get =>
    refine (get_runOn b ctx inc s _).trans ?_
    rw [Except.map_eq_error.1 h]
  | delete =>
    refine (delete_runOn b ctx inc s _).trans ?_
    rw [Except.map_eq_error.1 h]
  | upsert =>
    refine (upsert_runOn b ctx inc s _).trans ?_
    rw [Except.map_eq_error.1 h]
  | list =>
    refine (list_runOn b ctx inc s _).trans ?_
    rw [Except.map_eq_error.1 h]

/-! ## On the store -/

/-- What a request replies and the store that it leaves. -/
def outcome (e : Endpoint) (operation : Operation) (ctx : Context) (inc : Incoming) (s : Store) :
    Except Failure Reply × Store :=
  (run Store.backend e operation ctx inc).runOn s

section Store

variable {e : Endpoint} {ctx : Context} {inc : Incoming} {s t : Store}

theorem outcome_get : outcome e .get ctx inc s =
    match e.get ctx inc with
    | .error f => (.error f, s)
    | .ok r =>
      if ctx.isCancelled then (.error ctx.cancelled, s)
      else match s.get? r.collection r.key with
        | some d => (replyAs r.shape d, s)
        | none => (.error (Store.notFound r.collection r.key), s) := by
  show (get Store.backend e.get ctx inc).runOn s = _
  rw [get_runOn]
  cases e.get ctx inc with
  | error f => rfl
  | ok r =>
    dsimp only
    rw [Store.backend_get]
    cases ctx.isCancelled
    · cases s.get? r.collection r.key <;> rfl
    · rfl

theorem outcome_delete : outcome e .delete ctx inc s =
    match e.delete ctx inc with
    | .error f => (.error f, s)
    | .ok r =>
      if ctx.isCancelled then (.error ctx.cancelled, s)
      else match s.get? r.collection r.key with
        | some _ => (.ok .noContent, s.erase r.collection r.key)
        | none => (.error (Store.notFound r.collection r.key), s) := by
  show (delete Store.backend e.delete ctx inc).runOn s = _
  rw [delete_runOn]
  cases e.delete ctx inc with
  | error f => rfl
  | ok r =>
    dsimp only
    rw [Store.backend_delete]
    cases ctx.isCancelled
    · cases s.get? r.collection r.key <;> rfl
    · rfl

theorem outcome_upsert : outcome e .upsert ctx inc s =
    match e.upsert ctx inc with
    | .error f => (.error f, s)
    | .ok r =>
      if ctx.isCancelled then (.error ctx.cancelled, s)
      else (replyAs r.record.shape r.record.toValue, s.insert r.collection r.key r.record.toValue) := by
  show (upsert Store.backend e.upsert ctx inc).runOn s = _
  rw [upsert_runOn]
  cases e.upsert ctx inc with
  | error f => rfl
  | ok r =>
    dsimp only
    rw [Store.backend_upsert]
    cases ctx.isCancelled <;> rfl

theorem outcome_list : outcome e .list ctx inc s =
    match e.list ctx inc with
    | .error f => (.error f, s)
    | .ok r =>
      match Search.result r inc.query ctx s with
      | .ok l => (.ok (.json l.toValue), s)
      | .error f => (.error f, s) := by
  show (list Store.backend e.list ctx inc).runOn s = _
  rw [list_runOn]
  cases e.list ctx inc with
  | error f => rfl
  | ok r =>
    dsimp only
    rw [Search.run_store]
    cases Search.result r inc.query ctx s <;> rfl

/-- What a request can do to the store: nothing, take a document out of its collection, or put the
document of a record in. -/
theorem store_cases (e : Endpoint) (operation : Operation) (ctx : Context) (inc : Incoming)
    (s : Store) :
    (outcome e operation ctx inc s).2 = s ∨
    (∃ r, operation = .delete ∧ e.delete ctx inc = .ok r ∧
      (outcome e operation ctx inc s).2 = s.erase r.collection r.key) ∨
    (∃ r, operation = .upsert ∧ e.upsert ctx inc = .ok r ∧
      (outcome e operation ctx inc s).2 = s.insert r.collection r.key r.record.toValue) := by
  cases operation with
  | get =>
    left
    rw [outcome_get]
    split
    · rfl
    · split_ifs
      · rfl
      · split <;> rfl
  | delete =>
    rw [outcome_delete]
    split
    · exact Or.inl rfl
    · rename_i r hr
      split_ifs
      · exact Or.inl rfl
      · split
        · exact Or.inr (Or.inl ⟨r, rfl, hr, rfl⟩)
        · exact Or.inl rfl
  | upsert =>
    rw [outcome_upsert]
    split
    · exact Or.inl rfl
    · rename_i r hr
      split_ifs
      · exact Or.inl rfl
      · exact Or.inr (Or.inr ⟨r, rfl, hr, rfl⟩)
  | list =>
    left
    rw [outcome_list]
    split
    · rfl
    · split <;> rfl

end Store

end AccessRecords.Service
