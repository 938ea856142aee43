/-
Requests whose caller has gone away. Every operation of the store looks at the signal before it looks at
a document, so a cancelled request neither learns anything about the store nor leaves anything in it.
Main statement: the failure of a cancelled request is determined without the store, and the store stays
as it is; requests that are cancelled could as well not have been sent.
-/
import AccessRecords.Proofs.Search.Specification
import AccessRecords.Proofs.Service.Commuting

namespace AccessRecords

open Json

/-! ## Backends that reject a context -/

variable {σ : Type} {b : Backend σ} {ctx : Context} {f : Failure} {s : σ}

/-- In a context every operation of a backend fails in the same way and leaves the state as it is. -/
structure Backend.Rejects (b : Backend σ) (ctx : Context) (f : Failure) : Prop where
  get : ∀ c k s, (b.get ctx c k).runOn s = (.error f, s)
  delete : ∀ c k s, (b.delete ctx c k).runOn s = (.error f, s)
  upsert : ∀ c k d s, (b.upsert ctx c k d).runOn s = (.error f, s)
  list : ∀ c p s, (b.list ctx c p).runOn s = (.error f, s)
  listAll : ∀ c s, (b.listAll ctx c).runOn s = (.error f, s)

theorem Store.rejects_of_isCancelled (h : ctx.isCancelled = true) : backend.Rejects ctx ctx.cancelled where
  get _ _ _ := backend_get.trans (if_pos h)
  delete _ _ _ := backend_delete.trans (if_pos h)
  upsert _ _ _ _ := backend_upsert.trans (if_pos h)
  list _ _ _ := backend_list.trans (if_pos h)
  listAll _ _ := backend_listAll.trans (if_pos h)

/-- A search that passes its check makes one call, which fails. -/
theorem Search.run_of_rejects (hb : b.Rejects ctx f) {r : Request} (hr : ¬ r.Unfilterable) (q : Query) :
    (run b ctx r q).runOn s = (.error f, s) := by
  have hfetch : (fetch b ctx r.collection (Plan.make r.collection q)).runOn s = (.error f, s) := by
    unfold fetch
    split_ifs
    · exact hb.listAll _ _
    · exact hb.list _ _ _
  rw [run_runOn, validate_of_filterable hr]
  dsimp only
  rw [hfetch]

namespace Service

variable {e : Endpoint} {inc : Incoming} {operation : Operation}

/-- What a request fails with if the backend is of no use to it: the failure of the endpoint if that
refuses the request, then that of a list request which would hold documents of any form against the query,
then the given one. -/
inductive Refused (e : Endpoint) (ctx : Context) (inc : Incoming) (f : Failure) : Operation → Failure → Prop
  | unresolved {operation : Operation} {f' : Failure} :
      target e operation ctx inc = .error f' → Refused e ctx inc f operation f'
  | unfilterable {r : Search.Request} :
      e.list ctx inc = .ok r → r.Unfilterable →
      Refused e ctx inc f .list (Search.Request.notFilterable r.collection)
  | rejected {operation : Operation} {c : String} :
      target e operation ctx inc = .ok c →
      (operation = .list → ∀ r, e.list ctx inc = .ok r → ¬ r.Unfilterable) →
      Refused e ctx inc f operation f

/-- Every request is refused in some way. -/
theorem exists_refused (e : Endpoint) (ctx : Context) (inc : Incoming) (f : Failure) (operation : Operation) :
    ∃ f', Refused e ctx inc f operation f' := by
  cases ht : target e operation ctx inc with
  | error f' => exact ⟨f', .unresolved ht⟩
  | ok c =>
    by_cases hu : operation = .list ∧ ∃ r, e.list ctx inc = .ok r ∧ r.Unfilterable
    · obtain ⟨rfl, r, hr, hu⟩ := hu
      exact ⟨_, .unfilterable hr hu⟩
    · exact ⟨f, .rejected ht fun ho r hr hr' => hu ⟨ho, r, hr, hr'⟩⟩

theorem target_list {r : Search.Request} (h : e.list ctx inc = .ok r) :
    target e .list ctx inc = .ok r.collection :=
  Except.map_eq_ok.2 ⟨r, h, rfl⟩

/-- There is one way in which a request is refused. -/
theorem Refused.unique {f₁ f₂ : Failure} (h₁ : Refused e ctx inc f operation f₁)
    (h₂ : Refused e ctx inc f operation f₂) : f₁ = f₂ := by
  cases h₁ with
  | unresolved h =>
    cases h₂ with
    | unresolved h' => exact Except.error.inj (h.symm.trans h')
    | unfilterable hr hu => cases h.symm.trans (target_list hr)
    | rejected h' hf => cases h.symm.trans h'
  | unfilterable hr hu =>
    cases h₂ with
    | unresolved h' => cases h'.symm.trans (target_list hr)
    | unfilterable hr' hu' => rw [Except.ok.inj (hr.symm.trans hr')]
    | rejected h' hf => exact absurd hu (hf rfl _ hr)
  | rejected h hf =>
    cases h₂ with
    | unresolved h' => cases h.symm.trans h'
    | unfilterable hr hu => exact absurd hu (hf rfl _ hr)
    | rejected h' hf' => rfl

/-- Where the backend rejects the context, requests are refused and the state stays as it is. -/
theorem Refused.run (hb : b.Rejects ctx f) {f' : Failure} (h : Refused e ctx inc f operation f') (s : σ) :
    (Service.run b e operation ctx inc).runOn s = (.error f', s) := by
  cases h with
  | unresolved ht => exact run_of_target_eq_error b ht s
  | unfilterable hr hu =>
    refine (list_runOn b ctx inc s _).trans ?_
    rw [hr]
    dsimp only
    rw [Search.run_runOn, Search.validate_of_unfilterable hu]
  | rejected ht hf =>
    cases operation with
    | get =>
      obtain ⟨r, hr, -⟩ := Except.map_eq_ok.1 ht
      refine (get_runOn b ctx inc s _).trans ?_
      rw [hr]
      dsimp only
      rw [hb.get]
    | delete =>
      obtain ⟨r, hr, -⟩ := Except.map_eq_ok.1 ht
      refine (delete_runOn b ctx inc s _).trans ?_
      rw [hr]
      dsimp only
      rw [hb.delete]
    | upsert =>
      obtain ⟨r, hr, -⟩ := Except.map_eq_ok.1 ht
      refine (upsert_runOn b ctx inc s _).trans ?_
      rw [hr]
      dsimp only
      rw [hb.upsert]
    | list =>
      obtain ⟨r, hr, -⟩ := Except.map_eq_ok.1 ht
      refine (list_runOn b ctx inc s _).trans ?_
      rw [hr]
      dsimp only
      rw [Search.run_of_rejects hb (hf rfl r hr)]

/-! ## Cancelled requests -/

/-- Whatever the endpoint, a cancelled request is refused in the one way that is open to it, the same
for every store, and the store stays as it is. -/
theorem cancelled_refused (h : ctx.isCancelled = true) (e : Endpoint) (operation : Operation) (inc : Incoming) :
    ∃ f, (∀ f', Refused e ctx inc ctx.cancelled operation f' ↔ f' = f) ∧
      ∀ s, outcome e operation ctx inc s = (.error f, s) := by
  obtain ⟨f, hf⟩ := exists_refused e ctx inc ctx.cancelled operation
  exact ⟨f, fun f' => ⟨fun h' => h'.unique hf, fun h' => h' ▸ hf⟩, hf.run (Store.rejects_of_isCancelled h)⟩

/-- A role that is not there and one whose document describes no role are not told apart. -/
theorem cancelled_refused_missing :
    let ctx : Context := ⟨"r1", some true⟩
    let inc : Incoming := { params := .ofList [("id", "x")] }
    ctx.isCancelled = true ∧
      outcome (.fixed "t/roles") .get ctx inc ∅ = (.error ctx.cancelled, ∅) ∧
      outcome (.fixed "t/roles") .get ctx inc (Store.insert ∅ "t/roles" "x" .null) =
        (.error ctx.cancelled, Store.insert ∅ "t/roles" "x" .null) := by
  intro ctx inc
  obtain ⟨f, hf, hs⟩ := cancelled_refused (show ctx.isCancelled = true from rfl) (.fixed "t/roles") .get inc
  have hc : ctx.cancelled = f := (hf _).1 (.rejected (c := "t/roles") (by decide) nofun)
  rw [hc]
  exact ⟨rfl, hs _, hs _⟩

namespace Sent

theorem store_of_isCancelled {r : Sent} (h : r.ctx.isCancelled = true) (s : Store) : (r.run s).2 = s := by
  obtain ⟨f, hf⟩ := exists_refused r.endpoint r.ctx r.inc r.ctx.cancelled r.operation
  exact congrArg Prod.snd (hf.run (Store.rejects_of_isCancelled h) s)

/-- The requests that are not cancelled get the replies that they would get without the others, and the
same store is left. -/
theorem runAll_active (requests : List Sent) (s : Store) :
    let active := requests.filter (!·.ctx.isCancelled)
    (runAll active s).2 = (runAll requests s).2 ∧
      active.zip (runAll active s).1 =
        (requests.zip (runAll requests s).1).filter (!·.1.ctx.isCancelled) := by
  induction requests generalizing s with
  | nil => exact ⟨rfl, rfl⟩
  | cons r rest ih =>
    by_cases h : r.ctx.isCancelled = true
    · -- a cancelled request hands the store on as it got it
      have ih := ih s
      dsimp only [runAll, List.zip_cons_cons] at ih ⊢
      rw [List.filter_cons_of_neg (by simp [h]), List.filter_cons_of_neg (by simp [h]), store_of_isCancelled h]
      exact ih
    · have ih := ih (r.run s).2
      dsimp only [runAll, List.zip_cons_cons] at ih ⊢
      rw [List.filter_cons_of_pos (by simp [h]), List.filter_cons_of_pos (by simp [h])]
      dsimp only [runAll, List.zip_cons_cons]
      rw [ih.1, ih.2]
      exact ⟨rfl, rfl⟩

end Sent

end Service

end AccessRecords
