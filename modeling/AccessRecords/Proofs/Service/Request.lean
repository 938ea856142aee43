/-
Requests to a namespace. A request is about the one collection that it names, which is a collection
of its namespace: its reply follows from the documents of that collection, and all other collections
keep theirs.
-/
import AccessRecords.Proofs.Collection.Names
import AccessRecords.Proofs.Except
import AccessRecords.Proofs.Service.Outcome

namespace AccessRecords

namespace Endpoint

theorem collectionOf_eq_ok {ns c : String} {inc : Incoming} : collectionOf ns inc = .ok c ↔
    ∃ n, inc.param "name" = .ok n ∧ '/' ∉ n.toList ∧ c = Collection.name ns n := by
  unfold collectionOf
  rw [Except.bind_eq_ok]
  refine exists_congr fun n => and_congr_right fun _ => ?_
  by_cases h : '/' ∈ n.toList
  · simp [h]
  · simp [h, eq_comm, pure, Except.pure]

end Endpoint

namespace Service

/-- A request: the endpoint and the operation that it is sent to, for whom, and what came in. -/
structure Request where
  family : Family
  operation : Operation
  ctx : Context
  inc : Incoming

namespace Request

variable {r : Request} {ns c : String} {s t : Store}

/-- The collection that a request to a namespace is about. -/
def target (r : Request) (ns : String) : Except Failure String :=
  Service.target (r.family.endpoint ns) r.operation r.ctx r.inc

/-- What a request to a namespace replies and the store that it leaves. -/
def serve (r : Request) (ns : String) (s : Store) : Except Failure Reply × Store :=
  outcome (r.family.endpoint ns) r.operation r.ctx r.inc s

/-! ## The collection of a request -/

theorem target_fixed {e : String} {operation : Operation} {ctx : Context} {inc : Incoming}
    (h : Service.target (.fixed e) operation ctx inc = .ok c) : c = e := by
  cases operation with
  | get | delete =>
    obtain ⟨x, hx, rfl⟩ := Except.map_eq_ok.1 h
    obtain ⟨key, -, e⟩ := Except.bind_eq_ok.1 hx
    cases e
    rfl
  | upsert =>
    obtain ⟨x, hx, rfl⟩ := Except.map_eq_ok.1 h
    obtain ⟨key, -, hx⟩ := Except.bind_eq_ok.1 hx
    obtain ⟨record, -, e⟩ := Except.bind_eq_ok.1 hx
    cases e
    rfl
  | list => exact (Except.ok.inj h).symm.trans (Search.Request.collection_ofCollection e)

theorem target_generic {operation : Operation} {ctx : Context} {inc : Incoming}
    (h : Service.target (.generic ns) operation ctx inc = .ok c) : Endpoint.collectionOf ns inc = .ok c := by
  cases operation with
  | get | delete =>
    obtain ⟨x, hx, rfl⟩ := Except.map_eq_ok.1 h
    obtain ⟨c, hc, hx⟩ := Except.bind_eq_ok.1 hx
    obtain ⟨key, -, e⟩ := Except.bind_eq_ok.1 hx
    cases e
    exact hc
  | upsert =>
    obtain ⟨x, hx, rfl⟩ := Except.map_eq_ok.1 h
    obtain ⟨c, hc, hx⟩ := Except.bind_eq_ok.1 hx
    obtain ⟨key, -, hx⟩ := Except.bind_eq_ok.1 hx
    obtain ⟨record, -, e⟩ := Except.bind_eq_ok.1 hx
    cases e
    exact hc
  | list =>
    obtain ⟨x, hx, e⟩ := Except.map_eq_ok.1 h
    obtain ⟨c', hc, hx⟩ := Except.bind_eq_ok.1 hx
    cases hx
    rw [Search.Request.collection_ofCollection] at e
    exact e ▸ hc

/-- A request to a namespace is about one of its collections. -/
theorem target_eq_ok (h : r.target ns = .ok c) : ∃ n, '/' ∉ n.toList ∧ c = Collection.name ns n := by
  unfold target at h
  cases hf : r.family with
  | roles =>
    rw [hf] at h
    exact ⟨"roles", by decide, target_fixed h⟩
  | policies =>
    rw [hf] at h
    exact ⟨"policies", by decide, target_fixed h⟩
  | collections =>
    rw [hf] at h
    obtain ⟨n, -, hn, hc⟩ := Endpoint.collectionOf_eq_ok.1 (target_generic h)
    exact ⟨n, hn, hc⟩

/-! ## What a request sees and changes -/

/-- Collections that a request is not about keep their documents. -/
theorem serve_elsewhere (h : r.target ns ≠ .ok c) : (r.serve ns s).2.documents c = s.documents c := by
  obtain ⟨family, operation, ctx, inc⟩ := r
  unfold serve
  rcases store_cases (family.endpoint ns) operation ctx inc s with e | ⟨u, rfl, hu, e⟩ | ⟨u, rfl, hu, e⟩
  · rw [e]
  · rw [e]
    refine Store.documents_erase_of_ne fun hc => h ?_
    exact Except.map_eq_ok.2 ⟨u, hu, hc.symm⟩
  · rw [e]
    refine Store.documents_insert_of_ne fun hc => h ?_
    exact Except.map_eq_ok.2 ⟨u, hu, hc.symm⟩

/-- A request that names no collection fails with what is wrong with it, and changes nothing. -/
theorem serve_of_target_eq_error {f : Failure} (h : r.target ns = .error f) : r.serve ns s = (.error f, s) :=
  run_of_target_eq_error Store.backend h s

/-- The reply, and the documents that a request leaves in its collection, follow from the documents
of that collection. -/
theorem serve_of_target_eq_ok (h : r.target ns = .ok c) (hd : s.documents c = t.documents c) :
    (r.serve ns s).1 = (r.serve ns t).1 ∧
      (r.serve ns s).2.documents c = (r.serve ns t).2.documents c := by
  obtain ⟨family, operation, ctx, inc⟩ := r
  unfold serve
  cases operation with
  | get =>
    obtain ⟨u, hu, rfl⟩ := Except.map_eq_ok.1 h
    rw [outcome_get, outcome_get, hu]
    dsimp only
    rw [Store.get?_congr hd]
    split_ifs
    · exact ⟨rfl, hd⟩
    · cases t.get? u.collection u.key <;> exact ⟨rfl, hd⟩
  | delete =>
    obtain ⟨u, hu, rfl⟩ := Except.map_eq_ok.1 h
    rw [outcome_delete, outcome_delete, hu]
    dsimp only
    rw [Store.get?_congr hd]
    split_ifs
    · exact ⟨rfl, hd⟩
    · cases t.get? u.collection u.key with
      | none => exact ⟨rfl, hd⟩
      | some d => exact ⟨rfl, Store.documents_erase_congr hd⟩
  | upsert =>
    obtain ⟨u, hu, rfl⟩ := Except.map_eq_ok.1 h
    rw [outcome_upsert, outcome_upsert, hu]
    dsimp only
    split_ifs
    · exact ⟨rfl, hd⟩
    · exact ⟨rfl, Store.documents_insert_congr hd⟩
  | list =>
    obtain ⟨u, hu, rfl⟩ := Except.map_eq_ok.1 h
    rw [outcome_list, outcome_list, hu]
    dsimp only
    rw [Search.result_congr inc.query ctx hd]
    cases Search.result u inc.query ctx t <;> exact ⟨rfl, hd⟩

end Request

end Service

end AccessRecords
