/-
Addresses of requests. To a namespace, get, delete and upsert requests resolve alike on every
family: the path parameters name an address, and the collection of the address says what the
document there is read as. So what such a request does is said in terms of its address, and two
requests with one address do the same.
-/
import AccessRecords.Proofs.Service.Failures

namespace AccessRecords.Service

open Json

/-! ## Resolving -/

/-- The address that path parameters name. -/
def Family.address (ns : String) (inc : Incoming) : Family → Except Failure Address
  | .roles => return ⟨Collection.roles ns, ← inc.param "id"⟩
  | .policies => return ⟨Collection.policies ns, ← inc.param "id"⟩
  | .collections => return ⟨← Endpoint.collectionOf ns inc, ← inc.param "key"⟩

/-- The collection that path parameters name. -/
def Family.collection (ns : String) (inc : Incoming) : Family → Except Failure String
  | .roles => return Collection.roles ns
  | .policies => return Collection.policies ns
  | .collections => Endpoint.collectionOf ns inc

section Resolvers

variable (family : Family) (ns : String) (ctx : Context) (inc : Incoming)

theorem Family.get_endpoint : (family.endpoint ns).get ctx inc =
    (do let a ← family.address ns inc
        return ⟨a.collection, a.key, Collection.shape a.collection⟩) := by
  cases family <;> simp only [endpoint, Endpoint.fixed, Endpoint.generic, address, bind_assoc, pure_bind]

theorem Family.delete_endpoint : (family.endpoint ns).delete ctx inc =
    (do let a ← family.address ns inc
        return ⟨a.collection, a.key⟩) := by
  cases family <;> simp only [endpoint, Endpoint.fixed, Endpoint.generic, address, bind_assoc, pure_bind]

theorem Family.upsert_endpoint : (family.endpoint ns).upsert ctx inc =
    (do let a ← family.address ns inc
        let record ← Endpoint.readBody (Collection.shape a.collection) a.key inc
        return ⟨a.collection, a.key, record⟩) := by
  cases family <;> simp only [endpoint, Endpoint.fixed, Endpoint.generic, address, bind_assoc, pure_bind]

theorem Family.list_endpoint : (family.endpoint ns).list ctx inc =
    (do let c ← family.collection ns inc
        return .ofCollection c) := by
  cases family <;> simp only [endpoint, Endpoint.fixed, Endpoint.generic, collection, pure_bind]

end Resolvers

/-! ## Serving -/

namespace Request

variable {r : Request} {ns : String} {s : Store} {a : Address}

/-- The address that a request to a namespace names. -/
def address (r : Request) (ns : String) : Except Failure Address := r.family.address ns r.inc

theorem serve_of_address_eq_error {f : Failure} (ho : r.operation ≠ .list) (ha : r.address ns = .error f) :
    r.serve ns s = (.error f, s) := by
  obtain ⟨family, operation, ctx, inc⟩ := r
  change family.address ns inc = .error f at ha
  unfold serve
  cases operation with
  | get => rw [outcome_get, Family.get_endpoint, ha]; rfl
  | delete => rw [outcome_delete, Family.delete_endpoint, ha]; rfl
  | upsert => rw [outcome_upsert, Family.upsert_endpoint, ha]; rfl
  | list => exact absurd rfl ho

theorem serve_get (ho : r.operation = .get) (hc : r.ctx.isCancelled = false) (ha : r.address ns = .ok a) :
    r.serve ns s =
      match s.get? a.collection a.key with
      | some d => (replyAs (Collection.shape a.collection) d, s)
      | none => (.error (Store.notFound a.collection a.key), s) := by
  obtain ⟨family, operation, ctx, inc⟩ := r
  subst ho
  change family.address ns inc = .ok a at ha
  unfold serve
  rw [outcome_get, Family.get_endpoint, ha]
  dsimp only [bind, Except.bind, pure, Except.pure]
  refine (if_neg (Bool.eq_false_iff.1 hc)).trans ?_
  cases s.get? a.collection a.key <;> rfl

theorem serve_delete (ho : r.operation = .delete) (hc : r.ctx.isCancelled = false) (ha : r.address ns = .ok a) :
    r.serve ns s =
      match s.get? a.collection a.key with
      | some _ => (.ok .noContent, s.erase a.collection a.key)
      | none => (.error (Store.notFound a.collection a.key), s) := by
  obtain ⟨family, operation, ctx, inc⟩ := r
  subst ho
  change family.address ns inc = .ok a at ha
  unfold serve
  rw [outcome_delete, Family.delete_endpoint, ha]
  dsimp only [bind, Except.bind, pure, Except.pure]
  refine (if_neg (Bool.eq_false_iff.1 hc)).trans ?_
  cases s.get? a.collection a.key <;> rfl

/-- What a body describes has no marks, so the reply is the document that is written. -/
theorem serve_upsert (ho : r.operation = .upsert) (hc : r.ctx.isCancelled = false) (ha : r.address ns = .ok a) :
    r.serve ns s =
      match Endpoint.readBody (Collection.shape a.collection) a.key r.inc with
      | .ok record => (.ok (.json record.toValue), s.insert a.collection a.key record.toValue)
      | .error f => (.error f, s) := by
  obtain ⟨family, operation, ctx, inc⟩ := r
  subst ho
  change family.address ns inc = .ok a at ha
  have hu := Family.upsert_endpoint family ns ctx inc
  rw [ha] at hu
  dsimp only [bind, Except.bind, pure, Except.pure] at hu
  unfold serve
  dsimp only
  cases hr : Endpoint.readBody (Collection.shape a.collection) a.key inc with
  | error f =>
    rw [hr] at hu
    rw [outcome_upsert, hu]
  | ok record =>
    rw [hr] at hu
    have hp : record.isPlain = true := (writable_of_upsert hu).plain
    rw [outcome_of_upsert hc hu]
    exact congrArg (·, _) (replyAs_of_isPlain hp)

theorem serve_list {c : String} (ho : r.operation = .list) (hl : r.family.collection ns r.inc = .ok c) :
    r.serve ns s =
      ((Search.result (.ofCollection c) r.inc.query r.ctx s).map fun l => .json l.toValue, s) := by
  obtain ⟨family, operation, ctx, inc⟩ := r
  subst ho
  change family.collection ns inc = .ok c at hl
  unfold serve
  rw [outcome_list, Family.list_endpoint, hl]
  dsimp only [bind, Except.bind, pure, Except.pure]
  cases Search.result (.ofCollection c) inc.query ctx s <;> rfl

theorem serve_list_of_eq_error {f : Failure} (ho : r.operation = .list)
    (hl : r.family.collection ns r.inc = .error f) : r.serve ns s = (.error f, s) := by
  obtain ⟨family, operation, ctx, inc⟩ := r
  subst ho
  change family.collection ns inc = .error f at hl
  unfold serve
  rw [outcome_list, Family.list_endpoint, hl]
  rfl

/-! ## Requests that succeed -/

theorem active_of_eq_ok {reply : Reply} (h : (r.serve ns s).1 = .ok reply) : r.ctx.isCancelled = false :=
  active_of_outcome_eq_ok h

theorem delete_eq_ok {reply : Reply} (ho : r.operation = .delete) (h : (r.serve ns s).1 = .ok reply) :
    ∃ a, r.address ns = .ok a ∧ r.serve ns s = (.ok .noContent, s.erase a.collection a.key) := by
  cases ha : r.address ns with
  | error f =>
    rw [serve_of_address_eq_error (by rw [ho]; decide) ha] at h
    cases h
  | ok a =>
    refine ⟨a, rfl, ?_⟩
    have hs := serve_delete (s := s) ho (active_of_eq_ok h) ha
    rw [hs] at h ⊢
    split at h
    · rfl
    · cases h

theorem upsert_eq_ok {reply : Reply} (ho : r.operation = .upsert) (h : (r.serve ns s).1 = .ok reply) :
    ∃ a record, r.address ns = .ok a ∧
      Endpoint.readBody (Collection.shape a.collection) a.key r.inc = .ok record ∧
      r.serve ns s = (.ok (.json record.toValue), s.insert a.collection a.key record.toValue) := by
  cases ha : r.address ns with
  | error f =>
    rw [serve_of_address_eq_error (by rw [ho]; decide) ha] at h
    cases h
  | ok a =>
    have hs := serve_upsert (s := s) ho (active_of_eq_ok h) ha
    cases hr : Endpoint.readBody (Collection.shape a.collection) a.key r.inc with
    | error f =>
      rw [hr] at hs
      rw [hs] at h
      cases h
    | ok record =>
      rw [hr] at hs
      exact ⟨a, record, rfl, hr, hs⟩

end Request

end AccessRecords.Service
