/-
Reading what was written. After any run of requests, to one namespace or to several, a get for an
address replies with the document that the last upsert there replied with; it finds nothing if a
delete came last; and it replies as it would have before the run if neither succeeded there. It does
not matter which family a request was sent to, or what else was asked for in between.
-/
import AccessRecords.Proofs.Service.Address
import AccessRecords.Proofs.Service.Isolation

namespace AccessRecords

open Json

/-- The document that a reply carries. -/
def Reply.document? : Reply → Option Value
  | .json d => some d
  | .noContent => none

theorem Address.eq_iff {a b : Address} : a = b ↔ a.collection = b.collection ∧ a.key = b.key := by
  cases a
  cases b
  rw [Address.mk.injEq]

namespace Service

/-! ## Changes -/

/-- The operation and the reply of a request that succeeds in changing what is at an address. -/
def Request.change? (r : Request) (ns : String) (a : Address) (s : Store) : Option (Operation × Reply) :=
  if (r.operation = .upsert ∨ r.operation = .delete) ∧ r.address ns = .ok a then
    match (r.serve ns s).1 with
    | .ok reply => some (r.operation, reply)
    | .error _ => none
  else none

/-- The last change of what is at an address in a run of requests, each sent to a namespace. -/
def lastChange (a : Address) : List (String × Request) → Store → Option (Operation × Reply)
  | [], _ => none
  | (ns, r) :: rest, s => (lastChange a rest (r.serve ns s).2).or (r.change? ns a s)

/-- A change at a collection's address: a record that the collection holds was put there, and its
document was the reply, or the document there was taken away. -/
def Change (c : String) (operation : Operation) (reply : Reply) : Prop :=
  (operation = .upsert ∧ ∃ record : Record, record.shape = Collection.shape c ∧
    record.isPlain = true ∧ reply = .json record.toValue) ∨
  (operation = .delete ∧ reply = .noContent)

namespace Request

variable {r : Request} {ns : String} {a : Address} {s : Store}

theorem change?_of_error {f : Failure} (h : (r.serve ns s).1 = .error f) : r.change? ns a s = none := by
  unfold change?
  rw [h]
  split_ifs <;> rfl

theorem change?_of_ok {reply : Reply} (ho : r.operation = .upsert ∨ r.operation = .delete) {a' : Address}
    (ha : r.address ns = .ok a') (h : (r.serve ns s).1 = .ok reply) :
    r.change? ns a s = if a = a' then some (r.operation, reply) else none := by
  unfold change?
  rw [h, ha]
  by_cases e : a = a'
  · rw [if_pos ⟨ho, by rw [e]⟩, if_pos e]
  · rw [if_neg fun h => e (Except.ok.inj h.2).symm, if_neg e]

theorem change?_eq_some {operation : Operation} {reply : Reply} (h : r.change? ns a s = some (operation, reply)) :
    Change a.collection operation reply := by
  unfold change? at h
  split_ifs at h with hw
  split at h
  · rename_i reply' hr
    cases h
    rcases hw.1 with ho | ho
    · obtain ⟨a', record, ha, hb, hs⟩ := upsert_eq_ok ho hr
      obtain rfl : a = a' := Except.ok.inj (hw.2.symm.trans ha)
      obtain ⟨record', hrec, hk⟩ := Except.bind_eq_ok.1 hb
      obtain ⟨hshape, -, hplain⟩ := Record.of_ofBody hrec
      obtain ⟨hshape', -, -, hplain'⟩ := Endpoint.of_keyed hk
      rw [hs] at hr
      cases hr
      exact .inl ⟨ho, record, hshape'.trans hshape, hplain'.trans hplain, rfl⟩
    · obtain ⟨a', -, hs⟩ := delete_eq_ok ho hr
      rw [hs] at hr
      cases hr
      exact .inr ⟨ho, rfl⟩
  · cases h

/-- A request leaves at an address what its change put there, or what was there. -/
theorem get?_serve (r : Request) (ns : String) (a : Address) (s : Store) :
    (r.serve ns s).2.get? a.collection a.key =
      (r.change? ns a s).elim (s.get? a.collection a.key) fun change => change.2.document? := by
  by_cases ho : r.operation = .upsert ∨ r.operation = .delete
  · cases h : (r.serve ns s).1 with
    | error f =>
      have hs : (r.serve ns s).2 = s := unchanged_of_error h not_stranded
      rw [hs, change?_of_error h]
      rfl
    | ok reply =>
      rcases ho with ho | ho
      · obtain ⟨a', record, ha, -, hs⟩ := upsert_eq_ok ho h
        obtain rfl : .json record.toValue = reply := Except.ok.inj (by rw [← h, hs])
        rw [change?_of_ok (.inl ho) ha h, hs, Store.get?_insert]
        simp only [← Address.eq_iff]
        split_ifs <;> rfl
      · obtain ⟨a', ha, hs⟩ := delete_eq_ok ho h
        obtain rfl : .noContent = reply := Except.ok.inj (by rw [← h, hs])
        rw [change?_of_ok (.inr ho) ha h, hs, Store.get?_erase]
        simp only [← Address.eq_iff]
        split_ifs <;> rfl
  · -- a get or a list changes nothing anywhere
    have hs : (r.serve ns s).2 = s := by
      rcases store_cases (r.family.endpoint ns) r.operation r.ctx r.inc s with h | ⟨-, h, -⟩ | ⟨-, h, -⟩
      · exact h
      · exact absurd (.inr h) ho
      · exact absurd (.inl h) ho
    have hn : r.change? ns a s = none := if_neg fun h => ho h.1
    rw [hs, hn]
    rfl

end Request

/-! ## Runs -/

variable {a : Address} {requests : List (String × Request)} {s : Store}

theorem lastChange_eq_some {operation : Operation} {reply : Reply}
    (h : lastChange a requests s = some (operation, reply)) : Change a.collection operation reply := by
  induction requests generalizing s with
  | nil => cases h
  | cons request rest ih =>
    obtain ⟨ns, r⟩ := request
    rcases Option.or_eq_some_iff.1 h with h | ⟨-, h⟩
    · exact ih h
    · exact Request.change?_eq_some h

/-- A run leaves at an address what its last change put there, or what was there before the run. -/
theorem get?_serveAll (a : Address) (requests : List (String × Request)) (s : Store) :
    (serveAll requests s).2.get? a.collection a.key =
      (lastChange a requests s).elim (s.get? a.collection a.key) fun change => change.2.document? := by
  induction requests generalizing s with
  | nil => rfl
  | cons request rest ih =>
    obtain ⟨ns, r⟩ := request
    rw [serveAll_cons]
    show (serveAll rest (r.serve ns s).2).2.get? a.collection a.key =
      ((lastChange a rest (r.serve ns s).2).or (r.change? ns a s)).elim _ _
    rw [ih]
    cases lastChange a rest (r.serve ns s).2 with
    | some change => rfl
    | none => exact r.get?_serve ns a s

/-! ## Gets and deletes after a run -/

theorem replyAs_ne_notFound {shape : Shape} {d : Value} {f : Failure} (h : replyAs shape d = .error f) :
    f.isNotFound = false := by
  cases hv : Record.ofValue shape d with
  | ok record =>
    rw [replyAs_of_ok hv] at h
    cases h
  | error fault =>
    rw [replyAs_of_error hv] at h
    cases h
    rfl

section Get

variable {g : Request} {ns : String}

/-- A get finds nothing exactly if there is no document at its address. -/
theorem get_notFound_iff (ho : g.operation = .get) (hc : g.ctx.isCancelled = false) (ha : g.address ns = .ok a) :
    (∃ f, (g.serve ns s).1 = .error f ∧ f.isNotFound = true) ↔ s.get? a.collection a.key = none := by
  rw [Request.serve_get ho hc ha]
  cases hd : s.get? a.collection a.key with
  | none => exact ⟨fun _ => rfl, fun _ => ⟨_, rfl, rfl⟩⟩
  | some d =>
    refine ⟨?_, fun h => by cases h⟩
    rintro ⟨f, hf, hn⟩
    rw [replyAs_ne_notFound hf] at hn
    cases hn

theorem delete_ok_iff {d : Request} (ho : d.operation = .delete) (hc : d.ctx.isCancelled = false)
    (ha : d.address ns = .ok a) :
    (∃ reply, (d.serve ns s).1 = .ok reply) ↔ s.get? a.collection a.key ≠ none := by
  rw [Request.serve_delete ho hc ha]
  cases s.get? a.collection a.key with
  | none =>
    refine ⟨?_, fun h => absurd rfl h⟩
    rintro ⟨reply, h⟩
    cases h
  | some d => exact ⟨fun _ h => (by cases h), fun _ => ⟨_, rfl⟩⟩

/-- After any run of requests a get for an address, sent to any family, replies with the document
that the last upsert there replied with, finds nothing if the last change was a delete, and replies
as before the run if nothing there changed; and a delete succeeds exactly if such a get would find
something. -/
theorem get_after_last_change (ho : g.operation = .get) (hc : g.ctx.isCancelled = false)
    (ha : g.address ns = .ok a) (requests : List (String × Request)) (s : Store) :
    (match lastChange a requests s with
      | some (.upsert, reply) =>
        ∃ d, reply = .json d ∧ (g.serve ns (serveAll requests s).2).1 = .ok (.json d)
      | some _ => (g.serve ns (serveAll requests s).2).1 = .error (Store.notFound a.collection a.key)
      | none => (g.serve ns (serveAll requests s).2).1 = (g.serve ns s).1) ∧
    ∀ (d : Request) (ns' : String), d.operation = .delete → d.ctx.isCancelled = false →
      d.address ns' = .ok a →
      ((∃ reply, (d.serve ns' (serveAll requests s).2).1 = .ok reply) ↔
        ¬ ∃ f, (g.serve ns (serveAll requests s).2).1 = .error f ∧ f.isNotFound = true) := by
  refine ⟨?_, ?_⟩
  · have hget := get?_serveAll a requests s
    have hserve := fun t : Store => Request.serve_get (s := t) ho hc ha
    cases hl : lastChange a requests s with
    | none =>
      rw [hl] at hget
      dsimp only
      rw [hserve, hserve, hget]
      dsimp only [Option.elim]
      cases s.get? a.collection a.key <;> rfl
    | some change =>
      obtain ⟨operation, reply⟩ := change
      rw [hl] at hget
      rcases lastChange_eq_some hl with ⟨rfl, record, hs, hp, rfl⟩ | ⟨rfl, rfl⟩
      · refine ⟨_, rfl, ?_⟩
        rw [hserve, hget]
        show replyAs (Collection.shape a.collection) record.toValue = _
        rw [← hs, replyAs_of_isPlain hp]
      · dsimp only
        rw [hserve, hget]
        rfl
  · intro d ns' hod hcd had
    rw [delete_ok_iff hod hcd had, get_notFound_iff ho hc ha]

end Get

/-- A role is written under blanks that are trimmed away, a body that is none is refused, and a policy
of the same id is not there to be deleted: the role is what a get for its id finds. -/
theorem get_after_last_change_untrimmed :
    let requests : List (String × Request) :=
      [("t", ⟨.collections, .upsert, {},
        { params := .ofList [("name", " roles"), ("key", "r ")], body := Text.Utf8.encode "\x7b\"members\":[\"a\"]\x7d" }⟩),
       ("t", ⟨.roles, .upsert, {}, { params := .ofList [("id", "r")], body := Text.Utf8.encode "[" }⟩),
       ("t", ⟨.policies, .delete, {}, { params := .ofList [("id", "r")] }⟩)]
    let g : Request := ⟨.roles, .get, {}, { params := .ofList [("id", "r")] }⟩
    g.operation = .get ∧ g.ctx.isCancelled = false ∧ g.address "t" = .ok ⟨"t/roles", "r"⟩ ∧
      (g.serve "t" (serveAll requests ∅).2).1 = .ok (.json (Role.toValue ⟨"r", ["a"]⟩)) := by
  intro requests g
  have hl : lastChange ⟨"t/roles", "r"⟩ requests ∅ = some (.upsert, .json (Role.toValue ⟨"r", ["a"]⟩)) := by
    with_unfolding_all rfl
  have ha : g.address "t" = .ok ⟨"t/roles", "r"⟩ := rfl
  have h := (get_after_last_change (g := g) rfl rfl ha requests ∅).1
  rw [hl] at h
  obtain ⟨d, hd, hg⟩ := h
  cases hd
  exact ⟨rfl, rfl, ha, hg⟩

end Service

end AccessRecords
