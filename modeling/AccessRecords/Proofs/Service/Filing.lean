/-
What requests write. Whichever endpoint a request is sent to, a record that it writes is of the kind
that its collection holds, goes by the id that it is kept under, which has no blanks around it, and
has no marks in its conditions; so no request takes a store out of order.
-/
import AccessRecords.Proofs.Service.Request
import AccessRecords.Proofs.Store.Contents
import AccessRecords.Proofs.Text.Trim

namespace AccessRecords

open Json

/-! ## Path parameters -/

namespace Incoming

variable {inc : Incoming} {name value key : String}

/-- A path parameter without the blanks around it, and nothing if it is absent. -/
def trimmed (inc : Incoming) (name : String) : String :=
  ((inc.params.get? name).map Text.trim).getD ""

theorem trim_trimmed (inc : Incoming) (name : String) : Text.trim (inc.trimmed name) = inc.trimmed name := by
  unfold trimmed
  cases inc.params.get? name with
  | none => rfl
  | some value => exact Text.trim_trim value

theorem param_eq (inc : Incoming) (name : String) :
    inc.param name =
      if inc.trimmed name = "" then .error (missingParam name) else .ok (inc.trimmed name) := by
  unfold param trimmed
  cases inc.params.get? name with
  | none => rfl
  | some value => simp only [Option.map_some, Option.getD_some, String.isEmpty_iff]

theorem param_of_get? (h : inc.params.get? name = some value) :
    inc.param name = if Text.trim value = "" then .error (missingParam name) else .ok (Text.trim value) := by
  have ht : inc.trimmed name = Text.trim value := by
    unfold trimmed
    rw [h]
    rfl
  rw [param_eq, ht]

theorem param_eq_ok (h : inc.param name = .ok key) : key ≠ "" ∧ Text.trim key = key := by
  rw [param_eq] at h
  split_ifs at h with he
  cases h
  exact ⟨he, inc.trim_trimmed name⟩

theorem param_eq_error {f : Failure} (h : inc.param name = .error f) : f = missingParam name := by
  rw [param_eq] at h
  split_ifs at h
  cases h
  rfl

end Incoming

namespace Endpoint

/-! ## Bodies -/

variable {key id : String} {record record' : Record}

theorem reconcile_eq (key id : String) :
    reconcile key id = if id = "" ∨ id = key then .ok key else .error (idMismatch id key) := by
  unfold reconcile
  by_cases h0 : id = ""
  · rw [if_pos (String.isEmpty_iff.2 h0), if_pos (.inl h0)]
  · rw [if_neg fun h => h0 (String.isEmpty_iff.1 h)]
    by_cases hk : id = key
    · rw [if_pos hk, if_pos (.inr hk), hk]
    · rw [if_neg hk, if_neg (not_or.2 ⟨h0, hk⟩)]

/-- A record goes by a key if its id does not say otherwise, and gets the key as its id. -/
theorem keyed_of_id (h : ∀ id, record.id? = some id → id = "" ∨ id = key) :
    keyed key record = .ok (record.withId key) := by
  cases record with
  | role r =>
    show (reconcile key r.id).map _ = _
    rw [reconcile_eq, if_pos (h r.id rfl)]
    rfl
  | policy p =>
    show (reconcile key p.id).map _ = _
    rw [reconcile_eq, if_pos (h p.id rfl)]
    rfl
  | raw v => rfl

theorem keyed_of_other_id (hid : record.id? = some id) (h0 : id ≠ "") (hk : id ≠ key) :
    keyed key record = .error (idMismatch id key) := by
  cases record with
  | role r =>
    cases hid
    show (reconcile key r.id).map _ = _
    rw [reconcile_eq, if_neg (not_or.2 ⟨h0, hk⟩)]
    rfl
  | policy p =>
    cases hid
    show (reconcile key p.id).map _ = _
    rw [reconcile_eq, if_neg (not_or.2 ⟨h0, hk⟩)]
    rfl
  | raw v => cases hid

theorem keyed_eq_ok : keyed key record = .ok record' ↔
    (∀ id, record.id? = some id → id = "" ∨ id = key) ∧ record' = record.withId key := by
  constructor
  · intro h
    have hid : ∀ id, record.id? = some id → id = "" ∨ id = key := by
      intro id hid
      by_contra hne
      obtain ⟨h0, hk⟩ := not_or.1 hne
      cases h.symm.trans (keyed_of_other_id hid h0 hk)
    exact ⟨hid, Except.ok.inj (h.symm.trans (keyed_of_id hid))⟩
  · rintro ⟨hid, rfl⟩
    exact keyed_of_id hid

theorem keyed_of_own_id (h : record.id? = some key) : keyed key record = .ok record := by
  rw [keyed_of_id fun id hid => .inr (Option.some.inj (hid.symm.trans h)), Record.withId_of_id? h]

/-- A record that goes by a key is the one it was, but for its id, which is the key. -/
theorem of_keyed (h : keyed key record = .ok record') :
    record'.shape = record.shape ∧ (record.shape ≠ .raw → record'.id? = some key) ∧
      (record.Settled → record'.Settled) ∧ record'.isPlain = record.isPlain := by
  obtain ⟨-, rfl⟩ := keyed_eq_ok.1 h
  refine ⟨record.shape_withId key, fun hs => Record.id?_withId hs key, ?_, ?_⟩
  · cases record <;> exact fun hs => hs
  · cases record <;> rfl

/-- What a body describes under a key: the record that its value describes, with the key as its id. -/
theorem readBody_eq_ok {shape : Shape} {inc : Incoming} : readBody shape key inc = .ok record' ↔
    ∃ v record, Value.parse inc.body = .ok v ∧ Record.ofValue shape v = .ok record ∧
      (∀ id, record.id? = some id → id = "" ∨ id = key) ∧ record' = record.withId key := by
  unfold readBody
  rw [Except.bind_eq_ok]
  simp only [Record.ofBody_eq_ok, keyed_eq_ok]
  constructor
  · rintro ⟨record, ⟨v, hv, hr⟩, h⟩
    exact ⟨v, record, hv, hr, h⟩
  · rintro ⟨v, record, hv, hr, h⟩
    exact ⟨record, ⟨v, hv, hr⟩, h⟩

/-- A record that may be written under a key of a collection. -/
structure Writable (c key : String) (record : Record) : Prop where
  key_ne : key ≠ ""
  trimmed : Text.trim key = key
  shape : record.shape = Collection.shape c
  id : Collection.shape c ≠ .raw → record.id? = some key
  settled : record.Settled
  plain : record.isPlain = true

theorem writable_of_readBody {c key name : String} {inc : Incoming} {record : Record}
    (hk : inc.param name = .ok key) (h : readBody (Collection.shape c) key inc = .ok record) :
    Writable c key record := by
  obtain ⟨hne, htrim⟩ := Incoming.param_eq_ok hk
  obtain ⟨record', hb, h⟩ := Except.bind_eq_ok.1 h
  obtain ⟨hs, hsettled, hplain⟩ := Record.of_ofBody hb
  obtain ⟨hs', hid, hsettled', hplain'⟩ := of_keyed h
  exact ⟨hne, htrim, hs'.trans hs, fun hc => hid (hs ▸ hc), hsettled' hsettled, hplain'.trans hplain⟩

theorem Writable.trim_id {c key id : String} {record : Record} (h : Writable c key record)
    (hid : record.id? = some id) : Text.trim id = id := by
  have hc : Collection.shape c ≠ .raw := by
    rw [← h.shape]
    intro hraw
    cases record with
    | role r => cases hraw
    | policy p => cases hraw
    | raw v => cases hid
  obtain rfl : key = id := Option.some.inj ((h.id hc).symm.trans hid)
  exact h.trimmed

/-! ## Endpoints -/

theorem writable_of_fixed {c : String} {ctx : Context} {inc : Incoming} {u : UpsertRequest}
    (h : (fixed c).upsert ctx inc = .ok u) : Writable u.collection u.key u.record := by
  obtain ⟨key, hk, h⟩ := Except.bind_eq_ok.1 h
  obtain ⟨record, hr, h⟩ := Except.bind_eq_ok.1 h
  cases h
  exact writable_of_readBody hk hr

theorem writable_of_generic {ns : String} {ctx : Context} {inc : Incoming} {u : UpsertRequest}
    (h : (generic ns).upsert ctx inc = .ok u) : Writable u.collection u.key u.record := by
  obtain ⟨c, -, h⟩ := Except.bind_eq_ok.1 h
  obtain ⟨key, hk, h⟩ := Except.bind_eq_ok.1 h
  obtain ⟨record, hr, h⟩ := Except.bind_eq_ok.1 h
  cases h
  exact writable_of_readBody hk hr

end Endpoint

namespace Service

theorem writable_of_upsert {family : Family} {ns : String} {ctx : Context} {inc : Incoming}
    {u : UpsertRequest} (h : (family.endpoint ns).upsert ctx inc = .ok u) :
    Endpoint.Writable u.collection u.key u.record := by
  cases family with
  | roles | policies => exact Endpoint.writable_of_fixed h
  | collections => exact Endpoint.writable_of_generic h

/-- A request keeps the store filed, whatever is asked of records as long as those that may be written
have it. -/
theorem Request.filed_serve {Q : Record → Prop} (hq : ∀ c key record, Endpoint.Writable c key record → Q record)
    {r : Request} {ns : String} {s : Store} (h : s.Filed Q) : (r.serve ns s).2.Filed Q := by
  obtain ⟨family, operation, ctx, inc⟩ := r
  unfold serve
  rcases store_cases (family.endpoint ns) operation ctx inc s with e | ⟨u, -, -, e⟩ | ⟨u, -, hu, e⟩
  · rw [e]
    exact h
  · rw [e]
    exact h.erase
  · rw [e]
    have hw := writable_of_upsert hu
    exact h.insert hw.key_ne hw.shape hw.id (hq _ _ _ hw)

end Service

end AccessRecords
