/-
Operations that fail. Whatever endpoint an operation is sent to, a failure leaves the store as it
was, with one exception: an upsert writes first and reads what it wrote afterwards, so a policy
whose conditions cannot be resolved stays in the store although the upsert fails. No endpoint of a
namespace resolves a request to such a policy.
-/
import AccessRecords.Proofs.Service.Filing

namespace AccessRecords.Service

open Json

/-! ## Reading what was written -/

section Reply

variable {shape : Shape} {d : Value} {record : Record} {fault : Fault}

theorem replyAs_of_ok (h : Record.ofValue shape d = .ok record) :
    replyAs shape d = .ok (.json record.toValue) := by
  unfold replyAs Record.decode
  rw [h]
  rfl

theorem replyAs_of_error (h : Record.ofValue shape d = .error fault) :
    replyAs shape d = .error (.serialization fault) := by
  unfold replyAs Record.decode
  rw [h]
  rfl

end Reply

theorem replyAs_toValue (record : Record) : replyAs record.shape record.toValue =
    (record.resolve.mapError Failure.serialization).map fun r => .json r.toValue := by
  unfold replyAs Record.decode
  rw [Record.ofValue_toValue]

theorem replyAs_of_isPlain {record : Record} (h : record.isPlain = true) :
    replyAs record.shape record.toValue = .ok (.json record.toValue) :=
  replyAs_of_ok (Record.ofValue_toValue_of_isPlain h)

/-- The reply is the written document exactly if the record has no marks. -/
theorem replyAs_toValue_iff (record : Record) :
    replyAs record.shape record.toValue = .ok (.json record.toValue) ↔ record.isPlain = true := by
  refine ⟨fun h => ?_, replyAs_of_isPlain⟩
  rw [replyAs_toValue] at h
  obtain ⟨record', hr, he⟩ := Except.map_eq_ok.1 h
  have hv : record'.toValue = record.toValue := Reply.json.inj he
  exact Record.isPlain_of_resolve (Except.mapError_eq_ok.1 hr) hv

/-! ## Writes that fail -/

section Stranded

variable {e : Endpoint} {operation : Operation} {ctx : Context} {inc : Incoming} {s : Store}

theorem outcome_of_upsert {u : UpsertRequest} (hc : ctx.isCancelled = false) (hu : e.upsert ctx inc = .ok u) :
    outcome e .upsert ctx inc s =
      (replyAs u.record.shape u.record.toValue, s.insert u.collection u.key u.record.toValue) := by
  rw [outcome_upsert, hu]
  dsimp only
  rw [hc, if_neg Bool.false_ne_true]

/-- An operation whose caller has gone away does not succeed. -/
theorem active_of_outcome_eq_ok {reply : Reply} (h : (outcome e operation ctx inc s).1 = .ok reply) :
    ctx.isCancelled = false := by
  by_contra hne
  have hc : ctx.isCancelled = true := Bool.not_eq_false _ ▸ hne
  cases operation with
  | get =>
    rw [outcome_get] at h
    split at h
    · cases h
    · rw [if_pos hc] at h
      cases h
  | delete =>
    rw [outcome_delete] at h
    split at h
    · cases h
    · rw [if_pos hc] at h
      cases h
  | upsert =>
    rw [outcome_upsert] at h
    split at h
    · cases h
    · rw [if_pos hc] at h
      cases h
  | list =>
    rw [outcome_list] at h
    split at h
    · cases h
    · split at h
      · -- the search makes the same check before it looks at a document
        rename_i hl
        obtain ⟨⟨⟩, -, hl⟩ := Except.bind_eq_ok.1 hl
        obtain ⟨⟨⟩, ha, -⟩ := Except.bind_eq_ok.1 hl
        unfold Context.ensureActive at ha
        rw [if_pos hc] at ha
        cases ha
      · cases h

/-- The operation is an upsert, not cancelled, of a record whose conditions cannot be resolved. -/
def Stranded (e : Endpoint) (operation : Operation) (ctx : Context) (inc : Incoming) : Prop :=
  operation = .upsert ∧ ctx.isCancelled = false ∧
    ∃ u fault, e.upsert ctx inc = .ok u ∧ u.record.resolve = .error fault

theorem Stranded.outcome_eq (h : Stranded e operation ctx inc) :
    ∃ u fault, e.upsert ctx inc = .ok u ∧ outcome e operation ctx inc s =
      (.error (.serialization fault), s.insert u.collection u.key u.record.toValue) := by
  obtain ⟨rfl, hc, u, fault, hu, hr⟩ := h
  refine ⟨u, fault, hu, ?_⟩
  rw [outcome_of_upsert hc hu, replyAs_toValue, hr]
  rfl

theorem unchanged_of_error {f : Failure} (h : (outcome e operation ctx inc s).1 = .error f)
    (hs : ¬ Stranded e operation ctx inc) : (outcome e operation ctx inc s).2 = s := by
  rcases store_cases e operation ctx inc s with he | ⟨r, rfl, hr, -⟩ | ⟨u, rfl, hu, -⟩
  · exact he
  · -- a delete that removes something has nothing left that can fail
    rw [outcome_delete, hr] at h ⊢
    dsimp only at h ⊢
    split_ifs at h ⊢
    · rfl
    · split at h
      · cases h
      · rfl
  · by_cases hc : ctx.isCancelled = true
    · rw [outcome_upsert, hu]
      dsimp only
      rw [if_pos hc]
    · -- the write is done: what fails is reading the document back
      have hc : ctx.isCancelled = false := Bool.eq_false_iff.2 hc
      rw [outcome_of_upsert hc hu, replyAs_toValue] at h
      cases hr : u.record.resolve with
      | error fault => exact absurd ⟨rfl, hc, u, fault, hu, hr⟩ hs
      | ok record =>
        rw [hr] at h
        cases h

theorem not_stranded {family : Family} {ns : String} : ¬ Stranded (family.endpoint ns) operation ctx inc := by
  rintro ⟨rfl, -, u, fault, hu, hr⟩
  have hp : u.record.isPlain = true := (writable_of_upsert hu).plain
  rw [Record.resolve_of_isPlain hp] at hr
  cases hr

end Stranded

/-! ## The main statement -/

/-- For every endpoint, whatever its resolvers do: failures of the operation leave every collection
of every store as it was exactly if the operation is not a stranded upsert; an upsert that reaches
the store has written its document, and replies with it exactly if the record has no marks; and no
operation of a namespace's own endpoints is stranded. -/
theorem failures_change_nothing_iff (e : Endpoint) (operation : Operation) (ctx : Context) (inc : Incoming) :
    ((∀ s f, (outcome e operation ctx inc s).1 = .error f →
        ∀ c, (outcome e operation ctx inc s).2.documents c = s.documents c) ↔
      ¬ Stranded e operation ctx inc) ∧
    (∀ u, operation = .upsert → ctx.isCancelled = false → e.upsert ctx inc = .ok u → ∀ s,
      (outcome e operation ctx inc s).2 = s.insert u.collection u.key u.record.toValue ∧
      ((outcome e operation ctx inc s).1 = .ok (.json u.record.toValue) ↔ u.record.isPlain = true)) ∧
    ∀ (family : Family) (ns : String), e = family.endpoint ns → ¬ Stranded e operation ctx inc := by
  refine ⟨⟨?_, ?_⟩, ?_, ?_⟩
  · -- in the empty store the document that a stranded upsert leaves is one that was not there
    intro h hs
    obtain ⟨u, fault, -, ho⟩ := hs.outcome_eq (s := ∅)
    have hd := h ∅ _ (congrArg Prod.fst ho) u.collection
    rw [ho] at hd
    have hk := Store.get?_congr hd u.key
    rw [Store.get?_insert, if_pos ⟨rfl, rfl⟩] at hk
    cases hk
  · intro hs s f hf c
    rw [unchanged_of_error hf hs]
  · rintro u rfl hc hu s
    rw [outcome_of_upsert hc hu]
    exact ⟨rfl, replyAs_toValue_iff u.record⟩
  · rintro family ns rfl
    exact not_stranded

/-- A policy whose conditions start with the mark of an embedded text, with a number where the text
should be. -/
def markedPolicy : Policy where
  id := "p"
  conditions := .object [(Value.embeddingKey, .int 5), ("z", .int 1)]

/-- An endpoint that writes this policy for every caller: the upsert fails, and the policy is in the
store, which was empty. -/
theorem marked_upsert_changes_store :
    let e : Endpoint :=
      { Endpoint.generic "t" with upsert := fun _ _ => .ok ⟨"t/policies", "p", .policy markedPolicy⟩ }
    (outcome e .upsert {} {} ∅).1 =
        .error (.serialization (.inValue (.invalidType (.int 5) "raw value"))) ∧
      (outcome e .upsert {} {} ∅).2.documents "t/policies" = [("p", markedPolicy.toValue)] ∧
      (∅ : Store).documents "t/policies" = [] :=
  ⟨rfl, rfl, rfl⟩

end AccessRecords.Service
