/-
Statuses of replies. A request that a namespace serves after any run is answered with success, as the
caller's fault or, for a get or a delete, as not found. The one other way to end is that it reads a
policy with a mark in its conditions, which only a seed file can put there: that fails as a document
that describes no record. No run makes a request end in any other way.
-/
import AccessRecords.Http
import AccessRecords.Proofs.Search.Paging
import AccessRecords.Proofs.Service.Address
import AccessRecords.Proofs.Service.Runs

namespace AccessRecords

open Json

/-! ## Refusals -/

/-- The failure is the caller's fault and has one of the codes. -/
def Failure.Refuses (f : Failure) (codes : List String) : Prop := f.kind = .userInput ∧ f.code ∈ codes

theorem Failure.Refuses.mono {f : Failure} {codes codes' : List String} (h : f.Refuses codes)
    (hc : codes ⊆ codes') : f.Refuses codes' := ⟨h.1, hc h.2⟩

namespace Endpoint

theorem refuses_of_collectionOf {ns : String} {inc : Incoming} {f : Failure}
    (h : collectionOf ns inc = .error f) : f.Refuses ["missing_param", "invalid_collection"] := by
  rcases Except.bind_eq_error.1 h with h | ⟨name, -, h⟩
  · rw [Incoming.param_eq_error h]
    exact ⟨rfl, by simp [Incoming.missingParam]⟩
  · split_ifs at h
    · cases h
      exact ⟨rfl, by simp [invalidCollection]⟩
    · cases h

variable {shape : Shape} {key : String} {inc : Incoming} {f : Failure}

/-- Why a body is refused under a key: it is no text of a value, its value describes no record, or the
record has another id. -/
inductive Rejects (shape : Shape) (key : String) (body : List UInt8) : Failure → Prop
  | notJson {fault : Fault} : Value.parse body = .error fault →
      Rejects shape key body (Record.invalidBody ("request body is not valid JSON: " ++ fault.message))
  | notRecord {v : Value} {fault : Fault} : Value.parse body = .ok v → Record.ofValue shape v = .error fault →
      Rejects shape key body
        (Record.invalidBody ("request body is not a valid " ++ shape.name ++ ": " ++ fault.message))
  | otherId {v : Value} {record : Record} {id : String} : Value.parse body = .ok v →
      Record.ofValue shape v = .ok record → record.id? = some id → id ≠ "" → id ≠ key →
      Rejects shape key body (idMismatch id key)

theorem rejects_of_readBody (h : readBody shape key inc = .error f) : Rejects shape key inc.body f := by
  rcases Except.bind_eq_error.1 h with h | ⟨record, hb, h⟩
  · rcases Except.bind_eq_error.1 h with h | ⟨v, hv, h⟩
    · obtain ⟨fault, hv, rfl⟩ := Except.mapError_eq_error.1 h
      exact .notJson hv
    · obtain ⟨fault, hr, rfl⟩ := Except.mapError_eq_error.1 h
      exact .notRecord (Except.mapError_eq_ok.1 hv) hr
  · obtain ⟨v, hv, hr⟩ := Record.ofBody_eq_ok.1 hb
    by_cases hid : ∀ id, record.id? = some id → id = "" ∨ id = key
    · cases h.symm.trans (keyed_of_id hid)
    · push Not at hid
      obtain ⟨id, hid, h0, hk⟩ := hid
      cases h.symm.trans (keyed_of_other_id hid h0 hk)
      exact .otherId hv hr hid h0 hk

theorem refuses_of_readBody (h : readBody shape key inc = .error f) : f.Refuses ["invalid_body", "id_mismatch"] := by
  cases rejects_of_readBody h with
  | notJson | notRecord => exact ⟨rfl, by simp [Record.invalidBody]⟩
  | otherId => exact ⟨rfl, by simp [idMismatch]⟩

end Endpoint

namespace Service

theorem Family.refuses_of_address {family : Family} {ns : String} {inc : Incoming} {f : Failure}
    (h : family.address ns inc = .error f) : f.Refuses ["missing_param", "invalid_collection"] := by
  have hparam : ∀ name, inc.param name = .error f → f.Refuses ["missing_param", "invalid_collection"] := by
    intro name h
    rw [Incoming.param_eq_error h]
    exact ⟨rfl, by simp [Incoming.missingParam]⟩
  cases family with
  | roles | policies =>
    rcases Except.bind_eq_error.1 h with h | ⟨key, -, h⟩
    · exact hparam _ h
    · cases h
  | collections =>
    rcases Except.bind_eq_error.1 h with h | ⟨c, -, h⟩
    · exact Endpoint.refuses_of_collectionOf h
    · rcases Except.bind_eq_error.1 h with h | ⟨key, -, h⟩
      · exact hparam _ h
      · cases h

theorem Family.refuses_of_collection {family : Family} {ns : String} {inc : Incoming} {f : Failure}
    (h : family.collection ns inc = .error f) : f.Refuses ["missing_param", "invalid_collection"] := by
  cases family with
  | roles | policies => cases h
  | collections => exact Endpoint.refuses_of_collectionOf h

/-! ## Documents that are read -/

/-- The document is that of a policy, kept among policies, with a mark in its conditions. -/
def Marked (c : String) (d : Value) : Prop :=
  ∃ p : Policy, Collection.shape c = .policies ∧ d = p.toValue ∧ p.conditions.isPlain = false

/-- The documents that a request reads: the one at the address of a get, and those that a list
fetches. -/
inductive Request.Reads (r : Request) (ns : String) (s : Store) : String → Value → Prop
  | get {a : Address} {d : Value} : r.operation = .get → r.address ns = .ok a →
      s.get? a.collection a.key = some d → r.Reads ns s a.collection d
  | list {c : String} {d : Value} : r.operation = .list → r.family.collection ns r.inc = .ok c →
      d ∈ (Search.Plan.make c r.inc.query).documents s c → r.Reads ns s c d

theorem marked_toValue_iff {c : String} {record : Record} (hs : record.shape = Collection.shape c) :
    Marked c record.toValue ↔ record.isPlain = false := by
  cases record with
  | role r =>
    refine ⟨fun ⟨p, hp, _⟩ => ?_, fun h => by cases h⟩
    cases hs.trans hp
  | policy p =>
    refine ⟨fun ⟨p', _, hv, hmark⟩ => ?_, fun h => ⟨p, hs.symm, rfl, h⟩⟩
    have hc : p.conditions = p'.conditions := Policy.conditions_inj hv
    show p.conditions.isPlain = false
    rw [hc, hmark]
  | raw v =>
    refine ⟨fun ⟨p, hp, _⟩ => ?_, fun h => by cases h⟩
    cases hs.trans hp

/-- In a filed store a document describes a record unless it is marked. -/
theorem ofValue_or_marked {s : Store} (h : s.Filed Record.Settled) {c k : String} {d : Value}
    (hd : s.get? c k = some d) :
    (∃ record, Record.ofValue (Collection.shape c) d = .ok record) ∧ ¬ Marked c d ∨
      (∃ fault, Record.ofValue (Collection.shape c) d = .error fault) ∧ Marked c d := by
  by_cases hc : Collection.shape c = .raw
  · refine .inl ⟨⟨.raw d, by rw [hc]; rfl⟩, ?_⟩
    rintro ⟨p, hp, -⟩
    cases hc.symm.trans hp
  · obtain ⟨-, record, hs, -, rfl, hsettled⟩ := h c k d hd hc
    -- what was read from a text is read back as it is, or, with a mark, not at all
    have hread := Record.ofValue_toValue_iff hsettled
    rw [marked_toValue_iff hs, ← hs]
    cases hp : record.isPlain with
    | true => exact .inl ⟨⟨record, (hread record).2 ⟨hp, rfl⟩⟩, Bool.noConfusion⟩
    | false =>
      cases hv : Record.ofValue record.shape record.toValue with
      | error fault => exact .inr ⟨⟨fault, rfl⟩, rfl⟩
      | ok record' =>
        have hp' : record.isPlain = true := ((hread record').1 hv).1
        rw [hp] at hp'
        cases hp'

/-! ## Statuses -/

/-- The status that a reply or a failure is answered with. -/
def statusOf : Except Failure Reply → Nat
  | .ok reply => (Http.Response.ofReply reply).status
  | .error f => (Http.Response.ofFailure f).status

/-- The statuses that an operation should be answered with. -/
def Operation.statuses : Operation → List Nat
  | .get => [200, 400, 404]
  | .delete => [204, 400, 404]
  | .upsert => [200, 400]
  | .list => [200, 400]

theorem statusOf_of_refuses {f : Failure} {codes : List String} (h : f.Refuses codes) :
    statusOf (.error f) = 400 := by
  show f.kind.status = 400
  rw [h.1]
  rfl

theorem statusOf_serialization (fault : Fault) : statusOf (.error (.serialization fault)) = 503 := rfl

theorem mem_statuses_of_refuses {f : Failure} {codes : List String} (h : f.Refuses codes) (operation : Operation) :
    statusOf (.error f) ∈ operation.statuses := by
  rw [statusOf_of_refuses h]
  cases operation <;> decide

namespace Request

variable {r : Request} {ns : String} {s : Store}

/-- The request is answered as it should be and reads nothing marked, or it reads a marked document
and fails on it. -/
def Answers (r : Request) (ns : String) (s : Store) : Prop :=
  (statusOf (r.serve ns s).1 ∈ r.operation.statuses ∧ ¬ ∃ c d, r.Reads ns s c d ∧ Marked c d) ∨
  ((∃ fault, (r.serve ns s).1 = .error (.serialization fault)) ∧ ∃ c d, r.Reads ns s c d ∧ Marked c d)

theorem reads_get_iff (ho : r.operation = .get) {c : String} {d : Value} : r.Reads ns s c d ↔
    ∃ a, r.address ns = .ok a ∧ c = a.collection ∧ s.get? a.collection a.key = some d := by
  constructor
  · intro h
    cases h with
    | get _ ha hd => exact ⟨_, ha, rfl, hd⟩
    | list ho' => cases ho.symm.trans ho'
  · rintro ⟨a, ha, rfl, hd⟩
    exact .get ho ha hd

theorem reads_list_iff (ho : r.operation = .list) {c : String} {d : Value} : r.Reads ns s c d ↔
    r.family.collection ns r.inc = .ok c ∧ d ∈ (Search.Plan.make c r.inc.query).documents s c := by
  constructor
  · intro h
    cases h with
    | get ho' => cases ho.symm.trans ho'
    | list _ hc hd => exact ⟨hc, hd⟩
  · rintro ⟨hc, hd⟩
    exact .list ho hc hd

theorem not_reads (ho : r.operation = .delete ∨ r.operation = .upsert) {c : String} {d : Value} :
    ¬ r.Reads ns s c d := by
  intro h
  cases h with
  | get ho' => rcases ho with ho | ho <;> cases ho.symm.trans ho'
  | list ho' => rcases ho with ho | ho <;> cases ho.symm.trans ho'

/-- What a request reads is in the collection. -/
theorem Reads.exists_key {c : String} {d : Value} (h : r.Reads ns s c d) : ∃ k, s.get? c k = some d := by
  cases h with
  | get _ _ hd => exact ⟨_, hd⟩
  | list _ _ hd => exact Search.exists_key_of_mem_documents hd

theorem answers_of_refuses {f : Failure} {codes : List String} (hf : f.Refuses codes)
    (hs : r.serve ns s = (.error f, s)) (hr : ∀ c d, ¬ r.Reads ns s c d) : r.Answers ns s := by
  refine .inl ⟨?_, fun ⟨c, d, h, _⟩ => hr c d h⟩
  rw [hs]
  exact mem_statuses_of_refuses hf r.operation

theorem answers_get (h : s.Filed Record.Settled) (ho : r.operation = .get) (hc : r.ctx.isCancelled = false) :
    r.Answers ns s := by
  cases ha : r.address ns with
  | error f =>
    -- without an address there is nothing that is read
    have hs := serve_of_address_eq_error (s := s) (by rw [ho]; decide) ha
    refine answers_of_refuses (Family.refuses_of_address ha) hs fun c d hr => ?_
    obtain ⟨a, ha', -⟩ := (reads_get_iff ho).1 hr
    cases ha.symm.trans ha'
  | ok a =>
    have hs := serve_get (s := s) ho hc ha
    have hreads : ∀ {c d}, r.Reads ns s c d → c = a.collection ∧ s.get? a.collection a.key = some d := by
      intro c d hr
      obtain ⟨a', ha', hd⟩ := (reads_get_iff ho).1 hr
      cases ha.symm.trans ha'
      exact hd
    cases hd : s.get? a.collection a.key with
    | none =>
      rw [hd] at hs
      refine .inl ⟨?_, ?_⟩
      · rw [hs, ho]
        exact List.mem_cons_of_mem _ (List.mem_cons_of_mem _ List.mem_cons_self)
      · rintro ⟨c, d, hr, -⟩
        cases hd.symm.trans (hreads hr).2
    | some d =>
      rw [hd] at hs
      -- the document at the address is the only one that is read
      rcases ofValue_or_marked h hd with ⟨⟨record, hv⟩, hm⟩ | ⟨⟨fault, hv⟩, hm⟩
      · refine .inl ⟨?_, ?_⟩
        · rw [hs, ho]
          show statusOf (replyAs (Collection.shape a.collection) d) ∈ _
          rw [replyAs_of_ok hv]
          exact List.mem_cons_self
        · rintro ⟨c, d', hr, hm'⟩
          obtain ⟨rfl, hd'⟩ := hreads hr
          cases hd.symm.trans hd'
          exact hm hm'
      · refine .inr ⟨⟨fault, ?_⟩, a.collection, d, .get ho ha hd, hm⟩
        rw [hs]
        exact replyAs_of_error hv

theorem answers_delete (ho : r.operation = .delete) (hc : r.ctx.isCancelled = false) : r.Answers ns s := by
  cases ha : r.address ns with
  | error f =>
    have hs := serve_of_address_eq_error (s := s) (by rw [ho]; decide) ha
    exact answers_of_refuses (Family.refuses_of_address ha) hs fun c d => not_reads (.inl ho)
  | ok a =>
    refine .inl ⟨?_, fun ⟨c, d, hr, _⟩ => not_reads (.inl ho) hr⟩
    rw [serve_delete ho hc ha, ho]
    cases s.get? a.collection a.key with
    | none => exact List.mem_cons_of_mem _ (List.mem_cons_of_mem _ List.mem_cons_self)
    | some d => exact List.mem_cons_self

/-- An upsert fails only as the caller's fault. -/
theorem refuses_of_upsert {f : Failure} (ho : r.operation = .upsert) (hc : r.ctx.isCancelled = false)
    (h : (r.serve ns s).1 = .error f) :
    f.Refuses ["missing_param", "invalid_collection", "invalid_body", "id_mismatch"] := by
  cases ha : r.address ns with
  | error f' =>
    rw [serve_of_address_eq_error (by rw [ho]; decide) ha] at h
    cases h
    exact (Family.refuses_of_address ha).mono (by simp)
  | ok a =>
    rw [serve_upsert ho hc ha] at h
    cases hb : Endpoint.readBody (Collection.shape a.collection) a.key r.inc with
    | error f' =>
      rw [hb] at h
      cases h
      exact (Endpoint.refuses_of_readBody hb).mono (by simp)
    | ok record =>
      rw [hb] at h
      cases h

theorem answers_upsert (ho : r.operation = .upsert) (hc : r.ctx.isCancelled = false) : r.Answers ns s := by
  refine .inl ⟨?_, fun ⟨c, d, hr, _⟩ => not_reads (.inr ho) hr⟩
  cases h : (r.serve ns s).1 with
  | error f => exact mem_statuses_of_refuses (refuses_of_upsert ho hc h) r.operation
  | ok reply =>
    obtain ⟨a, record, -, -, hs⟩ := upsert_eq_ok ho h
    rw [hs] at h
    cases h
    rw [ho]
    exact List.mem_cons_self

theorem answers_list (h : s.Filed Record.Settled) (ho : r.operation = .list) (hc : r.ctx.isCancelled = false) :
    r.Answers ns s := by
  cases hl : r.family.collection ns r.inc with
  | error f =>
    have hs := serve_list_of_eq_error (s := s) ho hl
    refine answers_of_refuses (Family.refuses_of_collection hl) hs fun c d hr => ?_
    cases hl.symm.trans ((reads_list_iff ho).1 hr).1
  | ok c =>
    have hs := serve_list (s := s) ho hl
    rw [Search.result_ofCollection hc] at hs
    cases hm : ((Search.Plan.make c r.inc.query).documents s c).mapM (Record.ofValue (Collection.shape c)) with
    | ok records =>
      -- every document describes a record, so none is marked
      obtain ⟨l, he, -⟩ := Search.select_ofCollection (q := r.inc.query) (Except.mapM_eq_ok.1 hm)
      refine .inl ⟨?_, ?_⟩
      · rw [hs, he, ho]
        exact List.mem_cons_self
      · rintro ⟨c', d, hr, hmark⟩
        obtain ⟨hc', hd⟩ := (reads_list_iff ho).1 hr
        cases hl.symm.trans hc'
        obtain ⟨k, hk⟩ := Search.exists_key_of_mem_documents hd
        obtain ⟨record, -, hv⟩ := (Except.mem_of_mapM_eq_ok hm).1 d hd
        rcases ofValue_or_marked h hk with ⟨-, hn⟩ | ⟨⟨fault, hv'⟩, -⟩
        · exact hn hmark
        · cases hv.symm.trans hv'
    | error fault =>
      -- the search fails at the first document that describes none, which is marked
      obtain ⟨before, d, after, hsplit, -, hfault⟩ := Except.mapM_eq_error.1 hm
      have hd : d ∈ (Search.Plan.make c r.inc.query).documents s c := by
        rw [hsplit]
        exact List.mem_append_right _ List.mem_cons_self
      obtain ⟨k, hk⟩ := Search.exists_key_of_mem_documents hd
      have he : Search.select (.ofCollection c) r.inc.query (Search.Plan.make c r.inc.query)
          ((Search.Plan.make c r.inc.query).documents s c) = .error (.serialization fault) :=
        Search.select_eq_error (by rw [Search.Request.shape_ofCollection]; exact hm)
      rcases ofValue_or_marked h hk with ⟨⟨record, hv⟩, -⟩ | ⟨-, hmark⟩
      · cases hfault.symm.trans hv
      · refine .inr ⟨⟨fault, ?_⟩, c, d, .list ho hl hd, hmark⟩
        rw [hs, he]
        rfl

theorem answers_serve (h : s.Filed Record.Settled) (hc : r.ctx.isCancelled = false) : r.Answers ns s := by
  cases ho : r.operation with
  | get => exact answers_get h ho hc
  | delete => exact answers_delete ho hc
  | upsert => exact answers_upsert ho hc
  | list => exact answers_list h ho hc

end Request

/-! ## The main statement -/

/-- After any run a request, not cancelled, is answered with one of the statuses that its operation
should have, unless it fails on a document that describes no record; it does so exactly if it reads
a marked document; an upsert fails only as the caller's fault, with one of four codes; and after a
run whose seeds are readable every request is answered as it should be. -/
theorem statuses_after_run (steps : List Step) {ns : String} {r : Request} (hc : r.ctx.isCancelled = false) :
    let s := Step.runAll steps
    let reply := (r.serve ns s).1
    (statusOf reply ∈ r.operation.statuses ∨
      statusOf reply = 503 ∧ ∃ fault, reply = .error (.serialization fault)) ∧
    (statusOf reply = 503 ↔ ∃ c d, r.Reads ns s c d ∧ Marked c d) ∧
    (r.operation = .upsert → ∀ f, reply = .error f → f.kind = .userInput ∧
      f.code ∈ ["missing_param", "invalid_collection", "invalid_body", "id_mismatch"]) ∧
    ((∀ ns' file seed, Step.load ns' file ∈ steps → Seed.ofFile file = .ok seed → seed.Readable) →
      statusOf reply ∈ r.operation.statuses) := by
  intro s reply
  have hfiled : s.Filed Record.Settled := Step.filed_settled steps
  have hnot : 503 ∉ r.operation.statuses := by cases r.operation <;> decide
  have hanswers : r.Answers ns s := Request.answers_serve hfiled hc
  refine ⟨?_, ?_, fun ho f => Request.refuses_of_upsert ho hc, ?_⟩
  · rcases hanswers with ⟨hs, -⟩ | ⟨⟨fault, hf⟩, -⟩
    · exact .inl hs
    · refine .inr ⟨?_, fault, hf⟩
      show statusOf (r.serve ns s).1 = 503
      rw [hf, statusOf_serialization]
  · rcases hanswers with ⟨hs, hn⟩ | ⟨⟨fault, hf⟩, hr⟩
    · exact ⟨fun h => absurd (h ▸ hs) hnot, fun h => absurd h hn⟩
    · refine ⟨fun _ => hr, fun _ => ?_⟩
      show statusOf (r.serve ns s).1 = 503
      rw [hf, statusOf_serialization]
  · intro hseeds
    have hw : s.WellFormed := Step.wellFormed_of_readable hseeds
    rcases hanswers with ⟨hs, -⟩ | ⟨-, c, d, hr, hmark⟩
    · exact hs
    · obtain ⟨k, hk⟩ := hr.exists_key
      have hshape : Collection.shape c = .policies := by
        obtain ⟨p, hshape, -⟩ := hmark
        exact hshape
      obtain ⟨-, record, hv, -⟩ := hw c k d hk (by rw [hshape]; decide)
      rcases ofValue_or_marked hfiled hk with ⟨-, hn⟩ | ⟨⟨fault, hv'⟩, -⟩
      · exact absurd hmark hn
      · cases hv.symm.trans hv'

/-- After a role is written, a list of the roles, with no seed loaded, is answered as it should be. -/
theorem statuses_after_upsert :
    let steps : List Step :=
      [.request "t" ⟨.roles, .upsert, {}, { params := .ofList [("id", "r")], body := [0x7B, 0x7D] }⟩]
    let r : Request := ⟨.roles, .list, {}, {}⟩
    r.ctx.isCancelled = false ∧
      (∀ ns' file seed, Step.load ns' file ∈ steps → Seed.ofFile file = .ok seed → seed.Readable) ∧
      statusOf (r.serve "t" (Step.runAll steps)).1 ∈ r.operation.statuses := by
  intro steps r
  have hseeds : ∀ ns' file seed, Step.load ns' file ∈ steps → Seed.ofFile file = .ok seed → seed.Readable := by
    intro ns' file seed hm
    simp [steps] at hm
  have hr : r.ctx.isCancelled = false := rfl
  exact ⟨hr, hseeds, (statuses_after_run steps hr).2.2.2 hseeds⟩

/-- A get for the policy of a seed whose conditions have a mark is answered with 503, and so is a
list of the policies. -/
theorem statuses_after_marked_seed :
    let s := Step.runAll [.load "t" Step.markedSeed]
    statusOf (Request.serve ⟨.policies, .get, {}, { params := .ofList [("id", "p")] }⟩ "t" s).1 = 503 ∧
      statusOf (Request.serve ⟨.policies, .list, {}, {}⟩ "t" s).1 = 503 := by
  decide +kernel

end Service

end AccessRecords
