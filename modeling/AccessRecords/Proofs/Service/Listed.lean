/-
Records that are listed. A path parameter is trimmed before it is looked up, so a listed record can
be fetched and removed by its own id exactly if there are no blanks around the id. No request writes
a record whose id has blanks around it, but a seed file can bring one.
-/
import AccessRecords.Proofs.Service.Statuses

namespace AccessRecords

open Json

/-! ## Ids of documents -/

/-- The text that a document has under `id`. -/
def Json.Value.id? : Value → Option String
  | .object members =>
    match members.lookup "id" with
    | some (.text id) => some id
    | _ => none
  | _ => none

theorem Record.id?_toValue {record : Record} (h : record.shape ≠ .raw) : record.toValue.id? = record.id? := by
  cases record with
  | role r => rfl
  | policy p => rfl
  | raw v => exact absurd rfl h

/-! ## Ids that runs bring -/

/-- The records of a seed. -/
def Seed.records (seed : Seed) : List Record := seed.roles.map .role ++ seed.policies.map .policy

/-- The id of a stored record has no blanks around it, unless the record is one of a loaded seed. -/
theorem Step.filed_trimmed (steps : List Step) : (runAll steps).Filed fun record =>
    (∀ id, record.id? = some id → Text.trim id = id) ∨
      ∃ ns file seed, load ns file ∈ steps ∧ Seed.ofFile file = .ok seed ∧ record ∈ seed.records := by
  refine filed_runAll (fun _ _ _ hw => .inl fun id => hw.trim_id) fun ns file seed hm hs => ⟨?_, ?_⟩
  · intro r hr
    exact .inr ⟨ns, file, seed, hm, hs, List.mem_append_left _ (List.mem_map_of_mem hr)⟩
  · intro p hl
    exact .inr ⟨ns, file, seed, hm, hs, List.mem_append_right _ (List.mem_map_of_mem hl.mem)⟩

namespace Service

section Stored

variable {s : Store} {c k : String} {d : Value}

/-- A stored document of records is replied to a get as it is or not at all. -/
theorem replyAs_stored (h : s.Filed Record.Settled) (hc : Collection.shape c ≠ .raw) (hd : s.get? c k = some d)
    {reply : Reply} (hr : replyAs (Collection.shape c) d = .ok reply) : reply = .json d ∧ d.id? = some k := by
  obtain ⟨-, record, hs, hid, rfl, hsettled⟩ := h c k d hd hc
  obtain ⟨record', hdecode, rfl⟩ := Except.map_eq_ok.1 hr
  have hv : Record.ofValue record.shape record.toValue = .ok record' := hs ▸ Except.mapError_eq_ok.1 hdecode
  obtain ⟨-, rfl⟩ := (Record.ofValue_toValue_iff hsettled record').1 hv
  exact ⟨rfl, (Record.id?_toValue (hs ▸ hc)).trans hid⟩

variable {ns : String} {r : Request} {items : List Value}

/-- A listed document is stored under its id, and a get that finds it replies with it. -/
theorem stored_of_listed (h : s.Filed Record.Settled) (hc : Collection.shape c ≠ .raw) (ho : r.operation = .list)
    (hl : r.family.collection ns r.inc = .ok c) (hr : (r.serve ns s).1 = .ok (.json (.list items)))
    (hd : d ∈ items) :
    ∃ id, s.get? c id = some d ∧ d.id? = some id ∧ replyAs (Collection.shape c) d = .ok (.json d) := by
  rw [Request.serve_list ho hl] at hr
  obtain ⟨l, hresult, he⟩ := Except.map_eq_ok.1 hr
  have hitems : l.values = items := Value.list.inj (Reply.json.inj he)
  rw [← hitems, Listing.values_eq] at hd
  obtain ⟨record, hm, rfl⟩ := List.mem_map.1 hd
  -- the record was read from a document of the collection, which a filed store gives back as it is
  obtain ⟨id, d, hget, hv⟩ := Search.exists_document_of_result hresult hm
  rw [Search.Request.collection_ofCollection] at hget
  rw [Search.Request.shape_ofCollection] at hv
  have hrep : replyAs (Collection.shape c) d = .ok (.json record.toValue) := replyAs_of_ok hv
  obtain ⟨he, hid⟩ := replyAs_stored h hc hget hrep
  obtain rfl : record.toValue = d := Reply.json.inj he
  exact ⟨id, hget, hid, hrep⟩

end Stored

/-! ## Requests by id -/

/-- A request to a family, not cancelled, whose path parameter is the id. -/
structure Request.Asks (r : Request) (family : Family) (operation : Operation) (id : String) : Prop where
  family : r.family = family
  operation : r.operation = operation
  active : r.ctx.isCancelled = false
  param : r.inc.params.get? "id" = some id

/-- The roles and the policies of a namespace are a collection of records, addressed by their trimmed
id. -/
theorem Family.exists_collection {family : Family} (hf : family ≠ .collections) (ns : String) :
    ∃ c, Collection.shape c ≠ .raw ∧ (∀ inc, family.collection ns inc = .ok c) ∧
      ∀ {r : Request} {operation : Operation} {id : String}, r.Asks family operation id →
        r.address ns =
          if Text.trim id = "" then .error (Incoming.missingParam "id") else .ok ⟨c, Text.trim id⟩ := by
  have hfixed : ∃ c, Collection.shape c ≠ .raw ∧ (∀ inc, family.collection ns inc = .ok c) ∧
      ∀ inc, family.address ns inc = (do return ⟨c, ← inc.param "id"⟩) := by
    cases family with
    | roles => exact ⟨Collection.roles ns, by rw [Collection.shape_roles]; decide, fun _ => rfl, fun _ => rfl⟩
    | policies =>
      exact ⟨Collection.policies ns, by rw [Collection.shape_policies]; decide, fun _ => rfl, fun _ => rfl⟩
    | collections => exact absurd rfl hf
  obtain ⟨c, hc, hcollection, haddress⟩ := hfixed
  refine ⟨c, hc, hcollection, fun {r operation id} hr => ?_⟩
  unfold Request.address
  rw [hr.family, haddress, Incoming.param_of_get? hr.param]
  split_ifs <;> rfl

section Ids

variable {s : Store} {ns c id : String} {d : Value} {family : Family} {r : Request} {f : Failure}

theorem get_eq_iff_trimmed (h : s.Filed Record.Settled) (hc : Collection.shape c ≠ .raw) (hd : s.get? c id = some d)
    (hid : d.id? = some id) (hrep : replyAs (Collection.shape c) d = .ok (.json d)) (hr : r.Asks family .get id)
    (ha : r.address ns = if Text.trim id = "" then .error f else .ok ⟨c, Text.trim id⟩) :
    (r.serve ns s).1 = .ok (.json d) ↔ Text.trim id = id := by
  have hne : id ≠ "" := (h c id d hd hc).1
  constructor
  · intro hok
    by_cases ht : Text.trim id = ""
    · rw [if_pos ht] at ha
      rw [Request.serve_of_address_eq_error (by rw [hr.operation]; decide) ha] at hok
      cases hok
    · rw [if_neg ht] at ha
      rw [Request.serve_get hr.operation hr.active ha] at hok
      split at hok
      · -- what is found goes by the trimmed id, and what is listed by the id
        rename_i d' hd'
        obtain ⟨he, hid'⟩ := replyAs_stored h hc hd' hok
        obtain rfl : d = d' := Reply.json.inj he
        exact Option.some.inj (hid'.symm.trans hid)
      · cases hok
  · intro ht
    rw [ht, if_neg hne] at ha
    rw [Request.serve_get hr.operation hr.active ha]
    dsimp only
    rw [hd]
    exact hrep

/-- By an id without blanks around it the document is removed. -/
theorem serve_delete_of_trimmed (hne : id ≠ "") (hd : s.get? c id = some d) (ht : Text.trim id = id)
    (hr : r.Asks family .delete id)
    (ha : r.address ns = if Text.trim id = "" then .error f else .ok ⟨c, Text.trim id⟩) :
    r.serve ns s = (.ok .noContent, s.erase c id) := by
  rw [ht, if_neg hne] at ha
  rw [Request.serve_delete hr.operation hr.active ha]
  dsimp only
  rw [hd]

/-- By an id with blanks around it another document is removed, or none. -/
theorem get?_delete_of_ne (ht : Text.trim id ≠ id) (hr : r.Asks family .delete id)
    (ha : r.address ns = if Text.trim id = "" then .error f else .ok ⟨c, Text.trim id⟩) :
    (r.serve ns s).2.get? c id = s.get? c id := by
  by_cases he : Text.trim id = ""
  · rw [if_pos he] at ha
    rw [Request.serve_of_address_eq_error (by rw [hr.operation]; decide) ha]
  · rw [if_neg he] at ha
    rw [Request.serve_delete hr.operation hr.active ha]
    split
    · exact Store.get?_erase.trans (if_neg fun e => ht e.2.symm)
    · rfl

end Ids

/-! ## The main statement -/

/-- After any run, every record that a list of the roles or of the policies replies with has an id.
A get for this id replies with the record as listed exactly if the id is trimmed. If it is, a delete
for the id succeeds and no list of the family has a record with that id any more; if not, a delete
leaves the record where it is. An id that is not trimmed is that of a record of a loaded seed. -/
theorem listed_by_id (steps : List Step) {ns : String} {l : Request} {items : List Value}
    (hf : l.family ≠ .collections) (ho : l.operation = .list)
    (hl : (l.serve ns (Step.runAll steps)).1 = .ok (.json (.list items))) :
    let s := Step.runAll steps
    ∀ d ∈ items, ∃ id, d.id? = some id ∧
      (∀ g : Request, g.Asks l.family .get id → ((g.serve ns s).1 = .ok (.json d) ↔ Text.trim id = id)) ∧
      (∀ r : Request, r.Asks l.family .delete id →
        (Text.trim id = id → (r.serve ns s).1 = .ok .noContent ∧
          ∀ (l' : Request) (items' : List Value), l'.family = l.family → l'.operation = .list →
            (l'.serve ns (r.serve ns s).2).1 = .ok (.json (.list items')) → ∀ d' ∈ items', d'.id? ≠ some id) ∧
        (Text.trim id ≠ id →
          ∀ c, l.family.collection ns l.inc = .ok c → (r.serve ns s).2.get? c id = some d)) ∧
      (Text.trim id = id ∨ ∃ ns' file seed, Step.load ns' file ∈ steps ∧ Seed.ofFile file = .ok seed ∧
        d ∈ seed.records.map Record.toValue) := by
  intro s d hd
  have hfiled : s.Filed Record.Settled := Step.filed_settled steps
  obtain ⟨c, hc, hcollection, haddress⟩ := Family.exists_collection hf ns
  obtain ⟨id, hget, hid, hrep⟩ := stored_of_listed hfiled hc ho (hcollection _) hl hd
  refine ⟨id, hid, ?_, ?_, ?_⟩
  · intro g hg
    exact get_eq_iff_trimmed hfiled hc hget hid hrep hg (haddress hg)
  · intro r hr
    refine ⟨fun ht => ?_, fun ht c' hc' => ?_⟩
    · have hdelete : r.serve ns s = (.ok .noContent, s.erase c id) :=
        serve_delete_of_trimmed (hfiled c id d hget hc).1 hget ht hr (haddress hr)
      rw [hdelete]
      refine ⟨rfl, fun l' items' hf' ho' hl' d' hd' he => ?_⟩
      -- what is listed afterwards is stored under its id, where nothing is left
      obtain ⟨id', hget', hid', -⟩ :=
        stored_of_listed hfiled.erase hc ho' (hf' ▸ hcollection _) hl' hd'
      obtain rfl : id' = id := Option.some.inj (hid'.symm.trans he)
      rw [Store.get?_erase, if_pos ⟨rfl, rfl⟩] at hget'
      cases hget'
    · obtain rfl : c = c' := Except.ok.inj ((hcollection _).symm.trans hc')
      rw [get?_delete_of_ne ht hr (haddress hr), hget]
  · obtain ⟨-, record, -, hrecord, rfl, htrim | ⟨ns', file, seed, hm, hs, hseed⟩⟩ :=
      Step.filed_trimmed steps c id d hget hc
    · exact .inl (htrim id hrecord)
    · exact .inr ⟨ns', file, seed, hm, hs, List.mem_map_of_mem hseed⟩

/-- A role that is written under blanks is listed without them, and a get for the id that is listed
replies with it. -/
theorem listed_by_id_untrimmed :
    let steps : List Step :=
      [.request "t" ⟨.roles, .upsert, {}, { params := .ofList [("id", " r ")], body := [0x7B, 0x7D] }⟩]
    let l : Request := ⟨.roles, .list, {}, {}⟩
    let g : Request := ⟨.roles, .get, {}, { params := .ofList [("id", "r")] }⟩
    l.family ≠ .collections ∧ l.operation = .list ∧
      (l.serve "t" (Step.runAll steps)).1 = .ok (.json (.list [Role.toValue ⟨"r", []⟩])) ∧
      g.Asks l.family .get "r" ∧ (g.serve "t" (Step.runAll steps)).1 = .ok (.json (Role.toValue ⟨"r", []⟩)) := by
  intro steps l g
  have hf : l.family ≠ .collections := by decide
  have hl : (l.serve "t" (Step.runAll steps)).1 = .ok (.json (.list [Role.toValue ⟨"r", []⟩])) := by
    with_unfolding_all rfl
  have hg : g.Asks l.family .get "r" := ⟨rfl, rfl, rfl, rfl⟩
  obtain ⟨id, hid, hget, -⟩ := listed_by_id steps hf rfl hl _ List.mem_cons_self
  obtain rfl : "r" = id := Option.some.inj hid
  exact ⟨hf, rfl, hl, hg, (hget g hg).2 (by decide +kernel)⟩

/-- A seed file with one role, whose id has blanks around it. -/
def paddedSeed : Seed.File where
  path := "seed.json"
  contents := .ok (Text.Utf8.encode "\x7b\"roles\":[\x7b\"id\":\" a \",\"members\":[\"x\"]\x7d]\x7d")

/-- The role is listed, and is neither found nor removed by its id. -/
theorem padded_role_not_found :
    let s := Step.runAll [.load "t" paddedSeed]
    let inc : Incoming := { params := .ofList [("id", " a ")] }
    let reply (operation : Operation) (inc : Incoming) := (Request.serve ⟨.roles, operation, {}, inc⟩ "t" s).1
    ((reply .list {}).map fun reply => (Http.Response.ofReply reply).body).toOption =
        some "[\x7b\"id\":\" a \",\"members\":[\"x\"]\x7d]" ∧
      statusOf (reply .get inc) = 404 ∧ statusOf (reply .delete inc) = 404 := by
  decide +kernel

end Service

end AccessRecords
