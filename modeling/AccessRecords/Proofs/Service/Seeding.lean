/-
Seeding and writing. Loading the text of a seed puts into the store what writing its records one by one
over the service puts there: both read back what was printed, each in its own way, and file it under
the same keys. This holds as long as no policy has the mark of an embedded text in its conditions;
with one, the two ways disagree.
-/
import AccessRecords.Proofs.Record.RoundTrip
import AccessRecords.Proofs.Service.Address
import AccessRecords.Proofs.Service.Isolation
import AccessRecords.Proofs.Store.Loading

namespace AccessRecords

open Json

/-! ## Runs of requests -/

namespace Service

theorem serveAll_append (requests requests' : List (String × Request)) (s : Store) :
    serveAll (requests ++ requests') s =
      ((serveAll requests s).1 ++ (serveAll requests' (serveAll requests s).2).1,
        (serveAll requests' (serveAll requests s).2).2) := by
  induction requests generalizing s with
  | nil => rfl
  | cons request rest ih =>
    obtain ⟨ns, r⟩ := request
    rw [List.cons_append, serveAll_cons, serveAll_cons, ih]
    rfl

theorem length_serveAll (requests : List (String × Request)) (s : Store) :
    (serveAll requests s).1.length = requests.length := by
  induction requests generalizing s with
  | nil => rfl
  | cons request rest ih =>
    obtain ⟨ns, r⟩ := request
    rw [serveAll_cons, List.length_cons, List.length_cons, ih]

section Items

variable {α : Type} {ns : String} {request : α → Request} {l : List α} {s : Store}

/-- Requests that each put in one document put in all of them, one after another. -/
theorem serveAll_map {c : String} {key : α → String} {document : α → Value}
    (h : ∀ a ∈ l, ∀ s, (request a).serve ns s = (.ok (.json (document a)), s.insert c (key a) (document a))) :
    serveAll (l.map fun a => (ns, request a)) s =
      (l.map fun a => (ns, .ok (.json (document a))), l.foldl (fun s a => s.insert c (key a) (document a)) s) := by
  induction l generalizing s with
  | nil => rfl
  | cons a l ih =>
    have ha := h a List.mem_cons_self s
    rw [List.map_cons, serveAll_cons, ih fun b hb => h b (List.mem_cons_of_mem _ hb), ha]
    rfl

/-- Each of some replies was given to its request. -/
theorem exists_serve_of_replies {reply : α → Except Failure Reply}
    (h : (serveAll (l.map fun a => (ns, request a)) s).1 = l.map fun a => (ns, reply a)) :
    ∀ a ∈ l, ∃ s, ((request a).serve ns s).1 = reply a := by
  induction l generalizing s with
  | nil => simp
  | cons a l ih =>
    rw [List.map_cons, List.map_cons, serveAll_cons, List.cons.injEq, Prod.mk.injEq] at h
    rw [List.forall_mem_cons]
    exact ⟨⟨s, h.1.2⟩, ih h.2⟩

end Items

/-! ## Records written over the service -/

/-- The request that writes a record with the given fields under an id. -/
def Request.write (ctx : Context) (family : Family) (id : String) (members : List (String × Value)) : Request where
  family := family
  operation := .upsert
  ctx := ctx
  inc :=
    { params := .ofList [("id", id)]
      body := Text.Utf8.encode (Value.object members).print }

/-- The requests that write the records of a seed, in order: its roles, and then its policies. -/
def seedRequests (ns : String) (ctx : Context) (seed : Seed) : List (String × Request) :=
  (seed.roles.map fun r => (ns, .write ctx .roles r.id r.toMembers)) ++
    seed.policies.map fun p => (ns, .write ctx .policies p.id p.toMembers)

/-- The replies that they are given if all of them succeed: each gets the document of its record. -/
def seedReplies (ns : String) (seed : Seed) : List (String × Except Failure Reply) :=
  (seed.roles.map fun r => (ns, .ok (.json r.toValue))) ++ seed.policies.map fun p => (ns, .ok (.json p.toValue))

section Write

variable {ns c id : String} {ctx : Context} {members : List (String × Value)} {s : Store}

/-- A record that its body describes is filed under its id in the collection of the family. -/
theorem serve_write {family : Family} (record : Record) (hctx : ctx.isCancelled = false) (hne : id ≠ "")
    (ht : Text.trim id = id)
    (hf : ∀ inc : Incoming, family.address ns inc = (inc.param "id" >>= fun key => pure ⟨c, key⟩))
    (hs : Collection.shape c = record.shape)
    (hb : Record.ofBody record.shape (Text.Utf8.encode (Value.object members).print) = .ok record)
    (hid : record.id? = some id) (s : Store) :
    (Request.write ctx family id members).serve ns s =
      (.ok (.json record.toValue), s.insert c id record.toValue) := by
  have hget : (Request.write ctx family id members).inc.params.get? "id" = some id := by
    show (Table.insert ∅ "id" id).get? "id" = some id
    rw [Table.get?_insert, if_pos rfl]
  have ha : (Request.write ctx family id members).address ns = .ok ⟨c, id⟩ := by
    refine (hf _).trans ?_
    rw [Incoming.param_of_get? hget, ht, if_neg hne]
    rfl
  have hread :
      Endpoint.readBody (Collection.shape c) id (Request.write ctx family id members).inc = .ok record := by
    show (Record.ofBody (Collection.shape c) (Text.Utf8.encode (Value.object members).print) >>= _) = _
    rw [hs, hb]
    exact Endpoint.keyed_of_own_id hid
  rw [Request.serve_upsert rfl hctx ha, hread]

/-- A policy that is written and replied as it is has no marks, because what a body describes has none. -/
theorem isPlain_of_serve_write {p : Policy}
    (h : ((Request.write ctx .policies p.id p.toMembers).serve ns s).1 = .ok (.json p.toValue)) :
    p.conditions.isPlain = true := by
  obtain ⟨a, record, ha, hr, hs⟩ := Request.upsert_eq_ok rfl h
  obtain ⟨key, -, he⟩ := Except.bind_eq_ok.1 ha
  obtain rfl : (⟨Collection.policies ns, key⟩ : Address) = a := Except.ok.inj he
  rw [Collection.shape_policies] at hr
  obtain ⟨record', hb, hk⟩ := Except.bind_eq_ok.1 hr
  obtain ⟨hshape', -, hplain'⟩ := Record.of_ofBody hb
  obtain ⟨hshape, -, -, hplain⟩ := Endpoint.of_keyed hk
  rw [hs] at h
  have hv : record.toValue = p.toValue := Reply.json.inj (Except.ok.inj h)
  have hp : record.isPlain = true := hplain.trans hplain'
  have hpolicy : record.shape = .policies := hshape.trans hshape'
  cases record with
  | policy p' =>
    rw [← Policy.conditions_inj hv]
    exact hp
  | role r => cases hpolicy
  | raw v => cases hpolicy

end Write

/-! ## The main statement -/

/-- For every seed whose ids are not empty and have no blanks around them, and whose policies have
conditions without doubles that leave room for the three brackets around them: loading the text of the
seed succeeds and leaves the store that writing its records one by one leaves, and each write replies
with the document of its record, exactly if no policy has a mark in its conditions. -/
theorem loading_agrees_with_writing (ns path : String) (seed : Seed) (ctx : Context)
    (hctx : ctx.isCancelled = false)
    (hroles : ∀ r ∈ seed.roles, r.id ≠ "" ∧ Text.trim r.id = r.id)
    (hpolicies : ∀ p ∈ seed.policies, p.id ≠ "" ∧ Text.trim p.id = p.id)
    (hconditions : ∀ p ∈ seed.policies, p.conditions.Canonical ∧ p.conditions.isExact = true ∧
      p.conditions.depth + 3 ≤ Reader.maxDepth)
    (s : Store) :
    ((Store.load ns ⟨path, .ok (Text.Utf8.encode seed.print)⟩).runOn s =
        (.ok seed.size, (serveAll (seedRequests ns ctx seed) s).2) ∧
      (serveAll (seedRequests ns ctx seed) s).1 = seedReplies ns seed) ↔
    ∀ p ∈ seed.policies, p.conditions.isPlain = true := by
  unfold seedRequests seedReplies
  constructor
  · -- the replies alone tell: a policy that comes back as it was sent has no marks
    rintro ⟨-, hreplies⟩
    rw [serveAll_append] at hreplies
    obtain ⟨-, hreplies⟩ := List.append_inj hreplies (by rw [length_serveAll, List.length_map, List.length_map])
    intro p hp
    obtain ⟨s', hs⟩ := exists_serve_of_replies hreplies p hp
    exact isPlain_of_serve_write hs
  · -- the conditions stand three brackets deep in a seed file, and one in a body
    intro hplain
    have hfits : ∀ d, 124 ≤ d → ∀ p ∈ seed.policies, p.conditions.Fits d := by
      intro d hd p hp
      obtain ⟨hc, he, hdepth⟩ := hconditions p hp
      have hle : p.conditions.depth + 3 ≤ 127 := hdepth
      exact Value.fits_of_depth_le hc he (hplain p hp) (by omega)
    have hnameless : ¬ seed.Nameless := by
      rintro (⟨r, hm, he⟩ | ⟨p, hm, he⟩)
      · exact (hroles r hm).1 he
      · exact (hpolicies p hm).1 he
    have hfile : Seed.ofFile ⟨path, .ok (Text.Utf8.encode seed.print)⟩ = .ok seed :=
      Seed.ofFile_of_not_nameless (Seed.parse_print (hfits 124 le_rfl)) hnameless
    have hr : ∀ r ∈ seed.roles, ∀ s, (Request.write ctx .roles r.id r.toMembers).serve ns s =
        (.ok (.json r.toValue), s.insert (Collection.roles ns) r.id r.toValue) := by
      intro r hm
      obtain ⟨hne, ht⟩ := hroles r hm
      exact serve_write (.role r) hctx hne ht (fun _ => rfl) Collection.shape_roles r.ofBody_toMembers rfl
    have hp : ∀ p ∈ seed.policies, ∀ s, (Request.write ctx .policies p.id p.toMembers).serve ns s =
        (.ok (.json p.toValue), s.insert (Collection.policies ns) p.id p.toValue) := by
      intro p hm
      obtain ⟨hne, ht⟩ := hpolicies p hm
      have hb := Policy.ofBody_toMembers (hfits 126 (by decide) p hm) (hplain p hm)
      exact serve_write (.policy p) hctx hne ht (fun _ => rfl) Collection.shape_policies hb rfl
    rw [Store.load_runOn, hfile, serveAll_append, serveAll_map hr, serveAll_map hp]
    exact ⟨rfl, rfl⟩

/-- Two roles with one id, of which the second stays, and a policy, with quotes, control characters and
characters of up to four bytes in their texts and the limits of integers in the conditions. -/
def repeatedSeed : Seed where
  roles := [{ id := "a", members := ["\"\\\n\x01\x7f", "é€😀"] }, { id := "a", members := [] }]
  policies := [{
    id := "p é", subjects := ["a"], effect := .allow
    conditions := .object [
      ("", .list [.int (-9223372036854775808), .int 18446744073709551615, .null, .bool false]),
      ("z", .object [])] }]

theorem loading_agrees_with_writing_repeated :
    ((Store.load "t" ⟨"seed.json", .ok (Text.Utf8.encode repeatedSeed.print)⟩).runOn ∅ =
        (.ok 3, (serveAll (seedRequests "t" {} repeatedSeed) ∅).2) ∧
      (serveAll (seedRequests "t" {} repeatedSeed) ∅).1 = seedReplies "t" repeatedSeed) ∧
    ((serveAll (seedRequests "t" {} repeatedSeed) ∅).2.values "t/roles").length = 1 := by
  have hroles : ∀ r ∈ repeatedSeed.roles, r.id ≠ "" ∧ Text.trim r.id = r.id := by decide +kernel
  have hpolicies : ∀ p ∈ repeatedSeed.policies, p.id ≠ "" ∧ Text.trim p.id = p.id := by
    simp only [repeatedSeed, List.forall_mem_singleton]
    decide +kernel
  have hconditions : ∀ p ∈ repeatedSeed.policies, p.conditions.Canonical ∧ p.conditions.isExact = true ∧
      p.conditions.depth + 3 ≤ Reader.maxDepth := by
    simp only [repeatedSeed, List.forall_mem_singleton]
    refine ⟨?_, by decide +kernel, by decide +kernel⟩
    simp [Value.Canonical, Value.CanonicalMembers, Value.CanonicalItems]
    decide +kernel
  have hplain : ∀ p ∈ repeatedSeed.policies, p.conditions.isPlain = true := by
    simp only [repeatedSeed, List.forall_mem_singleton]
    decide +kernel
  have h := loading_agrees_with_writing "t" "seed.json" repeatedSeed {} rfl hroles hpolicies hconditions ∅
  refine ⟨h.2 hplain, ?_⟩
  decide +kernel

/-- A policy whose conditions are an object with a mark: their text stands for an object that has a mark
itself, although not as its first key. -/
def embeddedPolicy : Policy where
  id := "p"
  conditions := .object [(Value.embeddingKey, .text ("\x7b\"z\":1,\"" ++ Value.embeddingKey ++ "\":5\x7d"))]

/-- A seed with this policy is loaded, while its text is refused as a body: the stores differ. -/
theorem embedded_policy_loaded_not_written :
    let seed : Seed := { policies := [embeddedPolicy] }
    let loaded := (Store.load "t" ⟨"seed.json", .ok (Text.Utf8.encode seed.print)⟩).runOn ∅
    let written := serveAll (seedRequests "t" {} seed) ∅
    (embeddedPolicy.id ≠ "" ∧ Text.trim embeddedPolicy.id = embeddedPolicy.id) ∧
      (embeddedPolicy.conditions.Canonical ∧ embeddedPolicy.conditions.isExact = true ∧
        embeddedPolicy.conditions.depth = 1) ∧
      loaded.1.toOption = some 1 ∧ loaded.2 ≠ written.2 ∧ written.1 ≠ seedReplies "t" seed := by
  intro seed loaded written
  obtain ⟨hloaded, hfull⟩ : loaded.1.toOption = some 1 ∧ loaded.2.length "t/policies" = 1 := by decide +kernel
  obtain ⟨hempty, hrefused⟩ :
      written.2.length "t/policies" = 0 ∧ written.1.map (fun reply => reply.2.isOk) = [false] := by decide +kernel
  refine ⟨by decide +kernel, ⟨?_, by decide +kernel, by decide +kernel⟩, hloaded, fun h => ?_, fun h => ?_⟩
  · simp [embeddedPolicy, Value.Canonical, Value.CanonicalMembers]
    decide +kernel
  · rw [h, hempty] at hfull
    cases hfull
  · rw [h] at hrefused
    cases hrefused

end Service

end AccessRecords
