/-
Upserts and the id of the record. The path names the key, and the body may repeat it: an id in the body
that is empty counts as none, one that is the key is taken, and any other is refused. Main statement: an
upsert resolves to what its body describes with the key as its id, and to nothing else, so it does not
matter which of the three ways a body takes; as a text this holds of every object that does not begin
with the mark of an embedded text.
-/
import AccessRecords.Proofs.Record.Ids
import AccessRecords.Proofs.Service.Documents
import AccessRecords.Proofs.Service.Statuses

namespace AccessRecords

open Json

/-! ## Bodies -/

namespace Endpoint

/-- Two bodies whose values are one object but for its id, which one of them has and the other lacks,
describe the same under a key that the id does not contradict. -/
theorem readBody_of_id {shape : Shape} {key id : String} {inc inc' : Incoming}
    {before after : List (String × Value)} (hs : shape ≠ .raw) (hm : ∀ m ∈ before ++ after, m.1 ≠ "id")
    (hv : Value.parse inc.body = .ok (.object (before ++ after)))
    (hv' : Value.parse inc'.body = .ok (.object (before ++ ("id", .text id) :: after)))
    (hid : id = "" ∨ id = key) : readBody shape key inc' = readBody shape key inc := by
  unfold readBody Record.ofBody
  rw [hv, hv']
  dsimp only [Except.mapError, bind, Except.bind]
  rw [Record.ofValue_object_append hs fun m h => hm m (List.mem_append_right _ h)]
  cases hr : Record.ofValue shape (.object (before ++ after)) with
  | error fault => rfl
  | ok record =>
    -- without the member the id is empty, which no key contradicts, and so the key is filled in for both
    have hne : record.shape ≠ .raw := Record.shape_of_ofValue hr ▸ hs
    have hempty : record.id? = some "" := Record.id?_of_ofValue_object hs hm hr
    show keyed key (record.withId id) = keyed key record
    rw [keyed_of_id, keyed_of_id, Record.withId_withId]
    · rintro id' hid'
      exact .inl (Option.some.inj (hid'.symm.trans hempty))
    · rintro id' hid'
      rw [Record.id?_withId hne] at hid'
      exact Option.some.inj hid' ▸ hid

end Endpoint

namespace Service

/-! ## Ways to a record -/

/-- A way on which upserts come in: to one collection, or to any collection of a namespace. -/
inductive Route where
  | fixed (collection : String)
  | generic (ns : String)

namespace Route

/-- The endpoint at the end of the way. -/
def endpoint : Route → Endpoint
  | .fixed collection => .fixed collection
  | .generic ns => .generic ns

/-- The path parameter that has the key. -/
def keyParam : Route → String
  | .fixed _ => "id"
  | .generic _ => "key"

/-- The path parameters name the collection. -/
def Names (inc : Incoming) (c : String) : Route → Prop
  | .fixed collection => c = collection
  | .generic ns => inc.trimmed "name" ≠ "" ∧ '/' ∉ (inc.trimmed "name").toList ∧
      c = Collection.name ns (inc.trimmed "name")

variable {route : Route} {ctx : Context} {inc : Incoming} {c : String} {u : UpsertRequest}
  {body body' : List UInt8}

/-- The collection that the path parameters name. -/
def collection (inc : Incoming) : Route → Except Failure String
  | .fixed collection => .ok collection
  | .generic ns => Endpoint.collectionOf ns inc

theorem collection_eq_ok : route.collection inc = .ok c ↔ route.Names inc c := by
  cases route with
  | fixed collection =>
    show Except.ok collection = .ok c ↔ c = collection
    rw [Except.ok.injEq, eq_comm]
  | generic ns =>
    show Endpoint.collectionOf ns inc = .ok c ↔ _
    rw [Endpoint.collectionOf_eq_ok, Incoming.param_eq]
    constructor
    · rintro ⟨n, hn, hs, rfl⟩
      split_ifs at hn with h0
      cases hn
      exact ⟨h0, hs, rfl⟩
    · rintro ⟨h0, hs, rfl⟩
      exact ⟨_, if_neg h0, hs, rfl⟩

theorem upsert_endpoint (route : Route) (ctx : Context) (inc : Incoming) : route.endpoint.upsert ctx inc =
    (do let c ← route.collection inc
        let key ← inc.param route.keyParam
        let record ← Endpoint.readBody (Collection.shape c) key inc
        return ⟨c, key, record⟩) := by
  cases route <;> rfl

/-- An upsert resolves to what its body describes under the collection and the key that its path names. -/
theorem upsert_eq_ok : route.endpoint.upsert ctx inc = .ok u ↔
    route.Names inc u.collection ∧ u.key = inc.trimmed route.keyParam ∧ u.key ≠ "" ∧
      Endpoint.readBody (Collection.shape u.collection) u.key inc = .ok u.record := by
  rw [upsert_endpoint, Except.bind_eq_ok]
  simp only [Except.bind_eq_ok, collection_eq_ok, Incoming.param_eq]
  constructor
  · rintro ⟨c, hn, key, hk, record, hr, h⟩
    split_ifs at hk with h0
    cases hk
    cases h
    exact ⟨hn, rfl, h0, hr⟩
  · rintro ⟨hn, hk, h0, hr⟩
    exact ⟨u.collection, hn, u.key, by rw [if_neg (hk ▸ h0), hk], u.record, hr, rfl⟩

/-- With a collection and a key there is nothing but the body that can be refused. -/
theorem readBody_of_upsert {f : Failure} (hn : route.Names inc c) (hk : inc.trimmed route.keyParam ≠ "")
    (h : route.endpoint.upsert ctx inc = .error f) :
    Endpoint.readBody (Collection.shape c) (inc.trimmed route.keyParam) inc = .error f := by
  rw [upsert_endpoint, collection_eq_ok.2 hn, Incoming.param_eq, if_neg hk] at h
  rcases Except.bind_eq_error.1 h with h | ⟨c', hc, h⟩
  · cases h
  · cases hc
    rcases Except.bind_eq_error.1 h with h | ⟨key, he, h⟩
    · cases h
    · cases he
      rcases Except.bind_eq_error.1 h with h | ⟨record, -, h⟩
      · exact h
      · cases h

/-- Upserts that differ only in their bodies resolve alike if the bodies are read alike. -/
theorem upsert_congr (h : ∀ c, route.Names inc c →
      Endpoint.readBody (Collection.shape c) (inc.trimmed route.keyParam) { inc with body := body' } =
        Endpoint.readBody (Collection.shape c) (inc.trimmed route.keyParam) { inc with body }) :
    route.endpoint.upsert ctx { inc with body := body' } = route.endpoint.upsert ctx { inc with body } := by
  -- the collection and the key are found before the body is looked at
  have hcollection : ∀ body, route.collection { inc with body } = route.collection inc := by
    intro body
    cases route <;> rfl
  have hparam : ∀ body, Incoming.param { inc with body } route.keyParam = inc.param route.keyParam :=
    fun body => rfl
  rw [upsert_endpoint, upsert_endpoint, hcollection body, hcollection body', hparam body, hparam body',
    Incoming.param_eq]
  cases hc : route.collection inc with
  | error f => rfl
  | ok c =>
    split_ifs
    · rfl
    · dsimp only [bind, Except.bind]
      rw [h c (collection_eq_ok.1 hc)]

/-! ## The main statement -/

/-- How an upsert on a way brings the id of the path and that of the body together. -/
structure Reconciles (route : Route) (ctx : Context) : Prop where
  /-- An upsert resolves exactly if the path names a collection and a key and the body is the text of a
  value that describes a record with no other id; and then to this record with the key as its id. -/
  resolves : ∀ inc u, route.endpoint.upsert ctx inc = .ok u ↔
    route.Names inc u.collection ∧ u.key = inc.trimmed route.keyParam ∧ u.key ≠ "" ∧
      ∃ v record, Value.parse inc.body = .ok v ∧
        Record.ofValue (Collection.shape u.collection) v = .ok record ∧
        (∀ id, record.id? = some id → id = "" ∨ id = u.key) ∧ u.record = record.withId u.key
  /-- A document of any form is taken as it is read, whatever id may be in it. -/
  takes : ∀ inc c v, route.Names inc c → inc.trimmed route.keyParam ≠ "" → Collection.shape c = .raw →
    Value.parse inc.body = .ok v →
      route.endpoint.upsert ctx inc = .ok ⟨c, inc.trimmed route.keyParam, .raw v⟩
  /-- With a collection and a key only the body can be to blame, and the failure says for what. -/
  refuses : ∀ inc c f, route.Names inc c → inc.trimmed route.keyParam ≠ "" →
    route.endpoint.upsert ctx inc = .error f →
      Endpoint.Rejects (Collection.shape c) (inc.trimmed route.keyParam) inc.body f ∧
        f.kind = .userInput ∧ (f.code = "invalid_body" ∨ f.code = "id_mismatch")
  /-- An object that describes a role or a policy does the same without an id, with an empty one, and with
  the key as its id, wherever the id stands. -/
  agrees : ∀ inc body body' before after id, (∀ c, route.Names inc c → Collection.shape c ≠ .raw) →
    (∀ m ∈ before ++ after, m.1 ≠ "id") → (id = "" ∨ id = inc.trimmed route.keyParam) →
    Value.parse body = .ok (.object (before ++ after)) →
    Value.parse body' = .ok (.object (before ++ ("id", .text id) :: after)) →
      ∀ s, outcome route.endpoint .upsert ctx { inc with body := body' } s =
        outcome route.endpoint .upsert ctx { inc with body } s
  /-- The same of the texts of objects, in any order of their members, if the object does not begin with
  the mark of an embedded text. -/
  agreesPrinted : ∀ inc before after id, (∀ c, route.Names inc c → Collection.shape c ≠ .raw) →
    (∀ m ∈ before ++ after, m.1 ≠ "id" ∧ m.2.Fits 126) →
    (∀ m, (before ++ after).head? = some m → m.1 ≠ Value.embeddingKey) →
    (id = "" ∨ id = inc.trimmed route.keyParam) →
      let sent (members : List (String × Value)) : Incoming :=
        { inc with body := Text.Utf8.encode (Value.object members).print }
      ∀ s, outcome route.endpoint .upsert ctx (sent (before ++ ("id", .text id) :: after)) s =
        outcome route.endpoint .upsert ctx (sent (before ++ after)) s

theorem outcome_of_id {before after : List (String × Value)} {id : String}
    (hs : ∀ c, route.Names inc c → Collection.shape c ≠ .raw) (hm : ∀ m ∈ before ++ after, m.1 ≠ "id")
    (hid : id = "" ∨ id = inc.trimmed route.keyParam)
    (hv : Value.parse body = .ok (.object (before ++ after)))
    (hv' : Value.parse body' = .ok (.object (before ++ ("id", .text id) :: after))) (s : Store) :
    outcome route.endpoint .upsert ctx { inc with body := body' } s =
      outcome route.endpoint .upsert ctx { inc with body } s := by
  have he : route.endpoint.upsert ctx { inc with body := body' } = route.endpoint.upsert ctx { inc with body } :=
    upsert_congr fun c hn => Endpoint.readBody_of_id (hs c hn) hm hv hv' hid
  rw [outcome_upsert, outcome_upsert, he]

/-- The text of an object with the id among other members is read as the object that is read without the
id, with the id in its place. -/
theorem exists_parse_print {before after : List (String × Value)}
    (hm : ∀ m ∈ before ++ after, m.1 ≠ "id" ∧ m.2.Fits 126)
    (hk : ∀ m, (before ++ after).head? = some m → m.1 ≠ Value.embeddingKey) (id : String) :
    ∃ before' after', (∀ m ∈ before' ++ after', m.1 ≠ "id") ∧
      Value.parse (Text.Utf8.encode (Value.object (before ++ after)).print) = .ok (.object (before' ++ after')) ∧
      Value.parse (Text.Utf8.encode (Value.object (before ++ ("id", .text id) :: after)).print) =
        .ok (.object (before' ++ ("id", .text id) :: after')) := by
  obtain ⟨before', after', hl, hne, hi⟩ := Entries.exists_insertAll_eq fun m h => (hm m h).1
  refine ⟨before', after', hne, ?_, ?_⟩
  · rw [Value.parse_print_object hk fun m h => (hm m h).2, hl]
  · rw [Value.parse_print_object, hi]
    · -- the first member is the one that was first before, or the id, which is no mark
      intro m h
      cases before with
      | nil =>
        cases h
        exact (by decide : "id" ≠ Value.embeddingKey)
      | cons m' before => exact hk m h
    · intro m h
      rcases List.mem_append.1 h with h | h
      · exact (hm m (List.mem_append_left _ h)).2
      · rcases List.mem_cons.1 h with rfl | h
        · exact Value.fits_text id 126
        · exact (hm m (List.mem_append_right _ h)).2

/-- On every way the id of the path and that of the body are brought together. -/
theorem reconciles (route : Route) (ctx : Context) : route.Reconciles ctx where
  resolves inc u := by
    rw [upsert_eq_ok, Endpoint.readBody_eq_ok]
  takes inc c v hn hk hs hv := by
    refine upsert_eq_ok.2 ⟨hn, rfl, hk, Endpoint.readBody_eq_ok.2 ⟨v, .raw v, hv, ?_, nofun, rfl⟩⟩
    rw [hs]
    rfl
  refuses inc c f hn hk h := by
    have hr := readBody_of_upsert hn hk h
    obtain ⟨hkind, hcode⟩ := Endpoint.refuses_of_readBody hr
    exact ⟨Endpoint.rejects_of_readBody hr, hkind, by simpa using hcode⟩
  agrees inc body body' before after id hs hm hid hv hv' s := outcome_of_id hs hm hid hv hv' s
  agreesPrinted inc before after id hs hm hk hid := by
    intro sent s
    obtain ⟨before', after', hne, hv, hv'⟩ := exists_parse_print hm hk id
    exact outcome_of_id hs hne hid hv hv' s

/-- An object that begins with a mark is read as what its text says, unless the id of the path, put before
the mark, makes it one that says nothing. -/
theorem marked_body_not_reconciled :
    let marked : List (String × Value) := [(Value.embeddingKey, .text "\x7b\"members\":[\"a\"]\x7d")]
    let put (members : List (String × Value)) : Except Failure Reply × Store :=
      outcome (.fixed "t/roles") .upsert {}
        { params := .ofList [("id", "r")], body := Text.Utf8.encode (Value.object members).print } ∅
    Answered (put (("id", .text "r") :: marked)).1 "\x7b\"id\":\"r\",\"members\":[]\x7d" ∧
      Answered (put marked).1 "\x7b\"id\":\"r\",\"members\":[\"a\"]\x7d" ∧
      (put (("id", .text "r") :: marked)).1 ≠ (put marked).1 := by
  intro marked put
  have hfirst : Answered (put (("id", .text "r") :: marked)).1 "\x7b\"id\":\"r\",\"members\":[]\x7d" := by
    decide +kernel
  have hmarked : Answered (put marked).1 "\x7b\"id\":\"r\",\"members\":[\"a\"]\x7d" := by
    decide +kernel
  refine ⟨hfirst, hmarked, fun h => ?_⟩
  rw [h] at hfirst
  exact (by decide : "\x7b\"id\":\"r\",\"members\":[\"a\"]\x7d" ≠ "\x7b\"id\":\"r\",\"members\":[]\x7d")
    (hmarked.2.symm.trans hfirst.2)

end Route

end Service

end AccessRecords
