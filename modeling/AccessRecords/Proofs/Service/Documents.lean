/-
Documents of any form. A document that is written to a collection without a shape is answered with
and read back as the text that was sent, character by character, and writing that text again changes
nothing; unless an object in it begins with the mark of an embedded text. Then the upsert is refused,
or another document is stored. Main statement: the first for documents without marks, and for no
others.
-/
import AccessRecords.Http
import AccessRecords.Proofs.Json.Verbatim
import AccessRecords.Proofs.Service.Address
import AccessRecords.Proofs.Service.Aliases

namespace AccessRecords

open Json

theorem Store.insert_insert (s : Store) (c k : String) (d d' : Value) :
    (s.insert c k d).insert c k d' = s.insert c k d' := by
  refine Store.ext_get? (fun c' => ?tables) fun c' k' => ?documents
  case tables => rw [Store.hasTable_insert, Store.hasTable_insert, Store.hasTable_insert, or_self_left]
  case documents =>
    rw [Store.get?_insert, Store.get?_insert, Store.get?_insert]
    split_ifs <;> rfl

theorem Endpoint.readBody_raw (key : String) (inc : Incoming) :
    readBody .raw key inc =
      match Value.parse inc.body with
      | .ok w => .ok (.raw w)
      | .error fault => .error (Record.invalidBody ("request body is not valid JSON: " ++ fault.message)) := by
  unfold readBody Record.ofBody
  cases Value.parse inc.body <;> rfl

namespace Service

/-- The answer to what an operation gives. -/
def answerOf : Except Failure Reply → Http.Response
  | .ok reply => .ofReply reply
  | .error f => .ofFailure f

/-- What the operation gives is answered with status 200 and the text. -/
def Answered (outcome : Except Failure Reply) (text : String) : Prop :=
  (answerOf outcome).status = 200 ∧ (answerOf outcome).body = text

instance (outcome : Except Failure Reply) (text : String) : Decidable (Answered outcome text) :=
  inferInstanceAs (Decidable (_ ∧ _))

theorem answered_json {w : Value} {text : String} : Answered (.ok (.json w)) text ↔ w.print = text :=
  and_iff_right rfl

theorem not_answered_error {f : Failure} {text : String} : ¬ Answered (.error f) text := by
  rintro ⟨h, -⟩
  change f.kind.status = 200 at h
  cases hk : f.kind <;> rw [hk] at h <;> cases h

section Raw

variable {ns n : String} {inc : Incoming} {ctx ctx' : Context} {s : Store} {v : Value}

theorem Request.address_collections {operation : Operation} (hname : inc.trimmed "name" = n) (hn : n ≠ "")
    (hs : '/' ∉ n.toList) (hkey : inc.trimmed "key" ≠ "") :
    Request.address ⟨.collections, operation, ctx, inc⟩ ns =
      .ok ⟨Collection.name ns n, inc.trimmed "key"⟩ := by
  have hparam : inc.param "key" = .ok (inc.trimmed "key") := by
    rw [Incoming.param_eq, if_neg hkey]
  unfold Request.address Family.address
  dsimp only
  rw [Endpoint.collectionOf_eq_name hname hn hs, hparam]
  rfl

theorem shape_raw (hs : '/' ∉ n.toList) (hr : n ≠ "roles") (hp : n ≠ "policies") :
    Collection.shape (Collection.name ns n) = .raw := by
  unfold Collection.shape
  rw [Collection.kind_name hs, if_neg hr, if_neg hp]
  rfl

/-- An upsert to a collection without a shape stores what its body reads as, or is refused. -/
theorem serve_upsert_raw (hname : inc.trimmed "name" = n) (hn : n ≠ "") (hs : '/' ∉ n.toList) (hr : n ≠ "roles")
    (hp : n ≠ "policies") (hkey : inc.trimmed "key" ≠ "") (hc : ctx.isCancelled = false) :
    Request.serve ⟨.collections, .upsert, ctx, inc⟩ ns s =
      match Value.parse inc.body with
      | .ok w => (.ok (.json w), s.insert (Collection.name ns n) (inc.trimmed "key") w)
      | .error fault =>
        (.error (Record.invalidBody ("request body is not valid JSON: " ++ fault.message)), s) := by
  rw [Request.serve_upsert rfl hc (Request.address_collections hname hn hs hkey)]
  dsimp only
  rw [shape_raw hs hr hp, Endpoint.readBody_raw]
  cases Value.parse inc.body <;> rfl

theorem serve_get_raw (hname : inc.trimmed "name" = n) (hn : n ≠ "") (hs : '/' ∉ n.toList) (hr : n ≠ "roles")
    (hp : n ≠ "policies") (hkey : inc.trimmed "key" ≠ "") (hc : ctx.isCancelled = false)
    (hd : s.get? (Collection.name ns n) (inc.trimmed "key") = some v) :
    (Request.serve ⟨.collections, .get, ctx, inc⟩ ns s).1 = .ok (.json v) := by
  rw [Request.serve_get rfl hc (Request.address_collections hname hn hs hkey)]
  dsimp only
  rw [hd, shape_raw hs hr hp]
  rfl

/-- A document without doubles that is nested no deeper than a reader allows, sent as its compact text
to a collection without a shape: the upsert is answered with this text exactly if no object in the
document begins with the mark of an embedded text. If none does, a get that follows is answered with
the text, too, and an upsert of what the get is answered with leaves the store as it is. -/
theorem documents_verbatim (hname : inc.trimmed "name" = n) (hn : n ≠ "") (hs : '/' ∉ n.toList) (hr : n ≠ "roles")
    (hp : n ≠ "policies") (hkey : inc.trimmed "key" ≠ "") (hc : ctx.isCancelled = false)
    (hc' : ctx'.isCancelled = false) (hv : v.Canonical) (he : v.isExact = true) (hd : v.depth ≤ Reader.maxDepth)
    (s : Store) :
    let put (text : String) : Request :=
      ⟨.collections, .upsert, ctx, { inc with body := Text.Utf8.encode text }⟩
    let get : Request := ⟨.collections, .get, ctx', inc⟩
    let s' := ((put v.print).serve ns s).2
    (Answered ((put v.print).serve ns s).1 v.print ↔ v.isPlain = true) ∧
    (v.isPlain = true → Answered (get.serve ns s').1 v.print ∧
      ∀ text, Answered (get.serve ns s').1 text → ((put text).serve ns s').2 = s') := by
  intro put get s'
  have hput : ∀ text t, (put text).serve ns t =
      match Value.parse (Text.Utf8.encode text) with
      | .ok w => (.ok (.json w), t.insert (Collection.name ns n) (inc.trimmed "key") w)
      | .error fault =>
        (.error (Record.invalidBody ("request body is not valid JSON: " ++ fault.message)), t) :=
    fun text t => serve_upsert_raw hname hn hs hr hp hkey hc
  constructor
  · rw [hput, ← Value.parse_print_iff hv he hd]
    cases Value.parse (Text.Utf8.encode v.print) with
    | error fault => exact iff_of_false not_answered_error (by rintro ⟨w, hw, -⟩; cases hw)
    | ok w =>
      dsimp only
      rw [answered_json]
      constructor
      · exact fun hprint => ⟨w, rfl, hprint⟩
      · rintro ⟨w', hw, hprint⟩
        cases hw
        exact hprint
  · intro hplain
    have hparse : Value.parse (Text.Utf8.encode v.print) = .ok v :=
      Value.parse_print (Value.fits_of_depth_le hv he hplain hd)
    have hs' : s' = s.insert (Collection.name ns n) (inc.trimmed "key") v := by
      show ((put v.print).serve ns s).2 = _
      rw [hput, hparse]
    have hget : (get.serve ns s').1 = .ok (.json v) := by
      refine serve_get_raw hname hn hs hr hp hkey hc' ?_
      rw [hs', Store.get?_insert, if_pos ⟨rfl, rfl⟩]
    rw [hget]
    refine ⟨answered_json.2 rfl, fun text ht => ?_⟩
    rw [← answered_json.1 ht, hput, hparse, hs']
    exact Store.insert_insert s _ _ v v

end Raw

/-- Every kind of value, with escapes, the largest and the smallest integers and characters of several
bytes. -/
theorem documents_verbatim_nested :
    let v : Value := .object [("", .list [.null, .bool true, .object [], .list []]),
      ("a\n", .list [.int 18446744073709551615, .int (-9223372036854775808)]), ("ü", .text "\"\\😀")]
    let inc : Incoming := { params := .ofList [("name", " docs"), ("key", "k ")] }
    let put (text : String) : Request := ⟨.collections, .upsert, {}, { inc with body := Text.Utf8.encode text }⟩
    let s' := ((put v.print).serve "t" ∅).2
    v.isPlain = true ∧ Answered ((put v.print).serve "t" ∅).1 v.print ∧
      Answered (Request.serve ⟨.collections, .get, {}, inc⟩ "t" s').1 v.print ∧
      ((put v.print).serve "t" s').2 = s' := by
  intro v inc put s'
  have hv : v.Canonical := by
    simp only [v, Value.Canonical, Value.CanonicalItems, Value.CanonicalMembers]
    decide +kernel
  have hplain : v.isPlain = true := by decide
  have hexact : v.isExact = true := by decide
  have hdepth : v.depth ≤ Reader.maxDepth := by decide
  have hname : inc.trimmed "name" = "docs" := by decide +kernel
  have hkey : inc.trimmed "key" ≠ "" := by decide +kernel
  obtain ⟨hiff, hrest⟩ := @documents_verbatim "t" _ _ {} {} _ hname (by decide) (by decide)
    (by decide) (by decide) hkey rfl rfl hv hexact hdepth ∅
  obtain ⟨hget, hagain⟩ := hrest hplain
  exact ⟨hplain, hiff.2 hplain, hget, hagain _ hget⟩

/-- An object that is nothing but a mark is replaced by the number that is written in its text. -/
theorem marked_document_replaced :
    let v : Value := .object [(Value.embeddingKey, .text "1")]
    let inc : Incoming := { params := .ofList [("name", "docs"), ("key", "k")] }
    let put : Request := ⟨.collections, .upsert, {}, { inc with body := Text.Utf8.encode v.print }⟩
    let get : Request := ⟨.collections, .get, {}, inc⟩
    v.Canonical ∧ v.isExact = true ∧ v.depth ≤ Reader.maxDepth ∧
      Answered (put.serve "t" ∅).1 "1" ∧ ¬ Answered (put.serve "t" ∅).1 v.print ∧
      Answered (get.serve "t" (put.serve "t" ∅).2).1 "1" := by
  intro v inc put get
  have hv : v.Canonical := by
    simp only [v, Value.Canonical, Value.CanonicalMembers]
    decide
  exact ⟨hv, by decide, by decide, by decide +kernel, by decide +kernel, by decide +kernel⟩

end Service

end AccessRecords
