/-
Two ways to one collection. A request to the generic endpoint of a namespace that names a collection
is served as a request to the fixed endpoint of that collection is, on every backend: the reply or
the failure is the same, and so is the state afterwards. All that can differ is which parameter is
called missing if there is no key.
-/
import AccessRecords.Proofs.Service.Filing

namespace AccessRecords

/-! ## Collections and keys -/

namespace Endpoint

variable {ns n : String} {ctx : Context} {inc inc' : Incoming}

theorem collectionOf_eq_name (ht : inc.trimmed "name" = n) (hne : n ≠ "") (hs : '/' ∉ n.toList) :
    collectionOf ns inc = .ok (Collection.name ns n) := by
  refine collectionOf_eq_ok.2 ⟨n, ?_, hs, rfl⟩
  rw [Incoming.param_eq, ht, if_neg hne]

/-- With a key both endpoints resolve to the same request or refuse the same body. -/
theorem generic_eq_fixed_of_key {c : String} (ctx : Context) (hc : collectionOf ns inc = .ok c)
    (hk : inc.trimmed "key" = inc'.trimmed "id") (hi : inc'.trimmed "id" ≠ "") (hb : inc.body = inc'.body) :
    (generic ns).get ctx inc = (fixed c).get ctx inc' ∧
    (generic ns).delete ctx inc = (fixed c).delete ctx inc' ∧
    (generic ns).upsert ctx inc = (fixed c).upsert ctx inc' := by
  have hparam : inc.param "key" = inc'.param "id" := by
    rw [Incoming.param_eq, Incoming.param_eq, hk, if_neg hi, if_neg hi]
  have hbody : ∀ shape key, readBody shape key inc = readBody shape key inc' := by
    intro shape key
    unfold readBody
    rw [hb]
  simp only [generic, fixed, hc, hparam, hbody]
  exact ⟨rfl, rfl, rfl⟩

end Endpoint

namespace Service

section Backend

variable {σ : Type} (b : Backend σ) {ns c n : String} {ctx : Context} {inc inc' : Incoming} {operation : Operation}

/-! ## Requests without a key -/

theorem target_generic_of_no_key (ho : operation ≠ .list) (hc : Endpoint.collectionOf ns inc = .ok c)
    (hk : inc.trimmed "key" = "") :
    target (.generic ns) operation ctx inc = .error (Incoming.missingParam "key") := by
  have hparam : inc.param "key" = .error (Incoming.missingParam "key") := by
    rw [Incoming.param_eq, if_pos hk]
  cases operation with
  | list => exact absurd rfl ho
  | get | delete | upsert =>
    simp only [target, Endpoint.generic, hc, hparam]
    rfl

theorem target_fixed_of_no_key (ho : operation ≠ .list) (hi : inc.trimmed "id" = "") :
    target (.fixed c) operation ctx inc = .error (Incoming.missingParam "id") := by
  have hparam : inc.param "id" = .error (Incoming.missingParam "id") := by
    rw [Incoming.param_eq, if_pos hi]
  cases operation with
  | list => exact absurd rfl ho
  | get | delete | upsert =>
    simp only [target, Endpoint.fixed, hparam]
    rfl

/-! ## The main statement -/

/-- A request to the generic endpoint that names a collection, and one to the fixed endpoint of that
collection with the same key, query and body: without a key both fail, each calling its own parameter
missing, and leave the state as it is; otherwise, and for lists always, they give the same reply or
failure and leave the same state. The endpoints of `roles` and `policies` are two of these. -/
theorem generic_agrees_with_fixed (ns : String) (hname : inc.trimmed "name" = n) (hne : n ≠ "")
    (hs : '/' ∉ n.toList) (hkey : inc.params.get? "key" = inc'.params.get? "id")
    (hquery : inc.query = inc'.query) (hbody : inc.body = inc'.body) (operation : Operation) (ctx : Context)
    (s : σ) :
    if operation ≠ .list ∧ inc'.trimmed "id" = "" then
      (run b (.generic ns) operation ctx inc).runOn s = (.error (Incoming.missingParam "key"), s) ∧
      (run b (.fixed (Collection.name ns n)) operation ctx inc').runOn s =
        (.error (Incoming.missingParam "id"), s)
    else
      (run b (.generic ns) operation ctx inc).runOn s =
        (run b (.fixed (Collection.name ns n)) operation ctx inc').runOn s := by
  have hc : Endpoint.collectionOf ns inc = .ok (Collection.name ns n) :=
    Endpoint.collectionOf_eq_name hname hne hs
  have hk : inc.trimmed "key" = inc'.trimmed "id" := by
    unfold Incoming.trimmed
    rw [hkey]
  split_ifs with hblank
  · obtain ⟨ho, hi⟩ := hblank
    constructor
    · exact run_of_target_eq_error b (target_generic_of_no_key ho hc (hk.trans hi)) s
    · exact run_of_target_eq_error b (target_fixed_of_no_key ho hi) s
  · by_cases ho : operation = .list
    · -- a list has no key: the collection and the query are all that it looks at
      subst ho
      have hlist : (Endpoint.generic ns).list ctx inc = (Endpoint.fixed (Collection.name ns n)).list ctx inc' := by
        simp only [Endpoint.generic, Endpoint.fixed, hc]
        rfl
      simp only [run, list, hlist, hquery]
    · have hi : inc'.trimmed "id" ≠ "" := fun h => hblank ⟨ho, h⟩
      obtain ⟨hget, hdelete, hupsert⟩ := Endpoint.generic_eq_fixed_of_key ctx hc hk hi hbody
      cases operation with
      | get => simp only [run, get, hget]
      | delete => simp only [run, delete, hdelete]
      | upsert => simp only [run, upsert, hupsert]
      | list => exact absurd rfl ho

end Backend

/-- A policy written under blanks around the name and the key, by a body with another id: both endpoints
refuse it alike. -/
theorem generic_agrees_with_fixed_policies :
    let inc : Incoming :=
      { params := .ofList [("name", "\tpolicies "), ("key", " p")], body := Text.Utf8.encode "\x7b\"id\":\"q\"\x7d" }
    let inc' : Incoming := { params := .ofList [("id", " p")], body := Text.Utf8.encode "\x7b\"id\":\"q\"\x7d" }
    inc.trimmed "name" = "policies" ∧ inc.params.get? "key" = inc'.params.get? "id" ∧
      inc'.trimmed "id" = "p" ∧
      (run Store.backend (.generic "t") .upsert {} inc).runOn ∅ =
        (run Store.backend (Family.policies.endpoint "t") .upsert {} inc').runOn ∅ ∧
      ((run Store.backend (Family.policies.endpoint "t") .upsert {} inc').runOn ∅).1 =
        .error (Endpoint.idMismatch "q" "p") := by
  intro inc inc'
  have hname : inc.trimmed "name" = "policies" := by decide +kernel
  have hkey : inc.params.get? "key" = inc'.params.get? "id" := by decide +kernel
  have hid : inc'.trimmed "id" = "p" := by decide +kernel
  have h := generic_agrees_with_fixed Store.backend "t" hname (by decide) (by decide) hkey rfl rfl .upsert {} ∅
  rw [if_neg (by rw [hid]; decide)] at h
  refine ⟨hname, hkey, hid, h, ?_⟩
  with_unfolding_all rfl

end Service

end AccessRecords
