/-
Namespaces that share a store do not see each other. No collection belongs to two namespaces, so in
any interleaving of requests those of one namespace can be left out: every reply to another
namespace stays the same, and so do the documents of all collections that it can address.
-/
import AccessRecords.Proofs.Service.Request

namespace AccessRecords.Service

/-! ## Addressable collections -/

/-- Some request to the namespace is about the collection. -/
def Addresses (ns c : String) : Prop := ∃ r : Request, r.target ns = .ok c

theorem addresses_name {ns c : String} (h : Addresses ns c) : ∃ n, '/' ∉ n.toList ∧ c = Collection.name ns n := by
  obtain ⟨r, hr⟩ := h
  exact Request.target_eq_ok hr

/-- No collection belongs to two namespaces. -/
theorem Addresses.not_of_ne {a b c : String} (h : Addresses a c) (hab : a ≠ b) : ¬ Addresses b c := by
  intro hb
  obtain ⟨n, hn, rfl⟩ := addresses_name h
  obtain ⟨n', hn', e⟩ := addresses_name hb
  exact hab ((Collection.name_inj hn hn').1 e).1

/-! ## Interleaved requests -/

/-- Serves requests one after another, each sent to a namespace. Gives the reply to each with the
namespace that it was sent to, and the store that they leave. -/
def serveAll : List (String × Request) → Store → List (String × Except Failure Reply) × Store
  | [], s => ([], s)
  | (ns, r) :: rest, s =>
    let (reply, s) := r.serve ns s
    let (replies, s) := serveAll rest s
    ((ns, reply) :: replies, s)

theorem serveAll_cons (ns : String) (r : Request) (rest : List (String × Request)) (s : Store) :
    serveAll ((ns, r) :: rest) s =
      ((ns, (r.serve ns s).1) :: (serveAll rest (r.serve ns s).2).1, (serveAll rest (r.serve ns s).2).2) :=
  rfl

/-- The replies to the requests that were sent to a namespace, in order. -/
def repliesTo (ns : String) (replies : List (String × Except Failure Reply)) : List (Except Failure Reply) :=
  (replies.filter (·.1 = ns)).map (·.2)

/-- The two stores hold the same documents in every collection that the namespace can address. -/
def Alike (ns : String) (s t : Store) : Prop := ∀ c, Addresses ns c → s.documents c = t.documents c

section Alike

variable {a b ns : String} {r : Request} {s t : Store}

/-- A request to the namespace itself keeps the stores alike, and gets the same reply on both. -/
theorem Alike.serve (h : Alike a s t) :
    (r.serve a s).1 = (r.serve a t).1 ∧ Alike a (r.serve a s).2 (r.serve a t).2 := by
  cases ht : r.target a with
  | error f =>
    rw [Request.serve_of_target_eq_error ht, Request.serve_of_target_eq_error ht]
    exact ⟨rfl, h⟩
  | ok target =>
    obtain ⟨hr, hd⟩ := Request.serve_of_target_eq_ok ht (h target ⟨r, ht⟩)
    refine ⟨hr, fun c hc => ?_⟩
    by_cases hct : target = c
    · exact hct ▸ hd
    · have hne : r.target a ≠ .ok c := fun e => hct (Except.ok.inj (ht.symm.trans e))
      rw [Request.serve_elsewhere hne, Request.serve_elsewhere hne]
      exact h c hc

/-- A request to another namespace changes nothing that this one can address. -/
theorem alike_serve (h : b ≠ a) : Alike a (r.serve b s).2 s :=
  fun _ hc => Request.serve_elsewhere fun hb => hc.not_of_ne h.symm ⟨r, hb⟩

theorem Alike.trans {u : Store} (h : Alike a s t) (h' : Alike a t u) : Alike a s u :=
  fun c hc => (h c hc).trans (h' c hc)

theorem Alike.symm (h : Alike a s t) : Alike a t s := fun c hc => (h c hc).symm

end Alike

theorem repliesTo_cons (a ns : String) (reply : Except Failure Reply)
    (replies : List (String × Except Failure Reply)) :
    repliesTo a ((ns, reply) :: replies) =
      if ns = a then reply :: repliesTo a replies else repliesTo a replies := by
  unfold repliesTo
  rw [List.filter_cons]
  by_cases h : ns = a <;> simp [h]

/-- The requests to another namespace can be left out on one of two stores that are alike. -/
theorem serveAll_alike {a b : String} (hab : a ≠ b) (requests : List (String × Request)) {s t : Store}
    (h : Alike a s t) :
    repliesTo a (serveAll requests s).1 = repliesTo a (serveAll (requests.filter (·.1 ≠ b)) t).1 ∧
      Alike a (serveAll requests s).2 (serveAll (requests.filter (·.1 ≠ b)) t).2 := by
  -- the stores stay alike, request by request, although one of them sees fewer requests
  induction requests generalizing s t with
  | nil => exact ⟨rfl, h⟩
  | cons request rest ih =>
    obtain ⟨ns, r⟩ := request
    by_cases hb : ns = b
    · -- the request is served on one side only
      subst hb
      have hs : Alike a (r.serve ns s).2 t := (alike_serve hab.symm).trans h
      rw [List.filter_cons_of_neg (by simp), serveAll_cons, repliesTo_cons, if_neg hab.symm]
      exact ih hs
    · rw [List.filter_cons_of_pos (by simpa using hb), serveAll_cons, serveAll_cons, repliesTo_cons,
        repliesTo_cons]
      by_cases ha : ns = a
      · -- both sides give this reply
        subst ha
        obtain ⟨hr, hs⟩ := h.serve (r := r)
        obtain ⟨ihr, ihs⟩ := ih hs
        rw [if_pos rfl, if_pos rfl, hr, ihr]
        exact ⟨rfl, ihs⟩
      · -- a third namespace is served on both sides and concerns neither
        have hs : Alike a (r.serve ns s).2 (r.serve ns t).2 :=
          (alike_serve ha).trans (h.trans (alike_serve ha).symm)
        rw [if_neg ha, if_neg ha]
        exact ih hs

/-- Two namespaces that share a store: leaving out the requests to one changes neither a reply to
the other nor a document that the other can address, and none of its collections can be addressed
from both. -/
theorem namespaces_isolated {a b : String} (hab : a ≠ b) (requests : List (String × Request)) (s : Store) :
    repliesTo a (serveAll requests s).1 = repliesTo a (serveAll (requests.filter (·.1 ≠ b)) s).1 ∧
      ∀ c, Addresses a c → ¬ Addresses b c ∧
        (serveAll requests s).2.documents c =
          (serveAll (requests.filter (·.1 ≠ b)) s).2.documents c := by
  obtain ⟨hr, hs⟩ := serveAll_alike hab requests (s := s) fun _ _ => rfl
  exact ⟨hr, fun c hc => ⟨hc.not_of_ne hab, hs c hc⟩⟩

/-- Two namespaces of which one starts with the other and a slash: a role written under the longer
one is not among the documents that the shorter one lists, not even by a name with that slash. -/
theorem namespaces_isolated_prefix :
    let written : Request := ⟨.roles, .upsert, {}, { params := .ofList [("id", "r")], body := [0x7B, 0x7D] }⟩
    let slashed : Request := ⟨.collections, .list, {}, { params := .ofList [("name", "u/roles")] }⟩
    let plain : Request := ⟨.collections, .list, {}, { params := .ofList [("name", "u")] }⟩
    "t" ≠ "t/u" ∧
      repliesTo "t" (serveAll [("t/u", written), ("t", slashed), ("t", plain)] ∅).1 =
        repliesTo "t" (serveAll [("t", slashed), ("t", plain)] ∅).1 ∧
      ¬ Addresses "t/u" "t/u" := by
  intro written slashed plain
  have h := namespaces_isolated (a := "t") (b := "t/u") (by decide)
    [("t/u", written), ("t", slashed), ("t", plain)] ∅
  exact ⟨by decide, h.1, (h.2 "t/u" ⟨plain, rfl⟩).1⟩

end AccessRecords.Service
