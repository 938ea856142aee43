/-
Counting what a seed file loads. Putting items into a collection adds their keys to those that are
there, so a collection that was empty has as many documents as the items have keys. Main statement: the
number that loading into the empty store gives is the number of the documents that are there afterwards
exactly if no two roles of the file have one id and no two policies have one.
-/
import AccessRecords.Proofs.Record.RoundTrip
import AccessRecords.Proofs.Store.Loading

namespace AccessRecords

open Json

/-- No two roles of the seed have one id, and no two of its policies have one. -/
def Seed.Distinct (seed : Seed) : Prop := (seed.roles.map Role.id).Nodup ∧ (seed.policies.map Policy.id).Nodup

instance (seed : Seed) : Decidable seed.Distinct :=
  inferInstanceAs (Decidable ((seed.roles.map Role.id).Nodup ∧ (seed.policies.map Policy.id).Nodup))

namespace Store

variable {s : Store} {ns c k : String} {d : Value}

/-! ## Keys after changes -/

@[simp] theorem keys_empty : (∅ : Store).keys c = ∅ := rfl

theorem keys_insert : (s.insert c k d).keys c = {k} ∪ s.keys c := by
  ext k'
  rw [mem_keys, Finset.mem_union, Finset.mem_singleton, mem_keys]
  by_cases hk : k' = k
  · simp [get?_insert, hk]
  · simp [get?_insert, hk]

/-- Items that are put into a collection add their keys to those that are there. -/
theorem keys_foldl_insert {α : Type} (key : α → String) (document : α → Value) (l : List α) :
    (l.foldl (fun s a => s.insert c (key a) (document a)) s).keys c = s.keys c ∪ (l.map key).toFinset := by
  induction l generalizing s with
  | nil => simp
  | cons a l ih =>
    rw [List.foldl_cons, ih, keys_insert, List.map_cons, List.toFinset_cons, Finset.insert_eq, Finset.union_comm {key a},
      Finset.union_assoc]

/-- Items that are put into one collection leave the keys of every other as they are. -/
theorem keys_foldl_insert_of_ne {α : Type} {c' : String} (key : α → String) (document : α → Value) (l : List α)
    (h : c' ≠ c) : (l.foldl (fun s a => s.insert c (key a) (document a)) s).keys c' = s.keys c' := by
  ext k'
  rw [mem_keys, mem_keys, get?_foldl_insert, if_neg h]

/-! ## Seeds -/

theorem keys_insertSeed_roles (s : Store) (ns : String) (seed : Seed) :
    (s.insertSeed ns seed).keys (Collection.roles ns) =
      s.keys (Collection.roles ns) ∪ (seed.roles.map Role.id).toFinset := by
  unfold insertSeed insertPolicies
  rw [keys_foldl_insert_of_ne Policy.id Policy.toValue seed.policies roles_ne_policies.symm]
  exact keys_foldl_insert Role.id Role.toValue seed.roles

theorem keys_insertSeed_policies (s : Store) (ns : String) (seed : Seed) :
    (s.insertSeed ns seed).keys (Collection.policies ns) =
      s.keys (Collection.policies ns) ∪ (seed.policies.map Policy.id).toFinset := by
  unfold insertSeed insertPolicies insertRoles
  rw [keys_foldl_insert Policy.id Policy.toValue seed.policies,
    keys_foldl_insert_of_ne Role.id Role.toValue seed.roles roles_ne_policies]

/-! ## Items with different keys -/

section Items

variable {α : Type} {key : α → String} {l : List α}

theorem card_ids_le (key : α → String) (l : List α) : (l.map key).toFinset.card ≤ l.length := by
  rw [← List.length_map key]
  exact List.toFinset_card_le _

theorem card_ids_eq_iff (key : α → String) (l : List α) :
    (l.map key).toFinset.card = l.length ↔ (l.map key).Nodup := by
  rw [← List.length_map key]
  exact Multiset.toFinset_card_eq_card_iff_nodup (m := (l.map key : Multiset String))

/-- Where no key occurs twice, every item is the last with its key. -/
theorem last_of_nodup (h : (l.map key).Nodup) {a : α} (ha : a ∈ l) : Last key l a := by
  obtain ⟨before, after, rfl⟩ := List.append_of_mem ha
  refine ⟨before, after, rfl, fun a' ha' he => ?_⟩
  rw [List.map_append, List.map_cons, List.nodup_append, List.nodup_cons] at h
  apply h.2.1.1
  rw [← he]
  exact List.mem_map_of_mem ha'

end Items

/-! ## The main statement -/

/-- Loading a file into the empty store gives the number of its records. Afterwards the collections of
the namespace have one document for each id among the roles, and one for each among the policies. These
are as many as the number says exactly if no two roles have one id and no two policies have one, and
fewer otherwise; and if no two have, every record of the file is found under its id. -/
theorem load_counts_documents {file : Seed.File} {n : Nat} (h : (load ns file).runOn ∅ = (.ok n, s)) :
    ∃ seed, Seed.ofFile file = .ok seed ∧ n = seed.roles.length + seed.policies.length ∧
      s.length (Collection.roles ns) = (seed.roles.map Role.id).toFinset.card ∧
      s.length (Collection.policies ns) = (seed.policies.map Policy.id).toFinset.card ∧
      s.length (Collection.roles ns) + s.length (Collection.policies ns) ≤ n ∧
      (s.length (Collection.roles ns) + s.length (Collection.policies ns) = n ↔ seed.Distinct) ∧
      (seed.Distinct → (∀ r ∈ seed.roles, s.get? (Collection.roles ns) r.id = some r.toValue) ∧
        ∀ p ∈ seed.policies, s.get? (Collection.policies ns) p.id = some p.toValue) := by
  rw [load_runOn] at h
  cases hs : Seed.ofFile file with
  | error f =>
    rw [hs] at h
    cases h
  | ok seed =>
    rw [hs] at h
    cases h
    have hroles : (insertSeed ∅ ns seed).length (Collection.roles ns) = (seed.roles.map Role.id).toFinset.card := by
      rw [← card_keys, keys_insertSeed_roles, keys_empty, Finset.empty_union]
    have hpolicies : (insertSeed ∅ ns seed).length (Collection.policies ns) =
        (seed.policies.map Policy.id).toFinset.card := by
      rw [← card_keys, keys_insertSeed_policies, keys_empty, Finset.empty_union]
    have hr := card_ids_le Role.id seed.roles
    have hp := card_ids_le Policy.id seed.policies
    refine ⟨seed, rfl, rfl, hroles, hpolicies, ?_, ?_, ?_⟩
    · unfold Seed.size
      omega
    · -- neither collection has more documents than there are records, so both have as many
      unfold Seed.Distinct Seed.size
      rw [← card_ids_eq_iff, ← card_ids_eq_iff]
      omega
    · rintro ⟨hnr, hnp⟩
      constructor
      · intro r hm
        rw [get?_insertSeed_eq, if_pos rfl, lastWith?_eq_some.2 ⟨last_of_nodup hnr hm, rfl⟩]
        rfl
      · intro p hm
        exact get?_insertSeed (last_of_nodup hnp hm)

/-- A role and a policy with one id are two documents. -/
theorem load_counts_documents_shared_id :
    let seed : Seed := { roles := [{ id := "a", members := ["x"] }], policies := [{ id := "a" }] }
    let file : Seed.File := ⟨"seed.json", .ok (Text.Utf8.encode seed.print)⟩
    let s := (∅ : Store).insertSeed "t" seed
    (load "t" file).runOn ∅ = (.ok 2, s) ∧ seed.Distinct ∧
      s.length (Collection.roles "t") + s.length (Collection.policies "t") = 2 := by
  intro seed file s
  have hfits : ∀ p ∈ seed.policies, p.conditions.Fits 124 := by
    intro p hp
    obtain rfl := List.mem_singleton.1 hp
    exact .object .nil (by simp) (by simp)
  have hfile : Seed.ofFile file = .ok seed :=
    Seed.ofFile_of_not_nameless (Seed.parse_print hfits) (by decide)
  have h : (load "t" file).runOn ∅ = (.ok 2, s) := by
    rw [load_runOn, hfile]
    rfl
  have hdistinct : seed.Distinct := by decide
  obtain ⟨seed', hs, -, -, -, -, hiff, -⟩ := load_counts_documents h
  obtain rfl : seed = seed' := Except.ok.inj (hfile.symm.trans hs)
  exact ⟨h, hdistinct, hiff.2 hdistinct⟩

/-- A seed file with two roles that have one id, of which the first has a member. -/
def repeatedRoleFile : Seed.File where
  path := "seed.json"
  contents := .ok (Text.Utf8.encode
    "\x7b\"roles\":[\x7b\"id\":\"a\",\"members\":[\"x\"]\x7d,\x7b\"id\":\"a\"\x7d]\x7d")

/-- Two records are loaded, and the second is the only document that is there. -/
theorem repeated_role_counted_twice :
    let loaded := (load "t" repeatedRoleFile).runOn ∅
    loaded.1.toOption = some 2 ∧
      loaded.2.length (Collection.roles "t") = 1 ∧ loaded.2.length (Collection.policies "t") = 0 := by
  decide +kernel

end Store

end AccessRecords
