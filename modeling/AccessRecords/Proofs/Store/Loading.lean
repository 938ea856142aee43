/-
Loading a seed file. A file that cannot be read, describes no seed, or describes one with a record
without an id changes nothing; any other file puts the last of its records with one id under that
id, into the two collections of the namespace, and leaves every other document where it is.
-/
import AccessRecords.Proofs.Store.Contents

namespace AccessRecords

open Json

namespace Store

variable {s : Store} {ns c c' k : String}

theorem roles_ne_policies : Collection.policies ns ≠ Collection.roles ns := by
  unfold Collection.policies Collection.roles
  intro h
  have he := ((Collection.name_inj (by decide) (by decide)).1 h).2
  exact absurd he (by decide)

/-- What a look-up gives after a seed has been put in. -/
theorem get?_insertSeed_eq (s : Store) (ns : String) (seed : Seed) (c k : String) :
    (s.insertSeed ns seed).get? c k =
      if c = Collection.roles ns then ((lastWith? Role.id k seed.roles).map Role.toValue).or (s.get? c k)
      else if c = Collection.policies ns then
        ((lastWith? Policy.id k seed.policies).map Policy.toValue).or (s.get? c k)
      else s.get? c k := by
  unfold insertSeed insertPolicies insertRoles
  rw [get?_foldl_insert, get?_foldl_insert]
  by_cases hp : c = Collection.policies ns
  · subst hp
    simp [roles_ne_policies]
  · simp [hp]

end Store

/-! ## Seeds that cannot be loaded -/

namespace Seed

/-- Some record of the seed has no id. -/
def Nameless (seed : Seed) : Prop := (∃ r ∈ seed.roles, r.id = "") ∨ ∃ p ∈ seed.policies, p.id = ""

instance (seed : Seed) : Decidable seed.Nameless :=
  inferInstanceAs (Decidable ((∃ r ∈ seed.roles, r.id = "") ∨ ∃ p ∈ seed.policies, p.id = ""))

theorem validate_of_nameless {seed : Seed} (h : seed.Nameless) :
    ∃ message, seed.validate = .error (invalid message) := by
  cases hv : seed.validate with
  | ok u =>
    obtain ⟨hr, hp⟩ := validate_eq_ok hv
    rcases h with ⟨r, hm, he⟩ | ⟨p, hm, he⟩
    · exact absurd he (hr r hm)
    · exact absurd he (hp p hm)
  | error f =>
    unfold validate at hv
    split at hv
    · exact ⟨_, hv.symm⟩
    · split_ifs at hv
      exact ⟨_, hv.symm⟩

theorem validate_of_not_nameless {seed : Seed} (h : ¬ seed.Nameless) : seed.validate = .ok () := by
  have hr : seed.roles.find? (·.id.isEmpty) = none := by
    rw [List.find?_eq_none]
    intro r hm he
    exact h (.inl ⟨r, hm, String.isEmpty_iff.1 he⟩)
  have hp : seed.policies.any (·.id.isEmpty) = false := by
    rw [List.any_eq_false]
    intro p hm he
    exact h (.inr ⟨p, hm, String.isEmpty_iff.1 he⟩)
  unfold validate
  rw [hr, hp]
  rfl

section File

variable {path : String} {bytes : List UInt8} {seed : Seed}

theorem ofFile_of_fault {fault : Fault} (h : schema.decoder.parse bytes = .error fault) :
    ofFile ⟨path, .ok bytes⟩ = .error (.serialization fault) := by
  show ofBytes bytes = _
  unfold ofBytes parse
  rw [h]
  rfl

theorem ofFile_of_nameless (path : String) (hp : schema.decoder.parse bytes = .ok seed) (h : seed.Nameless) :
    ∃ message, ofFile ⟨path, .ok bytes⟩ = .error (invalid message) := by
  obtain ⟨message, hv⟩ := validate_of_nameless h
  refine ⟨message, ?_⟩
  show ofBytes bytes = _
  unfold ofBytes parse
  rw [hp]
  show (seed.validate >>= fun _ => pure seed) = _
  rw [hv]
  rfl

theorem ofFile_of_not_nameless (hp : schema.decoder.parse bytes = .ok seed) (h : ¬ seed.Nameless) :
    ofFile ⟨path, .ok bytes⟩ = .ok seed := by
  show ofBytes bytes = _
  unfold ofBytes parse
  rw [hp]
  show (seed.validate >>= fun _ => pure seed) = _
  rw [validate_of_not_nameless h]
  rfl

end File

end Seed

/-! ## Loading -/

namespace Store

theorem load_runOn (s : Store) (ns : String) (file : Seed.File) :
    (load ns file).runOn s =
      match Seed.ofFile file with
      | .ok seed => (.ok seed.size, s.insertSeed ns seed)
      | .error f => (.error f, s) := by
  unfold load
  rw [Action.runOn_bind, Action.runOn_ofExcept]
  cases Seed.ofFile file <;> rfl

/-- Loading is all or nothing. A file that cannot be read or that describes no seed is a failure of the
backend, a seed with a record without an id one of the user, and the store stays as it is. Otherwise
the last record with an id is found under that id in the collection of its kind, and everything else is
as it was. -/
theorem load_all_or_nothing (s : Store) (ns : String) (file : Seed.File) :
    let (reply, s') := (load ns file).runOn s
    match file.contents with
    | .error reason => reply = .error (Seed.unreadable file.path reason) ∧ s' = s
    | .ok bytes =>
      match Seed.schema.decoder.parse bytes with
      | .error fault => reply = .error ⟨.backend, "serialization", fault.message⟩ ∧ s' = s
      | .ok seed =>
        if seed.Nameless then
          (∃ message, reply = .error ⟨.userInput, "invalid_seed", message⟩) ∧ s' = s
        else
          reply = .ok (seed.roles.length + seed.policies.length) ∧
          ∀ c k, s'.get? c k =
            if c = Collection.roles ns then
              ((lastWith? Role.id k seed.roles).map Role.toValue).or (s.get? c k)
            else if c = Collection.policies ns then
              ((lastWith? Policy.id k seed.policies).map Policy.toValue).or (s.get? c k)
            else s.get? c k := by
  obtain ⟨path, contents⟩ := file
  rw [load_runOn]
  cases contents with
  | error reason => exact ⟨rfl, rfl⟩
  | ok bytes =>
    cases hp : Seed.schema.decoder.parse bytes with
    | error fault =>
      rw [Seed.ofFile_of_fault hp]
      simp only [hp]
      exact ⟨rfl, trivial⟩
    | ok seed =>
      by_cases h : seed.Nameless
      · obtain ⟨message, hf⟩ := Seed.ofFile_of_nameless path hp h
        rw [hf]
        simp only [hp, if_pos h]
        exact ⟨⟨message, rfl⟩, trivial⟩
      · rw [Seed.ofFile_of_not_nameless hp h]
        simp only [hp, if_neg h]
        exact ⟨rfl, get?_insertSeed_eq s ns seed⟩

end Store

end AccessRecords
