/-
Results that may be failures: when a sequence of steps, a conversion or a walk over a list succeeds,
and that a walk fails with the failure of the first item that has one.
-/
import Mathlib.Data.List.Forall2
import Mathlib.Tactic

namespace Except

variable {ε ε' α β : Type}

theorem bind_eq_ok {x : Except ε α} {f : α → Except ε β} {b : β} :
    x >>= f = .ok b ↔ ∃ a, x = .ok a ∧ f a = .ok b := by
  cases x with
  | error e =>
    constructor
    · intro h
      cases h
    · rintro ⟨a, h, -⟩
      cases h
  | ok a =>
    constructor
    · intro h
      exact ⟨a, rfl, h⟩
    · rintro ⟨a', h, hf⟩
      cases h
      exact hf

theorem bind_eq_error {x : Except ε α} {f : α → Except ε β} {e : ε} :
    x >>= f = .error e ↔ x = .error e ∨ ∃ a, x = .ok a ∧ f a = .error e := by
  cases x with
  | error e' =>
    constructor
    · intro h
      cases h
      exact .inl rfl
    · rintro (h | ⟨a, h, -⟩)
      · cases h
        rfl
      · cases h
  | ok a =>
    constructor
    · intro h
      exact .inr ⟨a, rfl, h⟩
    · rintro (h | ⟨a', h, hf⟩)
      · cases h
      · cases h
        exact hf

theorem map_eq_ok {x : Except ε α} {f : α → β} {b : β} : x.map f = .ok b ↔ ∃ a, x = .ok a ∧ f a = b := by
  cases x <;> simp [Except.map]

theorem map_eq_error {x : Except ε α} {f : α → β} {e : ε} : x.map f = .error e ↔ x = .error e := by
  cases x <;> simp [Except.map]

theorem mapError_eq_ok {x : Except ε α} {f : ε → ε'} {a : α} : x.mapError f = .ok a ↔ x = .ok a := by
  cases x <;> simp [Except.mapError]

theorem mapError_eq_error {x : Except ε α} {f : ε → ε'} {e' : ε'} :
    x.mapError f = .error e' ↔ ∃ e, x = .error e ∧ f e = e' := by
  cases x <;> simp [Except.mapError]

/-- What holds of some result holds of the only one there is. -/
theorem exists_ok_and {x : Except ε α} {a : α} (h : x = .ok a) {P : α → Prop} :
    (∃ a', x = .ok a' ∧ P a') ↔ P a := by
  subst h
  constructor
  · rintro ⟨a', h, hp⟩
    cases h
    exact hp
  · exact fun hp => ⟨a, rfl, hp⟩

/-! ## Walks over lists -/

theorem mapM_eq_ok {f : α → Except ε β} {l : List α} {bs : List β} :
    l.mapM f = .ok bs ↔ List.Forall₂ (fun a b => f a = .ok b) l bs := by
  induction l generalizing bs with
  | nil =>
    rw [List.mapM_nil, List.forall₂_nil_left_iff]
    constructor
    · intro h
      cases h
      rfl
    · rintro rfl
      rfl
  | cons a l ih =>
    rw [List.mapM_cons, bind_eq_ok]
    constructor
    · rintro ⟨b, hb, h⟩
      obtain ⟨bs', hbs, h⟩ := bind_eq_ok.1 h
      cases h
      exact .cons hb (ih.1 hbs)
    · intro h
      cases h with
      | cons hb hbs => exact ⟨_, hb, bind_eq_ok.2 ⟨_, ih.2 hbs, rfl⟩⟩

/-- What a walk gives comes from the items, and every item gives something. -/
theorem mem_of_mapM_eq_ok {f : α → Except ε β} {l : List α} {bs : List β} (h : l.mapM f = .ok bs) :
    (∀ a ∈ l, ∃ b ∈ bs, f a = .ok b) ∧ ∀ b ∈ bs, ∃ a ∈ l, f a = .ok b := by
  have hall := mapM_eq_ok.1 h
  clear h
  induction hall with
  | nil => exact ⟨by simp, by simp⟩
  | @cons a b l bs hab _ ih =>
    obtain ⟨ihl, ihr⟩ := ih
    constructor
    · intro a' ha'
      rcases List.mem_cons.1 ha' with rfl | ha'
      · exact ⟨b, List.mem_cons_self, hab⟩
      · obtain ⟨b', hb', hf⟩ := ihl a' ha'
        exact ⟨b', List.mem_cons_of_mem _ hb', hf⟩
    · intro b' hb'
      rcases List.mem_cons.1 hb' with rfl | hb'
      · exact ⟨a, List.mem_cons_self, hab⟩
      · obtain ⟨a', ha', hf⟩ := ihr b' hb'
        exact ⟨a', List.mem_cons_of_mem _ ha', hf⟩

theorem mapM_map {γ : Type} (f : α → Except ε β) (g : β → γ) (l : List α) :
    (l.mapM fun a => (f a).map g) = (l.mapM f).map (List.map g) := by
  induction l with
  | nil => rfl
  | cons a l ih =>
    rw [List.mapM_cons, List.mapM_cons, ih]
    cases f a with
    | error e => rfl
    | ok b => cases l.mapM f <;> rfl

/-- A walk fails with the failure of the first item that has one. -/
theorem mapM_eq_error {f : α → Except ε β} {l : List α} {e : ε} :
    l.mapM f = .error e ↔
      ∃ before a after, l = before ++ a :: after ∧ (∀ x ∈ before, ∃ b, f x = .ok b) ∧ f a = .error e := by
  induction l with
  | nil =>
    rw [List.mapM_nil]
    constructor
    · intro h
      cases h
    · rintro ⟨before, a, after, h, -⟩
      simp at h
  | cons x l ih =>
    rw [List.mapM_cons]
    rcases hx : f x with e' | b
    · constructor
      · intro h
        cases h
        exact ⟨[], x, l, rfl, by simp, hx⟩
      · rintro ⟨before, a, after, h, hb, ha⟩
        cases before with
        | nil =>
          cases h
          rw [hx] at ha
          cases ha
          rfl
        | cons y before =>
          cases h
          obtain ⟨b, hb⟩ := hb x List.mem_cons_self
          rw [hx] at hb
          cases hb
    · constructor
      · intro h
        rcases hl : l.mapM f with e' | bs
        · rw [hl] at h
          cases h
          obtain ⟨before, a, after, rfl, hb, ha⟩ := ih.1 hl
          refine ⟨x :: before, a, after, rfl, fun y hy => ?_, ha⟩
          rcases List.mem_cons.1 hy with rfl | hy
          · exact ⟨b, hx⟩
          · exact hb y hy
        · rw [hl] at h
          cases h
      · rintro ⟨before, a, after, h, hb, ha⟩
        cases before with
        | nil =>
          cases h
          rw [hx] at ha
          cases ha
        | cons y before =>
          cases h
          rw [ih.2 ⟨before, a, after, rfl, fun z hz => hb z (List.mem_cons_of_mem _ hz), ha⟩]
          rfl

/-! ## Checks in a row -/

/-- The failure that the first failing check has; a check is given by the failures that it finds. -/
def FirstOf (checks : List (ε → Prop)) (e : ε) : Prop :=
  ∃ before check after, checks = before ++ check :: after ∧ check e ∧ ∀ earlier ∈ before, ∀ e', ¬ earlier e'

theorem firstOf_cons {check : ε → Prop} {checks : List (ε → Prop)} {e : ε} :
    FirstOf (check :: checks) e ↔ check e ∨ (∀ e', ¬ check e') ∧ FirstOf checks e := by
  constructor
  · rintro ⟨before, c, after, h, hc, hb⟩
    cases before with
    | nil =>
      cases h
      exact .inl hc
    | cons b before =>
      cases h
      exact .inr ⟨hb _ List.mem_cons_self, before, c, after, rfl, hc, fun c' hm => hb c' (List.mem_cons_of_mem _ hm)⟩
  · rintro (h | ⟨hno, before, c, after, rfl, hc, hb⟩)
    · exact ⟨[], check, checks, rfl, h, by simp⟩
    · refine ⟨check :: before, c, after, rfl, hc, fun c' hm => ?_⟩
      rcases List.mem_cons.1 hm with rfl | hm
      · exact hno
      · exact hb c' hm

theorem exists_firstOf {checks : List (ε → Prop)} : (∃ e, FirstOf checks e) ↔ ∃ check ∈ checks, ∃ e, check e := by
  constructor
  · rintro ⟨e, before, check, after, rfl, he, -⟩
    exact ⟨check, by simp, e, he⟩
  · rintro ⟨check, hm, e, he⟩
    induction checks with
    | nil => cases hm
    | cons c checks ih =>
      by_cases hc : ∃ e', c e'
      · obtain ⟨e', he'⟩ := hc
        exact ⟨e', firstOf_cons.2 (.inl he')⟩
      · push Not at hc
        rcases List.mem_cons.1 hm with rfl | hm
        · exact absurd he (hc e)
        · obtain ⟨e', he'⟩ := ih hm
          exact ⟨e', firstOf_cons.2 (.inr ⟨hc, he'⟩)⟩

/-- The result fails exactly if a check does, and with the failure of the first such check. -/
def Reports (checks : List (ε → Prop)) (x : Except ε α) : Prop := ∀ e, x = .error e ↔ FirstOf checks e

theorem reports_pure (a : α) : Reports ([] : List (ε → Prop)) (pure a) := by
  intro e
  constructor
  · intro h
    cases h
  · rintro ⟨before, check, after, h, -⟩
    simp at h

/-- A step that makes one check comes before those that make the others. -/
theorem Reports.bind {check : ε → Prop} {checks : List (ε → Prop)} {x : Except ε α} {f : α → Except ε β}
    (hx : ∀ e, x = .error e ↔ check e) (hf : ∀ a, x = .ok a → Reports checks (f a)) :
    Reports (check :: checks) (x >>= f) := by
  intro e
  rw [firstOf_cons]
  cases x with
  | error e' =>
    have hno : ¬ ∀ e'', ¬ check e'' := fun h => h e' ((hx e').1 rfl)
    rw [← hx e, or_iff_left fun h => hno h.1]
    constructor <;>
      · intro h
        cases h
        rfl
  | ok a =>
    have hno : ∀ e', ¬ check e' := fun e' h => by cases (hx e').2 h
    rw [or_iff_right (hno e), and_iff_right hno]
    exact hf a rfl e

theorem Reports.exists_ok {checks : List (ε → Prop)} {x : Except ε α} (h : Reports checks x) :
    (∃ a, x = .ok a) ↔ ∀ check ∈ checks, ∀ e, ¬ check e := by
  have hnone : (∃ a, x = .ok a) ↔ ¬ ∃ e, x = .error e := by cases x <;> simp
  rw [hnone, exists_congr h, exists_firstOf]
  push Not
  rfl

end Except
