/-
Association lists kept in strictly ascending key order: search, insertion and removal. The laws
say that a search after an insertion or a removal sees exactly that change, that both keep the
order, and that two ascending lists which answer every search alike are the same list.
-/

namespace AccessRecords.Entries

variable {κ β : Type} [Ord κ]

/-- The value stored under a key. -/
def find? (k : κ) : List (κ × β) → Option β
  | [] => none
  | e :: rest => if compare k e.1 = .eq then some e.2 else find? k rest

/-- Puts a value under a key at its place in the order, over the value that was there. -/
def insert (k : κ) (v : β) : List (κ × β) → List (κ × β)
  | [] => [(k, v)]
  | e :: rest =>
    match compare k e.1 with
    | .lt => (k, v) :: e :: rest
    | .eq => (k, v) :: rest
    | .gt => e :: insert k v rest

/-- Takes a key out. -/
def erase (k : κ) (l : List (κ × β)) : List (κ × β) :=
  l.filter fun e => compare k e.1 != .eq

/-- The keys ascend strictly, so none occurs twice. -/
def Ascending (l : List (κ × β)) : Prop :=
  l.Pairwise fun a b => compare a.1 b.1 = .lt

instance (l : List (κ × β)) : Decidable (Ascending l) :=
  inferInstanceAs (Decidable (List.Pairwise _ l))

@[simp] theorem find?_nil (k : κ) : find? k ([] : List (κ × β)) = none := rfl

theorem find?_cons (k : κ) (e : κ × β) (rest : List (κ × β)) :
    find? k (e :: rest) = if compare k e.1 = .eq then some e.2 else find? k rest := rfl

theorem mem_insert {k : κ} {v : β} {l : List (κ × β)} {e : κ × β} (h : e ∈ insert k v l) :
    e = (k, v) ∨ e ∈ l := by
  induction l with
  | nil => exact Or.inl (by simpa [insert] using h)
  | cons a rest ih =>
    unfold insert at h
    split at h
    · simpa using h
    · rcases List.mem_cons.mp h with h | h
      · exact Or.inl h
      · exact Or.inr (List.mem_cons_of_mem _ h)
    · rcases List.mem_cons.mp h with h | h
      · exact Or.inr (h ▸ List.mem_cons_self)
      · rcases ih h with h | h
        · exact Or.inl h
        · exact Or.inr (List.mem_cons_of_mem _ h)

theorem ascending_erase {k : κ} {l : List (κ × β)} (h : Ascending l) : Ascending (erase k l) :=
  List.Pairwise.filter _ h

theorem find?_eq_none_of_lt {k : κ} {l : List (κ × β)}
    (h : ∀ e ∈ l, compare k e.1 = .lt) : find? k l = none := by
  induction l with
  | nil => rfl
  | cons a rest ih =>
    rw [find?_cons, if_neg (by simp [h a List.mem_cons_self])]
    exact ih fun e he => h e (List.mem_cons_of_mem _ he)

theorem ascending_insert [Std.TransOrd κ] {k : κ} {v : β} {l : List (κ × β)} (h : Ascending l) :
    Ascending (insert k v l) := by
  induction l with
  | nil => simp [insert, Ascending]
  | cons a rest ih =>
    obtain ⟨ha, hr⟩ := List.pairwise_cons.mp h
    unfold insert
    split
    · rename_i hlt
      refine List.pairwise_cons.mpr ⟨fun b hb => ?_, h⟩
      rcases List.mem_cons.mp hb with rfl | hb
      · exact hlt
      · exact Std.TransCmp.lt_trans hlt (ha b hb)
    · rename_i heq
      refine List.pairwise_cons.mpr ⟨fun b hb => ?_, hr⟩
      exact (Std.TransCmp.congr_left heq).trans (ha b hb)
    · rename_i hgt
      refine List.pairwise_cons.mpr ⟨fun b hb => ?_, ih hr⟩
      rcases mem_insert hb with rfl | hb
      · exact Std.OrientedCmp.lt_of_gt hgt
      · exact ha b hb

variable [Std.LawfulEqOrd κ]

theorem find?_insert [DecidableEq κ] (k k' : κ) (v : β) (l : List (κ × β)) :
    find? k' (insert k v l) = if k' = k then some v else find? k' l := by
  induction l with
  | nil => simp [insert, find?_cons, Std.LawfulEqCmp.compare_eq_iff_eq]
  | cons a rest ih =>
    unfold insert
    split
    · simp [find?_cons, Std.LawfulEqCmp.compare_eq_iff_eq]
    · rename_i heq
      have hk : k = a.1 := Std.LawfulEqCmp.compare_eq_iff_eq.mp heq
      by_cases h : k' = k
      · simp [find?_cons, h]
      · simp [find?_cons, Std.LawfulEqCmp.compare_eq_iff_eq, h, hk ▸ h]
    · rename_i hgt
      have hne : k ≠ a.1 := fun h => by simp [h] at hgt
      rw [find?_cons, ih, find?_cons]
      by_cases h : k' = k
      · subst h; simp [Std.LawfulEqCmp.compare_eq_iff_eq, hne]
      · simp [h]

theorem find?_erase [DecidableEq κ] (k k' : κ) (l : List (κ × β)) :
    find? k' (erase k l) = if k' = k then none else find? k' l := by
  induction l with
  | nil => simp [erase]
  | cons a rest ih =>
    unfold erase at ih ⊢
    rw [List.filter_cons]
    by_cases ha : k = a.1
    · subst ha
      by_cases h : k' = a.1 <;> simp_all [find?_cons, Std.LawfulEqCmp.compare_eq_iff_eq]
    · by_cases h : k' = k
      · subst h; simp_all [find?_cons, Std.LawfulEqCmp.compare_eq_iff_eq]
      · by_cases h' : k' = a.1 <;>
          simp_all [find?_cons, Std.LawfulEqCmp.compare_eq_iff_eq]

theorem mem_iff_find? {l : List (κ × β)} (h : Ascending l) {k : κ} {v : β} :
    (k, v) ∈ l ↔ find? k l = some v := by
  induction l with
  | nil => simp
  | cons a rest ih =>
    obtain ⟨ha, hr⟩ := List.pairwise_cons.mp h
    rw [List.mem_cons, find?_cons]
    by_cases hk : k = a.1
    · subst hk
      have hn : (a.1, v) ∉ rest := fun hm => by simpa using ha _ hm
      obtain ⟨k₀, v₀⟩ := a
      simp_all [eq_comm]
    · have hne : (k, v) ≠ a := fun he => hk (by rw [← he])
      simp [Std.LawfulEqCmp.compare_eq_iff_eq, hk, hne, ih hr]

/-- Ascending lists that answer every search alike are equal. -/
theorem ext [Std.TransOrd κ] {l l' : List (κ × β)} (h : Ascending l) (h' : Ascending l')
    (hf : ∀ k, find? k l = find? k l') : l = l' := by
  induction l generalizing l' with
  | nil =>
    cases l' with
    | nil => rfl
    | cons b rest => simpa [find?_cons] using hf b.1
  | cons a rest ih =>
    cases l' with
    | nil => simpa [find?_cons] using hf a.1
    | cons b rest' =>
      obtain ⟨ha, hr⟩ := List.pairwise_cons.mp h
      obtain ⟨hb, hr'⟩ := List.pairwise_cons.mp h'
      have hab : a.1 = b.1 := by
        rcases hc : compare a.1 b.1 with _ | _ | _
        · have := hf a.1
          rw [find?_cons, if_pos (by simp), find?_eq_none_of_lt] at this
          · cases this
          · intro e he
            rcases List.mem_cons.mp he with rfl | he
            · exact hc
            · exact Std.TransCmp.lt_trans hc (hb e he)
        · exact Std.LawfulEqCmp.compare_eq_iff_eq.mp hc
        · have hc := Std.OrientedCmp.lt_of_gt hc
          have := hf b.1
          rw [find?_cons b.1 b, if_pos (by simp), find?_eq_none_of_lt] at this
          · cases this
          · intro e he
            rcases List.mem_cons.mp he with rfl | he
            · exact hc
            · exact Std.TransCmp.lt_trans hc (ha e he)
      have hv : a = b := by
        have := hf a.1
        rw [find?_cons, find?_cons, if_pos (by simp), if_pos (by simp [hab])] at this
        exact Prod.ext hab (Option.some.inj this)
      subst hv
      refine congrArg (a :: ·) (ih hr hr' fun k => ?_)
      have := hf k
      rw [find?_cons, find?_cons] at this
      by_cases hk : k = a.1
      · subst hk
        rw [find?_eq_none_of_lt ha, find?_eq_none_of_lt hb]
      · simpa [Std.LawfulEqCmp.compare_eq_iff_eq, hk] using this

end AccessRecords.Entries
