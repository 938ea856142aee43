/-
The algebra of filters. The dimensions of a query narrow each other down, while the values of one
dimension add up; a dimension without values wants nothing. Main statement: filters with no dimension in
common can be applied one after the other in either order, a dimension with two lists of values keeps what
either list keeps alone, and a further dimension only takes records away.
-/
import AccessRecords.Proofs.Query
import AccessRecords.Proofs.Record.Listing

namespace AccessRecords

/-! ## Records that are kept -/

/-- Whether a query keeps a record in a listing. Documents of any form cannot be held against one. -/
def Record.matches : Record → Query → Bool
  | .role r, q => r.matches q
  | .policy p, q => p.matches q
  | .raw _, _ => false

theorem Record.matches_iff {r : Record} (h : r.shape ≠ .raw) (q : Query) : r.matches q = true ↔ q.AsksFor r := by
  cases r with
  | role r => exact r.matches_iff q
  | policy p => exact p.matches_iff q
  | raw v => exact absurd rfl h

/-- A record has one list of values for a key. -/
theorem Record.eq_of_mem_dimensions {r : Record} {d e : String × List String} (hd : d ∈ r.dimensions)
    (he : e ∈ r.dimensions) (h : d.1 = e.1) : d = e := by
  have hnodup : (r.dimensions.map (·.1)).Nodup := by
    rw [r.keys_dimensions]
    cases r.shape <;> decide
  exact List.inj_on_of_nodup_map hnodup hd he h

namespace Query

variable {q q₁ q₂ : Query} {r : Record} {d : String}

/-- A query that wants nothing under a key, or all that another one wants there, which wants something,
asks for no fewer records than the other. -/
theorem AsksFor.mono (h : q₁.AsksFor r)
    (hle : ∀ k ∈ r.shape.dimensions, q.values k = [] ∨ q₁.values k ≠ [] ∧ q₁.values k ⊆ q.values k) :
    q.AsksFor r := by
  intro e he
  rcases hle e.1 (Record.mem_dimensions he) with hnil | ⟨hne, hsub⟩
  · exact .inl hnil
  · rcases h e he with h | ⟨v, hv, hr⟩
    · exact absurd h hne
    · exact .inr ⟨v, hsub hv, hr⟩

theorem nil_or_subset_of_eq {k : String} (h : q₁.values k = q₂.values k) :
    q₂.values k = [] ∨ q₁.values k ≠ [] ∧ q₁.values k ⊆ q₂.values k := by
  by_cases h0 : q₂.values k = []
  · exact .inl h0
  · exact .inr ⟨h ▸ h0, h ▸ List.Subset.refl _⟩

/-- Where each key has its values from one of two queries and the other wants nothing there, the query
asks for what both ask for. -/
theorem asksFor_and
    (h : ∀ k ∈ r.shape.dimensions, q.values k = q₁.values k ++ q₂.values k ∧
      (q₁.values k = [] ∨ q₂.values k = [])) :
    q.AsksFor r ↔ q₁.AsksFor r ∧ q₂.AsksFor r := by
  constructor
  · intro hq
    constructor <;> refine hq.mono fun k hk => ?_
    · obtain ⟨hv, h1 | h2⟩ := h k hk
      · exact .inl h1
      · exact nil_or_subset_of_eq (by rw [hv, h2, List.append_nil])
    · obtain ⟨hv, h1 | h2⟩ := h k hk
      · exact nil_or_subset_of_eq (by rw [hv, h1, List.nil_append])
      · exact .inl h2
  · rintro ⟨h1, h2⟩ e he
    obtain ⟨hv, h0 | h0⟩ := h e.1 (Record.mem_dimensions he)
    · rw [hv, h0, List.nil_append]
      exact h2 e he
    · rw [hv, h0, List.append_nil]
      exact h1 e he

/-- Two lists of values in one dimension ask for what either asks for. -/
theorem asksFor_or (hv : q.values d = q₁.values d ++ q₂.values d) (h1 : q₁.values d ≠ [])
    (h2 : q₂.values d ≠ [])
    (hk : ∀ k ∈ r.shape.dimensions, k ≠ d → q.values k = q₁.values k ∧ q.values k = q₂.values k) :
    q.AsksFor r ↔ q₁.AsksFor r ∨ q₂.AsksFor r := by
  constructor
  · intro hq
    -- the value that the record has in the dimension decides which of the two lists asks for it
    by_cases hd : ∃ e ∈ r.dimensions, e.1 = d ∧ ¬ ∃ v ∈ q₁.values d, v ∈ e.2
    · obtain ⟨e, he, rfl, hno⟩ := hd
      refine .inr fun e' he' => ?_
      by_cases hed : e'.1 = e.1
      · obtain rfl := Record.eq_of_mem_dimensions he' he hed
        rcases hq e' he' with h0 | ⟨v, hm, hr⟩
        · rw [hv] at h0
          exact absurd (List.append_eq_nil_iff.1 h0).2 h2
        · rw [hv, List.mem_append] at hm
          exact .inr ⟨v, hm.resolve_left fun hm => hno ⟨v, hm, hr⟩, hr⟩
      · rw [← (hk e'.1 (Record.mem_dimensions he') hed).2]
        exact hq e' he'
    · refine .inl fun e he => ?_
      by_cases hed : e.1 = d
      · rw [hed]
        exact .inr (by_contra fun hno => hd ⟨e, he, hed, hno⟩)
      · rw [← (hk e.1 (Record.mem_dimensions he) hed).1]
        exact hq e he
  · rintro (h | h) <;> refine h.mono fun k hkr => ?_ <;> by_cases hkd : k = d
    · exact .inr (hkd ▸ ⟨h1, by rw [hv]; exact List.subset_append_left _ _⟩)
    · exact nil_or_subset_of_eq (hk k hkr hkd).1.symm
    · exact .inr (hkd ▸ ⟨h2, by rw [hv]; exact List.subset_append_right _ _⟩)
    · exact nil_or_subset_of_eq (hk k hkr hkd).2.symm

/-! ## Pairs -/

variable {p p' : List (String × String)}

theorem valuesIn_append (p p' : List (String × String)) (k : String) :
    valuesIn (p ++ p') k = valuesIn p k ++ valuesIn p' k := by
  unfold valuesIn
  rw [List.filter_append, List.map_append]

/-- Two lists of pairs give the dimensions of a shape the same values, except for one. -/
def SameBut (shape : Shape) (d : String) (p p' : List (String × String)) : Prop :=
  ∀ k ∈ shape.dimensions, k ≠ d → valuesIn p k = valuesIn p' k

/-- No dimension of a shape is a key of both lists of pairs. -/
def Apart (shape : Shape) (p p' : List (String × String)) : Prop :=
  ∀ k ∈ shape.dimensions, valuesIn p k = [] ∨ valuesIn p' k = []

instance (shape : Shape) (d : String) (p p' : List (String × String)) : Decidable (SameBut shape d p p') :=
  inferInstanceAs (Decidable (∀ k ∈ shape.dimensions, k ≠ d → valuesIn p k = valuesIn p' k))

instance (shape : Shape) (p p' : List (String × String)) : Decidable (Apart shape p p') :=
  inferInstanceAs (Decidable (∀ k ∈ shape.dimensions, valuesIn p k = [] ∨ valuesIn p' k = []))

theorem Apart.asksFor (h : Apart r.shape p p') :
    (ofPairs (p ++ p')).AsksFor r ↔ (ofPairs p).AsksFor r ∧ (ofPairs p').AsksFor r := by
  refine asksFor_and fun k hk => ?_
  rw [values_ofPairs, values_ofPairs, values_ofPairs]
  exact ⟨valuesIn_append p p' k, h k hk⟩

end Query

namespace Listing

open Query

variable {l l₁ l₂ : Listing}

/-! ## Filtered listings -/

theorem shape_of_mem_records {r : Record} (h : r ∈ l.records) : r.shape = l.shape := by
  cases l <;> obtain ⟨a, -, rfl⟩ := List.mem_map.1 h <;> rfl

/-- Filtering twice keeps what both queries ask for. -/
theorem filter_bind_filter (h : l.shape ≠ .raw) {q q₁ q₂ : Query}
    (hq : ∀ r ∈ l.records, q.AsksFor r ↔ q₁.AsksFor r ∧ q₂.AsksFor r) :
    (l.filter q₁ >>= fun l => l.filter q₂) = l.filter q := by
  obtain ⟨l₁, e₁, hs₁, hr₁⟩ := filter_eq_ok q₁ h
  obtain ⟨l₂, e₂, hs₂, hr₂⟩ := filter_eq_ok q₂ (hs₁ ▸ h)
  obtain ⟨l₃, e₃, hs₃, hr₃⟩ := filter_eq_ok q h
  rw [e₁, e₃]
  show l₁.filter q₂ = .ok l₃
  rw [e₂]
  refine congrArg _ (ext_records (by rw [hs₂, hs₁, hs₃]) ?_)
  rw [hr₂, hr₁, hr₃, List.filter_filter]
  refine List.filter_congr fun r hr => ?_
  rw [Bool.eq_iff_iff, Bool.and_eq_true, decide_eq_true_iff, decide_eq_true_iff, decide_eq_true_iff, hq r hr,
    and_comm]

/-- A query that asks for less keeps a part of what the other keeps. -/
theorem filter_sublist (h : l.shape ≠ .raw) {q₁ q₂ : Query} (hq : ∀ r ∈ l.records, q₁.AsksFor r → q₂.AsksFor r)
    (e₁ : l.filter q₁ = .ok l₁) (e₂ : l.filter q₂ = .ok l₂) : l₁.records.Sublist l₂.records := by
  obtain ⟨l₁', e₁', -, hr₁⟩ := filter_eq_ok q₁ h
  obtain ⟨l₂', e₂', -, hr₂⟩ := filter_eq_ok q₂ h
  cases e₁.symm.trans e₁'
  cases e₂.symm.trans e₂'
  -- what the first query keeps, it keeps of what the second one keeps
  have hr : l₁.records = l₂.records.filter (q₁.AsksFor ·) := by
    rw [hr₁, hr₂, List.filter_filter]
    refine List.filter_congr fun r hr => ?_
    rw [Bool.eq_iff_iff, Bool.and_eq_true, decide_eq_true_iff, decide_eq_true_iff]
    exact ⟨fun h => ⟨h, hq r hr h⟩, And.left⟩
  rw [hr]
  exact List.filter_sublist

/-! ## The laws -/

/-- How the filters of a listing combine. -/
structure FilterLaws (l : Listing) : Prop where
  /-- What matches is kept, in order and as often as it is there. -/
  keeps : ∀ p, ∃ l', l.filter (ofPairs p) = .ok l' ∧ l'.shape = l.shape ∧
    l'.records = l.records.filter (·.matches (ofPairs p)) ∧ l'.records.Sublist l.records
  /-- Filters that have no dimension in common can be joined, and applied in either order. -/
  append : ∀ p p', Apart l.shape p p' →
    (l.filter (ofPairs p) >>= fun l => l.filter (ofPairs p')) = l.filter (ofPairs (p ++ p')) ∧
      (l.filter (ofPairs p') >>= fun l => l.filter (ofPairs p)) = l.filter (ofPairs (p ++ p'))
  /-- A filter finds nothing more to remove. -/
  idempotent : ∀ p, (l.filter (ofPairs p) >>= fun l => l.filter (ofPairs p)) = l.filter (ofPairs p)
  /-- Two lists of values in one dimension keep what either keeps alone. -/
  either : ∀ d p p₁ p₂, SameBut l.shape d p p₁ → SameBut l.shape d p p₂ →
    valuesIn p d = valuesIn p₁ d ++ valuesIn p₂ d → valuesIn p₁ d ≠ [] → valuesIn p₂ d ≠ [] →
      ∀ r ∈ l.records, r.matches (ofPairs p) = (r.matches (ofPairs p₁) || r.matches (ofPairs p₂))
  /-- Further values in a dimension that has some remove nothing. -/
  widen : ∀ d p p' l₁ l₂, SameBut l.shape d p p' → valuesIn p d ≠ [] → valuesIn p d ⊆ valuesIn p' d →
    l.filter (ofPairs p) = .ok l₁ → l.filter (ofPairs p') = .ok l₂ → l₁.records.Sublist l₂.records
  /-- Values in a dimension that has none add nothing. -/
  narrow : ∀ d p p' l₁ l₂, SameBut l.shape d p p' → valuesIn p d = [] →
    l.filter (ofPairs p) = .ok l₁ → l.filter (ofPairs p') = .ok l₂ → l₂.records.Sublist l₁.records

theorem filter_laws (h : l.shape ≠ .raw) : l.FilterLaws where
  keeps p := by
    obtain ⟨l', e, hs, hr⟩ := filter_eq_ok (ofPairs p) h
    have hm : l'.records = l.records.filter (·.matches (ofPairs p)) := by
      rw [hr]
      refine List.filter_congr fun r hr => ?_
      rw [Bool.eq_iff_iff, decide_eq_true_iff, Record.matches_iff (shape_of_mem_records hr ▸ h)]
    exact ⟨l', e, hs, hm, hm ▸ List.filter_sublist⟩
  append p p' ha := by
    have hq : ∀ r ∈ l.records, (ofPairs (p ++ p')).AsksFor r ↔ (ofPairs p).AsksFor r ∧ (ofPairs p').AsksFor r :=
      fun r hr => Apart.asksFor (shape_of_mem_records hr ▸ ha)
    exact ⟨filter_bind_filter h hq, filter_bind_filter h fun r hr => (hq r hr).trans and_comm⟩
  idempotent p := filter_bind_filter h fun r _ => (and_self_iff).symm
  either d p p₁ p₂ hs₁ hs₂ hv h1 h2 r hr := by
    have hr' := shape_of_mem_records hr
    rw [Bool.eq_iff_iff, Bool.or_eq_true, Record.matches_iff (hr' ▸ h), Record.matches_iff (hr' ▸ h),
      Record.matches_iff (hr' ▸ h)]
    refine asksFor_or (d := d) ?_ ?_ ?_ ?_
    all_goals simp only [values_ofPairs]
    · exact hv
    · exact h1
    · exact h2
    · exact fun k hk hkd => ⟨hs₁ k (hr' ▸ hk) hkd, hs₂ k (hr' ▸ hk) hkd⟩
  widen d p p' l₁ l₂ hs h0 hsub e₁ e₂ := by
    refine filter_sublist h (fun r hr hq => hq.mono fun k hk => ?_) e₁ e₂
    by_cases hkd : k = d
    · rw [values_ofPairs, values_ofPairs, hkd]
      exact .inr ⟨h0, hsub⟩
    · refine nil_or_subset_of_eq ?_
      rw [values_ofPairs, values_ofPairs]
      exact hs k (shape_of_mem_records hr ▸ hk) hkd
  narrow d p p' l₁ l₂ hs h0 e₁ e₂ := by
    refine filter_sublist h (fun r hr hq => hq.mono fun k hk => ?_) e₂ e₁
    by_cases hkd : k = d
    · rw [values_ofPairs, hkd]
      exact .inl h0
    · refine nil_or_subset_of_eq ?_
      rw [values_ofPairs, values_ofPairs]
      exact (hs k (shape_of_mem_records hr ▸ hk) hkd).symm

/-- Two roles: their filters by member and by id commute, and each of two members keeps one of them. -/
theorem filter_laws_members :
    let l := roles [⟨"editor", ["ann"]⟩, ⟨"viewer", ["bob"]⟩]
    l.shape ≠ .raw ∧
      (l.filter (ofPairs [("id", "viewer")]) >>= fun l => l.filter (ofPairs [("member", "bob")])) =
        l.filter (ofPairs [("member", "bob"), ("id", "viewer")]) ∧
      ∀ r ∈ l.records, r.matches (ofPairs [("member", "ann"), ("member", "bob")]) =
        (r.matches (ofPairs [("member", "ann")]) || r.matches (ofPairs [("member", "bob")])) := by
  intro l
  have laws : l.FilterLaws := filter_laws (by decide)
  refine ⟨by decide, (laws.append _ _ ?_).2, laws.either "member" _ _ _ ?_ ?_ ?_ ?_ ?_⟩ <;> decide

end Listing

end AccessRecords
