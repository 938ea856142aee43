/-
Collections by name. A collection named without a slash is the last segment of its full name, so
what it holds does not depend on the namespace, and the full name gives the namespace and the name
back: no two namespaces share a collection. What any collection holds follows from what stands behind
the last slash in its name.
-/
import AccessRecords.Collection
import Mathlib.Data.List.TakeWhile
import Mathlib.Data.String.Basic
import Mathlib.Tactic

namespace AccessRecords.Collection

variable {ns ns' n n' c c' : String}

theorem toList_name : (name ns n).toList = ns.toList ++ '/' :: n.toList := by
  unfold name
  rw [String.toList_append, String.toList_append]
  simp

/-! ## Last segments -/

theorem ne_slash_of_mem_reverse (h : '/' ∉ n.toList) : ∀ c ∈ n.toList.reverse, decide (c ≠ '/') = true := by
  intro c hc
  rw [decide_eq_true_eq]
  rintro rfl
  exact h (List.mem_reverse.1 hc)

theorem lastSegment_name (h : '/' ∉ n.toList) : lastSegment (name ns n) = n := by
  unfold lastSegment
  rw [toList_name, List.reverse_append, List.reverse_cons, List.append_assoc,
    List.takeWhile_append_of_pos (ne_slash_of_mem_reverse h)]
  simp

theorem lastSegment_of_not_mem (h : '/' ∉ n.toList) : lastSegment n = n := by
  unfold lastSegment
  rw [List.takeWhile_eq_self_iff.2 (ne_slash_of_mem_reverse h), List.reverse_reverse, String.ofList_toList]

/-- The name is all of a collection's name, or what follows the last slash in it. -/
def EndsIn (collection n : String) : Prop := collection = n ∨ ∃ ns, collection = name ns n

theorem endsIn_lastSegment (c : String) : EndsIn c (lastSegment c) := by
  by_cases h : '/' ∈ c.toList
  · right
    obtain ⟨last, before, hc, hl⟩ := List.eq_append_cons_of_mem (List.mem_reverse.2 h)
    have e : c = name (String.ofList before.reverse) (String.ofList last.reverse) := by
      rw [← String.toList_inj, toList_name, String.toList_ofList, String.toList_ofList,
        ← List.reverse_reverse c.toList, hc]
      simp
    rw [e, lastSegment_name (by rwa [String.toList_ofList, List.mem_reverse])]
    exact ⟨_, rfl⟩
  · exact .inl (lastSegment_of_not_mem h).symm

theorem lastSegment_eq_iff (h : '/' ∉ n.toList) : lastSegment c = n ↔ EndsIn c n := by
  constructor
  · rintro rfl
    exact endsIn_lastSegment c
  · rintro (rfl | ⟨ns, rfl⟩)
    · exact lastSegment_of_not_mem h
    · exact lastSegment_name h

theorem not_mem_lastSegment (c : String) : '/' ∉ (lastSegment c).toList := by
  intro h
  unfold lastSegment at h
  rw [String.toList_ofList, List.mem_reverse] at h
  simpa using List.mem_takeWhile_imp h

/-- Every name has one last segment. -/
theorem existsUnique_endsIn (c : String) : ∃! n, '/' ∉ n.toList ∧ EndsIn c n := by
  refine ⟨lastSegment c, ⟨not_mem_lastSegment c, endsIn_lastSegment c⟩, ?_⟩
  rintro n ⟨h, hc⟩
  exact ((lastSegment_eq_iff h).2 hc).symm

theorem kind_iff (h : '/' ∉ n.toList) (hc : EndsIn c n) :
    (kind c = .roles ↔ n = "roles") ∧ (kind c = .policies ↔ n = "policies") ∧
      (kind c = .other ↔ n ≠ "roles" ∧ n ≠ "policies") := by
  unfold kind
  rw [(lastSegment_eq_iff h).2 hc]
  dsimp only
  split_ifs with hr hp
  · subst hr
    simp
  · subst hp
    simp
  · simp [hr, hp]

/-- Collections of any namespaces hold the same if their last segments are the same. -/
theorem kind_congr (h : '/' ∉ n.toList) (hc : EndsIn c n) (hc' : EndsIn c' n) : kind c = kind c' := by
  unfold kind
  rw [(lastSegment_eq_iff h).2 hc, (lastSegment_eq_iff h).2 hc']

/-! ## Names in a namespace -/

/-- What a collection of a namespace holds follows from its own name. -/
theorem kind_name (h : '/' ∉ n.toList) :
    kind (name ns n) = if n = "roles" then .roles else if n = "policies" then .policies else .other := by
  unfold kind
  rw [lastSegment_name h]

theorem kind_roles : kind (roles ns) = .roles := by
  unfold roles
  rw [kind_name (by decide), if_pos rfl]

theorem kind_policies : kind (policies ns) = .policies := by
  unfold policies
  rw [kind_name (by decide), if_neg (by decide), if_pos rfl]

theorem shape_roles : shape (roles ns) = .roles := by
  unfold shape
  rw [kind_roles]
  rfl

theorem shape_policies : shape (policies ns) = .policies := by
  unfold shape
  rw [kind_policies]
  rfl

/-- The full name of a collection gives back its namespace and its name. -/
theorem name_inj (h : '/' ∉ n.toList) (h' : '/' ∉ n'.toList) : name ns n = name ns' n' ↔ ns = ns' ∧ n = n' := by
  constructor
  · intro e
    have hn := congrArg lastSegment e
    rw [lastSegment_name h, lastSegment_name h'] at hn
    subst hn
    have hl := congrArg String.toList e
    rw [toList_name, toList_name] at hl
    exact ⟨String.toList_inj.1 (List.append_cancel_right hl), rfl⟩
  · rintro ⟨rfl, rfl⟩
    rfl

/-- The last slash of `c` stands between `ns` and `n`. -/
structure Splits (c ns n : String) : Prop where
  parts : c.toList = ns.toList ++ '/' :: n.toList
  free : '/' ∉ n.toList

theorem splits_iff : Splits c ns n ↔ '/' ∉ n.toList ∧ c = name ns n := by
  rw [← String.toList_inj, toList_name]
  exact ⟨fun h => ⟨h.free, h.parts⟩, fun h => ⟨h.2, h.1⟩⟩

theorem Splits.endsIn (h : Splits c ns n) : EndsIn c n := .inr ⟨ns, (splits_iff.1 h).2⟩

/-- A name splits at its last slash in one way only. -/
theorem Splits.unique (h : Splits c ns n) (h' : Splits c ns' n') : ns = ns' ∧ n = n' := by
  obtain ⟨hn, hc⟩ := splits_iff.1 h
  obtain ⟨hn', hc'⟩ := splits_iff.1 h'
  exact (name_inj hn hn').1 (hc.symm.trans hc')

end AccessRecords.Collection
