/-
The names of collections. A request names a collection of its namespace by a path parameter without
slashes, so the full name splits at its last slash into the namespace, which may have any number of
them, and the name. Main statement: when a collection is named, that the namespace and the name can be
told from the full name, and that what the collection holds follows from the name alone.
-/
import AccessRecords.Proofs.Collection.Names
import AccessRecords.Proofs.Service.Filing

namespace AccessRecords

/-! ## Path parameters -/

/-- The request carries a path parameter, which is not blank, and `t` is what it is without the blanks
around it. -/
def Incoming.Carries (inc : Incoming) (name t : String) : Prop :=
  ∃ value, inc.params.get? name = some value ∧ ¬ Text.Blank value ∧ Text.Trims value t

namespace Incoming

variable {inc : Incoming} {name t t' : String}

theorem param_eq_ok_iff : inc.param name = .ok t ↔ inc.Carries name t := by
  unfold Carries param
  cases inc.params.get? name with
  | none => simp
  | some value =>
    simp only [Option.map_some, Option.some.injEq, exists_eq_left', ← Text.trim_isEmpty_iff, Text.trims_iff]
    cases (Text.trim value).isEmpty <;> simp

theorem Carries.unique (h : inc.Carries name t) (h' : inc.Carries name t') : t = t' := by
  rw [← param_eq_ok_iff] at h h'
  exact Except.ok.inj (h.symm.trans h')

end Incoming

namespace Endpoint

open Collection

variable {ns c t : String} {inc : Incoming}

/-! ## Named collections -/

theorem collectionOf_eq_ok_iff :
    collectionOf ns inc = .ok c ↔ ∃ t, inc.Carries "name" t ∧ Splits c ns t := by
  rw [collectionOf_eq_ok]
  refine exists_congr fun t => and_congr Incoming.param_eq_ok_iff ?_
  exact splits_iff.symm

theorem splits_of_collectionOf (h : collectionOf ns inc = .ok c) (ht : inc.Carries "name" t) : Splits c ns t := by
  obtain ⟨t', ht', hs⟩ := collectionOf_eq_ok_iff.1 h
  rwa [ht.unique ht']

theorem exists_collectionOf_iff :
    (∃ c, collectionOf ns inc = .ok c) ↔ ∃ t, inc.Carries "name" t ∧ '/' ∉ t.toList := by
  constructor
  · rintro ⟨c, h⟩
    obtain ⟨t, ht, hs⟩ := collectionOf_eq_ok_iff.1 h
    exact ⟨t, ht, hs.free⟩
  · rintro ⟨t, ht, hslash⟩
    exact ⟨name ns t, collectionOf_eq_ok_iff.2 ⟨t, ht, splits_iff.2 ⟨hslash, rfl⟩⟩⟩

/-- A collection is named exactly if the path parameter is there, is not blank, and has no slash between
the blanks around it. The full name then has the namespace before its last slash and the name behind it,
which no other namespace and name share, and the name decides what the collection holds. For any text,
that follows from what stands behind the last slash. -/
theorem collections_unambiguous :
    (∀ (ns : String) (inc : Incoming),
      ((∃ c, collectionOf ns inc = .ok c) ↔ ∃ t, inc.Carries "name" t ∧ '/' ∉ t.toList) ∧
      ∀ c t, collectionOf ns inc = .ok c → inc.Carries "name" t →
        Splits c ns t ∧ (kind c = .roles ↔ t = "roles") ∧ (kind c = .policies ↔ t = "policies") ∧
          (kind c = .other ↔ t ≠ "roles" ∧ t ≠ "policies")) ∧
    (∀ c ns t ns' t', Splits c ns t → Splits c ns' t' → ns = ns' ∧ t = t') ∧
    (∀ ns inc c t ns' inc' c' t', collectionOf ns inc = .ok c → inc.Carries "name" t →
      collectionOf ns' inc' = .ok c' → inc'.Carries "name" t' → (ns, t) ≠ (ns', t') → c ≠ c') ∧
    (∀ c, ∃! t, '/' ∉ t.toList ∧ EndsIn c t) ∧
    (∀ c c' t, '/' ∉ t.toList → EndsIn c t → EndsIn c' t → kind c = kind c') := by
  refine ⟨fun ns inc => ⟨exists_collectionOf_iff, fun c t hc ht => ?_⟩, fun c ns t ns' t' h h' => h.unique h',
    fun ns inc c t ns' inc' c' t' hc ht hc' ht' hne heq => ?_, existsUnique_endsIn,
    fun c c' t ht h h' => kind_congr ht h h'⟩
  · have hsplits := splits_of_collectionOf hc ht
    exact ⟨hsplits, kind_iff hsplits.free hsplits.endsIn⟩
  · subst heq
    obtain ⟨rfl, rfl⟩ := (splits_of_collectionOf hc ht).unique (splits_of_collectionOf hc' ht')
    exact hne rfl

end Endpoint

end AccessRecords
