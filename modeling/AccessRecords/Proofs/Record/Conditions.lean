/-
Conditions of policies that were read. Whatever text or value a policy is read from, its conditions
hold no object that is only a mark; if it was found in a value that was itself read from a text, as the
bodies of requests are, its conditions hold no marks at all.
-/
import AccessRecords.Proofs.Record.Document
import AccessRecords.Seed

namespace AccessRecords

open Json Json.Reader

namespace Policy

theorem settled_blank : schema.blank.conditions.Settled :=
  .object (fun _ h => by cases h) (by simp)

/-! ## From texts -/

theorem yields_read (depth : Nat) : Yields (schema.read depth) fun p => p.conditions.Settled := by
  refine Schema.yields_read settled_blank ?_ depth
  simp only [schema, List.forall_mem_cons, List.not_mem_nil, false_imp_iff, implies_true, and_true]
  refine ⟨?id, ?description, ?subjects, ?resources, ?actions, ?effect, ?conditions⟩ <;> intro depth p hp
  case conditions => exact Field.yields_of (yields_anyValue Value.settled_inherited depth) fun _ hc => hc
  all_goals exact Field.yields_of (yields_any _) fun _ _ => hp

end Policy

theorem Seed.yields_read (depth : Nat) :
    Yields (schema.read depth) fun seed => ∀ p ∈ seed.policies, p.conditions.Settled := by
  refine Schema.yields_read (by simp [schema]) ?_ depth
  simp only [schema, List.forall_mem_cons, List.not_mem_nil, false_imp_iff, implies_true, and_true]
  refine ⟨?roles, ?policies⟩ <;> intro depth seed hs
  case roles => exact Field.yields_of (yields_any _) fun _ _ => hs
  case policies => exact Field.yields_of (Decoder.yields_list Policy.yields_read depth) fun _ hp => hp

/-! ## From values -/

/-- The other value is an item of this list, or under a key of this object. -/
def Json.Value.HasPart (v u : Value) : Prop :=
  (∃ items, v = .list items ∧ u ∈ items) ∨ ∃ members, v = .object members ∧ ∃ k, (k, u) ∈ members

theorem Json.Value.Settled.part {v u : Value} (hv : v.Settled) (h : v.HasPart u) : u.Settled := by
  rcases h with ⟨items, rfl, hu⟩ | ⟨members, rfl, k, hu⟩
  · exact hv.items u hu
  · exact hv.members (k, u) hu

/-- The conditions of a policy that a value describes are what some part of it resolves to, if they are
not left out. -/
theorem Policy.conditions_of_ofValue {v : Value} {p : Policy} (h : schema.ofValue v = .ok p) :
    p.conditions = .emptyObject ∨ ∃ u, v.HasPart u ∧ u.resolve = .ok p.conditions := by
  refine Schema.ofValue_induction
    (P := fun p => p.conditions = .emptyObject ∨ ∃ u, v.HasPart u ∧ u.resolve = .ok p.conditions)
    (S := v.HasPart) (.inl rfl) ?_ ?_ ?_ h
  · simp only [schema, List.forall_mem_cons, List.not_mem_nil, false_imp_iff, implies_true, and_true]
    refine ⟨?id, ?description, ?subjects, ?resources, ?actions, ?effect, ?conditions⟩ <;>
      intro u p p' hu hp e <;> obtain ⟨b, hb, rfl⟩ := Field.ofValue_of e
    case conditions => exact .inr ⟨u, hu, hb⟩
    all_goals exact hp
  · exact fun items hv u hu => .inl ⟨items, hv, hu⟩
  · exact fun members hv m hm => .inr ⟨members, hv, m.1, hm⟩

theorem Policy.settled_of_ofValue {v : Value} {p : Policy} (h : schema.ofValue v = .ok p) :
    p.conditions.Settled := by
  rcases conditions_of_ofValue h with he | ⟨u, -, hr⟩
  · rw [he]
    exact settled_blank
  · exact Value.settled_of_resolve hr

theorem Policy.isPlain_of_ofValue {v : Value} {p : Policy} (hv : v.Settled) (h : schema.ofValue v = .ok p) :
    p.conditions.isPlain = true := by
  rcases conditions_of_ofValue h with he | ⟨u, hu, hr⟩
  · rw [he]
    rfl
  · -- resolving a part of a value that was read gives the part back, without marks
    obtain ⟨hplain, he⟩ := (hv.part hu).resolve_eq_ok.1 hr
    rw [he]
    exact hplain

namespace Record

theorem shape_of_ofValue {shape : Shape} {v : Value} {record : Record} (h : ofValue shape v = .ok record) :
    record.shape = shape := by
  cases shape with
  | roles | policies =>
    obtain ⟨a, -, rfl⟩ := Except.map_eq_ok.1 h
    rfl
  | raw =>
    cases h
    rfl

/-- Whatever value a record is found in, its conditions hold no object that is only a mark. -/
theorem settled_of_ofValue {shape : Shape} {v : Value} {record : Record} (h : ofValue shape v = .ok record) :
    record.Settled := by
  cases shape with
  | roles =>
    obtain ⟨r, -, rfl⟩ := Except.map_eq_ok.1 h
    trivial
  | policies =>
    obtain ⟨p, hp, rfl⟩ := Except.map_eq_ok.1 h
    exact Policy.settled_of_ofValue hp
  | raw =>
    cases h
    trivial

theorem isPlain_of_ofValue {shape : Shape} {v : Value} {record : Record} (hv : v.Settled)
    (h : ofValue shape v = .ok record) : record.isPlain = true := by
  cases shape with
  | roles =>
    obtain ⟨r, -, rfl⟩ := Except.map_eq_ok.1 h
    rfl
  | policies =>
    obtain ⟨p, hp, rfl⟩ := Except.map_eq_ok.1 h
    exact Policy.isPlain_of_ofValue hv hp
  | raw =>
    cases h
    rfl

theorem ofBody_eq_ok {shape : Shape} {body : List UInt8} {record : Record} :
    ofBody shape body = .ok record ↔ ∃ v, Value.parse body = .ok v ∧ ofValue shape v = .ok record := by
  unfold ofBody
  rw [Except.bind_eq_ok]
  simp only [Except.mapError_eq_ok]

/-- A record that a body describes has the shape asked for and no marks. -/
theorem of_ofBody {shape : Shape} {body : List UInt8} {record : Record}
    (h : ofBody shape body = .ok record) :
    record.shape = shape ∧ record.Settled ∧ record.isPlain = true := by
  obtain ⟨v, hv, hr⟩ := ofBody_eq_ok.1 h
  have hs : v.Settled := Value.settled_of_parse hv
  exact ⟨shape_of_ofValue hr, settled_of_ofValue hr, isPlain_of_ofValue hs hr⟩

end Record

/-! ## Seeds -/

namespace Seed

theorem validate_eq_ok {seed : Seed} (h : seed.validate = .ok ()) :
    (∀ r ∈ seed.roles, r.id ≠ "") ∧ ∀ p ∈ seed.policies, p.id ≠ "" := by
  unfold validate at h
  split at h
  · cases h
  · rename_i hr
    split_ifs at h with hp
    constructor
    · intro r hm e
      have hne := List.find?_eq_none.1 hr r hm
      rw [e] at hne
      exact hne rfl
    · intro p hm e
      refine hp (List.any_eq_true.2 ⟨p, hm, ?_⟩)
      rw [e]
      rfl

/-- The records of a seed that can be loaded have ids, and conditions that were read. -/
theorem of_ofFile {file : File} {seed : Seed} (h : ofFile file = .ok seed) :
    (∀ r ∈ seed.roles, r.id ≠ "") ∧ ∀ p ∈ seed.policies, p.id ≠ "" ∧ p.conditions.Settled := by
  unfold ofFile at h
  split at h
  · obtain ⟨seed', hs, h⟩ := Except.bind_eq_ok.1 h
    obtain ⟨⟨⟩, hv, h⟩ := Except.bind_eq_ok.1 h
    cases h
    obtain ⟨hr, hp⟩ := validate_eq_ok hv
    have hc := runAll_yields (yields_read _) (Except.mapError_eq_ok.1 hs)
    exact ⟨hr, fun p hm => ⟨hp p hm, hc p hm⟩⟩
  · cases h

end Seed

end AccessRecords
