/-
Listings as lists of records: reading documents as a listing is reading them one by one, and
filtering and cutting a listing is filtering and cutting its records. A record is one that a query
asks for if in each of its dimensions the query wants nothing, or something that the record has.
-/
import AccessRecords.Proofs.Except
import AccessRecords.Proofs.Page
import AccessRecords.Search

namespace AccessRecords

open Json

/-! ## What a query asks for -/

/-- The query keys that a record is held against, each with the values that the record has. -/
def Record.dimensions : Record → List (String × List String)
  | .role r => [("member", r.members), ("id", [r.id])]
  | .policy p =>
    [("subject", p.subjects), ("resource", p.resources), ("action", p.actions), ("id", [p.id])]
  | .raw _ => []

/-- The query keys that the records of a shape are held against. -/
def Shape.dimensions : Shape → List String
  | .roles => ["member", "id"]
  | .policies => ["subject", "resource", "action", "id"]
  | .raw => []

/-- What calls for a search is every key, other than the id, that the records of the kind are held
against. -/
theorem Collection.Kind.mem_scanDimensions {kind : Kind} {k : String} :
    k ∈ kind.scanDimensions ↔ k ∈ kind.shape.dimensions ∧ k ≠ "id" := by
  have hperm : kind.scanDimensions.Perm (kind.shape.dimensions.filter (· ≠ "id")) := by
    cases kind <;> decide
  rw [hperm.mem_iff, List.mem_filter, decide_eq_true_eq]

theorem Record.keys_dimensions (r : Record) : r.dimensions.map (·.1) = r.shape.dimensions := by
  cases r <;> rfl

theorem Record.mem_dimensions {r : Record} {d : String × List String} (h : d ∈ r.dimensions) :
    d.1 ∈ r.shape.dimensions := by
  rw [← r.keys_dimensions]
  exact List.mem_map_of_mem h

/-- In each dimension of the record the query wants nothing, or a value that the record has. -/
def Query.AsksFor (q : Query) (r : Record) : Prop :=
  ∀ d ∈ r.dimensions, q.values d.1 = [] ∨ ∃ v ∈ q.values d.1, v ∈ d.2

instance (q : Query) (r : Record) : Decidable (q.AsksFor r) :=
  inferInstanceAs (Decidable (∀ d ∈ r.dimensions, q.values d.1 = [] ∨ ∃ v ∈ q.values d.1, v ∈ d.2))

theorem admits_intersects (held wanted : List String) :
    admits wanted (intersects held) = true ↔ wanted = [] ∨ ∃ v ∈ wanted, v ∈ held := by
  unfold admits intersects
  rw [Bool.or_eq_true, List.isEmpty_iff, List.any_eq_true]
  refine or_congr_right ⟨?_, ?_⟩
  · rintro ⟨v, hv, hw⟩
    exact ⟨v, List.contains_iff_mem.1 hw, hv⟩
  · rintro ⟨v, hw, hv⟩
    exact ⟨v, hv, List.contains_iff_mem.2 hw⟩

theorem admits_contains (id : String) (wanted : List String) :
    admits wanted (·.contains id) = true ↔ wanted = [] ∨ ∃ v ∈ wanted, v ∈ [id] := by
  unfold admits
  rw [Bool.or_eq_true, List.isEmpty_iff, List.contains_iff_mem]
  simp

theorem Role.matches_iff (r : Role) (q : Query) : r.matches q = true ↔ q.AsksFor (.role r) := by
  unfold Role.matches Query.AsksFor Record.dimensions
  rw [Bool.and_eq_true, admits_contains]
  unfold Role.hasAnyMember
  rw [admits_intersects]
  simp only [List.forall_mem_cons, List.not_mem_nil, false_imp_iff, implies_true, and_true]

theorem Policy.matches_iff (p : Policy) (q : Query) : p.matches q = true ↔ q.AsksFor (.policy p) := by
  unfold Policy.matches Query.AsksFor Record.dimensions
  rw [Bool.and_eq_true, Bool.and_eq_true, Bool.and_eq_true, admits_contains]
  unfold Policy.hasAnySubject Policy.hasAnyResource Policy.hasAnyAction
  rw [admits_intersects, admits_intersects, admits_intersects]
  simp only [List.forall_mem_cons, List.not_mem_nil, false_imp_iff, implies_true, and_true, and_assoc]

namespace Listing

/-! ## Records of a listing -/

theorem ext_records {l l' : Listing} (hs : l.shape = l'.shape) (hr : l.records = l'.records) : l = l' := by
  match l, l', hs, hr with
  | .roles _, .roles _, _, hr => rw [(List.map_injective_iff.2 fun _ _ h => Record.role.inj h) hr]
  | .policies _, .policies _, _, hr => rw [(List.map_injective_iff.2 fun _ _ h => Record.policy.inj h) hr]
  | .raw _, .raw _, _, hr => rw [(List.map_injective_iff.2 fun _ _ h => Record.raw.inj h) hr]

/-- The documents of a listing are those of its records. -/
theorem values_eq (l : Listing) : l.values = l.records.map Record.toValue := by
  cases l <;> simp [values, records, Function.comp_def, Record.toValue]

/-- Reading documents as a listing is reading each of them. -/
theorem ofValues_records (shape : Shape) (values : List Value) :
    (ofValues shape values).map records = values.mapM (Record.ofValue shape) := by
  cases shape with
  | roles =>
    show Except.map _ (Except.map _ _) = values.mapM fun v => (Role.schema.ofValue v).map Record.role
    rw [Except.mapM_map]
    cases values.mapM Role.schema.ofValue <;> rfl
  | policies =>
    show Except.map _ (Except.map _ _) = values.mapM fun v => (Policy.schema.ofValue v).map Record.policy
    rw [Except.mapM_map]
    cases values.mapM Policy.schema.ofValue <;> rfl
  | raw =>
    show Except.ok (values.map Record.raw) = values.mapM fun v => Except.ok (Record.raw v)
    exact (List.mapM_pure (m := Except Fault)).symm

theorem shape_of_ofValues {shape : Shape} {values : List Value} {l : Listing}
    (h : ofValues shape values = .ok l) : l.shape = shape := by
  cases shape with
  | roles | policies =>
    obtain ⟨items, -, rfl⟩ := Except.map_eq_ok.1 h
    rfl
  | raw =>
    cases h
    rfl

theorem ofValues_eq_error {shape : Shape} {values : List Value} {fault : Fault} :
    ofValues shape values = .error fault ↔ values.mapM (Record.ofValue shape) = .error fault := by
  rw [← ofValues_records, Except.map_eq_error]

/-! ## Filtering and cutting -/

theorem filter_eq_ok {l : Listing} (q : Query) (h : l.shape ≠ .raw) :
    ∃ l', l.filter q = .ok l' ∧ l'.shape = l.shape ∧ l'.records = l.records.filter (q.AsksFor ·) := by
  cases l with
  | roles items =>
    refine ⟨_, rfl, rfl, ?_⟩
    show (items.filter _).map _ = (items.map _).filter _
    rw [List.filter_map]
    refine congrArg (List.map _) (List.filter_congr fun r _ => ?_)
    rw [Function.comp_apply, Bool.eq_iff_iff, Role.matches_iff, decide_eq_true_iff]
  | policies items =>
    refine ⟨_, rfl, rfl, ?_⟩
    show (items.filter _).map _ = (items.map _).filter _
    rw [List.filter_map]
    refine congrArg (List.map _) (List.filter_congr fun p _ => ?_)
    rw [Function.comp_apply, Bool.eq_iff_iff, Policy.matches_iff, decide_eq_true_iff]
  | raw items => exact absurd rfl h

@[simp] theorem shape_window (l : Listing) (page : Page) : (l.window page).shape = l.shape := by
  cases l <;> rfl

theorem records_window (l : Listing) (page : Page) :
    (l.window page).records = (l.records.drop page.offset).take page.limit := by
  cases l <;> simp only [window, records, Page.window_eq, List.map_take, List.map_drop]

end Listing

end AccessRecords
