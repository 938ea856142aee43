/-
Records and their ids. The member with the id can stand anywhere in the object that describes a record,
and it changes nothing but the id of the record; an object without it describes a record whose id is
empty.
-/
import AccessRecords.Proofs.Record.Conditions

namespace AccessRecords

open Json

/-! ## The member with the id -/

section Member

variable {before after members : List (String × Value)}

theorem Role.putMember_id (r : Role) (id : String) :
    schema.putMember r ("id", .text id) = .ok (r.withId id) := rfl

theorem Role.ofValue_object_append (h : ∀ m ∈ after, m.1 ≠ "id") (id : String) :
    schema.ofValue (.object (before ++ ("id", .text id) :: after)) =
      (schema.ofValue (.object (before ++ after))).map (withId id) := by
  refine Schema.ofValue_object_append (putMember_id · id) ?_ h
  simp only [schema, List.forall_mem_cons, List.not_mem_nil, false_imp_iff, implies_true, and_true]
  refine ⟨?id, ?members⟩ <;> intro hn v r
  case id => exact absurd rfl hn
  case members =>
    refine Field.ofValue_of_comm ?_ v r
    exact fun _ _ => rfl

theorem Policy.putMember_id (p : Policy) (id : String) :
    schema.putMember p ("id", .text id) = .ok (p.withId id) := rfl

theorem Policy.ofValue_object_append (h : ∀ m ∈ after, m.1 ≠ "id") (id : String) :
    schema.ofValue (.object (before ++ ("id", .text id) :: after)) =
      (schema.ofValue (.object (before ++ after))).map (withId id) := by
  refine Schema.ofValue_object_append (putMember_id · id) ?_ h
  simp only [schema, List.forall_mem_cons, List.not_mem_nil, false_imp_iff, implies_true, and_true]
  refine ⟨?id, ?description, ?subjects, ?resources, ?actions, ?effect, ?conditions⟩ <;> intro hn v p
  case id => exact absurd rfl hn
  all_goals
    refine Field.ofValue_of_comm ?_ v p
    exact fun _ _ => rfl

namespace Record

variable {shape : Shape}

/-- The member with the id sets the id of what is described without it. -/
theorem ofValue_object_append (hs : shape ≠ .raw) (h : ∀ m ∈ after, m.1 ≠ "id") (id : String) :
    ofValue shape (.object (before ++ ("id", .text id) :: after)) =
      (ofValue shape (.object (before ++ after))).map (withId id) := by
  cases shape with
  | roles =>
    show (Role.schema.ofValue _).map Record.role = ((Role.schema.ofValue _).map Record.role).map _
    rw [Role.ofValue_object_append h]
    cases Role.schema.ofValue (.object (before ++ after)) <;> rfl
  | policies =>
    show (Policy.schema.ofValue _).map Record.policy = ((Policy.schema.ofValue _).map Record.policy).map _
    rw [Policy.ofValue_object_append h]
    cases Policy.schema.ofValue (.object (before ++ after)) <;> rfl
  | raw => exact absurd rfl hs

/-- An empty id is no different from none. -/
theorem ofValue_object_empty (hs : shape ≠ .raw) (h : ∀ m ∈ members, m.1 ≠ "id") :
    (ofValue shape (.object members)).map (withId "") = ofValue shape (.object members) := by
  have happend : ofValue shape (.object ([] ++ ("id", .text "") :: members)) = _ := ofValue_object_append hs h ""
  rw [List.nil_append, List.nil_append] at happend
  rw [← happend]
  cases shape with
  | roles =>
    exact congrArg (Except.map role) (Schema.foldlM_putMember_cons (Role.putMember_id _ "") members)
  | policies =>
    exact congrArg (Except.map policy) (Schema.foldlM_putMember_cons (Policy.putMember_id _ "") members)
  | raw => exact absurd rfl hs

theorem id?_of_ofValue_object (hs : shape ≠ .raw) (h : ∀ m ∈ members, m.1 ≠ "id") {record : Record}
    (hr : ofValue shape (.object members) = .ok record) : record.id? = some "" := by
  have he := ofValue_object_empty hs h
  rw [hr] at he
  rw [← Except.ok.inj he]
  exact id?_withId (shape_of_ofValue hr ▸ hs) ""

end Record

end Member

end AccessRecords
