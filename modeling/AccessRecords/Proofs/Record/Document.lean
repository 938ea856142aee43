/-
Documents of records. The document of a role is read back as that role. The document of a policy is
read back with its conditions resolved: conditions that were themselves read stay what they are or
make the document no policy at all, and which of the two follows from the marks in them.
-/
import AccessRecords.Proofs.Json.Embedded
import AccessRecords.Proofs.Json.Schema
import AccessRecords.Record

namespace AccessRecords

open Json

/-! ## Fields -/

theorem Json.Decoder.ofValue_texts (l : List String) : (Decoder.list .text).ofValue (.texts l) = .ok l := by
  show (l.map Value.text).mapM Decoder.text.ofValue = .ok l
  rw [Except.mapM_eq_ok, List.forall₂_map_left_iff, List.forall₂_same]
  exact fun s _ => rfl

theorem Effect.ofValue_name (e : Effect) : Effect.ofValue (.text e.name) = .ok e := by
  cases e <;> rfl

/-! ## Roles -/

theorem Role.ofValue_toValue (r : Role) : Role.schema.ofValue r.toValue = .ok r := by
  show [("id", Value.text r.id), ("members", Value.texts r.members)].foldlM Role.schema.putMember {} = _
  rw [Schema.foldlM_putMember_cons (Schema.putMember_of rfl rfl _),
    Schema.foldlM_putMember_cons (Schema.putMember_of rfl (Decoder.ofValue_texts _) _)]
  rfl

/-! ## Policies -/

theorem Policy.ofValue_toValue (p : Policy) :
    Policy.schema.ofValue p.toValue = p.conditions.resolve.map fun conditions => { p with conditions } := by
  show [("actions", Value.texts p.actions), ("conditions", p.conditions),
    ("description", .text p.description), ("effect", .text p.effect.name), ("id", .text p.id),
    ("resources", .texts p.resources), ("subjects", .texts p.subjects)].foldlM
      Policy.schema.putMember {} = _
  rw [Schema.foldlM_putMember_cons (Schema.putMember_of rfl (Decoder.ofValue_texts _) _)]
  cases hc : p.conditions.resolve with
  | error fault =>
    rw [List.foldlM_cons]
    show (p.conditions.resolve.map _ >>= _) = _
    rw [hc]
    rfl
  | ok conditions =>
    rw [Schema.foldlM_putMember_cons (Schema.putMember_of rfl hc _),
      Schema.foldlM_putMember_cons (Schema.putMember_of rfl rfl _),
      Schema.foldlM_putMember_cons (Schema.putMember_of rfl (Effect.ofValue_name _) _),
      Schema.foldlM_putMember_cons (Schema.putMember_of rfl rfl _),
      Schema.foldlM_putMember_cons (Schema.putMember_of rfl (Decoder.ofValue_texts _) _),
      Schema.foldlM_putMember_cons (Schema.putMember_of rfl (Decoder.ofValue_texts _) _)]
    rfl

/-- The document of a policy whose conditions were read is read back exactly if they have no marks,
and otherwise it is no policy. -/
theorem Policy.ofValue_toValue_iff {p : Policy} (h : p.conditions.Settled) (p' : Policy) :
    Policy.schema.ofValue p.toValue = .ok p' ↔ p.conditions.isPlain = true ∧ p' = p := by
  rw [Policy.ofValue_toValue, Except.map_eq_ok]
  constructor
  · rintro ⟨conditions, hr, rfl⟩
    obtain ⟨hp, rfl⟩ := h.resolve_eq_ok.1 hr
    exact ⟨hp, rfl⟩
  · rintro ⟨hp, rfl⟩
    exact ⟨p'.conditions, h.resolve_eq_ok.2 ⟨hp, rfl⟩, rfl⟩

/-- The document of a policy holds the conditions of the policy. -/
theorem Policy.conditions_inj {p p' : Policy} (h : p.toValue = p'.toValue) : p.conditions = p'.conditions := by
  unfold Policy.toValue at h
  simp only [Value.object.injEq, List.cons.injEq, Prod.mk.injEq] at h
  exact h.2.1.2

/-- The role with another id. -/
def Role.withId (id : String) (r : Role) : Role := { r with id }

/-- The policy with another id. -/
def Policy.withId (id : String) (p : Policy) : Policy := { p with id }

/-! ## Records of either kind -/

namespace Record

/-- The id of a record; a document of any form has none. -/
def id? : Record → Option String
  | .role r => some r.id
  | .policy p => some p.id
  | .raw _ => none

/-- The record with another id, and otherwise as it is; a document of any form has no id. -/
def withId (id : String) : Record → Record
  | .role r => .role (r.withId id)
  | .policy p => .policy (p.withId id)
  | .raw v => .raw v

theorem withId_withId (record : Record) (id id' : String) : (record.withId id).withId id' = record.withId id' := by
  cases record <;> rfl

theorem shape_withId (record : Record) (id : String) : (record.withId id).shape = record.shape := by
  cases record <;> rfl

theorem id?_withId {record : Record} (h : record.shape ≠ .raw) (id : String) :
    (record.withId id).id? = some id := by
  cases record with
  | role r => rfl
  | policy p => rfl
  | raw v => exact absurd rfl h

theorem withId_of_id? {record : Record} {id : String} (h : record.id? = some id) : record.withId id = record := by
  cases record with
  | role r =>
    cases h
    rfl
  | policy p =>
    cases h
    rfl
  | raw v => rfl

/-- The conditions of the record, if it has any, hold no object that is only a mark. -/
def Settled : Record → Prop
  | .policy p => p.conditions.Settled
  | _ => True

/-- Whether the conditions of the record, if it has any, hold no mark. -/
def isPlain : Record → Bool
  | .policy p => p.conditions.isPlain
  | _ => true

/-- The record with its conditions, if it has any, resolved. -/
def resolve : Record → Except Fault Record
  | .policy p => p.conditions.resolve.map fun conditions => .policy { p with conditions }
  | record => .ok record

/-- Reading back the document of a record resolves its conditions. -/
theorem ofValue_toValue (record : Record) : ofValue record.shape record.toValue = record.resolve := by
  cases record with
  | role r =>
    show (Role.schema.ofValue r.toValue).map Record.role = _
    rw [Role.ofValue_toValue]
    rfl
  | policy p =>
    show (Policy.schema.ofValue p.toValue).map Record.policy = p.conditions.resolve.map _
    rw [Policy.ofValue_toValue]
    cases p.conditions.resolve <;> rfl
  | raw v => rfl

theorem resolve_of_isPlain {record : Record} (h : record.isPlain = true) : record.resolve = .ok record := by
  cases record with
  | role r => rfl
  | policy p =>
    have hr : p.conditions.resolve = .ok p.conditions := Value.resolve_of_isPlain h
    show p.conditions.resolve.map _ = _
    rw [hr]
    rfl
  | raw v => rfl

/-- A record without marks is read back from its document. -/
theorem ofValue_toValue_of_isPlain {record : Record} (h : record.isPlain = true) :
    ofValue record.shape record.toValue = .ok record :=
  (ofValue_toValue record).trans (resolve_of_isPlain h)

/-- A record has no marks if resolving it leaves its document what it was. -/
theorem isPlain_of_resolve {record record' : Record} (h : record.resolve = .ok record')
    (hv : record'.toValue = record.toValue) : record.isPlain = true := by
  cases record with
  | role r => rfl
  | policy p =>
    obtain ⟨conditions, hr, rfl⟩ := Except.map_eq_ok.1 h
    have hc : conditions = p.conditions := Policy.conditions_inj hv
    rw [hc] at hr
    exact Value.isPlain_of_resolve hr
  | raw v => rfl

/-- The document of a record that was read is read back as that record or as none. -/
theorem ofValue_toValue_iff {record : Record} (h : record.Settled) (record' : Record) :
    ofValue record.shape record.toValue = .ok record' ↔ record.isPlain = true ∧ record' = record := by
  cases record with
  | role r =>
    show (Role.schema.ofValue r.toValue).map Record.role = _ ↔ true = true ∧ _
    rw [Role.ofValue_toValue, Except.map_eq_ok]
    constructor
    · rintro ⟨r', e, rfl⟩
      cases e
      exact ⟨rfl, rfl⟩
    · rintro ⟨-, rfl⟩
      exact ⟨r, rfl, rfl⟩
  | policy p =>
    show (Policy.schema.ofValue p.toValue).map Record.policy = _ ↔ p.conditions.isPlain = true ∧ _
    rw [Except.map_eq_ok]
    constructor
    · rintro ⟨p', e, rfl⟩
      obtain ⟨hp, rfl⟩ := (Policy.ofValue_toValue_iff h p').1 e
      exact ⟨hp, rfl⟩
    · rintro ⟨hp, rfl⟩
      exact ⟨p, (Policy.ofValue_toValue_iff h p).2 ⟨hp, rfl⟩, rfl⟩
  | raw v =>
    show Except.ok (Record.raw v) = _ ↔ true = true ∧ _
    rw [Except.ok.injEq, eq_comm, eq_self_iff_true, true_and]

end Record

end AccessRecords
