/-
Normal forms. What is read from a document in any accepted form is written in one: an object with all
fields, in the order of their names. Main statement: the normal form is read back as the record it was
written from, one by one and in listings, exactly if the conditions of the record have no marks of
embedded texts, and is no record otherwise; for documents that were themselves read from texts there
are none.
-/
import AccessRecords.Proofs.Record.Conditions
import AccessRecords.Proofs.Record.Listing

namespace AccessRecords

open Json

/-! ## Single records -/

namespace Record

variable {shape : Shape} {v : Value} {record : Record}

theorem decode_eq_ok : decode shape v = .ok record ↔ ofValue shape v = .ok record := Except.mapError_eq_ok

theorem decode_toValue_self (record : Record) :
    decode record.shape record.toValue = .ok record ↔ record.isPlain = true := by
  rw [decode_eq_ok]
  constructor
  · intro h
    rw [ofValue_toValue] at h
    exact isPlain_of_resolve h rfl
  · exact ofValue_toValue_of_isPlain

theorem toValue_of_decode_raw (h : decode .raw v = .ok record) : record.toValue = v := by
  cases h
  rfl

/-- The normal form of a document is read as the record that the document was read as, or as none. -/
theorem decode_toValue (h : decode shape v = .ok record) (record' : Record) :
    decode shape record.toValue = .ok record' ↔ record.isPlain = true ∧ record' = record := by
  rw [decode_eq_ok] at h ⊢
  obtain rfl := shape_of_ofValue h
  exact ofValue_toValue_iff (settled_of_ofValue h) record'

end Record

/-! ## Listings -/

namespace Listing

variable {shape : Shape} {values : List Value} {l : Listing}

/-- A listing is read from documents item by item, in order. -/
theorem decode_eq_ok : decode shape values = .ok l ↔
    l.shape = shape ∧ List.Forall₂ (fun v record => Record.decode shape v = .ok record) values l.records := by
  unfold decode
  simp only [Except.mapError_eq_ok, Record.decode_eq_ok, ← Except.mapM_eq_ok, ← ofValues_records]
  constructor
  · intro h
    rw [h]
    exact ⟨shape_of_ofValues h, rfl⟩
  · rintro ⟨hs, hr⟩
    obtain ⟨l', he, hr⟩ := Except.map_eq_ok.1 hr
    rw [he, ext_records ((shape_of_ofValues he).trans hs.symm) hr]

/-- Documents are read as a listing if each of them is read. -/
theorem exists_decode_iff :
    (∃ l, decode shape values = .ok l) ↔ ∀ v ∈ values, ∃ record, Record.decode shape v = .ok record := by
  constructor
  · rintro ⟨l, h⟩ v hv
    have hm := (Except.mem_of_mapM_eq_ok (Except.mapM_eq_ok.2 (decode_eq_ok.1 h).2)).1
    obtain ⟨record, -, hr⟩ := hm v hv
    exact ⟨record, hr⟩
  · intro h
    choose! record hr using h
    have hm : values.mapM (Record.ofValue shape) = .ok (values.map record) := by
      rw [Except.mapM_eq_ok, List.forall₂_map_right_iff, List.forall₂_same]
      exact fun v hv => Record.decode_eq_ok.1 (hr v hv)
    rw [← ofValues_records] at hm
    obtain ⟨l, hl, -⟩ := Except.map_eq_ok.1 hm
    exact ⟨l, Except.mapError_eq_ok.2 hl⟩

/-- Two lists are related item by item by a relation that allows nothing but equality if they are equal
and all items are allowed. -/
theorem forall₂_iff_eq {α : Type} {R : α → α → Prop} {P : α → Prop} {as : List α}
    (h : ∀ a ∈ as, ∀ b, R a b ↔ P a ∧ b = a) (bs : List α) :
    List.Forall₂ R as bs ↔ (∀ a ∈ as, P a) ∧ bs = as := by
  induction as generalizing bs with
  | nil => simp
  | cons a as ih =>
    rw [List.forall_mem_cons] at h
    rw [List.forall₂_cons_left_iff, List.forall_mem_cons]
    simp only [h.1, ih h.2]
    constructor
    · rintro ⟨b, bs', ⟨hp, rfl⟩, ⟨hps, rfl⟩, rfl⟩
      exact ⟨⟨hp, hps⟩, rfl⟩
    · rintro ⟨⟨hp, hps⟩, rfl⟩
      exact ⟨a, as, ⟨hp, rfl⟩, ⟨hps, rfl⟩, rfl⟩

/-- The normal forms of documents are read as the listing that the documents were read as, or as none. -/
theorem decode_values (h : decode shape values = .ok l) (l' : Listing) :
    decode shape l.values = .ok l' ↔ (∀ record ∈ l.records, record.isPlain = true) ∧ l' = l := by
  obtain ⟨hs, hr⟩ := decode_eq_ok.1 h
  have hread : ∀ record ∈ l.records, ∀ record', Record.decode shape record.toValue = .ok record' ↔
      record.isPlain = true ∧ record' = record := by
    intro record hm
    obtain ⟨v, -, hv⟩ := (Except.mem_of_mapM_eq_ok (Except.mapM_eq_ok.2 hr)).2 record hm
    exact Record.decode_toValue hv
  rw [decode_eq_ok, values_eq, List.forall₂_map_left_iff, forall₂_iff_eq hread]
  constructor
  · rintro ⟨hs', hp, he⟩
    exact ⟨hp, ext_records (hs'.trans hs.symm) he⟩
  · rintro ⟨hp, rfl⟩
    exact ⟨hs, hp, rfl⟩

end Listing

/-! ## The main statement -/

namespace Shape

/-- Reading documents as a shape and writing them again. A record of the shape is read back from its
document exactly if its conditions have no marks. What is read from any document has the shape, and
from its normal form the same is read exactly if there are no marks, and nothing otherwise; a document
of any form is its own normal form, and none that was read from a text has marks. Documents are read as
a listing exactly if each is, one by one and in order, the listing is written as the list of the normal
forms, and the same is read from these if none has marks. -/
theorem normal_forms (shape : Shape) :
    (∀ record : Record, record.shape = shape →
      (Record.decode shape record.toValue = .ok record ↔ record.isPlain = true)) ∧
    (∀ (v : Value) (record : Record), Record.decode shape v = .ok record →
      record.shape = shape ∧ (shape = .raw → record.toValue = v) ∧ (v.Settled → record.isPlain = true) ∧
      ∀ record', Record.decode shape record.toValue = .ok record' ↔ record.isPlain = true ∧ record' = record) ∧
    (∀ values : List Value, (∃ l, Listing.decode shape values = .ok l) ↔
      ∀ v ∈ values, ∃ record, Record.decode shape v = .ok record) ∧
    ∀ (values : List Value) (l : Listing), Listing.decode shape values = .ok l →
      List.Forall₂ (fun v record => Record.decode shape v = .ok record) values l.records ∧
      l.toValue = .list (l.records.map Record.toValue) ∧
      ∀ l', Listing.decode shape l.values = .ok l' ↔
        (∀ record ∈ l.records, record.isPlain = true) ∧ l' = l := by
  refine ⟨?same, ?read, fun _ => Listing.exists_decode_iff, ?listed⟩
  case same =>
    rintro record rfl
    exact record.decode_toValue_self
  case read =>
    intro v record h
    have hv := Record.decode_eq_ok.1 h
    refine ⟨Record.shape_of_ofValue hv, ?_, fun hs => Record.isPlain_of_ofValue hs hv, Record.decode_toValue h⟩
    rintro rfl
    exact Record.toValue_of_decode_raw h
  case listed =>
    intro values l h
    exact ⟨(Listing.decode_eq_ok.1 h).2, congrArg Value.list l.values_eq, Listing.decode_values h⟩

/-- A policy given by position, with its effect as an object and conditions that are null, and its normal
form, which is an object with all fields. -/
theorem normal_forms_positional :
    let v : Value := .list [.text "p", .text "", .list [], .list [], .list [.text "read"],
      .object [("allow", .null)], .null]
    let record : Record := .policy { id := "p", actions := ["read"], effect := .allow, conditions := .null }
    Record.decode .policies v = .ok record ∧ record.toValue ≠ v ∧
      Record.decode .policies record.toValue = .ok record := by
  intro v record
  have h : Record.decode .policies v = .ok record := rfl
  obtain ⟨-, hread, -, -⟩ := normal_forms .policies
  obtain ⟨-, -, -, hsame⟩ := hread v record h
  exact ⟨h, nofun, (hsame record).2 ⟨rfl, rfl⟩⟩

/-- A policy whose conditions have the mark of an embedded text and another key. -/
def markedPolicy : Policy :=
  { id := "p", conditions := .object [(Value.embeddingKey, .text "[1]"), ("z", .int 1)] }

/-- The document of a policy whose conditions are an embedded text with these two keys. -/
def embeddedDocument : Value :=
  .object [("conditions", .object [(Value.embeddingKey,
      .text ("\x7b\"z\":1,\"" ++ Value.embeddingKey ++ "\":\"[1]\"\x7d"))]), ("id", .text "p")]

/-- The policy is read from the second document, and neither it nor any other is read from its own. -/
theorem marked_policy_not_read_back :
    Record.decode .policies embeddedDocument = .ok (.policy markedPolicy) ∧
      ∀ record, Record.decode .policies (Record.policy markedPolicy).toValue ≠ .ok record := by
  have h : Record.decode .policies embeddedDocument = .ok (.policy markedPolicy) := by rfl
  refine ⟨h, fun record hr => ?_⟩
  have hplain : markedPolicy.conditions.isPlain = true := ((Record.decode_toValue h record).1 hr).1
  simp [markedPolicy, Value.isPlain] at hplain

end Shape

end AccessRecords
