/-
The store seen collection by collection: the documents of a collection ascend by key, a look-up
among them is a look-up in the store, and a write or a removal changes one look-up and no other.
Two stores that answer every look-up in a collection alike hold the same documents in it. They are
equal if they have tables for the same collections, too; a removal never takes a table away.
-/
import AccessRecords.Proofs.Page
import AccessRecords.Proofs.Text.Order
import AccessRecords.Store

namespace AccessRecords

open Json

/-- Where a document is kept. -/
structure Address where
  collection : String
  key : String
deriving DecidableEq, Repr, Inhabited

/-- Texts as keys ascend in the order of texts. -/
theorem Entries.Ascending.keys_ascending {β : Type} {l : List (String × β)} (h : Ascending l) :
    (l.map (·.1)).Pairwise (· < ·) := by
  rw [List.pairwise_map]
  exact h.imp fun hlt => Text.compare_eq_lt.1 hlt

namespace Store

variable {s t : Store} {c c' k k' : String} {d : Value}

/-! ## Tables after changes -/

/-- The collection has a table, be it empty. -/
def HasTable (s : Store) (c : String) : Prop := s.tables.contains c = true

instance : Decidable (s.HasTable c) := inferInstanceAs (Decidable (_ = true))

theorem tables_insert : (s.insert c k d).tables.get? c' =
    if c' = c then some (((s.tables.get? c).getD ∅).insert k d) else s.tables.get? c' :=
  Table.get?_insert s.tables c c' _

theorem tables_erase : (s.erase c k).tables.get? c' =
    if c' = c then (s.tables.get? c).map (·.erase k) else s.tables.get? c' := by
  unfold erase
  cases h : s.tables.get? c with
  | none =>
    dsimp only
    split_ifs with hc
    · rw [hc, h, Option.map_none]
    · rfl
  | some table => exact Table.get?_insert s.tables c c' _

theorem not_hasTable_empty : ¬ (∅ : Store).HasTable c := Bool.false_ne_true

theorem hasTable_insert : (s.insert c k d).HasTable c' ↔ c' = c ∨ s.HasTable c' := by
  unfold HasTable Table.contains
  rw [tables_insert]
  split_ifs with hc <;> simp [hc]

theorem hasTable_erase : (s.erase c k).HasTable c' ↔ s.HasTable c' := by
  unfold HasTable Table.contains
  rw [tables_erase]
  split_ifs with hc
  · rw [hc, Option.isSome_map]
  · rfl

/-! ## Look-ups after changes -/

/-- A missing table is read as an empty one. -/
theorem get?_eq : s.get? c k = ((s.tables.get? c).getD ∅).get? k := by
  unfold get?
  cases s.tables.get? c <;> rfl

@[simp] theorem get?_empty : (∅ : Store).get? c k = none := rfl

theorem get?_insert : (s.insert c k d).get? c' k' = if c' = c ∧ k' = k then some d else s.get? c' k' := by
  rw [get?_eq, get?_eq, tables_insert, ite_and]
  split_ifs with hc hk
  · rw [Option.getD_some, Table.get?_insert, if_pos hk]
  · rw [Option.getD_some, Table.get?_insert, if_neg hk, hc]
  · rfl

theorem get?_erase : (s.erase c k).get? c' k' = if c' = c ∧ k' = k then none else s.get? c' k' := by
  have htable : ((s.tables.get? c).map (·.erase k)).getD ∅ = ((s.tables.get? c).getD ∅).erase k := by
    cases s.tables.get? c <;> rfl
  rw [get?_eq, get?_eq, tables_erase, ite_and]
  split_ifs with hc hk
  · rw [htable, Table.get?_erase, if_pos hk]
  · rw [htable, Table.get?_erase, if_neg hk, hc]
  · rfl

/-! ## The documents of a collection -/

theorem documents_eq : s.documents c = ((s.tables.get? c).getD ∅).entries := by
  unfold documents
  cases s.tables.get? c <;> rfl

theorem documents_ascending (s : Store) (c : String) : Entries.Ascending (s.documents c) := by
  rw [documents_eq]
  exact Table.ascending _

theorem mem_documents : (k, d) ∈ s.documents c ↔ s.get? c k = some d := by
  rw [documents_eq, get?_eq]
  exact Table.mem_entries

theorem find?_documents : Entries.find? k (s.documents c) = s.get? c k := by
  refine Option.ext fun d => ?_
  rw [← Entries.mem_iff_find? (documents_ascending s c), mem_documents]

/-- Stores that answer every look-up in a collection alike hold the same documents in it. -/
theorem documents_congr (h : ∀ k, s.get? c k = t.get? c k) : s.documents c = t.documents c := by
  refine Entries.ext (documents_ascending s c) (documents_ascending t c) fun k => ?_
  rw [find?_documents, find?_documents, h]

/-- Stores that have tables for the same collections and answer every look-up alike are equal. -/
theorem ext_get? (hh : ∀ c, s.HasTable c ↔ t.HasTable c) (hg : ∀ c k, s.get? c k = t.get? c k) : s = t := by
  obtain ⟨tables⟩ := s
  obtain ⟨tables'⟩ := t
  refine congrArg Store.mk (Table.ext fun c => ?_)
  have hc : (tables.get? c).isSome ↔ (tables'.get? c).isSome := hh c
  have hk : ∀ k, (tables.get? c).bind (·.get? k) = (tables'.get? c).bind (·.get? k) := hg c
  cases ht : tables.get? c with
  | none =>
    rw [ht] at hc
    exact (Option.not_isSome_iff_eq_none.1 fun h => by simpa using hc.2 h).symm
  | some table =>
    rw [ht] at hc hk
    obtain ⟨table', ht'⟩ := Option.isSome_iff_exists.1 (hc.1 rfl)
    rw [ht'] at hk ⊢
    exact congrArg some (Table.ext hk)

theorem get?_congr (h : s.documents c = t.documents c) (k : String) : s.get? c k = t.get? c k := by
  rw [← find?_documents, h, find?_documents]

theorem values_congr (h : s.documents c = t.documents c) : s.values c = t.values c := by
  unfold values
  rw [h]

theorem page_congr (h : s.documents c = t.documents c) (p : Page) : s.page c p = t.page c p := by
  unfold page length
  rw [values_congr h, h]

theorem length_values (s : Store) (c : String) : (s.values c).length = s.length c := List.length_map _

theorem page_eq (s : Store) (c : String) (p : Page) :
    s.page c p = ((s.values c).drop p.offset).take p.limit := by
  rw [← p.slice_index, List.drop_take, length_values]
  rfl

/-- The keys of a collection ascend. -/
theorem keys_ascending (s : Store) (c : String) : ((s.documents c).map (·.1)).Pairwise (· < ·) :=
  (documents_ascending s c).keys_ascending

/-- The keys of a collection as a set. -/
def keys (s : Store) (c : String) : Finset String := ((s.documents c).map (·.1)).toFinset

theorem mem_keys : k ∈ s.keys c ↔ ∃ d, s.get? c k = some d := by
  unfold keys
  rw [List.mem_toFinset, List.mem_map]
  constructor
  · rintro ⟨⟨k', d⟩, hd, rfl⟩
    exact ⟨d, mem_documents.1 hd⟩
  · rintro ⟨d, hd⟩
    exact ⟨(k, d), mem_documents.2 hd, rfl⟩

/-- A collection has as many documents as keys. -/
theorem card_keys (s : Store) (c : String) : (s.keys c).card = s.length c := by
  have hn : ((s.documents c).map (·.1)).Nodup := (keys_ascending s c).imp fun hlt => hlt.ne
  unfold keys
  rw [List.toFinset_card_of_nodup hn, List.length_map]
  rfl

/-! ## Collections with given documents -/

/-- A document under a key after all others of the collection comes last. -/
theorem documents_insert_of_gt (h : ∀ k' ∈ s.keys c, k' < k) :
    (s.insert c k d).documents c = s.documents c ++ [(k, d)] := by
  have hlt : ∀ e ∈ s.documents c, e.1 < k := fun e he => h e.1 (mem_keys.2 ⟨e.2, mem_documents.1 he⟩)
  have hasc : Entries.Ascending (s.documents c ++ [(k, d)]) := by
    refine List.pairwise_append.2 ⟨documents_ascending s c, List.pairwise_singleton _ _, ?_⟩
    intro e he e' he'
    rw [List.mem_singleton.1 he']
    exact Text.compare_eq_lt.2 (hlt e he)
  refine Entries.ext (documents_ascending _ c) hasc fun k' => Option.ext fun d' => ?_
  rw [find?_documents, get?_insert, ← Entries.mem_iff_find? hasc, List.mem_append, mem_documents, List.mem_singleton]
  by_cases hk : k' = k
  · subst hk
    have hnone : s.get? c k' ≠ some d' := fun hd => (h k' (mem_keys.2 ⟨d', hd⟩)).false
    simp [hnone, eq_comm]
  · simp [hk]

/-- Any list of documents is what a collection of some store holds. -/
theorem exists_values_eq (c : String) (documents : List Value) : ∃ s : Store, s.values c = documents := by
  induction documents using List.reverseRecOn with
  | nil => exact ⟨∅, rfl⟩
  | append_singleton documents d ih =>
    obtain ⟨s, hs⟩ := ih
    obtain ⟨k, hk⟩ := Text.exists_gt (s.keys c)
    refine ⟨s.insert c k d, ?_⟩
    unfold values at hs ⊢
    rw [documents_insert_of_gt hk, List.map_append, hs]
    rfl

/-! ## Other collections -/

theorem documents_insert_of_ne (h : c' ≠ c) : (s.insert c k d).documents c' = s.documents c' :=
  documents_congr fun k' => by rw [get?_insert, if_neg fun e => h e.1]

theorem documents_erase_of_ne (h : c' ≠ c) : (s.erase c k).documents c' = s.documents c' :=
  documents_congr fun k' => by rw [get?_erase, if_neg fun e => h e.1]

/-! ## The same change on both sides -/

theorem documents_insert_congr (h : s.documents c = t.documents c) :
    (s.insert c k d).documents c = (t.insert c k d).documents c :=
  documents_congr fun k' => by rw [get?_insert, get?_insert, get?_congr h]

theorem documents_erase_congr (h : s.documents c = t.documents c) :
    (s.erase c k).documents c = (t.erase c k).documents c :=
  documents_congr fun k' => by rw [get?_erase, get?_erase, get?_congr h]

end Store

end AccessRecords
