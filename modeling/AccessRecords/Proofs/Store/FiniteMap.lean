/-
The store as a finite map from addresses to documents. Every call of its operations answers as the
map does and keeps the two in step, so whole runs of calls give the same answers. The store has more
to it than the map, namely the tables that have lost their documents: they are left out where the
collections are listed, and a collection with such a table answers every later call as one that no
call was ever about.
-/
import AccessRecords.Proofs.Store.Calls
import Mathlib.Data.Finmap
import Mathlib.Data.Finset.Sort

namespace AccessRecords

open Json

/-! ## The order of names -/

namespace Text

/-- The order of texts by the bytes that they are encoded in. -/
def BytesLE (a b : String) : Prop := Utf8.encode a ≤ Utf8.encode b

theorem bytesLE_iff {a b : String} : BytesLE a b ↔ a ≤ b := by
  show ¬ Utf8.encode b < Utf8.encode a ↔ a ≤ b
  rw [Utf8.encode_lt_encode_iff, not_lt]

instance : DecidableRel BytesLE := fun _ _ => decidable_of_iff _ bytesLE_iff.symm

instance : IsTrans String BytesLE where
  trans _ _ _ h h' := bytesLE_iff.2 (le_trans (bytesLE_iff.1 h) (bytesLE_iff.1 h'))

instance : Std.Antisymm BytesLE where
  antisymm _ _ h h' := le_antisymm (bytesLE_iff.1 h) (bytesLE_iff.1 h')

instance : Std.Total BytesLE where
  total a b := (le_total a b).imp bytesLE_iff.2 bytesLE_iff.2

/-- A strictly ascending list is its own members in order. -/
theorem sort_toFinset {l : List String} (h : l.Pairwise (· < ·)) : l.toFinset.sort BytesLE = l := by
  have hn : l.Nodup := h.imp fun hlt => hlt.ne
  exact (List.toFinset_sort BytesLE hn).2 (h.imp fun hlt => bytesLE_iff.2 hlt.le)

end Text

namespace Store

variable {s t : Store} {c c' k : String}

/-! ## Names of collections -/

section Names

variable {tables : List (String × Table String Value)}

theorem mem_namesOf : c ∈ namesOf tables ↔ ∃ table, (c, table) ∈ tables ∧ table.isEmpty = false := by
  unfold namesOf
  simp only [List.mem_mergeSort, List.mem_map, List.mem_filter, Bool.not_eq_true', Prod.exists,
    exists_and_right, exists_eq_right]

/-- In whatever order its tables are listed, the names ascend. -/
theorem namesOf_ascending (h : tables.Perm s.tables.entries) : (namesOf tables).Pairwise (· < ·) := by
  have hkeys : (tables.map (·.1)).Nodup :=
    (h.map _).nodup_iff.2 (s.tables.ascending.keys_ascending.imp fun hlt => hlt.ne)
  exact Text.mergeSort_ascending ((List.filter_sublist.map _).nodup hkeys)

/-- Tables that have lost their documents are left out. -/
theorem mem_namesOf_perm (h : tables.Perm s.tables.entries) :
    c ∈ namesOf tables ↔ ∃ k d, s.get? c k = some d := by
  rw [mem_namesOf]
  simp only [h.mem_iff, Table.mem_entries, Table.isEmpty_eq_false, get?, Option.bind_eq_some_iff]
  constructor
  · rintro ⟨table, ht, k, d, hd⟩
    exact ⟨k, d, table, ht, hd⟩
  · rintro ⟨k, d, table, ht, hd⟩
    exact ⟨table, ht, k, d, hd⟩

end Names

/-! ## Finite maps -/

/-- Documents by address, as a finite map. -/
abbrev Contents : Type := Finmap fun _ : Address => Value

namespace Contents

variable (m : Contents)

/-- The keys of a collection. -/
def keysOf (c : String) : Finset String := (m.keys.filter (·.collection = c)).image (·.key)

/-- The documents of a collection, by ascending key. -/
def documentsOf (c : String) : List Value :=
  ((m.keysOf c).sort Text.BytesLE).filterMap fun k => m.lookup ⟨c, k⟩

/-- The collections that have documents, ascending. -/
def names : List String := (m.keys.image (·.collection)).sort Text.BytesLE

/-- What a caller that has gone away is answered; nothing happens for it. -/
def guarded (ctx : Context) (r : Answer × Contents) : Answer × Contents :=
  if ctx.isCancelled then (.failure ctx.cancelled, m) else r

/-- What a finite map answers to a call, and the map afterwards. -/
def answer : Call → Answer × Contents
  | .insert c k d => (.done, m.insert ⟨c, k⟩ d)
  | .insertRoles c roles => (.done, roles.foldl (fun m r => m.insert ⟨c, r.id⟩ r.toValue) m)
  | .insertPolicies c policies => (.done, policies.foldl (fun m p => m.insert ⟨c, p.id⟩ p.toValue) m)
  | .get ctx c k => m.guarded ctx <|
    match m.lookup ⟨c, k⟩ with
    | some d => (.document d, m)
    | none => (.failure (notFound c k), m)
  | .delete ctx c k => m.guarded ctx <|
    match m.lookup ⟨c, k⟩ with
    | some _ => (.done, m.erase ⟨c, k⟩)
    | none => (.failure (notFound c k), m)
  | .upsert ctx c k d => m.guarded ctx (.document d, m.insert ⟨c, k⟩ d)
  | .list ctx c page => m.guarded ctx (.documents (((m.documentsOf c).drop page.offset).take page.limit), m)
  | .listAll ctx c => m.guarded ctx (.documents (m.documentsOf c), m)
  | .length c => (.number (m.keysOf c).card, m)
  | .collections => (.names m.names, m)

/-- The answers of a finite map to calls made one after another, and the map afterwards. -/
def answerAll : List Call → Contents → List Answer × Contents
  | [], m => ([], m)
  | call :: rest, m =>
    let (a, m) := m.answer call
    let (answers, m) := answerAll rest m
    (a :: answers, m)

end Contents

/-! ## The store and the map -/

/-- The store holds the documents of the map. -/
def Holds (s : Store) (m : Contents) : Prop := ∀ c k, s.get? c k = m.lookup ⟨c, k⟩

section Holds

variable {m : Contents}

theorem holds_empty : (∅ : Store).Holds ∅ := fun _ _ => rfl

theorem Holds.insert (h : s.Holds m) (c k : String) (d : Value) : (s.insert c k d).Holds (m.insert ⟨c, k⟩ d) := by
  intro c' k'
  rw [get?_insert]
  split_ifs with e
  · obtain ⟨rfl, rfl⟩ := e
    exact (Finmap.lookup_insert m).symm
  · have hne : (⟨c', k'⟩ : Address) ≠ ⟨c, k⟩ := fun ha => e (by simpa using ha)
    rw [Finmap.lookup_insert_of_ne m hne, h]

theorem Holds.erase (h : s.Holds m) (c k : String) : (s.erase c k).Holds (m.erase ⟨c, k⟩) := by
  intro c' k'
  rw [get?_erase]
  split_ifs with e
  · obtain ⟨rfl, rfl⟩ := e
    exact (Finmap.lookup_erase _ m).symm
  · have hne : (⟨c', k'⟩ : Address) ≠ ⟨c, k⟩ := fun ha => e (by simpa using ha)
    rw [Finmap.lookup_erase_ne hne, h]

theorem Holds.foldl_insert {α : Type} (key : α → String) (document : α → Value) (c : String) (l : List α)
    (h : s.Holds m) : (l.foldl (fun s a => s.insert c (key a) (document a)) s).Holds
      (l.foldl (fun m a => m.insert ⟨c, key a⟩ (document a)) m) := by
  induction l generalizing s m with
  | nil => exact h
  | cons a l ih => exact ih (h.insert c (key a) (document a))

theorem Holds.mem_keys (h : s.Holds m) {a : Address} : a ∈ m.keys ↔ ∃ d, s.get? a.collection a.key = some d := by
  rw [Finmap.mem_keys, Finmap.mem_iff]
  exact exists_congr fun d => by rw [h]

theorem Holds.keysOf_eq (h : s.Holds m) (c : String) : m.keysOf c = s.keys c := by
  ext k
  simp only [Contents.keysOf, Finset.mem_image, Finset.mem_filter, h.mem_keys, Store.mem_keys]
  constructor
  · rintro ⟨a, ⟨hd, rfl⟩, rfl⟩
    exact hd
  · exact fun hd => ⟨⟨c, k⟩, ⟨hd, rfl⟩, rfl⟩

theorem Holds.card_keysOf (h : s.Holds m) (c : String) : (m.keysOf c).card = s.length c := by
  rw [h.keysOf_eq, card_keys]

theorem Holds.documentsOf_eq (h : s.Holds m) (c : String) : m.documentsOf c = s.values c := by
  unfold Contents.documentsOf values
  rw [h.keysOf_eq, keys, Text.sort_toFinset (keys_ascending s c), List.filterMap_map]
  -- every key of the collection is looked up and its document found
  have hf : ∀ e ∈ s.documents c, ((fun k => m.lookup ⟨c, k⟩) ∘ fun e : String × Value => e.1) e = some e.2 := by
    intro e he
    show m.lookup ⟨c, e.1⟩ = some e.2
    rw [← h, mem_documents.1 he]
  rw [List.filterMap_congr hf]
  exact congrFun List.filterMap_eq_map _

/-- The names of the map's collections are those of the tables, listed in any order. -/
theorem Holds.names_eq (h : s.Holds m) {tables : List (String × Table String Value)}
    (hp : tables.Perm s.tables.entries) : m.names = namesOf tables := by
  have hm : m.keys.image (·.collection) = (namesOf tables).toFinset := by
    ext c
    simp only [Finset.mem_image, h.mem_keys, List.mem_toFinset, mem_namesOf_perm hp]
    constructor
    · rintro ⟨a, hd, rfl⟩
      exact ⟨a.key, hd⟩
    · rintro ⟨k, hd⟩
      exact ⟨⟨c, k⟩, hd, rfl⟩
  unfold Contents.names
  rw [hm, Text.sort_toFinset (namesOf_ascending hp)]

/-- One call: the store and the map answer alike and stay in step. -/
theorem Holds.run (h : s.Holds m) (call : Call) :
    (call.run s).1 = (m.answer call).1 ∧ (call.run s).2.Holds (m.answer call).2 := by
  cases call with
  | insert c k d => exact ⟨rfl, h.insert c k d⟩
  | insertRoles c roles => exact ⟨rfl, h.foldl_insert Role.id Role.toValue c roles⟩
  | insertPolicies c policies => exact ⟨rfl, h.foldl_insert Policy.id Policy.toValue c policies⟩
  | get ctx c k =>
    simp only [Call.run, Contents.answer, Contents.guarded, backend_get, ← h c k]
    split_ifs
    · exact ⟨rfl, h⟩
    · cases s.get? c k <;> exact ⟨rfl, h⟩
  | delete ctx c k =>
    simp only [Call.run, Contents.answer, Contents.guarded, backend_delete, ← h c k]
    split_ifs
    · exact ⟨rfl, h⟩
    · cases s.get? c k with
      | none => exact ⟨rfl, h⟩
      | some d => exact ⟨rfl, h.erase c k⟩
  | upsert ctx c k d =>
    simp only [Call.run, Contents.answer, Contents.guarded, backend_upsert]
    split_ifs
    · exact ⟨rfl, h⟩
    · exact ⟨rfl, h.insert c k d⟩
  | list ctx c page =>
    simp only [Call.run, Contents.answer, Contents.guarded, backend_list, page_eq, h.documentsOf_eq]
    split_ifs <;> exact ⟨rfl, h⟩
  | listAll ctx c =>
    simp only [Call.run, Contents.answer, Contents.guarded, backend_listAll, h.documentsOf_eq]
    split_ifs <;> exact ⟨rfl, h⟩
  | length c =>
    simp only [Call.run, Contents.answer, h.card_keysOf]
    exact ⟨trivial, h⟩
  | collections =>
    simp only [Call.run, Contents.answer, collections, h.names_eq (.refl _)]
    exact ⟨trivial, h⟩

/-- Whole runs of calls get the same answers. -/
theorem Holds.runAll (h : s.Holds m) (calls : List Call) :
    (Call.runAll calls s).1 = (m.answerAll calls).1 ∧ (Call.runAll calls s).2.Holds (m.answerAll calls).2 := by
  induction calls generalizing s m with
  | nil => exact ⟨rfl, h⟩
  | cons call rest ih =>
    obtain ⟨ha, hs⟩ := h.run call
    obtain ⟨hr, ht⟩ := ih hs
    exact ⟨congrArg₂ List.cons ha hr, ht⟩

end Holds

/-! ## The main statement -/

/-- The store is a finite map. Every run of calls from the empty store gets the answers of the map, and
the two hold the same documents afterwards. The store has tables for all collections that a document
was ever put into; the names listed are those of the map in whatever order the tables are gone
through. The bounds of a page, computed with 64-bit numbers, cut the same documents out. And if a
collection has no document left, all later calls are answered as if no call before had been about
it. -/
theorem refines_finite_map (calls : List Call) :
    let s := (Call.runAll calls ∅).2
    let m := (Contents.answerAll calls ∅).2
    (Call.runAll calls ∅).1 = (Contents.answerAll calls ∅).1 ∧
    (∀ c k, s.get? c k = m.lookup ⟨c, k⟩) ∧
    (∀ c, s.HasTable c ↔ ∃ call ∈ calls, call.StoresIn c) ∧
    (∀ tables, tables.Perm s.tables.entries → namesOf tables = m.names) ∧
    (∀ c (limit offset : UInt64), s.length c < UInt64.size →
      let bounds := Page.indexWords limit offset (UInt64.ofNat (s.length c))
      ((s.values c).drop bounds.1.toNat).take (bounds.2 - bounds.1).toNat =
        ((m.documentsOf c).drop offset.toNat).take limit.toNat) ∧
    ∀ c, m.keysOf c = ∅ → ∀ later,
      (Call.runAll later s).1 =
        (Call.runAll later (Call.runAll (calls.filter (·.collection? ≠ some c)) ∅).2).1 := by
  intro s m
  obtain ⟨ha, hs⟩ : _ ∧ s.Holds m := holds_empty.runAll calls
  have htables : ∀ c, s.HasTable c ↔ ∃ call ∈ calls, call.StoresIn c :=
    fun c => (Call.hasTable_runAll calls).trans (or_iff_left not_hasTable_empty)
  refine ⟨ha, hs, htables, fun tables hp => (hs.names_eq hp).symm, ?_, ?_⟩
  · intro c limit offset hl
    dsimp only
    rw [← length_values] at hl ⊢
    rw [hs.documentsOf_eq, Page.slice_indexWords limit offset hl]
  · intro c he later
    have hnone : ∀ k, s.get? c k = none := by
      intro k
      rw [hs c k, Finmap.lookup_eq_none, ← Finmap.mem_keys]
      intro hk
      have hmem : k ∈ m.keysOf c := Finset.mem_image.2 ⟨⟨c, k⟩, Finset.mem_filter.2 ⟨hk, rfl⟩, rfl⟩
      rw [he] at hmem
      exact absurd hmem (Finset.notMem_empty k)
    -- one map stands for both stores, whichever tables they have
    have ht : (Call.runAll (calls.filter (·.collection? ≠ some c)) ∅).2.Holds m :=
      fun c' k => (Call.get?_runAll_of_emptied hnone c' k).symm.trans (hs c' k)
    exact (hs.runAll later).1.trans (ht.runAll later).1.symm

/-- Two collections, of which one has lost its only document but not its table, and a page of the other
from its second document on with the largest limit. -/
theorem refines_finite_map_emptied :
    let kept : List Call := [.insert "a" "k" .null, .insertRoles "a" [⟨"i", []⟩]]
    let calls : List Call := kept ++ [.upsert {} "b" "x" (.bool true), .delete {} "b" "x"]
    let later : List Call := [.collections, .length "b", .list {} "b" ⟨10, 0⟩, .delete {} "b" "x"]
    let s := (Call.runAll calls ∅).2
    let m := (Contents.answerAll calls ∅).2
    s.length "a" < UInt64.size ∧ m.keysOf "b" = ∅ ∧
      s.HasTable "b" ∧ ¬ (Call.runAll kept ∅).2.HasTable "b" ∧
      namesOf s.tables.entries.reverse = m.names ∧
      (let bounds := Page.indexWords 18446744073709551615 1 (UInt64.ofNat (s.length "a"))
       ((s.values "a").drop bounds.1.toNat).take (bounds.2 - bounds.1).toNat =
        ((m.documentsOf "a").drop 1).take 18446744073709551615) ∧
      (Call.runAll later s).1 = (Call.runAll later (Call.runAll kept ∅).2).1 := by
  intro kept calls later s m
  have hl : s.length "a" < UInt64.size := by decide +kernel
  have he : m.keysOf "b" = ∅ := by decide +kernel
  have hmissing : ¬ (Call.runAll kept ∅).2.HasTable "b" := by decide +kernel
  obtain ⟨-, -, htables, hnames, hwindow, hemptied⟩ := refines_finite_map calls
  have htable : s.HasTable "b" := (htables "b").2 ⟨.upsert {} "b" "x" (.bool true), by simp [calls], rfl, rfl⟩
  exact ⟨hl, he, htable, hmissing, hnames _ (List.reverse_perm _), hwindow "a" 18446744073709551615 1 hl,
    hemptied "b" he later⟩

end Store

end AccessRecords
