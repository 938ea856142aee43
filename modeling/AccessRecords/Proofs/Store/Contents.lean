/-
What stores hold. A store is filed if every document in a collection of records is the document of
a record of that kind, under its own id; changes that put in only such documents keep it filed, and
after a list of items has been put in, of the items with one key the last is there.
-/
import AccessRecords.Proofs.Record.Conditions
import AccessRecords.Proofs.Collection.Names
import AccessRecords.Proofs.Store.Documents

namespace AccessRecords

open Json

/-! ## The last item with a key -/

/-- The last item of a list that has a key. -/
def lastWith? {α : Type} (key : α → String) (k : String) (l : List α) : Option α :=
  l.reverse.find? (key · = k)

theorem lastWith?_cons {α : Type} (key : α → String) (k : String) (a : α) (l : List α) :
    lastWith? key k (a :: l) = (lastWith? key k l).or (if key a = k then some a else none) := by
  unfold lastWith?
  rw [List.reverse_cons, List.find?_append]
  by_cases h : key a = k <;> simp [h]

namespace Store

/-! ## Filed stores -/

/-- Every document of a collection of records is that of a record of its kind with the property,
under the id of the record, which is not empty. -/
def Filed (Q : Record → Prop) (s : Store) : Prop :=
  ∀ c k d, s.get? c k = some d → Collection.shape c ≠ .raw →
    k ≠ "" ∧ ∃ record : Record, record.shape = Collection.shape c ∧ record.id? = some k ∧
      d = record.toValue ∧ Q record

section Filed

variable {Q Q' : Record → Prop} {s : Store} {c k : String}

theorem filed_empty : (∅ : Store).Filed Q := by
  intro c k d h
  cases h

theorem Filed.insert {record : Record} (h : s.Filed Q) (hk : k ≠ "") (hs : record.shape = Collection.shape c)
    (hid : Collection.shape c ≠ .raw → record.id? = some k) (hq : Q record) :
    (s.insert c k record.toValue).Filed Q := by
  intro c' k' d hd hc
  rw [get?_insert] at hd
  split_ifs at hd with e
  · obtain ⟨rfl, rfl⟩ := e
    cases hd
    exact ⟨hk, record, hs, hid hc, rfl, hq⟩
  · exact h c' k' d hd hc

theorem Filed.erase (h : s.Filed Q) : (s.erase c k).Filed Q := by
  intro c' k' d hd hc
  rw [get?_erase] at hd
  split_ifs at hd
  exact h c' k' d hd hc

theorem Filed.mono (h : s.Filed Q) (hq : ∀ record, Q record → Q' record) : s.Filed Q' := by
  intro c k d hd hc
  obtain ⟨hk, record, hs, hid, hv, hr⟩ := h c k d hd hc
  exact ⟨hk, record, hs, hid, hv, hq record hr⟩

end Filed

/-! ## Lists of items -/

section Items

variable {α : Type} {c c' k : String} {key : α → String} {document : α → Value} {l : List α} {s : Store}
  {d : Value}

/-- No later item of the list has the key of this one. -/
def Last (key : α → String) (l : List α) (a : α) : Prop :=
  ∃ before after, l = before ++ a :: after ∧ ∀ a' ∈ after, key a' ≠ key a

theorem Last.mem {a : α} (h : Last key l a) : a ∈ l := by
  obtain ⟨before, after, rfl, -⟩ := h
  simp

theorem lastWith?_eq_some {k : String} {a : α} : lastWith? key k l = some a ↔ Last key l a ∧ key a = k := by
  unfold lastWith? Last
  rw [List.find?_eq_some_iff_append, decide_eq_true_eq]
  constructor
  · rintro ⟨hk, after, before, hl, hafter⟩
    refine ⟨⟨before.reverse, after.reverse, ?_, fun b hb => ?_⟩, hk⟩
    · rw [← List.reverse_reverse l, hl]
      simp
    · have hne := hafter b (List.mem_reverse.1 hb)
      rw [hk]
      simpa using hne
  · rintro ⟨⟨before, after, rfl, hlast⟩, hk⟩
    refine ⟨hk, after.reverse, before.reverse, by simp, fun b hb => ?_⟩
    have hne := hlast b (List.mem_reverse.1 hb)
    rw [hk] at hne
    simpa using hne

/-- Items put into a collection one after another: a look-up there gives the last one with the key. -/
theorem get?_foldl_insert (key : α → String) (document : α → Value) (l : List α) :
    (l.foldl (fun s a => s.insert c (key a) (document a)) s).get? c' k =
      if c' = c then ((lastWith? key k l).map document).or (s.get? c' k) else s.get? c' k := by
  induction l generalizing s with
  | nil => simp [lastWith?]
  | cons a l ih =>
    rw [List.foldl_cons, ih, get?_insert, lastWith?_cons]
    by_cases hc : c' = c
    · subst hc
      cases lastWith? key k l with
      | some b => simp
      | none =>
        by_cases hk : key a = k
        · simp [hk]
        · simp [hk, Ne.symm hk]
    · simp [hc]

/-- The collection gets a table with the first item; no items, no table. -/
theorem hasTable_foldl_insert (key : α → String) (document : α → Value) (l : List α) :
    (l.foldl (fun s a => s.insert c (key a) (document a)) s).HasTable c' ↔
      (c' = c ∧ l ≠ []) ∨ s.HasTable c' := by
  induction l generalizing s with
  | nil => simp
  | cons a l ih =>
    rw [List.foldl_cons, ih, hasTable_insert]
    simp only [ne_eq, reduceCtorEq, not_false_eq_true, and_true]
    tauto

/-- Of the items with one key the last is there. -/
theorem get?_foldl_insert_last {a : α} (h : Last key l a) :
    (l.foldl (fun s a => s.insert c (key a) (document a)) s).get? c (key a) = some (document a) := by
  rw [get?_foldl_insert, if_pos rfl, lastWith?_eq_some.2 ⟨h, rfl⟩]
  rfl

/-- What is there afterwards is one of the items, or it was there before. -/
theorem get?_foldl_insert_cases
    (h : (l.foldl (fun s a => s.insert c (key a) (document a)) s).get? c' k = some d) :
    (∃ a, Last key l a ∧ c' = c ∧ k = key a ∧ d = document a) ∨ s.get? c' k = some d := by
  rw [get?_foldl_insert] at h
  split_ifs at h with hc
  · rcases Option.or_eq_some_iff.1 h with h | ⟨-, h⟩
    · obtain ⟨a, ha, rfl⟩ := Option.map_eq_some_iff.1 h
      obtain ⟨hl, rfl⟩ := lastWith?_eq_some.1 ha
      exact .inl ⟨a, hl, hc, rfl, rfl⟩
    · exact .inr h
  · exact .inr h

/-- Putting in documents of records under their ids keeps a store filed; of the records with one id
only the last matters. -/
theorem Filed.foldl_insert {Q : Record → Prop} (record : α → Record) (h : s.Filed Q)
    (hl : ∀ a, Last key l a → key a ≠ "" ∧ (record a).shape = Collection.shape c ∧
      (record a).id? = some (key a) ∧ Q (record a)) :
    (l.foldl (fun s a => s.insert c (key a) (record a).toValue) s).Filed Q := by
  intro c' k d hd hc
  rcases get?_foldl_insert_cases hd with ⟨a, ha, rfl, rfl, rfl⟩ | hd
  · obtain ⟨hk, hs, hid, hq⟩ := hl a ha
    exact ⟨hk, record a, hs, hid, rfl, hq⟩
  · exact h c' k d hd hc

end Items

/-! ## Seeds -/

section Seed

variable {Q : Record → Prop} {s : Store} {ns : String} {seed : Seed}

theorem Filed.insertSeed (h : s.Filed Q) (hr : ∀ r ∈ seed.roles, r.id ≠ "" ∧ Q (.role r))
    (hp : ∀ p, Last Policy.id seed.policies p → p.id ≠ "" ∧ Q (.policy p)) :
    (s.insertSeed ns seed).Filed Q := by
  have hroles : (s.insertRoles (Collection.roles ns) seed.roles).Filed Q :=
    Filed.foldl_insert Record.role h fun r hl =>
      ⟨(hr r hl.mem).1, Collection.shape_roles.symm, rfl, (hr r hl.mem).2⟩
  exact Filed.foldl_insert Record.policy hroles fun p hl =>
    ⟨(hp p hl).1, Collection.shape_policies.symm, rfl, (hp p hl).2⟩

/-- A seed leaves the last of its policies with one id under that id. -/
theorem get?_insertSeed {p : Policy} (h : Last Policy.id seed.policies p) :
    (s.insertSeed ns seed).get? (Collection.policies ns) p.id = some p.toValue :=
  get?_foldl_insert_last h

end Seed

end Store

end AccessRecords
