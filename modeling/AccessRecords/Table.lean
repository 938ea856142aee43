/-
A finite table: keys in strictly ascending order, each with one value. Two tables are equal
exactly when every look-up agrees.
-/
import AccessRecords.Table.Entries

namespace AccessRecords

/-- A finite map held as its ascending list of entries. -/
structure Table (κ β : Type) [Ord κ] where
  entries : List (κ × β) := []
  ascending : Entries.Ascending entries := by exact List.Pairwise.nil

namespace Table

variable {κ β : Type} [Ord κ]

instance [DecidableEq κ] [DecidableEq β] : DecidableEq (Table κ β) := fun t u =>
  decidable_of_iff (t.entries = u.entries) (by cases t; cases u; simp)

/-- The table without entries. -/
def empty : Table κ β := {}

instance : EmptyCollection (Table κ β) := ⟨empty⟩

instance : Inhabited (Table κ β) := ⟨empty⟩

/-- The value under a key. -/
def get? (t : Table κ β) (k : κ) : Option β := Entries.find? k t.entries

/-- Whether a key has a value. -/
def contains (t : Table κ β) (k : κ) : Bool := (t.get? k).isSome

/-- Whether there is no entry. -/
def isEmpty (t : Table κ β) : Bool := t.entries.isEmpty

/-- Takes a key out. -/
def erase (t : Table κ β) (k : κ) : Table κ β :=
  ⟨Entries.erase k t.entries, Entries.ascending_erase t.ascending⟩

@[simp] theorem get?_empty (k : κ) : (∅ : Table κ β).get? k = none := rfl

variable [Std.TransOrd κ]

/-- Puts a value under a key, over the one that was there. -/
def insert (t : Table κ β) (k : κ) (v : β) : Table κ β :=
  ⟨Entries.insert k v t.entries, Entries.ascending_insert t.ascending⟩

/-- The table of a list of pairs; of two pairs with one key the later counts. -/
def ofList (l : List (κ × β)) : Table κ β :=
  l.foldl (fun t e => t.insert e.1 e.2) empty

variable [Std.LawfulEqOrd κ]

theorem get?_insert [DecidableEq κ] (t : Table κ β) (k k' : κ) (v : β) :
    (t.insert k v).get? k' = if k' = k then some v else t.get? k' :=
  Entries.find?_insert k k' v t.entries

omit [Std.TransOrd κ] in
theorem get?_erase [DecidableEq κ] (t : Table κ β) (k k' : κ) :
    (t.erase k).get? k' = if k' = k then none else t.get? k' :=
  Entries.find?_erase k k' t.entries

theorem mem_entries {t : Table κ β} {k : κ} {v : β} : (k, v) ∈ t.entries ↔ t.get? k = some v :=
  Entries.mem_iff_find? t.ascending

theorem isEmpty_eq_false {t : Table κ β} : t.isEmpty = false ↔ ∃ k v, t.get? k = some v := by
  unfold isEmpty
  simp only [List.isEmpty_eq_false_iff_exists_mem, Prod.exists, mem_entries]

/-- Tables that answer every look-up alike are equal. -/
@[ext] theorem ext {t u : Table κ β} (h : ∀ k, t.get? k = u.get? k) : t = u := by
  cases t with
  | mk l hl =>
    cases u with
    | mk l' hl' =>
      have : l = l' := Entries.ext hl hl' h
      subst this; rfl

end Table

end AccessRecords
