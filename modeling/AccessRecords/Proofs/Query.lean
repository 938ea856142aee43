/-
Queries as the pairs that they are made of. Of the pairs with one key a query keeps all values in the
order of their arrival, and of all pairs nothing else: a key without a pair is not there.
-/
import AccessRecords.Query
import Mathlib.Tactic

namespace AccessRecords.Query

variable {pairs : List (String × String)} {q : Query} {k v : String}

theorem get?_add (q : Query) (k k' v : String) :
    (q.add k v).get? k' = if k' = k then some ((q.get? k).getD [] ++ [v]) else q.get? k' :=
  Table.get?_insert q k k' _

theorem values_add (q : Query) (k k' v : String) :
    (q.add k v).values k' = if k' = k then q.values k ++ [v] else q.values k' := by
  unfold values
  rw [get?_add]
  split_ifs <;> rfl

/-- The query without a key. -/
def without (q : Query) (key : String) : Query := q.erase key

theorem values_without (q : Query) (k k' : String) :
    (q.without k).values k' = if k' = k then [] else q.values k' := by
  unfold without values
  rw [Table.get?_erase]
  split_ifs <;> rfl

/-- The keys that are there are those that have values. -/
def Lawful (q : Query) : Prop := ∀ k, q.contains k = true ↔ q.values k ≠ []

theorem Lawful.add (h : q.Lawful) (k v : String) : (q.add k v).Lawful := by
  intro k'
  rw [values_add, Table.contains, get?_add]
  by_cases hk : k' = k
  · simp [hk]
  · rw [if_neg hk, if_neg hk]
    exact h k'

theorem get?_of_contains (h : q.contains k = true) : q.get? k = some (q.values k) := by
  obtain ⟨vs, hvs⟩ := Option.isSome_iff_exists.1 h
  unfold values
  rw [hvs, Option.getD_some]

/-! ## Queries of pairs -/

/-- The values that pairs give for a key, in order. -/
def valuesIn (pairs : List (String × String)) (k : String) : List String :=
  (pairs.filter (·.1 = k)).map (·.2)

theorem mem_valuesIn : v ∈ valuesIn pairs k ↔ (k, v) ∈ pairs := by
  unfold valuesIn
  simp only [List.mem_map, List.mem_filter, decide_eq_true_eq]
  constructor
  · rintro ⟨⟨k', v'⟩, ⟨h, rfl⟩, rfl⟩
    exact h
  · exact fun h => ⟨(k, v), ⟨h, rfl⟩, rfl⟩

/-- Pairs are added one after another: each after the values that its key has got so far. -/
theorem foldl_add (pairs : List (String × String)) (h : q.Lawful) :
    (pairs.foldl (fun q p => q.add p.1 p.2) q).Lawful ∧
      ∀ k, (pairs.foldl (fun q p => q.add p.1 p.2) q).values k = q.values k ++ valuesIn pairs k := by
  induction pairs generalizing q with
  | nil => exact ⟨h, fun k => (List.append_nil _).symm⟩
  | cons p pairs ih =>
    obtain ⟨hl, hv⟩ := ih (h.add p.1 p.2)
    refine ⟨hl, fun k => ?_⟩
    rw [List.foldl_cons, hv, values_add]
    unfold valuesIn
    by_cases hk : k = p.1
    · simp [hk]
    · simp [hk, Ne.symm hk]

theorem lawful_empty : (∅ : Query).Lawful := by
  intro k
  simp [Table.contains, values]

theorem lawful_ofPairs (pairs : List (String × String)) : (ofPairs pairs).Lawful :=
  (foldl_add pairs lawful_empty).1

theorem values_ofPairs (pairs : List (String × String)) (k : String) :
    (ofPairs pairs).values k = valuesIn pairs k :=
  (foldl_add pairs lawful_empty).2 k

theorem mem_values_ofPairs : v ∈ (ofPairs pairs).values k ↔ (k, v) ∈ pairs := by
  rw [values_ofPairs, mem_valuesIn]

theorem contains_ofPairs : (ofPairs pairs).contains k = true ↔ ∃ v, (k, v) ∈ pairs := by
  rw [lawful_ofPairs pairs k]
  constructor
  · intro h
    obtain ⟨v, hv⟩ := List.exists_mem_of_ne_nil _ h
    exact ⟨v, mem_values_ofPairs.1 hv⟩
  · rintro ⟨v, hv⟩
    exact List.ne_nil_of_mem (mem_values_ofPairs.2 hv)

/-- A query has under each key what pairs give for it, and has no key besides. -/
structure Gathers (q : Query) (pairs : List (String × String)) : Prop where
  /-- The key of a pair has the values of all pairs with this key, in their order. -/
  found : ∀ p ∈ pairs, q.get? p.1 = some (valuesIn pairs p.1)
  /-- A key is missing exactly if no pair has it. -/
  missing : ∀ k, q.contains k = false ↔ ∀ p ∈ pairs, p.1 ≠ k
  /-- No key is there without a value. -/
  nonempty : ∀ k vs, q.get? k = some vs → vs ≠ []

theorem gathers_ofPairs (pairs : List (String × String)) : (ofPairs pairs).Gathers pairs where
  found p hp := by rw [get?_of_contains (contains_ofPairs.2 ⟨p.2, hp⟩), values_ofPairs]
  missing k := by
    rw [← Bool.not_eq_true, contains_ofPairs]
    constructor
    · rintro h p hp rfl
      exact h ⟨p.2, hp⟩
    · rintro h ⟨v, hv⟩
      exact h (k, v) hv rfl
  nonempty k vs h := by
    have hc : (ofPairs pairs).contains k = true := by
      rw [Table.contains, h]
      rfl
    rw [get?_of_contains hc, Option.some.injEq] at h
    exact h ▸ (lawful_ofPairs pairs k).1 hc

/-- Repeated keys keep their values in the order of arrival. -/
example : (ofPairs [("member", "alice"), ("id", "r1"), ("member", "bob")]).get? "member" = some ["alice", "bob"] := by
  decide

theorem first?_eq (q : Query) (k : String) : q.first? k = (q.values k).head? := by
  unfold first? values
  cases q.get? k <;> rfl

/-- The first value of a key is that of the first pair with the key. -/
theorem first?_ofPairs (pairs : List (String × String)) (k : String) :
    (ofPairs pairs).first? k = pairs.lookup k := by
  rw [first?_eq, values_ofPairs]
  unfold valuesIn
  induction pairs with
  | nil => rfl
  | cons p pairs ih =>
    rw [List.lookup_cons, List.filter_cons]
    by_cases hk : p.1 = k
    · simp [hk]
    · have hne : (k == p.1) = false := beq_eq_false_iff_ne.2 (Ne.symm hk)
      rw [if_neg (by simpa using hk), hne]
      exact ih

end AccessRecords.Query
