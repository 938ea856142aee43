/-
Embedded texts. A value read from a text holds no object whose only key is the mark of an embedded
text: such an object has been replaced by the value of its text. Resolving the value again
therefore gives it back or fails, and it gives it back exactly if no object in it has the mark as
its smallest key. The last holds of values that were made up, too.
-/
import AccessRecords.Proofs.Except
import AccessRecords.Proofs.Json.Yield

namespace AccessRecords.Json.Value

/-! ## Values that were read -/

/-- No object in the value has the mark of an embedded text as its only key. -/
inductive Settled : Value → Prop
  | scalar {v : Value} : v.Scalar → Settled v
  | list {items : List Value} : (∀ v ∈ items, Settled v) → Settled (.list items)
  | object {members : List (String × Value)} : (∀ v, members ≠ [(embeddingKey, v)]) →
      (∀ m ∈ members, Settled m.2) → Settled (.object members)

theorem settled_inherited : Reader.Inherited Settled where
  scalar b := (Reader.yields_scalar b).mono fun _ h => .scalar h
  list _ h := .list h
  object _ _ h hm := .object hm h

theorem settled_of_parse {bytes : List UInt8} {v : Value} (h : parse bytes = .ok v) : v.Settled :=
  parse_induction settled_inherited h

theorem Settled.items {items : List Value} (h : Settled (.list items)) : ∀ v ∈ items, v.Settled := by
  cases h with
  | scalar h => cases h
  | list h => exact h

theorem Settled.members {members : List (String × Value)} (h : Settled (.object members)) :
    ∀ m ∈ members, m.2.Settled := by
  cases h with
  | scalar h => cases h
  | object _ h => exact h

/-! ## Values without marks -/

mutual

/-- Whether no object in the value has the mark of an embedded text as its smallest key. -/
def isPlain : Value → Bool
  | .list items => itemsPlain items
  | .object members => members.head?.all (·.1 ≠ embeddingKey) && membersPlain members
  | _ => true

/-- The same of all items. -/
def itemsPlain : List Value → Bool
  | [] => true
  | v :: rest => isPlain v && itemsPlain rest

/-- The same of all member values. -/
def membersPlain : List (String × Value) → Bool
  | [] => true
  | (_, v) :: rest => isPlain v && membersPlain rest

end

/-! ## Resolving -/

theorem resolve_object {key : String} (v : Value) (rest : List (String × Value)) (h : key ≠ embeddingKey) :
    resolve (.object ((key, v) :: rest)) =
      (do let v ← resolve v
          let rest ← resolveMembers rest
          return .object ((key, v) :: rest)) := by
  cases v <;> simp only [resolve, if_neg h]

/-- An object that stands for an embedded text has nothing but its mark. -/
theorem resolve_marked {v w : Value} {rest : List (String × Value)}
    (h : resolve (.object ((embeddingKey, v) :: rest)) = .ok w) : rest = [] := by
  cases v with
  | text s =>
    rw [resolve, if_pos rfl] at h
    obtain ⟨u, -, h⟩ := Except.bind_eq_ok.1 h
    cases rest with
    | nil => rfl
    | cons m rest => cases h
  | _ => simp [resolve] at h

mutual

/-- A value without marks is its own resolution. -/
theorem resolve_of_isPlain : ∀ {v : Value}, v.isPlain = true → v.resolve = .ok v
  | .list items, h => by
    rw [isPlain] at h
    rw [resolve, resolveItems_of_plain h]
    rfl
  | .object [], _ => by rw [resolve]
  | .object ((key, v) :: rest), h => by
    rw [isPlain, membersPlain] at h
    simp only [List.head?_cons, Option.all_some, Bool.and_eq_true, decide_eq_true_eq] at h
    obtain ⟨hk, hv, hr⟩ := h
    rw [resolve_object v rest hk, resolve_of_isPlain hv, resolveMembers_of_plain hr]
    rfl
  | .null, _ | .bool _, _ | .int _, _ | .double _, _ | .text _, _ => by simp [resolve]

theorem resolveItems_of_plain : ∀ {items : List Value}, itemsPlain items = true →
    resolveItems items = .ok items
  | [], _ => by rw [resolveItems]
  | v :: rest, h => by
    rw [itemsPlain, Bool.and_eq_true] at h
    rw [resolveItems, resolve_of_isPlain h.1, resolveItems_of_plain h.2]
    rfl

theorem resolveMembers_of_plain : ∀ {members : List (String × Value)}, membersPlain members = true →
    resolveMembers members = .ok members
  | [], _ => by rw [resolveMembers]
  | (key, v) :: rest, h => by
    rw [membersPlain, Bool.and_eq_true] at h
    rw [resolveMembers, resolve_of_isPlain h.1, resolveMembers_of_plain h.2]
    rfl

end

/-- What resolving does to a value that was read, as far as it succeeds: nothing, and there were no
marks in it. -/
def Kept (v : Value) : Prop := ∀ w, v.resolve = .ok w → w = v ∧ v.isPlain = true

theorem resolveItems_kept {items ws : List Value} (h : ∀ v ∈ items, v.Kept)
    (e : resolveItems items = .ok ws) : ws = items ∧ itemsPlain items = true := by
  induction items generalizing ws with
  | nil =>
    rw [resolveItems] at e
    cases e
    exact ⟨rfl, by rw [itemsPlain]⟩
  | cons v rest ih =>
    rw [resolveItems] at e
    obtain ⟨w, hv, e⟩ := Except.bind_eq_ok.1 e
    obtain ⟨ws', hr, e⟩ := Except.bind_eq_ok.1 e
    cases e
    obtain ⟨rfl, pv⟩ := h v List.mem_cons_self w hv
    obtain ⟨rfl, pr⟩ := ih (fun u hu => h u (List.mem_cons_of_mem _ hu)) hr
    exact ⟨rfl, by rw [itemsPlain, pv, pr]; rfl⟩

theorem resolveMembers_kept {members ws : List (String × Value)} (h : ∀ m ∈ members, m.2.Kept)
    (e : resolveMembers members = .ok ws) : ws = members ∧ membersPlain members = true := by
  induction members generalizing ws with
  | nil =>
    rw [resolveMembers] at e
    cases e
    exact ⟨rfl, by rw [membersPlain]⟩
  | cons m rest ih =>
    obtain ⟨key, v⟩ := m
    rw [resolveMembers] at e
    obtain ⟨w, hv, e⟩ := Except.bind_eq_ok.1 e
    obtain ⟨ws', hr, e⟩ := Except.bind_eq_ok.1 e
    cases e
    obtain ⟨rfl, pv⟩ := h (key, v) List.mem_cons_self w hv
    obtain ⟨rfl, pr⟩ := ih (fun u hu => h u (List.mem_cons_of_mem _ hu)) hr
    exact ⟨rfl, by rw [membersPlain, pv, pr]; rfl⟩

theorem Settled.kept {v : Value} (h : v.Settled) : v.Kept := by
  induction h with
  | @scalar v hv =>
    intro w e
    cases v <;> first | exact absurd hv id | (simp [resolve] at e; simp [isPlain, e])
  | @list items _ ih =>
    intro w e
    rw [resolve] at e
    obtain ⟨ws, hr, e⟩ := Except.bind_eq_ok.1 e
    cases e
    obtain ⟨rfl, hp⟩ := resolveItems_kept ih hr
    exact ⟨rfl, by rw [isPlain, hp]⟩
  | @object members hm _ ih =>
    intro w e
    match members, hm, ih, e with
    | [], _, _, e =>
      rw [resolve] at e
      cases e
      exact ⟨rfl, by simp [isPlain, membersPlain]⟩
    | (key, v) :: rest, hm, ih, e =>
      by_cases hk : key = embeddingKey
      · -- it would have to be the only key, which a value that was read does not have
        subst hk
        obtain rfl := resolve_marked e
        exact absurd rfl (hm v)
      · rw [resolve_object v rest hk] at e
        obtain ⟨u, hv, e⟩ := Except.bind_eq_ok.1 e
        obtain ⟨us, hr, e⟩ := Except.bind_eq_ok.1 e
        cases e
        obtain ⟨rfl, pv⟩ := ih (key, v) List.mem_cons_self u hv
        obtain ⟨rfl, pr⟩ := resolveMembers_kept (fun m hm => ih m (List.mem_cons_of_mem _ hm)) hr
        exact ⟨rfl, by simp [isPlain, membersPlain, hk, pv, pr]⟩

/-- A value that was read is its own resolution if it has no marks, and cannot be resolved
otherwise. -/
theorem Settled.resolve_eq_ok {v w : Value} (h : v.Settled) :
    v.resolve = .ok w ↔ v.isPlain = true ∧ w = v := by
  constructor
  · intro e
    obtain ⟨rfl, hp⟩ := h.kept w e
    exact ⟨hp, rfl⟩
  · rintro ⟨hp, rfl⟩
    exact resolve_of_isPlain hp

/-! ## Values that resolve to themselves -/

/-- What an embedded text stands for was read from a text. -/
theorem settled_of_resolve_marked {v w : Value} {rest : List (String × Value)}
    (h : resolve (.object ((embeddingKey, v) :: rest)) = .ok w) : w.Settled := by
  obtain rfl := resolve_marked h
  cases v with
  | text s =>
    rw [resolve, if_pos rfl] at h
    obtain ⟨u, hu, h⟩ := Except.bind_eq_ok.1 h
    cases h
    exact settled_of_parse hu
  | _ => simp [resolve] at h

mutual

/-- What resolving gives holds no object that is only a mark, whatever it was made from. -/
theorem settled_of_resolve : ∀ {v w : Value}, v.resolve = .ok w → w.Settled
  | .list items, w, h => by
    rw [resolve] at h
    obtain ⟨ws, hr, rfl⟩ := Except.map_eq_ok.1 h
    exact .list (settled_of_resolveItems hr)
  | .object [], w, h => by
    rw [resolve] at h
    cases h
    exact .object (by simp) (by simp)
  | .object ((key, v) :: rest), w, h => by
    by_cases hk : key = embeddingKey
    · subst hk
      exact settled_of_resolve_marked h
    · -- the object keeps its keys, the first of which is no mark
      rw [resolve_object v rest hk] at h
      obtain ⟨u, hv, h⟩ := Except.bind_eq_ok.1 h
      obtain ⟨us, hr, h⟩ := Except.bind_eq_ok.1 h
      cases h
      refine .object (fun v' he => ?_) ?_
      · cases he
        exact hk rfl
      · rw [List.forall_mem_cons]
        exact ⟨settled_of_resolve hv, settled_of_resolveMembers hr⟩
  | .null, _, h | .bool _, _, h | .int _, _, h | .double _, _, h | .text _, _, h => by
    simp only [resolve, Except.ok.injEq] at h
    subst h
    exact .scalar trivial

theorem settled_of_resolveItems : ∀ {items ws : List Value}, resolveItems items = .ok ws → ∀ w ∈ ws, w.Settled
  | [], ws, h => by
    rw [resolveItems] at h
    cases h
    simp
  | v :: rest, ws, h => by
    rw [resolveItems] at h
    obtain ⟨u, hv, h⟩ := Except.bind_eq_ok.1 h
    obtain ⟨us, hr, h⟩ := Except.bind_eq_ok.1 h
    cases h
    rw [List.forall_mem_cons]
    exact ⟨settled_of_resolve hv, settled_of_resolveItems hr⟩

theorem settled_of_resolveMembers : ∀ {members ws : List (String × Value)},
    resolveMembers members = .ok ws → ∀ m ∈ ws, m.2.Settled
  | [], ws, h => by
    rw [resolveMembers] at h
    cases h
    simp
  | (key, v) :: rest, ws, h => by
    rw [resolveMembers] at h
    obtain ⟨u, hv, h⟩ := Except.bind_eq_ok.1 h
    obtain ⟨us, hr, h⟩ := Except.bind_eq_ok.1 h
    cases h
    rw [List.forall_mem_cons]
    exact ⟨settled_of_resolve hv, settled_of_resolveMembers hr⟩

end

/-- A value that resolves to itself is one that could have been read, so it has no marks. -/
theorem isPlain_of_resolve {v : Value} (h : v.resolve = .ok v) : v.isPlain = true :=
  ((settled_of_resolve h).resolve_eq_ok.1 h).1

end AccessRecords.Json.Value
