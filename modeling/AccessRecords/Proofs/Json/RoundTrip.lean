/-
Printed values are read back. A value without doubles and without marks of embedded texts, nested no
deeper than a reader allows, is what reading its text gives; the members of an object may be printed
in any order and come back in the order of their keys. The induction is on the value; the steps that
a reader is allowed never run out, because each of them moves past a character.
-/
import AccessRecords.Proofs.Json.Embedded
import AccessRecords.Proofs.Json.Printed
import AccessRecords.Proofs.Text.Numeral

namespace AccessRecords

/-! ## Members in order -/

namespace Entries

variable {κ β : Type} [Ord κ]

/-- Entries put among others one after another; of entries with one key the last counts. -/
def insertAll (before entries : List (κ × β)) : List (κ × β) := entries.foldl (fun l e => insert e.1 e.2 l) before

theorem insert_nil (k : κ) (v : β) : insert k v [] = [(k, v)] := rfl

theorem insert_cons_of_lt {k k' : κ} (h : compare k k' = .lt) (v v' : β) (l : List (κ × β)) :
    insert k v ((k', v') :: l) = (k, v) :: (k', v') :: l := by
  rw [insert, h]

theorem insert_cons_of_gt {k k' : κ} (h : compare k k' = .gt) (v v' : β) (l : List (κ × β)) :
    insert k v ((k', v') :: l) = (k', v') :: insert k v l := by
  rw [insert, h]

theorem insert_of_gt {k : κ} {v : β} {l : List (κ × β)} (h : ∀ e ∈ l, compare k e.1 = .gt) :
    insert k v l = l ++ [(k, v)] := by
  induction l with
  | nil => rfl
  | cons e l ih =>
    rw [insert_cons_of_gt (h e List.mem_cons_self), ih fun e' he => h e' (List.mem_cons_of_mem _ he),
      List.cons_append]

/-- Entries that ascend stay as they are. -/
theorem insertAll_of_ascending [Std.OrientedOrd κ] {before entries : List (κ × β)}
    (h : Ascending (before ++ entries)) : insertAll before entries = before ++ entries := by
  induction entries generalizing before with
  | nil => exact (List.append_nil _).symm
  | cons e entries ih =>
    have hlast : insert e.1 e.2 before = before ++ [e] :=
      insert_of_gt fun e' he => Std.OrientedCmp.gt_of_lt
        ((List.pairwise_append.1 h).2.2 e' he e List.mem_cons_self)
    have hstep : insertAll before (e :: entries) = insertAll (before ++ [e]) entries := by
      unfold insertAll
      rw [List.foldl_cons, hlast]
    rw [hstep, ih (by rwa [List.append_assoc]), List.append_assoc]
    rfl

theorem mem_insertAll {before entries : List (κ × β)} {e : κ × β} (h : e ∈ insertAll before entries) :
    e ∈ before ∨ e ∈ entries := by
  induction entries generalizing before with
  | nil => exact .inl h
  | cons a entries ih =>
    rcases ih h with h | h
    · rcases mem_insert h with rfl | h
      · exact .inr List.mem_cons_self
      · exact .inl h
    · exact .inr (List.mem_cons_of_mem _ h)

theorem ascending_insertAll [Std.TransOrd κ] {before : List (κ × β)} (h : Ascending before)
    (entries : List (κ × β)) : Ascending (insertAll before entries) := by
  induction entries generalizing before with
  | nil => exact h
  | cons e entries ih => exact ih (ascending_insert h)

section Place

variable [Std.LawfulEqOrd κ] {k : κ} {l : List (κ × β)}

/-- A key that is not there has a place of its own. -/
theorem exists_insert_eq (h : ∀ e ∈ l, e.1 ≠ k) :
    ∃ before after, l = before ++ after ∧ ∀ v, insert k v l = before ++ (k, v) :: after := by
  induction l with
  | nil => exact ⟨[], [], rfl, fun v => rfl⟩
  | cons e l ih =>
    rcases hc : compare k e.1 with _ | _ | _
    · exact ⟨[], e :: l, rfl, fun v => by rw [insert, hc]; rfl⟩
    · exact absurd (Std.LawfulEqCmp.compare_eq_iff_eq.1 hc).symm (h e List.mem_cons_self)
    · obtain ⟨before, after, rfl, hi⟩ := ih fun e he => h e (List.mem_cons_of_mem _ he)
      exact ⟨e :: before, after, rfl, fun v => by rw [insert, hc]; exact congrArg _ (hi v)⟩

variable [Std.TransOrd κ] [DecidableEq κ]

theorem insert_comm (hl : Ascending l) {k' : κ} (h : k ≠ k') (v v' : β) :
    insert k v (insert k' v' l) = insert k' v' (insert k v l) := by
  refine ext (ascending_insert (ascending_insert hl)) (ascending_insert (ascending_insert hl)) fun x => ?_
  rw [find?_insert, find?_insert, find?_insert, find?_insert]
  by_cases hx : x = k
  · rw [if_pos hx, if_neg (hx ▸ h), if_pos hx]
  · rw [if_neg hx, if_neg hx]

/-- An entry can be put in before others of other keys or after them. -/
theorem insertAll_insert (hl : Ascending l) {entries : List (κ × β)} (h : ∀ e ∈ entries, e.1 ≠ k) (v : β) :
    insertAll (insert k v l) entries = insert k v (insertAll l entries) := by
  induction entries generalizing l with
  | nil => rfl
  | cons e entries ih =>
    show insertAll (insert e.1 e.2 (insert k v l)) entries = insert k v (insertAll (insert e.1 e.2 l) entries)
    rw [insert_comm hl (h e List.mem_cons_self), ih (ascending_insert hl) fun e he => h e (List.mem_cons_of_mem _ he)]

/-- Wherever one entry stands among others of other keys, it gets the same place between them. -/
theorem exists_insertAll_eq {before after : List (κ × β)} (h : ∀ e ∈ before ++ after, e.1 ≠ k) :
    ∃ before' after', insertAll [] (before ++ after) = before' ++ after' ∧
      (∀ e ∈ before' ++ after', e.1 ≠ k) ∧
      ∀ v, insertAll [] (before ++ (k, v) :: after) = before' ++ (k, v) :: after' := by
  have hasc : Ascending (insertAll [] before) := ascending_insertAll List.Pairwise.nil before
  have hkeys : ∀ e ∈ insertAll [] (before ++ after), e.1 ≠ k := by
    intro e he
    rcases mem_insertAll he with he | he
    · cases he
    · exact h e he
  obtain ⟨before', after', hl, hi⟩ := exists_insert_eq hkeys
  refine ⟨before', after', hl, hl ▸ hkeys, fun v => ?_⟩
  -- the entry comes before the later ones, and could as well come last
  rw [← hi v]
  unfold insertAll at hasc ⊢
  rw [List.foldl_append, List.foldl_append]
  exact insertAll_insert hasc (fun e he => h e (List.mem_append_right _ he)) v

end Place

end Entries

namespace Json

open Text.Utf8

/-! ## Values that can be read back -/

/-- The value holds no double and no mark of an embedded text, its integers fit in 64 bits, the members
of its objects ascend, and at most so many of its brackets are open at once. -/
inductive Value.Fits : Nat → Value → Prop
  | scalar {d : Nat} {v : Value} : v.Scalar → v.Canonical → v.isExact = true → Fits d v
  | list {d : Nat} {items : List Value} : (∀ v ∈ items, Fits d v) → Fits (d + 1) (.list items)
  | object {d : Nat} {members : List (String × Value)} : Entries.Ascending members →
      (∀ m, members.head? = some m → m.1 ≠ embeddingKey) → (∀ m ∈ members, Fits d m.2) →
      Fits (d + 1) (.object members)

namespace Value

mutual

theorem fits_of_depth_le : ∀ {d : Nat} {v : Value}, v.Canonical → v.isExact = true → v.isPlain = true →
    v.depth ≤ d → v.Fits d
  | d + 1, .list items, hc, he, hp, hd => by
    rw [Canonical] at hc
    rw [isExact] at he
    rw [isPlain] at hp
    rw [depth] at hd
    exact .list (fits_items hc he hp (by omega))
  | d + 1, .object members, hc, he, hp, hd => by
    rw [Canonical] at hc
    rw [isExact] at he
    rw [isPlain, Bool.and_eq_true, Option.all_eq_true] at hp
    rw [depth] at hd
    exact .object hc.1 (fun m hm => of_decide_eq_true (hp.1 m hm)) (fits_members hc.2 he hp.2 (by omega))
  | 0, .list items, _, _, _, hd | 0, .object members, _, _, _, hd => by
    rw [depth] at hd
    omega
  | _, .null, hc, he, _, _ | _, .bool _, hc, he, _, _ | _, .int _, hc, he, _, _
  | _, .double _, hc, he, _, _ | _, .text _, hc, he, _, _ => .scalar trivial hc he

theorem fits_items : ∀ {d : Nat} {items : List Value}, CanonicalItems items → itemsExact items = true →
    itemsPlain items = true → itemsDepth items ≤ d → ∀ v ∈ items, v.Fits d
  | _, [], _, _, _, _ => by simp
  | d, v :: rest, hc, he, hp, hd => by
    rw [CanonicalItems] at hc
    rw [itemsExact, Bool.and_eq_true] at he
    rw [itemsPlain, Bool.and_eq_true] at hp
    rw [itemsDepth] at hd
    rw [List.forall_mem_cons]
    have hv : v.depth ≤ d := by omega
    exact ⟨fits_of_depth_le hc.1 he.1 hp.1 hv, fits_items hc.2 he.2 hp.2 (by omega)⟩

theorem fits_members : ∀ {d : Nat} {members : List (String × Value)}, CanonicalMembers members →
    membersExact members = true → membersPlain members = true → membersDepth members ≤ d →
    ∀ m ∈ members, m.2.Fits d
  | _, [], _, _, _, _ => by simp
  | d, (k, v) :: rest, hc, he, hp, hd => by
    rw [CanonicalMembers] at hc
    rw [membersExact, Bool.and_eq_true] at he
    rw [membersPlain, Bool.and_eq_true] at hp
    rw [membersDepth] at hd
    rw [List.forall_mem_cons]
    have hv : v.depth ≤ d := by omega
    exact ⟨fits_of_depth_le hc.1 he.1 hp.1 hv, fits_members hc.2 he.2 hp.2 (by omega)⟩

end

end Value

namespace Reader

variable {α : Type} {resolve : Bool} {d : Nat} {v : Value}

/-- The reader gives `a` for the text of a value, as long as no number goes on after it. -/
def Takes (r : Reader α) (v : Value) (a : α) : Prop :=
  ∀ rest, Apart rest → Gives r (encodeChars v.chars ++ rest) a rest

/-! ## First bytes -/

/-- The text of a number that is not negative begins with a digit. -/
theorem exists_digit (n : Nat) : ∃ b bs, encodeChars (Nat.toDigits 10 n) = b :: bs ∧ isDigit b = true := by
  obtain ⟨c, ds, hcs⟩ := List.exists_cons_of_ne_nil (Nat.toDigits_ne_nil (n := n) (b := 10))
  have hc : c.isDigit = true := Text.isDigit_toDigits (hcs ▸ List.mem_cons_self)
  obtain ⟨b, hb, hdigit, -⟩ := encodeChar_of_isDigit hc
  rw [hcs, encodeChars_cons, hb]
  exact ⟨b, _, rfl, hdigit⟩

theorem opens_chars (h : ∀ x, v ≠ .double x) : Opens (encodeChars v.chars) := by
  cases v with
  | null => exact ⟨_, _, rfl, by decide, by decide⟩
  | bool b => cases b <;> exact ⟨_, _, rfl, by decide, by decide⟩
  | int n =>
    rw [Value.chars, intChars]
    split_ifs
    · exact ⟨_, _, rfl, by decide, by decide⟩
    · obtain ⟨b, bs, hb, hdigit⟩ := exists_digit n.natAbs
      exact ⟨b, bs, hb, isSpace_of_isDigit hdigit, ne_of_isDigit hdigit (by decide)⟩
  | double x => exact absurd rfl (h x)
  | text s =>
    rw [Value.chars, encodeChars_textChars]
    exact ⟨_, _, rfl, by decide, by decide⟩
  | list items => cases items <;> rw [Value.chars] <;> exact ⟨_, _, rfl, by decide, by decide⟩
  | object members => cases members <;> rw [Value.chars] <;> exact ⟨_, _, rfl, by decide, by decide⟩

/-! ## Scalars -/

theorem gives_scalar_int {n : Int} (hl : -9223372036854775808 ≤ n) (hu : n ≤ 18446744073709551615) :
    ∃ b bs, encodeChars (Value.int n).chars = b :: bs ∧ isSpace b = false ∧ ¬ (b = 0x5B ∨ b = 0x7B) ∧
      ∀ rest, Apart rest → Gives (scalar b) (b :: (bs ++ rest)) (.int n) rest := by
  rw [Value.chars, intChars]
  by_cases hn : n < 0
  · rw [if_pos hn]
    refine ⟨0x2D, _, rfl, by decide, by decide, fun rest hr => ?_⟩
    rw [← whole_of_neg hn hl]
    exact gives_bind (gives_skip _ _) (gives_number hr true (by unfold significandLimit; omega))
  · rw [if_neg hn]
    obtain ⟨b, bs, hb, hdigit⟩ := exists_digit n.natAbs
    have hne : ∀ {c : UInt8}, isDigit c = false → b ≠ c := fun h => ne_of_isDigit hdigit h
    refine ⟨b, bs, hb, isSpace_of_isDigit hdigit, ?_, fun rest hr => ?_⟩
    · rintro (h | h)
      · exact hne (by decide) h
      · exact hne (by decide) h
    · have hg := gives_number hr false (n := n.natAbs) (by unfold significandLimit; omega)
      rw [hb, List.cons_append, whole_of_nonneg (by omega)] at hg
      -- a digit is none of the four bytes that are looked for before digits are
      unfold scalar
      rw [if_neg (hne (by decide)), if_neg (hne (by decide)), if_neg (hne (by decide)), if_neg (hne (by decide)),
        if_pos hdigit]
      exact hg

/-- A printed scalar is read back by its first byte. -/
theorem gives_scalar (hs : v.Scalar) (hc : v.Canonical) (he : v.isExact = true) :
    ∃ b bs, encodeChars v.chars = b :: bs ∧ isSpace b = false ∧ ¬ (b = 0x5B ∨ b = 0x7B) ∧
      ∀ rest, Apart rest → Gives (scalar b) (b :: (bs ++ rest)) v rest := by
  cases v with
  | null =>
    refine ⟨_, _, rfl, by decide, by decide, fun rest _ => ?_⟩
    exact gives_bind (gives_skip _ _) (gives_bind (gives_word [0x75, 0x6C, 0x6C] rest) (gives_pure _ _))
  | bool b =>
    cases b with
    | true =>
      refine ⟨_, _, rfl, by decide, by decide, fun rest _ => ?_⟩
      exact gives_bind (gives_skip _ _) (gives_bind (gives_word [0x72, 0x75, 0x65] rest) (gives_pure _ _))
    | false =>
      refine ⟨_, _, rfl, by decide, by decide, fun rest _ => ?_⟩
      exact gives_bind (gives_skip _ _) (gives_bind (gives_word [0x61, 0x6C, 0x73, 0x65] rest) (gives_pure _ _))
  | int n =>
    rw [Value.Canonical] at hc
    exact gives_scalar_int hc.1 hc.2
  | double x =>
    rw [Value.isExact] at he
    cases he
  | text s =>
    rw [Value.chars, encodeChars_textChars]
    refine ⟨0x22, _, rfl, by decide, by decide, fun rest _ => ?_⟩
    rw [List.append_assoc]
    exact gives_bind (gives_skip _ _) (gives_bind (gives_text s rest) (gives_pure _ _))
  | list items => exact absurd hs id
  | object members => exact absurd hs id

/-! ## Nested values -/

/-- The text of the value begins as a value does, and it is read back by any number of steps that is
not smaller than its length. -/
structure ReadsBack (resolve : Bool) (d : Nat) (v : Value) : Prop where
  opens : Opens (encodeChars v.chars)
  takes : ∀ fuel, v.chars.length ≤ fuel → Takes (value resolve fuel d) v v

theorem Opens.length_pos {cs : List Char} (h : Opens (encodeChars cs)) : 0 < cs.length := by
  obtain ⟨b, bs, hb, -⟩ := h
  refine List.length_pos_iff.2 fun he => ?_
  rw [he] at hb
  cases hb

/-- A value that begins with a bracket is read past the bracket, one level down. -/
theorem gives_value_open {fuel : Nat} {b : UInt8} {bs rest : List UInt8} {w : Value} (hb : b = 0x5B ∨ b = 0x7B)
    (h : Gives (if b = 0x5B then return .list (← items resolve fuel d true []) else members resolve fuel d true [])
      bs w rest) : Gives (value resolve (fuel + 1) (d + 1)) (b :: bs) w rest := by
  have hs : isSpace b = false := by
    rcases hb with rfl | rfl <;> decide
  unfold value
  refine gives_bind (gives_peekToken hs bs) ?_
  dsimp only
  rw [if_pos hb]
  exact gives_bind (gives_skip b bs) h

theorem apart_itemsChars (l : List Value) (rest : List UInt8) :
    Apart (encodeChars (Value.itemsChars l) ++ rest) := by
  cases l <;> exact apart_cons (by decide) (by decide) (by decide) _

theorem apart_membersChars (l : List (String × Value)) (rest : List UInt8) :
    Apart (encodeChars (Value.membersChars l) ++ rest) := by
  cases l <;> exact apart_cons (by decide) (by decide) (by decide) _

/-! ## Members in the text -/

section Members

variable (k : String) (v : Value) (l : List (String × Value)) (rest : List UInt8)

theorem encodeChars_membersChars_cons : encodeChars (Value.membersChars ((k, v) :: l)) ++ rest =
    0x2C :: (encodeChars (textChars k) ++
      0x3A :: (encodeChars v.chars ++ (encodeChars (Value.membersChars l) ++ rest))) := by
  rw [Value.membersChars, encodeChars_append, encodeChars_append, List.append_assoc, List.append_assoc]
  rfl

theorem encodeChars_object_cons : encodeChars (Value.object ((k, v) :: l)).chars ++ rest =
    0x7B :: (encodeChars (textChars k) ++
      0x3A :: (encodeChars v.chars ++ (encodeChars (Value.membersChars l) ++ rest))) := by
  rw [Value.chars, encodeChars_append, encodeChars_append, List.append_assoc, List.append_assoc]
  rfl

theorem length_lt_membersChars : l.length < (Value.membersChars l).length := by
  induction l with
  | nil => exact Nat.zero_lt_one
  | cons m l ih =>
    rw [Value.membersChars, List.length_append, List.length_append, List.length_cons, List.length_cons]
    omega

/-- A member and those after it take more bytes than there are members after it. -/
theorem length_lt_encodeMembers : l.length < (encodeChars (textChars k) ++
    0x3A :: (encodeChars v.chars ++ (encodeChars (Value.membersChars l) ++ rest))).length := by
  have h₁ := length_lt_membersChars l
  have h₂ := length_le_encodeChars (Value.membersChars l)
  simp only [List.length_append, List.length_cons]
  omega

end Members

/-! ## Containers -/

/-- The items after the first one are read back, after those before them. -/
theorem gives_items {l : List Value} (h : ∀ v ∈ l, ReadsBack resolve d v) : ∀ fuel before rest,
    (Value.itemsChars l).length ≤ fuel →
    Gives (items resolve fuel d false before) (encodeChars (Value.itemsChars l) ++ rest) (before.reverse ++ l)
      rest := by
  induction l with
  | nil =>
    intro fuel before rest hf
    rw [Value.itemsChars, List.length_singleton] at hf
    obtain ⟨fuel, rfl⟩ : ∃ n, fuel = n + 1 := ⟨fuel - 1, by omega⟩
    rw [List.append_nil]
    exact gives_bind (gives_hasItem_end false rest) (gives_bind (gives_skip _ _) (gives_pure _ _))
  | cons v l ih =>
    intro fuel before rest hf
    -- the comma pays for this step, so what is left suffices for the item and for the items after it
    rw [Value.itemsChars, List.length_append, List.length_cons] at hf
    obtain ⟨fuel, rfl⟩ : ∃ n, fuel = n + 1 := ⟨fuel - 1, by omega⟩
    have hv := (h v List.mem_cons_self).takes fuel (by omega) _ (apart_itemsChars l rest)
    have hl := ih (fun u hu => h u (List.mem_cons_of_mem _ hu)) fuel (v :: before) rest (by omega)
    have hopen := (h v List.mem_cons_self).opens.append (encodeChars (Value.itemsChars l) ++ rest)
    rw [List.reverse_cons, List.append_assoc] at hl
    rw [Value.itemsChars, encodeChars_append, List.append_assoc]
    exact gives_bind (gives_hasItem_next hopen) (gives_bind hv hl)

theorem readsBack_list {l : List Value} (h : ∀ v ∈ l, ReadsBack resolve d v) :
    ReadsBack resolve (d + 1) (.list l) := by
  refine ⟨opens_chars (by simp), fun fuel hf rest hr => ?_⟩
  cases l with
  | nil =>
    rw [Value.chars] at hf ⊢
    obtain ⟨fuel, rfl⟩ : ∃ n, fuel = n + 2 := ⟨fuel - 2, by simp at hf; omega⟩
    refine gives_value_open (.inl rfl) ?_
    refine gives_bind (gives_bind (gives_hasItem_end true rest) (gives_bind (gives_skip _ _) (gives_pure _ _))) ?_
    exact gives_pure _ _
  | cons v l =>
    rw [Value.chars, List.length_append, List.length_cons] at hf
    have hpos := (h v List.mem_cons_self).opens.length_pos
    have hend : 0 < (Value.itemsChars l).length := by cases l <;> simp [Value.itemsChars]
    obtain ⟨fuel, rfl⟩ : ∃ n, fuel = n + 2 := ⟨fuel - 2, by omega⟩
    have hv := (h v List.mem_cons_self).takes fuel (by omega) _ (apart_itemsChars l rest)
    have hl := gives_items (fun u hu => h u (List.mem_cons_of_mem _ hu)) fuel [v] rest (by omega)
    have hopen := (h v List.mem_cons_self).opens.append (encodeChars (Value.itemsChars l) ++ rest)
    rw [Value.chars, encodeChars_append, encodeChars_cons, List.append_assoc, List.append_assoc]
    refine gives_value_open (.inl rfl) ?_
    exact gives_bind (gives_bind (gives_hasItem_first hopen) (gives_bind hv hl)) (gives_pure _ _)

/-- The members after the first one are read back and put among those before them. -/
theorem gives_members {l : List (String × Value)} (h : ∀ m ∈ l, ReadsBack resolve d m.2) : ∀ fuel before rest,
    (Value.membersChars l).length ≤ fuel →
    Gives (members resolve fuel d false before) (encodeChars (Value.membersChars l) ++ rest)
      (.object (Entries.insertAll before l)) rest := by
  induction l with
  | nil =>
    intro fuel before rest hf
    rw [Value.membersChars, List.length_singleton] at hf
    obtain ⟨fuel, rfl⟩ : ∃ n, fuel = n + 1 := ⟨fuel - 1, by omega⟩
    exact gives_bind (gives_hasMember_end false rest) (gives_bind (gives_skip _ _) (gives_pure _ _))
  | cons m l ih =>
    obtain ⟨k, v⟩ := m
    intro fuel before rest hf
    rw [Value.membersChars, List.length_append, List.length_append, List.length_cons, List.length_cons] at hf
    obtain ⟨fuel, rfl⟩ : ∃ n, fuel = n + 1 := ⟨fuel - 1, by omega⟩
    have hlen : v.chars.length ≤ fuel := by omega
    have hv := (h (k, v) List.mem_cons_self).takes fuel hlen _ (apart_membersChars l rest)
    have hl := ih (fun u hu => h u (List.mem_cons_of_mem _ hu)) fuel (Entries.insert k v before) rest (by omega)
    rw [encodeChars_membersChars_cons]
    refine gives_bind (gives_hasMember_next (head?_textChars k _)) (gives_bind (gives_key k _) ?_)
    rw [Bool.and_false, Bool.false_and, if_neg (by decide)]
    exact gives_bind hv hl

/-- A printed object is read back with its members in order, unless its first key is the mark of an
embedded text. -/
theorem takes_object {l : List (String × Value)} (hk : ∀ m, l.head? = some m → m.1 ≠ Value.embeddingKey)
    (h : ∀ m ∈ l, ReadsBack resolve d m.2) {fuel : Nat} (hf : (Value.object l).chars.length ≤ fuel) :
    Takes (value resolve fuel (d + 1)) (.object l) (.object (Entries.insertAll [] l)) := by
  intro rest hr
  cases l with
  | nil =>
    rw [Value.chars] at hf ⊢
    obtain ⟨fuel, rfl⟩ : ∃ n, fuel = n + 2 := ⟨fuel - 2, by simp at hf; omega⟩
    refine gives_value_open (.inr rfl) ?_
    exact gives_bind (gives_hasMember_end true rest) (gives_bind (gives_skip _ _) (gives_pure _ _))
  | cons m l =>
    obtain ⟨k, v⟩ := m
    rw [Value.chars, List.length_append, List.length_append, List.length_cons, List.length_cons] at hf
    have hend : 0 < (Value.membersChars l).length := by cases l <;> simp [Value.membersChars]
    obtain ⟨fuel, rfl⟩ : ∃ n, fuel = n + 2 := ⟨fuel - 2, by omega⟩
    have hlen : v.chars.length ≤ fuel := by omega
    have hv := (h (k, v) List.mem_cons_self).takes fuel hlen _ (apart_membersChars l rest)
    have hl := gives_members (fun u hu => h u (List.mem_cons_of_mem _ hu)) fuel (Entries.insert k v []) rest
      (by omega)
    have hkey : (k == Value.embeddingKey) = false := beq_eq_false_iff_ne.2 (hk (k, v) rfl)
    rw [encodeChars_object_cons]
    refine gives_value_open (.inr rfl) ?_
    rw [if_neg (by decide)]
    refine gives_bind (gives_hasMember_first (head?_textChars k _)) (gives_bind (gives_key k _) ?_)
    -- only the first key is compared with the mark
    rw [hkey, Bool.and_false, if_neg (by decide)]
    exact gives_bind hv hl

end Reader

namespace Value

variable {d : Nat} {v : Value}

theorem Fits.opens (h : v.Fits d) : Reader.Opens (encodeChars v.chars) := by
  refine Reader.opens_chars fun x => ?_
  rintro rfl
  cases h with
  | scalar _ _ he =>
    rw [isExact] at he
    cases he

theorem fits_text (s : String) (d : Nat) : (text s).Fits d :=
  .scalar trivial (by simp [Canonical]) (by simp [isExact])

theorem fits_texts (l : List String) (d : Nat) : (texts l).Fits (d + 1) := by
  refine .list ?_
  rw [List.forall_mem_map]
  exact fun s _ => fits_text s d

/-- Values that fit are read back, whether embedded texts are resolved or not. -/
theorem Fits.readsBack (resolve : Bool) (h : v.Fits d) : Reader.ReadsBack resolve d v := by
  induction h with
  | @scalar d v hs hc he =>
    have hopens : Reader.Opens (encodeChars v.chars) := (Fits.scalar (d := d) hs hc he).opens
    refine ⟨hopens, fun fuel hf rest hr => ?_⟩
    have hpos := hopens.length_pos
    obtain ⟨fuel, rfl⟩ : ∃ n, fuel = n + 1 := ⟨fuel - 1, by omega⟩
    obtain ⟨b, bs, hb, hspace, hbracket, hg⟩ := Reader.gives_scalar hs hc he
    rw [hb, List.cons_append]
    unfold Reader.value
    refine Reader.gives_bind (Reader.gives_peekToken hspace _) ?_
    dsimp only
    rw [if_neg hbracket]
    exact hg rest hr
  | list _ ih => exact Reader.readsBack_list ih
  | @object d l hasc hk _ ih =>
    refine ⟨Reader.opens_chars (by simp), fun fuel hf => ?_⟩
    have ht := Reader.takes_object hk ih hf
    rwa [Entries.insertAll_of_ascending (show Entries.Ascending ([] ++ l) from hasc)] at ht

end Value

namespace Reader

/-- A reader of any value has steps enough for the text of one. -/
theorem takes_anyValue {resolve : Bool} {d : Nat} {v w : Value}
    (h : ∀ fuel, v.chars.length ≤ fuel → Takes (value resolve fuel d) v w) : Takes (anyValue resolve d) v w := by
  intro rest hr p
  have hlen := length_le_encodeChars v.chars
  refine h _ ?_ rest hr p
  unfold enoughFuel
  rw [List.length_append]
  omega

theorem runAll_of_takes {α : Type} {r : Reader α} {v : Value} {a : α} (h : Takes r v a) :
    runAll r (Text.Utf8.encode v.print) = .ok a := by
  have hg := h [] apart_nil
  rw [List.append_nil] at hg
  have he : Text.Utf8.encode v.print = encodeChars v.chars := Text.Utf8.encode_ofList v.chars
  rw [he]
  exact runAll_eq_ok hg

end Reader

namespace Value

/-- The text of a value that fits is read back as the value. -/
theorem parse_print {v : Value} (h : v.Fits Reader.maxDepth) : parse (Text.Utf8.encode v.print) = .ok v :=
  Reader.runAll_of_takes (Reader.takes_anyValue (h.readsBack true).takes)

/-- The members of an object may be printed in any order. -/
theorem parse_print_object {members : List (String × Value)}
    (hk : ∀ m, members.head? = some m → m.1 ≠ embeddingKey) (h : ∀ m ∈ members, m.2.Fits 126) :
    parse (Text.Utf8.encode (object members).print) = .ok (object (Entries.insertAll [] members)) :=
  Reader.runAll_of_takes (Reader.takes_anyValue fun _ hf =>
    Reader.takes_object (d := 126) hk (fun m hm => (h m hm).readsBack true) hf)

end Value

end Json

end AccessRecords
