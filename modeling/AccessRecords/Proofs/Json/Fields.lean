/-
Printed records are read back. A list is read item by item and a record field by field, both straight
from the text, so what is given for a printed list or object follows from what is given for its
parts.
-/
import AccessRecords.Json.Schema
import AccessRecords.Proofs.Json.RoundTrip

namespace AccessRecords.Json

open Reader Text.Utf8

variable {α β : Type} {d : Nat} {v : Value}

/-! ## Lists -/

namespace Reader

/-- The text of the value begins as a value does, and the reader gives `a` for it. -/
structure TakesItem (item : Reader α) (v : Value) (a : α) : Prop where
  opens : Opens (encodeChars v.chars)
  takes : Takes item v a

variable {item : Reader α} {vs : List Value} {as : List α}

/-- The items after the first one are read, after those before them. -/
theorem gives_each (h : List.Forall₂ (TakesItem item) vs as) : ∀ fuel before rest, vs.length < fuel →
    Gives (each item fuel false before) (encodeChars (Value.itemsChars vs) ++ rest) (before.reverse ++ as)
      rest := by
  induction h with
  | nil =>
    intro fuel before rest hf
    obtain ⟨fuel, rfl⟩ : ∃ n, fuel = n + 1 := ⟨fuel - 1, by omega⟩
    rw [List.append_nil]
    exact gives_bind (gives_hasItem_end false rest) (gives_bind (gives_skip _ _) (gives_pure _ _))
  | @cons v a vs as hv hvs ih =>
    intro fuel before rest hf
    rw [List.length_cons] at hf
    obtain ⟨fuel, rfl⟩ : ∃ n, fuel = n + 1 := ⟨fuel - 1, by omega⟩
    have hitem := hv.takes _ (apart_itemsChars vs rest)
    have hrest := ih fuel (a :: before) rest (by omega)
    have hopen := hv.opens.append (encodeChars (Value.itemsChars vs) ++ rest)
    rw [List.reverse_cons, List.append_assoc] at hrest
    rw [Value.itemsChars, encodeChars_append, List.append_assoc]
    exact gives_bind (gives_hasItem_next hopen) (gives_bind hitem hrest)

/-- The number of bytes bounds the number of items. -/
theorem gives_eachItem {bs rest : List UInt8} (h : Gives (each item (bs.length + 1) true []) bs as rest) :
    Gives (eachItem item) bs as rest := fun p => h p

theorem length_lt_itemsChars (vs : List Value) : vs.length < (Value.itemsChars vs).length := by
  induction vs with
  | nil => exact Nat.zero_lt_one
  | cons v vs ih =>
    rw [Value.itemsChars, List.length_append, List.length_cons, List.length_cons]
    omega

end Reader

theorem Decoder.takes_list {item : Decoder α} {vs : List Value} {as : List α}
    (h : List.Forall₂ (TakesItem (item.read d)) vs as) :
    Takes ((Decoder.list item).read (d + 1)) (.list vs) as := by
  intro rest hr
  have hread : ∀ {bs : List UInt8}, Gives (eachItem (item.read d)) bs as rest →
      Gives ((Decoder.list item).read (d + 1)) (0x5B :: bs) as rest := fun {bs} hg =>
    gives_bind (gives_peekToken (by decide) bs) (gives_bind (gives_bind (gives_skip _ _) (gives_pure _ _)) hg)
  cases h with
  | nil =>
    rw [Value.chars]
    refine hread (gives_eachItem ?_)
    exact gives_bind (gives_hasItem_end true rest) (gives_bind (gives_skip _ _) (gives_pure _ _))
  | @cons v a vs as hv hvs =>
    rw [Value.chars, encodeChars_append, encodeChars_cons, List.append_assoc, List.append_assoc]
    have hitem := hv.takes _ (apart_itemsChars vs rest)
    have hopen := hv.opens.append (encodeChars (Value.itemsChars vs) ++ rest)
    have hlen : vs.length < (encodeChars v.chars ++ (encodeChars (Value.itemsChars vs) ++ rest)).length := by
      have h₁ := length_lt_itemsChars vs
      have h₂ := length_le_encodeChars (Value.itemsChars vs)
      rw [List.length_append, List.length_append]
      omega
    refine hread (gives_eachItem ?_)
    exact gives_bind (gives_hasItem_first hopen) (gives_bind hitem (gives_each hvs _ [a] rest hlen))

/-! ## Single values -/

theorem Decoder.takes_text (s : String) (d : Nat) : Takes (Decoder.text.read d) (.text s) s := by
  intro rest _
  rw [Value.chars, encodeChars_textChars, List.cons_append, List.append_assoc]
  exact gives_bind (gives_peekToken (by decide) _) (gives_bind (gives_skip _ _) (gives_text s rest))

theorem Decoder.takes_texts (l : List String) (d : Nat) :
    Takes ((Decoder.list .text).read (d + 1)) (.texts l) l := by
  refine Decoder.takes_list ?_
  rw [List.forall₂_map_left_iff, List.forall₂_same]
  exact fun s _ => ⟨opens_chars (by simp), Decoder.takes_text s d⟩

theorem Decoder.takes_any (h : v.Fits d) : Takes (Decoder.any.read d) v v :=
  takes_anyValue (h.readsBack true).takes

theorem Field.takes_of {dec : Decoder β} {name : String} {set : β → α → α} {b : β} (h : Takes (dec.read d) v b)
    (a : α) : Takes ((Field.of name dec set).read d a) v (set b a) :=
  fun rest hr => gives_bind (h rest hr) (gives_pure _ _)

/-! ## Records -/

namespace Schema

variable {s : Schema α} {a a' : α} {seen : List String} {l : List (String × Value)}

/-- The members name fields of the record that were not given before, and reading their values one
after another takes it from `a` to `a'`. -/
inductive Fills (s : Schema α) (d : Nat) : List String → α → List (String × Value) → α → Prop
  | done {seen : List String} {a : α} : Fills s d seen a [] a
  | member {seen : List String} {k : String} {v : Value} {l : List (String × Value)} {f : Field α} {a a₁ a' : α} :
      s.field? k = some f → k ∉ seen → Takes (f.read d a) v a₁ → Fills s d (k :: seen) a₁ l a' →
      Fills s d seen a ((k, v) :: l) a'

/-- A member is read and put into the record, from where the next member is looked for. -/
theorem gives_member {fuel : Nat} {f : Field α} {k : String} {a₁ : α} {first : Bool} {input bs rest : List UInt8}
    (hfirst : Gives (hasMember first) input true
      (encodeChars (textChars k) ++ 0x3A :: (encodeChars v.chars ++ bs)))
    (hf : s.field? k = some f) (hk : k ∉ seen) (hv : Takes (f.read d a) v a₁) (hbs : Apart bs)
    (hl : Gives (s.readMembers d fuel false (k :: seen) a₁) bs a' rest) :
    Gives (s.readMembers d (fuel + 1) first seen a) input a' rest := by
  refine gives_bind hfirst ?_
  rw [if_pos rfl, encodeChars_textChars, List.cons_append, List.append_assoc]
  refine gives_bind (gives_skip _ _) (gives_bind (gives_text k _) ?_)
  rw [hf]
  dsimp only
  rw [if_neg (by simpa using hk)]
  exact gives_bind (gives_colon _) (gives_bind (hv bs hbs) hl)

/-- The members after the first one are read. -/
theorem Fills.gives_readMembers (h : Fills s d seen a l a') : ∀ fuel rest, l.length < fuel →
    Gives (s.readMembers d fuel false seen a) (encodeChars (Value.membersChars l) ++ rest) a' rest := by
  induction h with
  | done =>
    intro fuel rest hf
    obtain ⟨fuel, rfl⟩ : ∃ n, fuel = n + 1 := ⟨fuel - 1, by omega⟩
    exact gives_bind (gives_hasMember_end false rest) (gives_bind (gives_skip _ _) (gives_pure _ _))
  | @member seen k v l f a a₁ a' hf hk hv hl ih =>
    intro fuel rest hlen
    rw [List.length_cons] at hlen
    obtain ⟨fuel, rfl⟩ : ∃ n, fuel = n + 1 := ⟨fuel - 1, by omega⟩
    have hrest := ih fuel rest (by omega)
    rw [encodeChars_membersChars_cons]
    exact gives_member (gives_hasMember_next (head?_textChars k _)) hf hk hv (apart_membersChars l rest) hrest

/-- A printed record is read back as the record that its members make of the blank one. -/
theorem takes_read (h : Fills s d [] s.blank l a) : Takes (s.read (d + 1)) (.object l) a := by
  intro rest hr
  have hread : ∀ {bs : List UInt8}, Gives (s.readMembers d (bs.length + 1) true [] s.blank) bs a rest →
      Gives (s.read (d + 1)) (0x7B :: bs) a rest := fun {bs} hg =>
    gives_bind (gives_peekToken (by decide) bs)
      (gives_bind (gives_bind (gives_skip _ _) (gives_pure _ _)) fun p => hg p)
  cases h with
  | done =>
    rw [Value.chars]
    refine hread ?_
    exact gives_bind (gives_hasMember_end true rest) (gives_bind (gives_skip _ _) (gives_pure _ _))
  | @member _ k v l f _ a₁ _ hf hk hv hl =>
    rw [encodeChars_object_cons]
    refine hread ?_
    exact gives_member (gives_hasMember_first (head?_textChars k _)) hf hk hv (apart_membersChars l rest)
      (hl.gives_readMembers _ rest (length_lt_encodeMembers k v l rest))

end Schema

end AccessRecords.Json
