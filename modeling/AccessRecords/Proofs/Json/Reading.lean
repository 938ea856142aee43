/-
Readers that succeed. `Reader.Gives r input a rest` says that on the bytes `input`, wherever in a
text they stand, `r` gives `a` and leaves `rest`; places only matter where a reader stops with a
fault. The rules follow the ways in which readers are put together, down to the punctuation between
the parts of a text that was printed without blanks.
-/
import AccessRecords.Json.Parser
import Mathlib.Tactic

namespace AccessRecords.Json.Reader

variable {α β : Type} {a : α} {b c : UInt8} {bs rest : List UInt8}

/-- On these bytes, wherever they stand, the reader gives the value and leaves the rest. -/
def Gives (r : Reader α) (input : List UInt8) (a : α) (rest : List UInt8) : Prop :=
  ∀ p, ∃ p', r ⟨input, p⟩ = .ok (a, ⟨rest, p'⟩)

/-! ## Rules -/

theorem gives_pure (a : α) (bs : List UInt8) : Gives (pure a) bs a bs := fun p => ⟨p, rfl⟩

theorem gives_bind {r : Reader β} {f : β → Reader α} {x : β} {input middle : List UInt8}
    (hr : Gives r input x middle) (hf : Gives (f x) middle a rest) : Gives (r >>= f) input a rest := by
  intro p
  obtain ⟨p₁, h₁⟩ := hr p
  obtain ⟨p₂, h₂⟩ := hf p₁
  refine ⟨p₂, ?_⟩
  show (r ⟨input, p⟩ >>= fun q => f q.1 q.2) = _
  rw [h₁]
  exact h₂

theorem runAll_eq_ok {r : Reader α} (h : Gives r bs a []) : runAll r bs = .ok a := by
  have hall : Gives (do let a ← r; finish; return a : Reader α) bs a [] :=
    gives_bind h fun p => ⟨p, rfl⟩
  obtain ⟨p, hp⟩ := hall {}
  unfold runAll
  rw [hp]

/-! ## Single bytes -/

theorem gives_peek (b : UInt8) (bs : List UInt8) : Gives peek (b :: bs) (some b) (b :: bs) := fun p => ⟨p, rfl⟩

theorem gives_skip (b : UInt8) (bs : List UInt8) : Gives skip (b :: bs) () bs := fun p => ⟨p.after b, rfl⟩

theorem gives_next (b : UInt8) (bs : List UInt8) : Gives next (b :: bs) (some b) bs :=
  gives_bind (gives_peek b bs) (gives_bind (gives_skip b bs) (gives_pure _ _))

theorem gives_word : ∀ (w rest : List UInt8), Gives (word w) (w ++ rest) () rest
  | [], rest => gives_pure () rest
  | b :: w, rest => by
    rw [word, List.cons_append]
    refine gives_bind (gives_next b _) ?_
    dsimp only
    rw [if_pos rfl]
    exact gives_word w rest

theorem gives_peekToken (h : isSpace b = false) (bs : List UInt8) :
    Gives peekToken (b :: bs) (some b) (b :: bs) := by
  intro p
  refine ⟨p, ?_⟩
  show Except.ok ((dropSpaces (b :: bs) p).rest.head?, dropSpaces (b :: bs) p) = _
  have hd : dropSpaces (b :: bs) p = ⟨b :: bs, p⟩ := by
    rw [dropSpaces, h]
    rfl
  rw [hd]
  rfl

/-! ## Punctuation -/

theorem gives_colon (bs : List UInt8) : Gives colon (0x3A :: bs) () bs :=
  gives_bind (gives_peekToken (by decide) bs) (gives_skip _ bs)

/-- The bytes begin with neither a blank nor the end of a list. -/
def Opens (bs : List UInt8) : Prop := ∃ b bs', bs = b :: bs' ∧ isSpace b = false ∧ b ≠ 0x5D

theorem Opens.append (h : Opens bs) (rest : List UInt8) : Opens (bs ++ rest) := by
  obtain ⟨b, bs', rfl, hs, hb⟩ := h
  exact ⟨b, bs' ++ rest, List.cons_append, hs, hb⟩

/-- The first item of a list starts right after the bracket. -/
theorem gives_hasItem_first (h : Opens bs) : Gives (hasItem true) bs true bs := by
  obtain ⟨b, bs', rfl, hs, hb⟩ := h
  refine gives_bind (gives_peekToken hs bs') ?_
  dsimp only
  rw [if_neg hb, if_pos rfl]
  exact gives_pure _ _

/-- A later item starts right after a comma. -/
theorem gives_hasItem_next (h : Opens bs) : Gives (hasItem false) (0x2C :: bs) true bs := by
  obtain ⟨b, bs', rfl, hs, hb⟩ := h
  refine gives_bind (gives_peekToken (by decide) _) (gives_bind (gives_skip _ _) ?_)
  refine gives_bind (gives_peekToken hs bs') ?_
  dsimp only
  rw [if_neg hb]
  exact gives_pure _ _

theorem gives_hasItem_end (first : Bool) (bs : List UInt8) :
    Gives (hasItem first) (0x5D :: bs) false (0x5D :: bs) :=
  gives_bind (gives_peekToken (by decide) bs) (gives_pure _ _)

/-- The first member of an object starts right after the bracket. -/
theorem gives_hasMember_first (h : bs.head? = some 0x22) : Gives (hasMember true) bs true bs := by
  obtain ⟨bs', rfl⟩ := List.head?_eq_some_iff.1 h
  exact gives_bind (gives_peekToken (by decide) bs') (gives_pure _ _)

/-- A later member starts right after a comma. -/
theorem gives_hasMember_next (h : bs.head? = some 0x22) : Gives (hasMember false) (0x2C :: bs) true bs := by
  obtain ⟨bs', rfl⟩ := List.head?_eq_some_iff.1 h
  refine gives_bind (gives_peekToken (by decide) _) (gives_bind (gives_skip _ _) ?_)
  exact gives_bind (gives_peekToken (by decide) bs') (gives_pure _ _)

theorem gives_hasMember_end (first : Bool) (bs : List UInt8) :
    Gives (hasMember first) (0x7D :: bs) false (0x7D :: bs) :=
  gives_bind (gives_peekToken (by decide) bs) (gives_pure _ _)

end AccessRecords.Json.Reader
