/-
What readers give. `Reader.Yields r P` says that whatever text `r` is run on, a value that it gives
satisfies `P`; the rules follow the ways in which readers are put together. Main statement: a
property of values is one of every value read from a text as soon as scalars have it and lists and
objects take it from their parts, where an object read with its embedded texts resolved never has
the mark of an embedded text as its only key.
-/
import AccessRecords.Json.Parser
import AccessRecords.Proofs.Except

namespace AccessRecords.Json

namespace Reader

variable {α β : Type} {P : α → Prop} {Q : β → Prop}

/-- A reader made of two gives something exactly if both do, one after the other. -/
theorem bind_eq_ok {r : Reader β} {f : β → Reader α} {c c' : Cursor} {a : α} :
    (r >>= f) c = .ok (a, c') ↔ ∃ x c₁, r c = .ok (x, c₁) ∧ f x c₁ = .ok (a, c') := by
  show (r c >>= fun p => f p.1 p.2) = _ ↔ _
  rw [Except.bind_eq_ok, Prod.exists]

/-- A whole text is read exactly if the reader gives something and nothing is left over. -/
theorem runAll_eq_ok_iff {r : Reader α} {bytes : List UInt8} {a : α} :
    runAll r bytes = .ok a ↔ ∃ c c', r ⟨bytes, {}⟩ = .ok (a, c) ∧ finish c = .ok ((), c') := by
  unfold runAll
  constructor
  · intro h
    split at h
    · rename_i a' c' he
      cases h
      obtain ⟨x, c, hr, hf⟩ := bind_eq_ok.1 he
      obtain ⟨⟨⟩, c₁, hfinish, hpure⟩ := bind_eq_ok.1 hf
      cases hpure
      exact ⟨c, c', hr, hfinish⟩
    · cases h
  · rintro ⟨c, c', hr, hf⟩
    rw [bind_eq_ok.2 ⟨a, c, hr, bind_eq_ok.2 ⟨(), c', hf, rfl⟩⟩]

/-- Every value that the reader gives has the property. -/
def Yields (r : Reader α) (P : α → Prop) : Prop := ∀ c a c', r c = .ok (a, c') → P a

/-! ## Rules -/

theorem yields_pure {a : α} (h : P a) : Yields (pure a) P := by
  intro c a' c' e
  cases e
  exact h

theorem yields_failHere (cause : Cause) : Yields (failHere cause : Reader α) P := by
  intro c a c' e
  cases e

theorem yields_failAhead (cause : Cause) : Yields (failAhead cause : Reader α) P := by
  intro c a c' e
  cases e

theorem yields_bind {r : Reader β} {f : β → Reader α} (hr : Yields r Q) (hf : ∀ b, Q b → Yields (f b) P) :
    Yields (r >>= f) P := by
  intro c a c' e
  obtain ⟨b, c₁, hb, ha⟩ := bind_eq_ok.1 e
  exact hf b (hr c b c₁ hb) c₁ a c' ha

theorem yields_any (r : Reader β) : Yields r fun _ => True := fun _ _ _ _ => trivial

/-- What comes first does not matter where nothing is asked of it. -/
theorem yields_then {r : Reader β} {f : β → Reader α} (hf : ∀ b, Yields (f b) P) : Yields (r >>= f) P :=
  yields_bind (yields_any r) fun b _ => hf b

theorem Yields.mono {r : Reader α} {P' : α → Prop} (h : Yields r P) (hP : ∀ a, P a → P' a) :
    Yields r P' :=
  fun c a c' e => hP a (h c a c' e)

theorem runAll_yields {r : Reader α} (h : Yields r P) {bytes : List UInt8} {a : α}
    (e : runAll r bytes = .ok a) : P a := by
  obtain ⟨c, -, hr, -⟩ := runAll_eq_ok_iff.1 e
  exact h _ a c hr

theorem yields_onText {r : Reader α} (h : Yields r P) (s : String) : Yields (onText r s) P := by
  intro c a c' e
  obtain ⟨a', hr, e⟩ := Except.map_eq_ok.1 e
  cases e
  exact runAll_yields h hr

theorem yields_wrongKind (expected : String) : Yields (wrongKind expected : Reader α) P := by
  unfold wrongKind
  refine yields_then fun b => ?_
  cases b with
  | none => exact yields_failHere _
  | some b =>
    dsimp only
    split_ifs
    · exact yields_failHere _
    · exact yields_failHere _
    · exact yields_then fun v => yields_failHere _

end Reader

/-! ## Scalars -/

/-- Neither a list nor an object. -/
def Value.Scalar : Value → Prop
  | .list _ | .object _ => False
  | _ => True

namespace Reader

theorem yields_scaled (negative : Bool) (n : Nat) (e : Int) : Yields (scaled negative n e) Value.Scalar := by
  unfold scaled
  split
  · exact yields_pure trivial
  · exact yields_failHere _

theorem yields_exponentPart (negative : Bool) (n : Nat) (e : Int) :
    Yields (exponentPart negative n e) Value.Scalar := by
  unfold exponentPart
  refine yields_then fun _ => yields_then fun down => yields_then fun b => ?_
  cases b with
  | none => exact yields_failHere _
  | some b =>
    by_cases hb : isDigit b = true
    · simp only [if_pos hb]
      refine yields_then fun p => yields_then fun next => ?_
      split
      · split
        · exact yields_then fun _ => yields_failHere _
        · exact yields_then fun _ => yields_pure trivial
      · exact yields_scaled _ _ _
    · simp only [if_neg hb]
      exact yields_failHere _

theorem yields_fractionPart (negative : Bool) (n : Nat) (e : Int) :
    Yields (fractionPart negative n e) Value.Scalar := by
  unfold fractionPart
  refine yields_then fun _ => yields_then fun used => yields_then fun unused => ?_
  split_ifs
  · refine yields_then fun b => ?_
    cases b
    · exact yields_failHere _
    · exact yields_failAhead _
  · refine yields_then fun b => ?_
    cases b with
    | none => exact yields_scaled _ _ _
    | some b =>
      dsimp only
      split_ifs
      · exact yields_exponentPart _ _ _
      · exact yields_scaled _ _ _

theorem scalar_whole (negative : Bool) (n : Nat) : (whole negative n).Scalar := by
  unfold whole
  split_ifs <;> trivial

theorem yields_afterInteger (negative : Bool) (n dropped : Nat) :
    Yields (afterInteger negative n dropped) Value.Scalar := by
  unfold afterInteger
  refine yields_then fun b => ?_
  cases b with
  | none =>
    dsimp only
    split_ifs
    · exact yields_pure (scalar_whole _ _)
    · exact yields_scaled _ _ _
  | some b =>
    dsimp only
    split_ifs
    · exact yields_fractionPart _ _ _
    · exact yields_exponentPart _ _ _
    · exact yields_pure (scalar_whole _ _)
    · exact yields_scaled _ _ _

theorem yields_number (negative : Bool) : Yields (number negative) Value.Scalar := by
  unfold number
  refine yields_then fun b => ?_
  cases b with
  | none => exact yields_failHere _
  | some b =>
    dsimp only
    split_ifs
    · refine yields_then fun next => ?_
      split_ifs
      · exact yields_failAhead _
      · exact yields_afterInteger _ _ _
    · exact yields_then fun p => yields_then fun dropped => yields_afterInteger _ _ _
    · exact yields_failHere _

theorem yields_scalar (b : UInt8) : Yields (scalar b) Value.Scalar := by
  unfold scalar
  split_ifs
  · exact yields_then fun _ => yields_then fun _ => yields_pure trivial
  · exact yields_then fun _ => yields_then fun _ => yields_pure trivial
  · exact yields_then fun _ => yields_then fun _ => yields_pure trivial
  · exact yields_then fun _ => yields_number _
  · exact yields_number _
  · exact yields_then fun _ => yields_then fun s => yields_pure trivial
  · exact yields_failAhead _

/-! ## Nested values -/

/-- The members of an object read so far: none at first, and afterwards at least one whose key is
not the mark of an embedded text. -/
def Unmarked (first : Bool) (members : List (String × Value)) : Prop :=
  if first then members = [] else ∃ k, k ≠ Value.embeddingKey ∧ (Entries.find? k members).isSome

theorem Unmarked.insert {first : Bool} {k : String} {v : Value} {members : List (String × Value)}
    (h : Unmarked first members) (hk : first = true → k ≠ Value.embeddingKey) :
    Unmarked false (Entries.insert k v members) := by
  cases first with
  | true => exact ⟨k, hk rfl, by rw [Entries.find?_insert, if_pos rfl]; rfl⟩
  | false =>
    obtain ⟨k', hk', hf⟩ := h
    refine ⟨k', hk', ?_⟩
    rw [Entries.find?_insert]
    split_ifs
    · rfl
    · exact hf

/-- The mark of an embedded text is never the only key. -/
theorem Unmarked.ne_singleton {first : Bool} {members : List (String × Value)}
    (h : Unmarked first members) (v : Value) : members ≠ [(Value.embeddingKey, v)] := by
  rintro rfl
  cases first with
  | true => cases h
  | false =>
    obtain ⟨k, hk, hf⟩ := h
    rw [Entries.find?_cons, if_neg fun e => hk (Std.LawfulEqCmp.compare_eq_iff_eq.1 e)] at hf
    cases hf

section Nested

variable {P : Value → Prop}

/-- A property that scalars have, and that lists and objects take from their parts. -/
structure Inherited (P : Value → Prop) : Prop where
  scalar : ∀ b, Yields (scalar b) P
  list : ∀ items, (∀ v ∈ items, P v) → P (.list items)
  object : ∀ members, Entries.Ascending members → (∀ m ∈ members, P m.2) →
    (∀ v, members ≠ [(Value.embeddingKey, v)]) → P (.object members)

/-- The four readers share one bound on their steps, on which the induction is. -/
theorem yields_nested (h : Inherited P) : ∀ fuel,
    (∀ depth, Yields (value true fuel depth) P) ∧
    (∀ depth first before, (∀ v ∈ before, P v) →
      Yields (items true fuel depth first before) fun l => ∀ v ∈ l, P v) ∧
    (∀ depth first before, Entries.Ascending before → (∀ m ∈ before, P m.2) → Unmarked first before →
      Yields (members true fuel depth first before) P) ∧
    Yields (embedded true fuel) P := by
  intro fuel
  induction fuel with
  | zero =>
    refine ⟨fun depth => ?_, fun depth first before _ => ?_, fun depth first before _ _ _ => ?_, ?_⟩
    · unfold value
      exact yields_failHere _
    · unfold items
      exact yields_failHere _
    · unfold members
      exact yields_failHere _
    · unfold embedded
      exact yields_failHere _
  | succ fuel ih =>
    obtain ⟨ihValue, ihItems, ihMembers, ihEmbedded⟩ := ih
    refine ⟨fun depth => ?_, fun depth first before hb => ?_, fun depth first before ha hb hu => ?_, ?_⟩
    · unfold value
      refine yields_then fun b => ?_
      cases b with
      | none => exact yields_failHere _
      | some b =>
        by_cases hb : b = 0x5B ∨ b = 0x7B
        · simp only [if_pos hb]
          cases depth with
          | zero => exact yields_failAhead _
          | succ depth =>
            refine yields_then fun _ => ?_
            split
            · exact yields_bind (ihItems depth true [] (by simp)) fun l hl => yields_pure (h.list l hl)
            · exact ihMembers depth true [] List.Pairwise.nil (by simp) rfl
        · simp only [if_neg hb]
          exact h.scalar b
    · unfold items
      refine yields_then fun more => ?_
      split_ifs
      · refine yields_bind (ihValue depth) fun v hv => ihItems depth false _ ?_
        intro w hw
        rcases List.mem_cons.1 hw with rfl | hw
        · exact hv
        · exact hb w hw
      · exact yields_then fun _ => yields_pure fun v hv => hb v (List.mem_reverse.1 hv)
    · unfold members
      refine yields_then fun more => ?_
      split_ifs
      · refine yields_then fun k => ?_
        split_ifs with hk
        · -- the mark comes first: what is read is the value of the embedded text
          exact ihEmbedded
        · refine yields_bind (ihValue depth) fun v hv => ihMembers depth false _ ?_ ?_ (hu.insert ?_)
          · exact Entries.ascending_insert ha
          · intro m hm
            rcases Entries.mem_insert hm with rfl | hm
            · exact hv
            · exact hb m hm
          · rintro rfl rfl
            simp at hk
      · exact yields_then fun _ => yields_pure (h.object before ha hb hu.ne_singleton)
    · unfold embedded
      refine yields_then fun s => yields_bind (yields_onText (ihValue maxDepth) s) fun v hv => ?_
      exact yields_then fun _ => yields_pure hv

/-- What scalars have and lists and objects take from their parts, every value read has. -/
theorem yields_anyValue (h : Inherited P) (depth : Nat) : Yields (anyValue true depth) P :=
  fun c v c' e => (yields_nested h (enoughFuel c)).1 depth c v c' e

end Nested

end Reader

theorem Value.parse_induction {P : Value → Prop} (h : Reader.Inherited P) {bytes : List UInt8} {v : Value}
    (e : Value.parse bytes = .ok v) : P v :=
  Reader.runAll_yields (Reader.yields_anyValue h _) e

end AccessRecords.Json
