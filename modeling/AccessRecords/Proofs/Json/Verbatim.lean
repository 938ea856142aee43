/-
Texts that come back as they were. Reading the text of a value replaces every object whose first key
is the mark of an embedded text, or stops there, and no value that was read has a text that begins
like such an object alone. Main statement: of the values without doubles that are nested no deeper
than a reader allows, those come back with their own text that have no marks, and no others.
-/
import AccessRecords.Proofs.Json.RoundTrip

namespace AccessRecords.Json

open Text.Utf8

namespace Reader

variable {α β : Type} {a : α} {b : UInt8} {bs input middle rest : List UInt8} {r : Reader α}
  {P : α → List UInt8 → Prop}

/-! ## Readers that may stop -/

/-- What the reader gives for these bytes, wherever they stand, and what it leaves of them have the
property, if it does not stop. -/
def Only (r : Reader α) (input : List UInt8) (P : α → List UInt8 → Prop) : Prop :=
  ∀ p a c, r ⟨input, p⟩ = .ok (a, c) → P a c.rest

theorem only_of_gives (h : Gives r input a rest) (hP : P a rest) : Only r input P := by
  intro p a' c e
  obtain ⟨p', h⟩ := h p
  rw [h] at e
  cases e
  exact hP

theorem only_of_yields {Q : α → Prop} (h : Yields r Q) : Only r input fun a _ => Q a :=
  fun _ a c e => h _ a c e

theorem only_pure (h : P a input) : Only (pure a) input P := only_of_gives (gives_pure a input) h

theorem only_failHere (cause : Cause) : Only (failHere cause : Reader α) input P := by
  intro p a c e
  cases e

theorem only_failAhead (cause : Cause) : Only (failAhead cause : Reader α) input P := by
  intro p a c e
  cases e

theorem only_bind {r : Reader β} {Q : β → List UInt8 → Prop} {f : β → Reader α} (hr : Only r input Q)
    (hf : ∀ b middle, Q b middle → Only (f b) middle P) : Only (r >>= f) input P := by
  intro p a c e
  obtain ⟨b, c₁, hb, ha⟩ := bind_eq_ok.1 e
  exact hf b c₁.rest (hr p b c₁ hb) c₁.position a c ha

theorem only_bind_gives {r : Reader β} {f : β → Reader α} {x : β} (hr : Gives r input x middle)
    (hf : Only (f x) middle P) : Only (r >>= f) input P := by
  refine only_bind (Q := fun b bs => b = x ∧ bs = middle) (only_of_gives hr ⟨rfl, rfl⟩) ?_
  rintro _ _ ⟨rfl, rfl⟩
  exact hf

theorem Only.mono {P' : α → List UInt8 → Prop} (h : Only r input P) (hP : ∀ a rest, P a rest → P' a rest) :
    Only r input P' :=
  fun p a c e => hP a c.rest (h p a c e)

theorem runAll_only {Q : α → Prop} (h : Only r input fun a _ => Q a) (e : runAll r input = .ok a) : Q a := by
  obtain ⟨c, -, hr, -⟩ := runAll_eq_ok_iff.1 e
  exact h _ a c hr

theorem only_onText {Q : α → Prop} (h : Yields r Q) (s : String) :
    Only (onText r s) input fun a rest => Q a ∧ rest = input := by
  intro p a c e
  obtain ⟨a', hr, e⟩ := Except.map_eq_ok.1 e
  cases e
  exact ⟨runAll_yields h hr, rfl⟩

/-! ## Texts from the left -/

/-- A text between quotes is told apart from what follows it. -/
theorem textChars_append {s s' : String}
    (h : encodeChars (textChars s) ++ bs = encodeChars (textChars s') ++ rest) : s = s' ∧ bs = rest := by
  rw [encodeChars_textChars, encodeChars_textChars] at h
  simp only [List.cons_append, List.append_assoc, List.cons.injEq, true_and, List.nil_append] at h
  -- one reader goes over both
  obtain ⟨p, hs⟩ := gives_text s bs {}
  obtain ⟨p', hs'⟩ := gives_text s' rest {}
  rw [h, hs'] at hs
  cases hs
  exact ⟨rfl, rfl⟩

end Reader

namespace Value

open Reader

/-! ## First bytes -/

/-- A character that a number is printed with. -/
def NumberChar (c : Char) : Prop := c.isDigit = true ∨ c = '.' ∨ c = '-' ∨ c = '+' ∨ c = 'e'

/-- Characters that a number is printed with, one at least. -/
def Numeric (cs : List Char) : Prop := cs ≠ [] ∧ ∀ c ∈ cs, NumberChar c

theorem numeric_digits (n : Nat) : Numeric (Nat.toDigits 10 n) :=
  ⟨Nat.toDigits_ne_nil, fun _ hc => .inl (Text.isDigit_toDigits hc)⟩

theorem Numeric.signed {cs : List Char} (h : Numeric cs) (negative : Prop) [Decidable negative] :
    Numeric (if negative then '-' :: cs else cs) := by
  split_ifs
  · refine ⟨List.cons_ne_nil _ _, List.forall_mem_cons.2 ⟨.inr (.inr (.inl rfl)), h.2⟩⟩
  · exact h

theorem Numeric.plainDigits {digits : List Char} (h : Numeric digits) (leading : Int) :
    Numeric (plainDigits digits leading) := by
  have hzero : NumberChar '0' := .inl rfl
  have hpoint : NumberChar '.' := .inr (.inl rfl)
  cases leading with
  | ofNat e =>
    refine ⟨List.append_ne_nil_of_right_ne_nil _ (List.cons_ne_nil _ _), fun c hc => ?_⟩
    rcases List.mem_append.1 hc with hc | hc
    · rcases List.mem_append.1 hc with hc | hc
      · exact h.2 c (List.mem_of_mem_take hc)
      · rwa [(List.mem_replicate.1 hc).2]
    · rcases List.mem_cons.1 hc with rfl | hc
      · exact hpoint
      · split_ifs at hc
        · rwa [List.mem_singleton.1 hc]
        · exact h.2 c (List.mem_of_mem_drop hc)
  | negSucc zeros =>
    refine ⟨List.cons_ne_nil _ _, List.forall_mem_cons.2 ⟨hzero, List.forall_mem_cons.2 ⟨hpoint, ?_⟩⟩⟩
    intro c hc
    rcases List.mem_append.1 hc with hc | hc
    · rwa [(List.mem_replicate.1 hc).2]
    · exact h.2 c hc

theorem Numeric.scientificDigits {digits : List Char} (h : Numeric digits) (leading : Int) :
    Numeric (scientificDigits digits leading) := by
  refine ⟨List.append_ne_nil_of_right_ne_nil _ (List.cons_ne_nil _ _), fun c hc => ?_⟩
  rcases List.mem_append.1 hc with hc | hc
  · rcases List.mem_append.1 hc with hc | hc
    · exact h.2 c (List.mem_of_mem_take hc)
    · split_ifs at hc
      · cases hc
      · rcases List.mem_cons.1 hc with rfl | hc
        · exact .inr (.inl rfl)
        · exact h.2 c (List.mem_of_mem_drop hc)
  · rcases List.mem_cons.1 hc with rfl | hc
    · exact .inr (.inr (.inr (.inr rfl)))
    · rcases List.mem_cons.1 hc with rfl | hc
      · split_ifs
        · exact .inr (.inr (.inl rfl))
        · exact .inr (.inr (.inr (.inl rfl)))
      · exact (numeric_digits _).2 c hc

theorem numeric_doubleChars (x : Double) : Numeric (doubleChars x) := by
  unfold doubleChars
  refine Numeric.signed ?_ _
  split_ifs
  · exact ⟨List.cons_ne_nil _ _, by simp [NumberChar]⟩
  · unfold decimalChars
    dsimp only
    split_ifs
    · exact (numeric_digits _).plainDigits _
    · exact (numeric_digits _).scientificDigits _

theorem numeric_intChars (n : Int) : Numeric (intChars n) := (numeric_digits _).signed _

theorem Numeric.firstByte {cs : List Char} (h : Numeric cs) :
    ∃ b bs, encodeChars cs = b :: bs ∧ b ≠ 0x22 ∧ b ≠ 0x7B := by
  obtain ⟨c, cs, rfl⟩ := List.exists_cons_of_ne_nil h.1
  rw [encodeChars_cons]
  rcases h.2 c List.mem_cons_self with hc | rfl | rfl | rfl | rfl
  · obtain ⟨b, hb, hdigit, -⟩ := encodeChar_of_isDigit hc
    rw [hb]
    exact ⟨b, _, rfl, ne_of_isDigit hdigit (by decide), ne_of_isDigit hdigit (by decide)⟩
  all_goals exact ⟨_, _, rfl, by decide, by decide⟩

/-- Texts begin with a quote, objects with a brace, and all other values with another byte. -/
def BeginsWith : Value → UInt8 → Prop
  | .text _, b => b = 0x22
  | .object _, b => b = 0x7B
  | _, b => b ≠ 0x22 ∧ b ≠ 0x7B

theorem exists_firstByte (v : Value) : ∃ b bs, encodeChars v.chars = b :: bs ∧ v.BeginsWith b := by
  cases v with
  | null => exact ⟨_, _, rfl, by decide, by decide⟩
  | bool b => cases b <;> exact ⟨_, _, rfl, by decide, by decide⟩
  | int n => exact (numeric_intChars n).firstByte
  | double x => exact (numeric_doubleChars x).firstByte
  | text s => exact ⟨0x22, _, encodeChars_textChars s, rfl⟩
  | list items => cases items <;> exact ⟨_, _, rfl, by decide, by decide⟩
  | object members => cases members <;> exact ⟨0x7B, _, rfl, rfl⟩

theorem exists_text {v : Value} {bs : List UInt8} (h : (encodeChars v.chars ++ bs).head? = some 0x22) :
    ∃ s, v = .text s := by
  obtain ⟨b, bs', hb, hv⟩ := exists_firstByte v
  rw [hb] at h
  obtain rfl : b = 0x22 := Option.some.inj h
  cases v with
  | text s => exact ⟨s, rfl⟩
  | object members => cases hv
  | _ => exact absurd rfl hv.1

theorem exists_object {v : Value} {bs : List UInt8} (h : (encodeChars v.chars ++ bs).head? = some 0x7B) :
    ∃ members, v = .object members := by
  obtain ⟨b, bs', hb, hv⟩ := exists_firstByte v
  rw [hb] at h
  obtain rfl : b = 0x7B := Option.some.inj h
  cases v with
  | object members => exact ⟨members, rfl⟩
  | text s => cases hv
  | _ => exact absurd rfl hv.2

/-! ## Texts of replaced values -/

/-- The text of `w` goes on from that of `v` only where they are one value, in which nothing has a
mark. -/
def Verbatim (v w : Value) : Prop :=
  ∀ bs rest, encodeChars w.chars ++ bs = encodeChars v.chars ++ rest → v.isPlain = true ∧ w = v ∧ bs = rest

theorem verbatim_self {v : Value} (h : v.isPlain = true) : Verbatim v v :=
  fun _ _ e => ⟨h, rfl, List.append_cancel_left e⟩

theorem verbatim_items {items ws : List Value} (h : List.Forall₂ Verbatim items ws) {bs rest : List UInt8}
    (e : encodeChars (itemsChars ws) ++ bs = encodeChars (itemsChars items) ++ rest) :
    itemsPlain items = true ∧ ws = items ∧ bs = rest := by
  induction h with
  | nil => exact ⟨rfl, rfl, List.append_cancel_left e⟩
  | @cons v w items ws hv _ ih =>
    rw [itemsChars, itemsChars] at e
    simp only [encodeChars_append, List.append_assoc, List.cons_append, encodeChars_cons] at e
    obtain ⟨hp, rfl, hrest⟩ := hv _ _ (List.append_cancel_left e)
    obtain ⟨hps, rfl, hend⟩ := ih hrest
    exact ⟨by rw [itemsPlain, hp, hps]; rfl, rfl, hend⟩

theorem verbatim_list {items ws : List Value} (h : List.Forall₂ Verbatim items ws) :
    Verbatim (.list items) (.list ws) := by
  intro bs rest e
  cases h with
  | nil => exact verbatim_self (by simp [isPlain, itemsPlain]) bs rest e
  | @cons v w items ws hv hs =>
    rw [chars, chars] at e
    simp only [encodeChars_append, List.append_assoc, List.cons_append, encodeChars_cons] at e
    obtain ⟨hp, rfl, hrest⟩ := hv _ _ (List.append_cancel_left e)
    obtain ⟨hps, rfl, hend⟩ := verbatim_items hs hrest
    exact ⟨by rw [isPlain, itemsPlain, hp, hps]; rfl, rfl, hend⟩

/-- A member that has kept its key, with a value that may have been replaced. -/
def SameKey (m u : String × Value) : Prop := u.1 = m.1 ∧ Verbatim m.2 u.2

/-- Members that have kept their keys still ascend. -/
theorem ascending_of_sameKey {members us : List (String × Value)} (h : List.Forall₂ SameKey members us)
    (hasc : Entries.Ascending members) : Entries.Ascending us := by
  have hkeys : us.map (·.1) = members.map (·.1) := by
    induction h with
    | nil => rfl
    | cons hm _ ih =>
      rw [List.map_cons, List.map_cons, hm.1, ih (List.pairwise_cons.1 hasc).2]
  have hpair : (members.map (·.1)).Pairwise fun k k' => compare k k' = .lt := List.pairwise_map.2 hasc
  rw [← hkeys] at hpair
  exact List.pairwise_map.1 hpair

theorem verbatim_members {members us : List (String × Value)} (h : List.Forall₂ SameKey members us)
    {bs rest : List UInt8} (e : encodeChars (membersChars us) ++ bs = encodeChars (membersChars members) ++ rest) :
    membersPlain members = true ∧ us = members ∧ bs = rest := by
  induction h with
  | nil => exact ⟨rfl, rfl, List.append_cancel_left e⟩
  | @cons m u members us hm _ ih =>
    obtain ⟨k, v⟩ := m
    obtain ⟨k', w⟩ := u
    obtain ⟨rfl, hv⟩ : k' = k ∧ Verbatim v w := hm
    rw [membersChars, membersChars] at e
    simp only [encodeChars_append, List.append_assoc, List.cons_append, encodeChars_cons] at e
    have hvalue := List.append_cancel_left (List.append_cancel_left (List.append_cancel_left e))
    obtain ⟨hp, rfl, hrest⟩ := hv _ _ hvalue
    obtain ⟨hps, rfl, hend⟩ := ih hrest
    exact ⟨by rw [membersPlain, hp, hps]; rfl, rfl, hend⟩

theorem verbatim_object {k : String} {v w : Value} {members us : List (String × Value)} (hk : k ≠ embeddingKey)
    (hv : Verbatim v w) (h : List.Forall₂ SameKey members us) :
    Verbatim (.object ((k, v) :: members)) (.object ((k, w) :: us)) := by
  intro bs rest e
  rw [chars, chars] at e
  simp only [encodeChars_append, List.append_assoc, List.cons_append, encodeChars_cons] at e
  have hvalue := List.append_cancel_left (List.append_cancel_left (List.append_cancel_left e))
  obtain ⟨hp, rfl, hrest⟩ := hv _ _ hvalue
  obtain ⟨hps, rfl, hend⟩ := verbatim_members h hrest
  exact ⟨by simp [isPlain, membersPlain, hk, hp, hps], rfl, hend⟩

/-- No value that was read has the text of an object that stands for an embedded text. -/
theorem verbatim_marked {s : String} {w : Value} (h : w.Settled) :
    Verbatim (.object [(embeddingKey, .text s)]) w := by
  intro bs rest e
  rw [chars, chars, membersChars] at e
  simp only [encodeChars_append, List.append_assoc, List.cons_append, encodeChars_cons] at e
  obtain ⟨members, rfl⟩ := exists_object (congrArg List.head? e)
  exfalso
  cases members with
  | nil => cases e
  | cons m members =>
    obtain ⟨k, v⟩ := m
    rw [chars] at e
    simp only [encodeChars_append, List.append_assoc, List.cons_append, encodeChars_cons] at e
    obtain ⟨rfl, hcolon⟩ := textChars_append (List.append_cancel_left e)
    have hvalue := List.append_cancel_left hcolon
    obtain ⟨s', rfl⟩ := exists_text ((congrArg List.head? hvalue).trans (head?_textChars s _))
    obtain ⟨rfl, hend⟩ := textChars_append hvalue
    -- after the embedded text one of the objects ends, so both do
    cases members with
    | nil =>
      cases h with
      | scalar h => exact h
      | object hm _ => exact hm _ rfl
    | cons m members => cases hend

end Value

namespace Reader

open Value

variable {v : Value} {d fuel : Nat} {rest : List UInt8}

/-! ## Reading printed values -/

/-- The text of the value begins as a value does, and whatever is read from it leaves what follows,
and has another text unless it is the value and has no marks. -/
structure ReadsVerbatim (v : Value) : Prop where
  opens : Opens (encodeChars v.chars)
  only : ∀ fuel d rest, Apart rest →
    Only (value true fuel d) (encodeChars v.chars ++ rest) fun w bs => bs = rest ∧ Verbatim v w

theorem readsVerbatim_scalar (hs : v.Scalar) (hc : v.Canonical) (he : v.isExact = true) : ReadsVerbatim v := by
  have hplain : v.isPlain = true := by
    cases v <;> first | exact absurd hs id | simp [isPlain]
  refine ⟨(Fits.scalar (d := 0) hs hc he).opens, fun fuel d rest hr => ?_⟩
  cases fuel with
  | zero => exact only_failHere _
  | succ fuel =>
    obtain ⟨b, bs, hb, hspace, hbracket, hg⟩ := gives_scalar hs hc he
    rw [hb, List.cons_append]
    unfold value
    refine only_bind_gives (gives_peekToken hspace _) ?_
    dsimp only
    rw [if_neg hbracket]
    exact only_of_gives (hg rest hr) ⟨rfl, verbatim_self hplain⟩

/-- What is read from a text that begins with a bracket is read past the bracket. -/
theorem only_value_open {b : UInt8} {bs : List UInt8} {P : Value → List UInt8 → Prop} (hb : b = 0x5B ∨ b = 0x7B)
    (h : ∀ fuel d, Only (if b = 0x5B then return .list (← items true fuel d true [])
      else members true fuel d true []) bs P) : Only (value true fuel d) (b :: bs) P := by
  have hs : isSpace b = false := by
    rcases hb with rfl | rfl <;> decide
  cases fuel with
  | zero => exact only_failHere _
  | succ fuel =>
    unfold value
    refine only_bind_gives (gives_peekToken hs bs) ?_
    dsimp only
    rw [if_pos hb]
    cases d with
    | zero => exact only_failAhead _
    | succ d => exact only_bind_gives (gives_skip b bs) (h fuel d)

theorem only_items {l : List Value} (h : ∀ v ∈ l, ReadsVerbatim v) : ∀ fuel d before rest,
    Only (items true fuel d false before) (encodeChars (itemsChars l) ++ rest) fun ws bs =>
      bs = rest ∧ ∃ us, ws = before.reverse ++ us ∧ List.Forall₂ Verbatim l us := by
  induction l with
  | nil =>
    intro fuel d before rest
    cases fuel with
    | zero => exact only_failHere _
    | succ fuel =>
      unfold items
      refine only_bind_gives (gives_hasItem_end false rest) ?_
      refine only_bind_gives (gives_skip _ _) (only_pure ⟨rfl, [], ?_, .nil⟩)
      exact (List.append_nil _).symm
  | cons v l ih =>
    intro fuel d before rest
    obtain ⟨hv, hl⟩ := List.forall_mem_cons.1 h
    cases fuel with
    | zero => exact only_failHere _
    | succ fuel =>
      have hopen := hv.opens.append (encodeChars (itemsChars l) ++ rest)
      rw [itemsChars, encodeChars_append, List.append_assoc]
      unfold items
      refine only_bind_gives (gives_hasItem_next hopen) ?_
      refine only_bind (hv.only fuel d _ (apart_itemsChars l rest)) ?_
      rintro w _ ⟨rfl, hw⟩
      refine (ih hl fuel d (w :: before) rest).mono ?_
      rintro ws bs ⟨hbs, us, rfl, hus⟩
      exact ⟨hbs, w :: us, by rw [List.reverse_cons, List.append_assoc]; rfl, .cons hw hus⟩

theorem readsVerbatim_list {l : List Value} (h : ∀ v ∈ l, ReadsVerbatim v) : ReadsVerbatim (.list l) := by
  refine ⟨opens_chars (by simp), fun fuel d rest hr => ?_⟩
  cases l with
  | nil =>
    refine only_value_open (.inl rfl) fun fuel d => ?_
    cases fuel with
    | zero => exact only_failHere _
    | succ fuel =>
      refine only_of_gives (gives_bind ?_ (gives_pure _ _)) ⟨rfl, verbatim_list .nil⟩
      exact gives_bind (gives_hasItem_end true rest) (gives_bind (gives_skip _ _) (gives_pure _ _))
  | cons v l =>
    obtain ⟨hv, hl⟩ := List.forall_mem_cons.1 h
    have hopen := hv.opens.append (encodeChars (itemsChars l) ++ rest)
    rw [chars, encodeChars_append, encodeChars_cons, List.append_assoc, List.append_assoc]
    refine only_value_open (.inl rfl) fun fuel d => ?_
    cases fuel with
    | zero => exact only_failHere _
    | succ fuel =>
      have hitems : Only (items true (fuel + 1) d true [])
          (encodeChars v.chars ++ (encodeChars (itemsChars l) ++ rest)) fun ws bs =>
            bs = rest ∧ List.Forall₂ Verbatim (v :: l) ws := by
        unfold items
        refine only_bind_gives (gives_hasItem_first hopen) ?_
        refine only_bind (hv.only fuel d _ (apart_itemsChars l rest)) ?_
        rintro w _ ⟨rfl, hw⟩
        refine (only_items hl fuel d [w] rest).mono ?_
        rintro ws bs ⟨hbs, us, rfl, hus⟩
        exact ⟨hbs, .cons hw hus⟩
      refine only_bind hitems ?_
      rintro ws _ ⟨rfl, hws⟩
      exact only_pure ⟨rfl, verbatim_list hws⟩

theorem only_members {l : List (String × Value)} (h : ∀ m ∈ l, ReadsVerbatim m.2) : ∀ fuel d before rest,
    Only (members true fuel d false before) (encodeChars (membersChars l) ++ rest) fun w bs =>
      bs = rest ∧ ∃ us, w = .object (Entries.insertAll before us) ∧ List.Forall₂ SameKey l us := by
  induction l with
  | nil =>
    intro fuel d before rest
    cases fuel with
    | zero => exact only_failHere _
    | succ fuel =>
      unfold members
      refine only_bind_gives (gives_hasMember_end false rest) ?_
      exact only_bind_gives (gives_skip _ _) (only_pure ⟨rfl, [], rfl, .nil⟩)
  | cons m l ih =>
    obtain ⟨k, v⟩ := m
    intro fuel d before rest
    obtain ⟨hv, hl⟩ := List.forall_mem_cons.1 h
    cases fuel with
    | zero => exact only_failHere _
    | succ fuel =>
      rw [membersChars, encodeChars_append, encodeChars_append, List.append_assoc, List.append_assoc]
      unfold members
      refine only_bind_gives (gives_hasMember_next (head?_textChars k _)) ?_
      refine only_bind_gives (gives_key k _) ?_
      rw [Bool.and_false, Bool.false_and, if_neg (by decide)]
      refine only_bind (hv.only fuel d _ (apart_membersChars l rest)) ?_
      rintro w _ ⟨rfl, hw⟩
      refine (ih hl fuel d (Entries.insert k w before) rest).mono ?_
      rintro u bs ⟨hbs, us, rfl, hus⟩
      exact ⟨hbs, (k, w) :: us, rfl, .cons ⟨rfl, hw⟩ hus⟩

/-- An embedded text is one, and nothing follows it in its object. -/
theorem only_embedded {l : List (String × Value)} (ho : Opens (encodeChars v.chars)) :
    Only (embedded true fuel) (encodeChars v.chars ++ (encodeChars (membersChars l) ++ rest)) fun w bs =>
      bs = rest ∧ w.Settled ∧ l = [] ∧ ∃ s, v = .text s := by
  cases fuel with
  | zero => exact only_failHere _
  | succ fuel =>
    have htext : Only embeddedText (encodeChars v.chars ++ (encodeChars (membersChars l) ++ rest)) fun _ bs =>
        bs = encodeChars (membersChars l) ++ rest ∧ ∃ s, v = .text s := by
      obtain ⟨b, bs, hb, hspace, -⟩ := ho.append (encodeChars (membersChars l) ++ rest)
      unfold embeddedText
      by_cases hq : b = 0x22
      · obtain ⟨s, rfl⟩ := exists_text (by rw [hb, hq]; rfl)
        rw [chars, encodeChars_textChars, List.cons_append, List.append_assoc]
        refine only_bind_gives (gives_peekToken (by decide) _) ?_
        refine only_bind_gives (gives_skip _ _) (only_of_gives (gives_text s _) ⟨rfl, s, rfl⟩)
      · rw [hb]
        refine only_bind_gives (gives_peekToken hspace _) ?_
        have hfail : Only (wrongKind "raw value" : Reader String) (b :: bs) fun _ _ => False :=
          only_of_yields (yields_wrongKind _)
        split
        · rename_i h
          exact absurd (Option.some.inj h) hq
        · exact hfail.mono fun _ _ h => h.elim
    unfold embedded
    refine only_bind htext ?_
    rintro s _ ⟨rfl, hv⟩
    refine only_bind (only_onText ((yields_nested settled_inherited fuel).1 maxDepth) s) ?_
    rintro w _ ⟨hw, rfl⟩
    cases l with
    | nil =>
      have hclose : Gives closeMembers (encodeChars (membersChars []) ++ rest) () rest :=
        gives_bind (gives_peekToken (by decide) _) (gives_skip _ _)
      exact only_bind_gives hclose (only_pure ⟨rfl, hw, rfl, hv⟩)
    | cons m l =>
      have hclose : Only closeMembers (encodeChars (membersChars (m :: l)) ++ rest) fun _ _ => False :=
        only_bind_gives (gives_peekToken (by decide) _) (only_failAhead _)
      exact only_bind hclose fun _ _ h => h.elim

theorem readsVerbatim_object {l : List (String × Value)} (hasc : Entries.Ascending l)
    (h : ∀ m ∈ l, ReadsVerbatim m.2) : ReadsVerbatim (.object l) := by
  refine ⟨opens_chars (by simp), fun fuel d rest hr => ?_⟩
  cases l with
  | nil =>
    refine only_value_open (.inr rfl) fun fuel d => ?_
    cases fuel with
    | zero => exact only_failHere _
    | succ fuel =>
      refine only_of_gives (gives_bind (gives_hasMember_end true rest) (gives_bind (gives_skip _ _) (gives_pure _ _))) ?_
      exact ⟨rfl, verbatim_self (by simp [isPlain, membersPlain])⟩
  | cons m l =>
    obtain ⟨k, v⟩ := m
    obtain ⟨hv, hl⟩ := List.forall_mem_cons.1 h
    rw [chars, encodeChars_append, encodeChars_append, encodeChars_cons, List.append_assoc, List.append_assoc,
      List.append_assoc]
    refine only_value_open (.inr rfl) fun fuel d => ?_
    cases fuel with
    | zero => exact only_failHere _
    | succ fuel =>
      rw [if_neg (by decide)]
      unfold members
      refine only_bind_gives (gives_hasMember_first (head?_textChars k _)) ?_
      refine only_bind_gives (gives_key k _) ?_
      by_cases hk : k = embeddingKey
      · subst hk
        rw [beq_self_eq_true, if_pos (by decide)]
        refine (only_embedded hv.opens).mono ?_
        rintro w bs ⟨hbs, hw, rfl, s, rfl⟩
        exact ⟨hbs, verbatim_marked hw⟩
      · rw [beq_eq_false_iff_ne.2 hk, Bool.and_false, if_neg (by decide)]
        refine only_bind (hv.only fuel d _ (apart_membersChars l rest)) ?_
        rintro w _ ⟨rfl, hw⟩
        refine (only_members hl fuel d (Entries.insert k w []) rest).mono ?_
        rintro u bs ⟨hbs, us, rfl, hus⟩
        have hmembers : List.Forall₂ SameKey ((k, v) :: l) ((k, w) :: us) := .cons ⟨rfl, hw⟩ hus
        have hall : Entries.insertAll (Entries.insert k w []) us = (k, w) :: us :=
          Entries.insertAll_of_ascending
            (show Entries.Ascending ([] ++ (k, w) :: us) from ascending_of_sameKey hmembers hasc)
        rw [hall]
        exact ⟨hbs, verbatim_object hk hw hus⟩

end Reader

namespace Value

open Reader

mutual

theorem readsVerbatim : ∀ {v : Value}, v.Canonical → v.isExact = true → ReadsVerbatim v
  | .list items, hc, he => by
    rw [Canonical] at hc
    rw [isExact] at he
    exact readsVerbatim_list (readsVerbatim_items hc he)
  | .object members, hc, he => by
    rw [Canonical] at hc
    rw [isExact] at he
    exact readsVerbatim_object hc.1 (readsVerbatim_members hc.2 he)
  | .null, hc, he | .bool _, hc, he | .int _, hc, he | .double _, hc, he | .text _, hc, he =>
    readsVerbatim_scalar trivial hc he

theorem readsVerbatim_items : ∀ {items : List Value}, CanonicalItems items → itemsExact items = true →
    ∀ v ∈ items, ReadsVerbatim v
  | [], _, _ => by simp
  | v :: rest, hc, he => by
    rw [CanonicalItems] at hc
    rw [itemsExact, Bool.and_eq_true] at he
    exact List.forall_mem_cons.2 ⟨readsVerbatim hc.1 he.1, readsVerbatim_items hc.2 he.2⟩

theorem readsVerbatim_members : ∀ {members : List (String × Value)}, CanonicalMembers members →
    membersExact members = true → ∀ m ∈ members, ReadsVerbatim m.2
  | [], _, _ => by simp
  | (k, v) :: rest, hc, he => by
    rw [CanonicalMembers] at hc
    rw [membersExact, Bool.and_eq_true] at he
    exact List.forall_mem_cons.2 ⟨readsVerbatim hc.1 he.1, readsVerbatim_members hc.2 he.2⟩

end

theorem verbatim_of_parse_print {v w : Value} (hc : v.Canonical) (he : v.isExact = true)
    (h : parse (Text.Utf8.encode v.print) = .ok w) : Verbatim v w := by
  have hread : Only (anyValue true maxDepth) (encodeChars v.chars) fun w _ => Verbatim v w := by
    intro p w c e
    have e := (readsVerbatim hc he).only _ _ [] apart_nil p w c (by rw [List.append_nil]; exact e)
    exact e.2
  have hchars : Text.Utf8.encode v.print = encodeChars v.chars := Text.Utf8.encode_ofList v.chars
  rw [hchars] at h
  exact runAll_only hread h

/-- The text of a value without doubles is read, and gives a value with that text, exactly if the value
has no marks. -/
theorem parse_print_iff {v : Value} (hc : v.Canonical) (he : v.isExact = true) (hd : v.depth ≤ Reader.maxDepth) :
    (∃ w, parse (Text.Utf8.encode v.print) = .ok w ∧ w.print = v.print) ↔ v.isPlain = true := by
  constructor
  · rintro ⟨w, hw, hprint⟩
    have hchars : w.chars = v.chars := String.ofList_injective hprint
    have hverbatim := verbatim_of_parse_print hc he hw [] []
    rw [hchars] at hverbatim
    exact (hverbatim rfl).1
  · exact fun hp => ⟨v, parse_print (fits_of_depth_le hc he hp hd), rfl⟩

end Value

end AccessRecords.Json
