/-
Two readers side by side. `Reader.Tracks r r' R` says that wherever `r` gives a value, `r'` moves on
to the same place and gives a value that is related to it; the rules follow the ways in which readers
are put together. Main statements: a property of a record and what is given for one of its fields
holds of every record found in a value together with the part that is the field's by name or by
position, and of every record read from a text together with the value that stands there.
-/
import AccessRecords.Proofs.Json.Schema

namespace AccessRecords.Json

namespace Reader

variable {α β γ δ : Type} {R : α → β → Prop} {Q : γ → δ → Prop}

/-- Wherever the first reader gives a value, the second gives a related one and leaves the same rest. -/
def Tracks (r : Reader α) (r' : Reader β) (R : α → β → Prop) : Prop :=
  ∀ c a c', r c = .ok (a, c') → ∃ b, r' c = .ok (b, c') ∧ R a b

/-! ## Rules -/

theorem tracks_pure {a : α} {b : β} (h : R a b) : Tracks (pure a) (pure b) R := by
  intro c a' c' e
  cases e
  exact ⟨b, rfl, h⟩

/-- A reader that never gives anything is tracked by any other. -/
theorem tracks_of_never {r : Reader α} {r' : Reader β} (h : Yields r fun _ => False) : Tracks r r' R :=
  fun c a c' e => (h c a c' e).elim

theorem tracks_bind {r : Reader γ} {r' : Reader δ} {f : γ → Reader α} {g : δ → Reader β}
    (hr : Tracks r r' Q) (hf : ∀ x y, Q x y → Tracks (f x) (g y) R) : Tracks (r >>= f) (r' >>= g) R := by
  intro c a c' e
  obtain ⟨x, c₁, hx, ha⟩ := bind_eq_ok.1 e
  obtain ⟨y, hy, hxy⟩ := hr c x c₁ hx
  obtain ⟨b, hb, hab⟩ := hf x y hxy c₁ a c' ha
  exact ⟨b, bind_eq_ok.2 ⟨y, c₁, hy, hb⟩, hab⟩

theorem tracks_refl (r : Reader α) : Tracks r r Eq := fun _ a _ e => ⟨a, e, rfl⟩

/-- Two readers that begin alike are compared in what follows. -/
theorem tracks_then {r : Reader γ} {f : γ → Reader α} {g : γ → Reader β} (hf : ∀ x, Tracks (f x) (g x) R) :
    Tracks (r >>= f) (r >>= g) R :=
  tracks_bind (tracks_refl r) fun x _ e => e ▸ hf x

theorem Tracks.mono {r : Reader α} {r' : Reader β} {R' : α → β → Prop} (h : Tracks r r' R)
    (hR : ∀ a b, R a b → R' a b) : Tracks r r' R' := by
  intro c a c' e
  obtain ⟨b, hb, hab⟩ := h c a c' e
  exact ⟨b, hb, hR a b hab⟩

theorem runAll_tracks {r : Reader α} {r' : Reader β} (h : Tracks r r' R) {bytes : List UInt8} {a : α}
    (e : runAll r bytes = .ok a) : ∃ b, runAll r' bytes = .ok b ∧ R a b := by
  obtain ⟨c, c', hr, hf⟩ := runAll_eq_ok_iff.1 e
  obtain ⟨b, hb, hab⟩ := h _ a c hr
  exact ⟨b, runAll_eq_ok_iff.2 ⟨c, c', hb, hf⟩, hab⟩

/-! ## Lists -/

theorem tracks_each {item : Reader α} {item' : Reader β} (h : Tracks item item' R) (fuel : Nat) :
    ∀ first before before', List.Forall₂ R before before' →
      Tracks (each item fuel first before) (each item' fuel first before') (List.Forall₂ R) := by
  induction fuel with
  | zero =>
    intro first before before' _
    exact tracks_of_never (yields_failHere _)
  | succ fuel ih =>
    intro first before before' hb
    unfold each
    refine tracks_then fun more => ?_
    split_ifs
    · exact tracks_bind h fun a b hab => ih false _ _ (.cons hab hb)
    · exact tracks_then fun _ => tracks_pure (List.forall₂_reverse_iff.2 hb)

theorem tracks_eachItem {item : Reader α} {item' : Reader β} (h : Tracks item item' R) :
    Tracks (eachItem item) (eachItem item') (List.Forall₂ R) :=
  fun c => tracks_each h (c.rest.length + 1) true [] [] .nil c

end Reader

open Reader

theorem Decoder.tracks_list {α β : Type} {R : α → β → Prop} {d : Decoder α} {d' : Decoder β}
    (h : ∀ depth, Tracks (d.read depth) (d'.read depth) R) (depth : Nat) :
    Tracks ((Decoder.list d).read depth) ((Decoder.list d').read depth) (List.Forall₂ R) := by
  unfold Decoder.list
  dsimp only
  refine tracks_then fun b => ?_
  split
  · exact tracks_then fun depth => tracks_eachItem (h depth)
  · exact tracks_of_never (yields_wrongKind _)

/-! ## Fields -/

section Field

variable {α β γ δ : Type} {R : α → β → Prop} {Q : γ → δ → Prop}

/-- Two fields of one name, the second of which tracks the first and keeps their records related. -/
structure Field.Tracks (R : α → β → Prop) (f : Field α) (g : Field β) : Prop where
  name : g.name = f.name
  read : ∀ depth a b, R a b → Reader.Tracks (f.read depth a) (g.read depth b) R

theorem Field.tracks_of {name : String} {d : Decoder γ} {d' : Decoder δ} {set : γ → α → α} {set' : δ → β → β}
    (hd : ∀ depth, Reader.Tracks (d.read depth) (d'.read depth) Q)
    (h : ∀ x y, Q x y → ∀ a b, R a b → R (set x a) (set' y b)) :
    Field.Tracks R (.of name d set) (.of name d' set') where
  name := rfl
  read depth a b hab := tracks_bind (hd depth) fun x y hxy => tracks_pure (h x y hxy a b hab)

end Field

/-! ## Schemas -/

namespace Schema

variable {α β : Type} {R : α → β → Prop} {s : Schema α} {t : Schema β}

/-- A name is that of two related fields or of none. -/
theorem field?_tracks (h : List.Forall₂ (Field.Tracks R) s.fields t.fields) (name : String) :
    (s.field? name = none ∧ t.field? name = none) ∨
      ∃ f g, s.field? name = some f ∧ t.field? name = some g ∧ Field.Tracks R f g := by
  unfold field?
  generalize s.fields = fs at h
  generalize t.fields = gs at h
  induction h with
  | nil => exact .inl ⟨rfl, rfl⟩
  | @cons f g fs gs hfg _ ih =>
    rw [List.find?_cons, List.find?_cons, hfg.name]
    cases f.name == name with
    | true => exact .inr ⟨f, g, rfl, rfl, hfg⟩
    | false => exact ih

theorem tracks_readItems (depth : Nat) {fs : List (Field α)} {gs : List (Field β)}
    (h : List.Forall₂ (Field.Tracks R) fs gs) :
    ∀ first a b, R a b → Tracks (readItems fs depth first a) (readItems gs depth first b) R := by
  induction h with
  | nil => exact fun first a b hab => tracks_pure hab
  | @cons f g fs gs hfg _ ih =>
    intro first a b hab
    unfold readItems
    refine tracks_then fun more => ?_
    split_ifs
    · exact tracks_bind (hfg.read depth a b hab) fun a' b' hab' => ih false a' b' hab'
    · exact tracks_pure hab

theorem tracks_readMembers (h : List.Forall₂ (Field.Tracks R) s.fields t.fields) (depth fuel : Nat) :
    ∀ first seen a b, R a b →
      Tracks (s.readMembers depth fuel first seen a) (t.readMembers depth fuel first seen b) R := by
  induction fuel with
  | zero =>
    intro first seen a b _
    exact tracks_of_never (yields_failHere _)
  | succ fuel ih =>
    intro first seen a b hab
    unfold readMembers
    refine tracks_then fun more => ?_
    split_ifs
    · refine tracks_then fun _ => tracks_then fun name => ?_
      rcases field?_tracks h name with ⟨hf, hg⟩ | ⟨f, g, hf, hg, hfg⟩
      · rw [hf, hg]
        exact tracks_then fun _ => tracks_then fun _ => ih false seen a b hab
      · rw [hf, hg]
        dsimp only
        split_ifs
        · exact tracks_of_never (yields_failAfterClosing _ _)
        · refine tracks_then fun _ => tracks_bind (hfg.read depth a b hab) fun a' b' hab' => ?_
          exact ih false (name :: seen) a' b' hab'
    · exact tracks_then fun _ => tracks_pure hab

/-- Related blank records become related records, field by field. -/
theorem tracks_read (hb : R s.blank t.blank) (h : List.Forall₂ (Field.Tracks R) s.fields t.fields)
    (depth : Nat) : Tracks (s.read depth) (t.read depth) R := by
  unfold read
  refine tracks_then fun b => ?_
  split
  · refine tracks_then fun depth => ?_
    refine tracks_bind (tracks_readItems depth h true _ _ hb) fun a b hab => ?_
    exact tracks_then fun _ => tracks_pure hab
  · refine tracks_then fun depth => ?_
    exact fun c => tracks_readMembers h depth (c.rest.length + 1) true [] _ _ hb c
  · exact tracks_of_never (yields_wrongKind _)

end Schema

/-! ## What is given for a field -/

/-- The member of an object with a name, or the item of a list at a position. -/
def Value.part? (name : String) (position : Nat) : Value → Option Value
  | .object members => Entries.find? name members
  | .list items => items[position]?
  | _ => none

section Given

variable {α β : Type} {P : α → Option Value → Prop}

/-- A field that keeps a property of the record and what is given for another field. -/
structure Field.Keeps (P : α → Option Value → Prop) (f : Field α) : Prop where
  ofValue : ∀ v a a' given, P a given → f.ofValue v a = .ok a' → P a' given
  read : ∀ depth a given, P a given → Yields (f.read depth a) fun a' => P a' given

/-- A field that brings about a property of the record and what is given for this field, which in a
text is the value that stands there. -/
structure Field.Gives (P : α → Option Value → Prop) (f : Field α) : Prop where
  ofValue : ∀ v a a', f.ofValue v a = .ok a' → P a' (some v)
  read : ∀ depth a, Reader.Tracks (f.read depth a) (anyValue false depth) fun a' v => P a' (some v)

/-- A property of a record and what is given for the field `name`: it holds of the blank record, for
which nothing is given, that field brings it about, and the others keep it. -/
structure Schema.Given (s : Schema α) (name : String) (P : α → Option Value → Prop) : Prop where
  blank : P s.blank none
  others : ∀ f ∈ s.fields, f.name ≠ name → f.Keeps P
  field : ∀ f ∈ s.fields, f.name = name → f.Gives P

theorem Field.keeps_of {name : String} {d : Decoder β} {set : β → α → α}
    (h : ∀ x a given, P a given → P (set x a) given) : (Field.of name d set).Keeps P where
  ofValue v a a' given ha e := by
    obtain ⟨x, -, rfl⟩ := Field.ofValue_of e
    exact h x a given ha
  read depth a given ha := Field.yields_of (yields_any _) fun x _ => h x a given ha

theorem Field.gives_of {Q : β → Value → Prop} {name : String} {d : Decoder β} {set : β → α → α}
    (hv : ∀ v x, d.ofValue v = .ok x → Q x v)
    (hr : ∀ depth, Reader.Tracks (d.read depth) (anyValue false depth) Q)
    (h : ∀ x v a, Q x v → P (set x a) (some v)) : (Field.of name d set).Gives P where
  ofValue v a a' e := by
    obtain ⟨x, hx, rfl⟩ := Field.ofValue_of e
    exact h x v a (hv v x hx)
  read depth a c a' c' e := by
    obtain ⟨x, c₁, hx, e⟩ := bind_eq_ok.1 e
    cases e
    obtain ⟨v, hv, hq⟩ := hr depth c x c' hx
    exact ⟨v, hv, h x v a hq⟩

/-! ## Given by a value -/

namespace Schema

variable {s : Schema α} {name : String}

theorem name_of_field? {f : Field α} (h : s.field? name = some f) : f.name = name := by
  unfold field? at h
  simpa using List.find?_some h

theorem Given.putMembers (h : s.Given name P) (hs : (s.field? name).isSome) :
    ∀ members, Entries.Ascending members → ∀ a a' given, P a given →
      members.foldlM s.putMember a = .ok a' → P a' ((Entries.find? name members).or given) := by
  intro members
  induction members with
  | nil =>
    intro _ a a' given ha e
    cases e
    exact ha
  | cons m members ih =>
    intro hasc a a' given ha e
    obtain ⟨hlt, hasc⟩ := List.pairwise_cons.1 hasc
    rw [List.foldlM_cons] at e
    obtain ⟨a₁, hm, e⟩ := Except.bind_eq_ok.1 e
    unfold putMember at hm
    rw [Entries.find?_cons]
    by_cases hn : m.1 = name
    · -- no other member has this name
      subst hn
      rw [if_pos (Std.LawfulEqCmp.compare_eq_iff_eq.2 rfl)]
      obtain ⟨f, hf⟩ := Option.isSome_iff_exists.1 hs
      rw [hf] at hm
      have ha₁ : P a₁ (some m.2) :=
        (h.field f (mem_of_field? hf) (name_of_field? hf)).ofValue m.2 a a₁ hm
      have hall := ih hasc a₁ a' _ ha₁ e
      rwa [Entries.find?_eq_none_of_lt hlt] at hall
    · rw [if_neg fun he => hn (Std.LawfulEqCmp.compare_eq_iff_eq.1 he).symm]
      refine ih hasc a₁ a' given ?_ e
      split at hm
      · rename_i f hf
        have hother : f.name ≠ name := by rwa [name_of_field? hf]
        exact (h.others f (mem_of_field? hf) hother).ofValue m.2 a a₁ given ha hm
      · cases hm
        exact ha

theorem putItems_given {f : Field α} {after : List (Field α)} (hf : f.Gives P)
    (hafter : ∀ g ∈ after, g.Keeps P) : ∀ before : List (Field α), (∀ g ∈ before, g.Keeps P) →
    ∀ items a a' given, P a given → putItems (before ++ f :: after) items a = .ok a' →
      P a' (items[before.length]?.or given) := by
  intro before
  induction before with
  | nil =>
    intro _ items a a' given ha e
    cases items with
    | nil =>
      cases e
      exact ha
    | cons v items =>
      -- the item of the field itself; none of the fields after it undoes what it brings about
      obtain ⟨a₁, h₁, e⟩ := Except.bind_eq_ok.1 e
      exact putItems_induction (P := fun a => P a (some v)) (S := fun _ => True) after items
        (fun g hg u b b' _ hb => (hafter g hg).ofValue u b b' _ hb) (by simp) a₁ a' (hf.ofValue v a a₁ h₁) e
  | cons g before ih =>
    intro hbefore items a a' given ha e
    obtain ⟨hg, hbefore⟩ := List.forall_mem_cons.1 hbefore
    cases items with
    | nil =>
      cases e
      exact ha
    | cons v items =>
      obtain ⟨a₁, h₁, e⟩ := Except.bind_eq_ok.1 e
      exact ih hbefore items a₁ a' given (hg.ofValue v a a₁ given ha h₁) e

/-- The record found in a value has the property together with the part of the value that is the
field's by name or by position. -/
theorem Given.ofValue (h : s.Given name P) {before after : List (Field α)} {f : Field α}
    (hs : s.fields = before ++ f :: after) (hf : f.name = name) (hb : ∀ g ∈ before, g.name ≠ name)
    (ha : ∀ g ∈ after, g.name ≠ name) {v : Value} {a : α}
    (hasc : ∀ members, v = .object members → Entries.Ascending members) (e : s.ofValue v = .ok a) :
    P a (v.part? name before.length) := by
  have hmem : ∀ g, g ∈ s.fields ↔ g ∈ before ∨ g = f ∨ g ∈ after := by
    intro g
    rw [hs, List.mem_append, List.mem_cons]
  unfold Schema.ofValue at e
  split at e
  · rename_i members
    have hfield : (s.field? name).isSome :=
      List.find?_isSome.2 ⟨f, (hmem f).2 (.inr (.inl rfl)), beq_iff_eq.2 hf⟩
    have hall := h.putMembers hfield members (hasc members rfl) _ _ _ h.blank e
    rwa [Option.or_none] at hall
  · rename_i items
    obtain ⟨a₁, h₁, e⟩ := Except.bind_eq_ok.1 e
    split_ifs at e
    cases e
    rw [hs] at h₁
    have hall := putItems_given (h.field f ((hmem f).2 (.inr (.inl rfl))) hf)
      (fun g hg => h.others g ((hmem g).2 (.inr (.inr hg))) (ha g hg)) before
      (fun g hg => h.others g ((hmem g).2 (.inl hg)) (hb g hg)) items _ _ _ h.blank h₁
    rwa [Option.or_none] at hall
  · cases e

end Schema

end Given

/-! ## Given by a text -/

/-- What a reader would give, without moving. -/
def Reader.lookahead {α : Type} (r : Reader α) : Reader α := fun c => (r c).map fun p => (p.1, c)

/-- The field, for records that are kept beside the value that is given for the field `name`. In that
field the value is noted as it stands, with its embedded texts left alone. -/
def Field.noting {α : Type} (name : String) (f : Field α) : Field (α × Option Value) where
  name := f.name
  ofValue v b := do
    let a ← f.ofValue v b.1
    return (a, if f.name = name then some v else b.2)
  read depth b := do
    if f.name = name then
      let v ← lookahead (anyValue false depth)
      let a ← f.read depth b.1
      return (a, some v)
    else
      let a ← f.read depth b.1
      return (a, b.2)

/-- The schema, with the value that is given for the field `name` noted beside the record. -/
def Schema.noting {α : Type} (s : Schema α) (name : String) : Schema (α × Option Value) where
  title := s.title
  blank := (s.blank, none)
  fields := s.fields.map (Field.noting name)

section Noting

variable {α : Type} {P : α → Option Value → Prop} {s : Schema α} {name : String}

/-- The record is the same beside a note, and it and the note have the property. -/
def Noted (P : α → Option Value → Prop) (a : α) (b : α × Option Value) : Prop := b.1 = a ∧ P a b.2

theorem Field.Keeps.tracks_noting {f : Field α} (h : f.Keeps P) (hn : f.name ≠ name) :
    Field.Tracks (Noted P) f (f.noting name) where
  name := rfl
  read depth a b hab := by
    obtain ⟨a, given⟩ := b
    obtain ⟨rfl, hp⟩ := hab
    intro c a' c' e
    refine ⟨(a', given), ?_, rfl, h.read depth _ given hp c a' c' e⟩
    simp only [Field.noting, if_neg hn]
    exact bind_eq_ok.2 ⟨a', c', e, rfl⟩

theorem Field.Gives.tracks_noting {f : Field α} (h : f.Gives P) (hn : f.name = name) :
    Field.Tracks (Noted P) f (f.noting name) where
  name := rfl
  read depth a b hab := by
    obtain ⟨a, given⟩ := b
    obtain ⟨rfl, -⟩ := hab
    intro c a' c' e
    obtain ⟨v, hv, hp⟩ := h.read depth _ c a' c' e
    refine ⟨(a', some v), ?_, rfl, hp⟩
    have hahead : lookahead (anyValue false depth) c = .ok (v, c) := by
      unfold lookahead
      rw [hv]
      rfl
    simp only [Field.noting, if_pos hn]
    exact bind_eq_ok.2 ⟨v, c, hahead, bind_eq_ok.2 ⟨a', c', e, rfl⟩⟩

/-- A schema gives the same records while the value of a field is noted, and each record has the
property together with its note. -/
theorem Schema.Given.tracks_noting (h : s.Given name P) (depth : Nat) :
    Reader.Tracks (s.read depth) ((s.noting name).read depth) (Noted P) := by
  refine tracks_read ⟨rfl, h.blank⟩ ?_ depth
  show List.Forall₂ (Field.Tracks (Noted P)) s.fields (s.fields.map (Field.noting name))
  rw [List.forall₂_map_right_iff, List.forall₂_same]
  intro f hf
  by_cases hn : f.name = name
  · exact (h.field f hf hn).tracks_noting hn
  · exact (h.others f hf hn).tracks_noting hn

end Noting

end AccessRecords.Json
