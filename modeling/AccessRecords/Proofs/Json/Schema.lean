/-
Records and their fields. A property that the blank record has and that every field keeps is one of
every record, whether it was read straight from a text or found in a JSON value.
-/
import AccessRecords.Json.Schema
import AccessRecords.Proofs.Except
import AccessRecords.Proofs.Json.Yield

namespace AccessRecords.Json

namespace Reader

variable {α : Type} {P : α → Prop}

theorem yields_failAfterClosing (closing : UInt8) (cause : Cause) : Yields (failAfterClosing closing cause) P := by
  unfold failAfterClosing
  refine yields_then fun b => ?_
  dsimp only
  split_ifs
  · exact yields_then fun _ => yields_failHere _
  · exact yields_failHere _

theorem yields_each {item : Reader α} (h : Yields item P) (fuel : Nat) :
    ∀ first before, (∀ a ∈ before, P a) → Yields (each item fuel first before) fun l => ∀ a ∈ l, P a := by
  induction fuel with
  | zero =>
    intro first before _
    exact yields_failHere _
  | succ fuel ih =>
    intro first before hb
    unfold each
    refine yields_then fun more => ?_
    split_ifs
    · refine yields_bind h fun a ha => ih false _ ?_
      intro a' ha'
      rcases List.mem_cons.1 ha' with rfl | ha'
      · exact ha
      · exact hb a' ha'
    · exact yields_then fun _ => yields_pure fun a ha => hb a (List.mem_reverse.1 ha)

theorem yields_eachItem {item : Reader α} (h : Yields item P) : Yields (eachItem item) fun l => ∀ a ∈ l, P a :=
  fun c => yields_each h (c.rest.length + 1) true [] (by simp) c

end Reader

open Reader

/-! ## Fields -/

section Field

variable {α β : Type} {P : α → Prop} {Q : β → Prop}

theorem Decoder.yields_list {d : Decoder β} (h : ∀ depth, Yields (d.read depth) Q) (depth : Nat) :
    Yields ((Decoder.list d).read depth) fun l => ∀ b ∈ l, Q b := by
  unfold Decoder.list
  dsimp only
  refine yields_then fun b => ?_
  split
  · exact yields_then fun depth => yields_eachItem (h depth)
  · exact yields_wrongKind _

theorem Field.yields_of {name : String} {d : Decoder β} {set : β → α → α} {depth : Nat} {a : α}
    (hd : Yields (d.read depth) Q) (h : ∀ b, Q b → P (set b a)) : Yields ((Field.of name d set).read depth a) P :=
  yields_bind hd fun b hb => yields_pure (h b hb)

theorem Field.ofValue_of {name : String} {d : Decoder β} {set : β → α → α} {v : Value} {a a' : α}
    (h : (Field.of name d set).ofValue v a = .ok a') : ∃ b, d.ofValue v = .ok b ∧ a' = set b a := by
  obtain ⟨b, hb, rfl⟩ := Except.map_eq_ok.1 h
  exact ⟨b, hb, rfl⟩

theorem Field.ofValue_of_comm {name : String} {d : Decoder β} {set : β → α → α} {g : α → α}
    (h : ∀ b a, set b (g a) = g (set b a)) (v : Value) (a : α) :
    (Field.of name d set).ofValue v (g a) = ((Field.of name d set).ofValue v a).map g := by
  show (d.ofValue v).map (set · (g a)) = ((d.ofValue v).map (set · a)).map g
  cases d.ofValue v with
  | error fault => rfl
  | ok b => exact congrArg Except.ok (h b a)

end Field

namespace Schema

variable {α : Type} {s : Schema α} {P : α → Prop}

theorem mem_of_field? {name : String} {f : Field α} (h : s.field? name = some f) : f ∈ s.fields :=
  List.mem_of_find?_eq_some h

/-! ## From texts -/

theorem yields_readItems (depth : Nat) : ∀ (fields : List (Field α)),
    (∀ f ∈ fields, ∀ depth a, P a → Yields (f.read depth a) P) →
    ∀ first a, P a → Yields (readItems fields depth first a) P := by
  intro fields
  induction fields with
  | nil => exact fun _ first a ha => yields_pure ha
  | cons f fields ih =>
    intro h first a ha
    unfold readItems
    refine yields_then fun more => ?_
    split_ifs
    · refine yields_bind (h f List.mem_cons_self depth a ha) fun a' ha' => ?_
      exact ih (fun f hf => h f (List.mem_cons_of_mem _ hf)) false a' ha'
    · exact yields_pure ha

theorem yields_readMembers (h : ∀ f ∈ s.fields, ∀ depth a, P a → Yields (f.read depth a) P)
    (depth fuel : Nat) : ∀ first seen a, P a → Yields (s.readMembers depth fuel first seen a) P := by
  induction fuel with
  | zero =>
    intro first seen a _
    exact yields_failHere _
  | succ fuel ih =>
    intro first seen a ha
    unfold readMembers
    refine yields_then fun more => ?_
    split_ifs
    · refine yields_then fun _ => yields_then fun name => ?_
      cases hf : s.field? name with
      | none => exact yields_then fun _ => yields_then fun _ => ih false seen a ha
      | some f =>
        dsimp only
        split_ifs
        · exact yields_failAfterClosing _ _
        · refine yields_then fun _ => yields_bind (h f (mem_of_field? hf) depth a ha) fun a' ha' => ?_
          exact ih false (name :: seen) a' ha'
    · exact yields_then fun _ => yields_pure ha

/-- What the blank record has and every field keeps, every record that is read has. -/
theorem yields_read (hb : P s.blank) (h : ∀ f ∈ s.fields, ∀ depth a, P a → Yields (f.read depth a) P)
    (depth : Nat) : Yields (s.read depth) P := by
  unfold read
  refine yields_then fun b => ?_
  split
  · refine yields_then fun depth => ?_
    refine yields_bind (yields_readItems depth s.fields h true s.blank hb) fun a ha => ?_
    exact yields_then fun _ => yields_pure ha
  · refine yields_then fun depth => ?_
    exact fun c => yields_readMembers h depth (c.rest.length + 1) true [] s.blank hb c
  · exact yields_wrongKind _

/-! ## From values -/

theorem putMember_of {β : Type} {name : String} {d : Decoder β} {set : β → α → α} {v : Value} {b : β}
    (hf : s.field? name = some (.of name d set)) (hv : d.ofValue v = .ok b) (a : α) :
    s.putMember a (name, v) = .ok (set b a) := by
  unfold putMember
  rw [hf]
  show (d.ofValue v).map (set · a) = _
  rw [hv]
  rfl

theorem foldlM_putMember_cons {m : String × Value} {a a' : α} (h : s.putMember a m = .ok a')
    (members : List (String × Value)) :
    (m :: members).foldlM s.putMember a = members.foldlM s.putMember a' := by
  rw [List.foldlM_cons, h]
  rfl

section Commute

variable {name : String} {g : α → α}

theorem putMember_map (hf : ∀ f ∈ s.fields, f.name ≠ name → ∀ v a, f.ofValue v (g a) = (f.ofValue v a).map g)
    {m : String × Value} (hm : m.1 ≠ name) (a : α) : s.putMember (g a) m = (s.putMember a m).map g := by
  unfold putMember
  cases e : s.field? m.1 with
  | none => rfl
  | some f =>
    have hn : f.name = m.1 := by simpa using List.find?_some e
    exact hf f (mem_of_field? e) (hn ▸ hm) m.2 a

theorem foldlM_putMember_map
    (hf : ∀ f ∈ s.fields, f.name ≠ name → ∀ v a, f.ofValue v (g a) = (f.ofValue v a).map g)
    {members : List (String × Value)} (h : ∀ m ∈ members, m.1 ≠ name) (a : α) :
    members.foldlM s.putMember (g a) = (members.foldlM s.putMember a).map g := by
  induction members generalizing a with
  | nil => rfl
  | cons m members ih =>
    rw [List.foldlM_cons, List.foldlM_cons, putMember_map hf (h m List.mem_cons_self)]
    cases s.putMember a m with
    | error fault => rfl
    | ok a' => exact ih (fun m hm => h m (List.mem_cons_of_mem _ hm)) a'

/-- A member changes the record alike wherever it stands, as long as the other fields commute with the
change and no member of its name follows. -/
theorem ofValue_object_append {v : Value} (hg : ∀ a, s.putMember a (name, v) = .ok (g a))
    (hf : ∀ f ∈ s.fields, f.name ≠ name → ∀ v a, f.ofValue v (g a) = (f.ofValue v a).map g)
    {before after : List (String × Value)} (h : ∀ m ∈ after, m.1 ≠ name) :
    s.ofValue (.object (before ++ (name, v) :: after)) = (s.ofValue (.object (before ++ after))).map g := by
  show (before ++ (name, v) :: after).foldlM s.putMember s.blank =
    ((before ++ after).foldlM s.putMember s.blank).map g
  rw [List.foldlM_append, List.foldlM_append]
  cases before.foldlM s.putMember s.blank with
  | error fault => rfl
  | ok a =>
    show ((name, v) :: after).foldlM s.putMember a = (after.foldlM s.putMember a).map g
    rw [foldlM_putMember_cons (hg a), foldlM_putMember_map hf h]

end Commute

theorem putItems_induction {S : Value → Prop} : ∀ (fields : List (Field α)) (items : List Value),
    (∀ f ∈ fields, ∀ v a a', S v → P a → f.ofValue v a = .ok a' → P a') → (∀ v ∈ items, S v) →
    ∀ a a', P a → putItems fields items a = .ok a' → P a' := by
  intro fields
  induction fields with
  | nil =>
    intro items _ _ a a' ha h
    cases h
    exact ha
  | cons f fields ih =>
    intro items hf hs a a' ha h
    cases items with
    | nil =>
      cases h
      exact ha
    | cons v items =>
      obtain ⟨a₁, h₁, h⟩ := Except.bind_eq_ok.1 h
      have ha₁ : P a₁ := hf f List.mem_cons_self v a a₁ (hs v List.mem_cons_self) ha h₁
      exact ih items (fun f hm => hf f (List.mem_cons_of_mem _ hm))
        (fun v hm => hs v (List.mem_cons_of_mem _ hm)) a₁ a' ha₁ h

theorem putMembers_induction {S : Value → Prop}
    (hf : ∀ f ∈ s.fields, ∀ v a a', S v → P a → f.ofValue v a = .ok a' → P a') :
    ∀ (members : List (String × Value)), (∀ m ∈ members, S m.2) →
    ∀ a a', P a → members.foldlM s.putMember a = .ok a' → P a' := by
  intro members
  induction members with
  | nil =>
    intro _ a a' ha h
    cases h
    exact ha
  | cons m members ih =>
    intro hs a a' ha h
    rw [List.foldlM_cons] at h
    obtain ⟨a₁, h₁, h⟩ := Except.bind_eq_ok.1 h
    refine ih (fun m hm => hs m (List.mem_cons_of_mem _ hm)) a₁ a' ?_ h
    unfold putMember at h₁
    split at h₁
    · rename_i f e
      exact hf f (mem_of_field? e) m.2 a a₁ (hs m List.mem_cons_self) ha h₁
    · cases h₁
      exact ha

/-- What the blank record has and every field keeps, every record found in a value has; `S` is what
is known of the parts of the value. -/
theorem ofValue_induction {S : Value → Prop} (hb : P s.blank)
    (hf : ∀ f ∈ s.fields, ∀ v a a', S v → P a → f.ofValue v a = .ok a' → P a') {v : Value} {a : α}
    (hl : ∀ items, v = .list items → ∀ u ∈ items, S u)
    (ho : ∀ members, v = .object members → ∀ m ∈ members, S m.2) (h : s.ofValue v = .ok a) : P a := by
  unfold ofValue at h
  split at h
  · exact putMembers_induction hf _ (ho _ rfl) _ _ hb h
  · obtain ⟨a₁, h₁, h⟩ := Except.bind_eq_ok.1 h
    split_ifs at h
    cases h
    exact putItems_induction s.fields _ hf (hl _ rfl) _ _ hb h₁
  · cases h

end Schema

end AccessRecords.Json
