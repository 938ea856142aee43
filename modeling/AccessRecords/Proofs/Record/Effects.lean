/-
Effects as documents give them. The effect of a policy is the one that its document names, by its name
or as the only key of an object with a null, and to deny if the document says nothing about it. This
holds of a document that is found in a value, and of one that is read straight from a seed file, where
the value that stands for the effect is noted beside the policy. Embedded texts can hide what a
document as it stands says.
-/
import AccessRecords.Proofs.Json.Literal
import AccessRecords.Proofs.Record.Conditions

namespace AccessRecords

open Json Json.Reader

namespace Effect

/-! ## Naming an effect -/

/-- The two ways to name an effect: its name, and an object with its name as the only key, under which
there is null. -/
def NamedBy (e : Effect) (v : Value) : Prop := v = .text e.name ∨ v = .object [(e.name, .null)]

/-- The effect is the one that is given, or to deny if none is. -/
def FollowsFrom (given : Option Value) (e : Effect) : Prop :=
  match given with
  | none => e = .deny
  | some v => e.NamedBy v

theorem ofName_eq_ok {e : Effect} {s : String} : ofName s = .ok e ↔ s = e.name := by
  constructor
  · intro h
    unfold ofName at h
    split_ifs at h with ha hd
    · cases h
      exact ha
    · cases h
      exact hd
  · rintro rfl
    cases e <;> rfl

theorem ofValue_eq_ok {e : Effect} {v : Value} : ofValue v = .ok e ↔ e.NamedBy v := by
  constructor
  · intro h
    unfold ofValue at h
    split at h
    · exact .inl (congrArg _ (ofName_eq_ok.1 (Except.mapError_eq_ok.1 h)))
    · obtain ⟨e', hk, hv⟩ := Except.bind_eq_ok.1 h
      obtain rfl := ofName_eq_ok.1 (Except.mapError_eq_ok.1 hk)
      split at hv
      · cases hv
        exact .inr rfl
      · cases hv
    · cases h
    · cases h
  · rintro (rfl | rfl) <;> cases e <;> rfl

theorem NamedBy.unique {e e' : Effect} {v : Value} (h : e.NamedBy v) (h' : e'.NamedBy v) : e = e' :=
  Except.ok.inj ((ofValue_eq_ok.2 h).symm.trans (ofValue_eq_ok.2 h'))

instance (e : Effect) (v : Value) : Decidable (e.NamedBy v) :=
  match h : ofValue v with
  | .ok e' =>
    if he : e = e' then isTrue (ofValue_eq_ok.1 (he ▸ h))
    else isFalse fun hn => he (hn.unique (ofValue_eq_ok.1 h))
  | .error _ => isFalse fun hn => by
    rw [ofValue_eq_ok.2 hn] at h
    cases h

theorem FollowsFrom.allow_iff {given : Option Value} {e : Effect} (h : e.FollowsFrom given) :
    e = .allow ↔ ∃ v, given = some v ∧ Effect.allow.NamedBy v := by
  cases given with
  | none =>
    cases h
    exact iff_of_false (by decide) (by rintro ⟨v, ⟨⟩, -⟩)
  | some v =>
    constructor
    · rintro rfl
      exact ⟨v, rfl, h⟩
    · rintro ⟨v', hv, hn⟩
      cases hv
      exact NamedBy.unique h hn

/-! ## Reading an effect from a text -/

section Read

variable {c c' : Cursor} {e : Effect}

theorem readName_eq_ok (h : readName c = .ok (e, c')) :
    ∃ c₁, skip c = .ok ((), c₁) ∧ text c₁ = .ok (e.name, c') := by
  obtain ⟨⟨⟩, c₁, hs, h₁⟩ := bind_eq_ok.1 h
  obtain ⟨s, c₂, ht, h₂⟩ := bind_eq_ok.1 h₁
  cases he : ofName s with
  | error cause =>
    rw [he] at h₂
    cases h₂
  | ok e' =>
    rw [he] at h₂
    cases h₂
    rw [ofName_eq_ok.1 he] at ht
    exact ⟨c₁, hs, ht⟩

/-- The key of the object form is a key of any object, up to its colon. -/
theorem readKey_eq_ok (h : readKey c = .ok (e, c')) :
    ∃ c₁, hasMember true c = .ok (true, c₁) ∧ ∃ c₂, skip c₁ = .ok ((), c₂) ∧ text c₂ = .ok (e.name, c') := by
  unfold readKey at h
  obtain ⟨b, c₁, hb, h₁⟩ := bind_eq_ok.1 h
  split at h₁
  · cases h₁
  · exact ⟨c₁, bind_eq_ok.2 ⟨_, c₁, hb, rfl⟩, readName_eq_ok h₁⟩
  · cases h₁
  · cases h₁

theorem readNull_eq_ok {resolve : Bool} {fuel depth : Nat} (h : readNull c = .ok ((), c')) :
    value resolve (fuel + 1) depth c = .ok (.null, c') := by
  unfold readNull at h
  obtain ⟨b, c₁, hb, h₁⟩ := bind_eq_ok.1 h
  split at h₁
  · obtain ⟨⟨⟩, c₂, hs, hn⟩ := bind_eq_ok.1 h₁
    exact value_null hb hs hn
  · exact (yields_wrongKind (P := fun _ => False) _ _ _ _ h₁).elim

/-- The object form is an object with one member. -/
theorem members_of_readKey {fuel depth : Nat} {c₁ c₂ c₃ c₄ c₅ : Cursor} (hk : readKey c = .ok (e, c₁))
    (hc : colon c₁ = .ok ((), c₂)) (hn : readNull c₂ = .ok ((), c₃))
    (hb : peekToken c₃ = .ok (some 0x7D, c₄)) (hs : skip c₄ = .ok ((), c₅)) :
    members false (fuel + 2) depth true [] c = .ok (.object [(e.name, .null)], c₅) := by
  obtain ⟨c₆, hmore, c₇, hskip, htext⟩ := readKey_eq_ok hk
  have hkey : key c₆ = .ok (e.name, c₂) :=
    bind_eq_ok.2 ⟨(), c₇, hskip, bind_eq_ok.2 ⟨_, c₁, htext, bind_eq_ok.2 ⟨(), c₂, hc, rfl⟩⟩⟩
  unfold members
  refine bind_eq_ok.2 ⟨true, c₆, hmore, ?_⟩
  refine bind_eq_ok.2 ⟨e.name, c₂, hkey, ?_⟩
  exact bind_eq_ok.2 ⟨.null, c₃, readNull_eq_ok hn, members_end hb hs⟩

/-- Where something comes next, there are steps for an object with one member. -/
theorem exists_fuel {b : UInt8} (h : peekToken c = .ok (some b, c')) : ∃ fuel, enoughFuel c = fuel + 3 := by
  obtain ⟨rest, p⟩ := c
  cases rest with
  | nil => cases h
  | cons b bs =>
    refine ⟨2 * bs.length + 1, ?_⟩
    unfold enoughFuel
    rw [List.length_cons]
    omega

/-- Where an effect is read from a text, a value stands that names it. -/
theorem tracks_read (depth : Nat) : Tracks (read depth) (anyValue false depth) fun e v => e.NamedBy v := by
  intro c e c' h
  unfold read at h
  obtain ⟨b, c₁, hb, h₁⟩ := bind_eq_ok.1 h
  split at h₁
  · cases h₁
  · obtain ⟨c₂, hs, ht⟩ := readName_eq_ok h₁
    exact ⟨_, value_text hb hs ht, .inl rfl⟩
  · obtain ⟨d, c₂, henter, h₂⟩ := bind_eq_ok.1 h₁
    obtain ⟨e', c₃, hk, h₃⟩ := bind_eq_ok.1 h₂
    obtain ⟨⟨⟩, c₄, hc, h₄⟩ := bind_eq_ok.1 h₃
    obtain ⟨⟨⟩, c₅, hn, h₅⟩ := bind_eq_ok.1 h₄
    obtain ⟨b', c₆, hb', h₆⟩ := bind_eq_ok.1 h₅
    cases b' with
    | none => cases h₆
    | some b' =>
      dsimp only at h₆
      split_ifs at h₆ with hend
      · subst hend
        obtain ⟨⟨⟩, c₇, hs', h₇⟩ := bind_eq_ok.1 h₆
        cases h₇
        cases depth with
        | zero => cases henter
        | succ depth =>
          obtain ⟨⟨⟩, c₈, hs, h₈⟩ := bind_eq_ok.1 henter
          cases h₈
          -- one step each for the object, its member and the end of the object
          obtain ⟨fuel, hfuel⟩ := exists_fuel hb
          refine ⟨_, ?_, .inr rfl⟩
          unfold anyValue
          rw [hfuel]
          unfold value
          refine bind_eq_ok.2 ⟨_, c₁, hb, ?_⟩
          exact bind_eq_ok.2 ⟨(), _, hs, members_of_readKey hk hc hn hb' hs'⟩
      · cases h₆
  · cases h₁

end Read

/-! ## Documents of policies -/

/-- The document names the effect: as the member `effect` if it is an object, or as its sixth item if it
is a list. -/
def NamedIn (e : Effect) (d : Value) : Prop := ∃ v, d.part? "effect" 5 = some v ∧ e.NamedBy v

instance (e : Effect) (d : Value) : Decidable (e.NamedIn d) :=
  match h : d.part? "effect" 5 with
  | some v =>
    if hn : e.NamedBy v then isTrue ⟨v, h, hn⟩
    else isFalse fun ⟨v', hv, hn'⟩ => hn (Option.some.inj (h.symm.trans hv) ▸ hn')
  | none => isFalse fun ⟨v, hv, _⟩ => by
    rw [h] at hv
    cases hv

/-- An embedded text stands for the document, for what it gives as its effect, or for what is under the
only key of that. -/
def Disguised (d : Value) : Prop :=
  d.Embedded ∨ ∃ v, d.part? "effect" 5 = some v ∧ (v.Embedded ∨ ∃ k u, v = .object [(k, u)] ∧ u.Embedded)

variable {e : Effect} {d v w : Value}

theorem NamedBy.not_embedded (h : e.NamedBy v) : ¬ v.Embedded ∧ ∀ k u, v = .object [(k, u)] → ¬ u.Embedded := by
  rcases h with rfl | rfl
  · exact ⟨by rintro ⟨s, ⟨⟩⟩, by rintro k u ⟨⟩⟩
  · constructor
    · rintro ⟨s, hs⟩
      simp at hs
    · rintro k u ⟨⟩ ⟨s, ⟨⟩⟩

theorem NamedIn.not_disguised (h : e.NamedIn d) : ¬ Disguised d := by
  obtain ⟨v, hv, hn⟩ := h
  rintro (⟨s, rfl⟩ | ⟨v', hv', hd⟩)
  · -- an object that is only a mark has no effect
    have hnone : (Value.object [(Value.embeddingKey, .text s)]).part? "effect" 5 = none := by
      show Entries.find? "effect" [(Value.embeddingKey, Value.text s)] = none
      rw [Entries.find?_cons, if_neg (by decide : ¬ compare "effect" Value.embeddingKey = .eq)]
      rfl
    rw [hnone] at hv
    cases hv
  · obtain rfl : v = v' := Option.some.inj (hv.symm.trans hv')
    obtain ⟨hv, hu⟩ := hn.not_embedded
    rcases hd with hd | ⟨k, u, hk, hd⟩
    · exact hv hd
    · exact hu k u hk hd

theorem null_iff_of_standsFor (h : w.StandsFor v) (hw : ¬ w.Embedded) : w = .null ↔ v = .null := by
  cases h with
  | scalar _ => exact Iff.rfl
  | list _ => exact iff_of_false (by rintro ⟨⟩) (by rintro ⟨⟩)
  | object _ => exact iff_of_false (by rintro ⟨⟩) (by rintro ⟨⟩)
  | embedded h => exact absurd h hw

/-- What a value as it stands names, and what it stands for, differ only by embedded texts. -/
theorem namedBy_standsFor (h : w.StandsFor v) (hw : ¬ w.Embedded)
    (hu : ∀ k u, w = .object [(k, u)] → ¬ u.Embedded) : e.NamedBy w ↔ e.NamedBy v := by
  unfold NamedBy
  cases h with
  | scalar _ => exact Iff.rfl
  | list _ => simp
  | embedded h => exact absurd h hw
  | object h =>
    cases h with
    | nil => simp
    | cons hm hs =>
      cases hs with
      | cons _ _ => simp
      | nil =>
        obtain ⟨hnull⟩ := hm
        have hiff := null_iff_of_standsFor hnull (hu _ _ rfl)
        simp [hiff]

theorem part?_standsFor (h : w.StandsFor v) (hw : ¬ w.Embedded) (name : String) (position : Nat) :
    Option.Rel Value.StandsFor (w.part? name position) (v.part? name position) := by
  cases h with
  | scalar h =>
    cases v <;> first | exact absurd h id | exact .none
  | list h => exact Value.getElem?_standsFor h position
  | object h => exact Value.find?_standsFor h name
  | embedded h => exact absurd h hw

/-- A document as it stands names an effect exactly if what it stands for does and this is not hidden
from it by an embedded text. -/
theorem namedIn_iff_of_standsFor (h : w.StandsFor v) : e.NamedIn w ↔ e.NamedIn v ∧ ¬ Disguised w := by
  have hiff : ¬ Disguised w → (e.NamedIn w ↔ e.NamedIn v) := by
    intro hd
    have hw : ¬ w.Embedded := fun hw => hd (.inl hw)
    have hpart := part?_standsFor h hw "effect" 5
    unfold Disguised at hd
    unfold NamedIn
    generalize w.part? "effect" 5 = x at hpart hd
    generalize v.part? "effect" 5 = y at hpart
    cases hpart with
    | none => exact Iff.rfl
    | @some x y hxy =>
      have hx : ¬ x.Embedded := fun hx => hd (.inr ⟨x, rfl, .inl hx⟩)
      have hu : ∀ k u, x = .object [(k, u)] → ¬ u.Embedded :=
        fun k u hk hu => hd (.inr ⟨x, rfl, .inr ⟨k, u, hk, hu⟩⟩)
      simp only [Option.some.injEq, exists_eq_left']
      exact namedBy_standsFor hxy hx hu
  constructor
  · exact fun hn => ⟨(hiff hn.not_disguised).1 hn, hn.not_disguised⟩
  · exact fun ⟨hn, hd⟩ => (hiff hd).2 hn

end Effect

/-! ## Policies -/

theorem Json.Value.ascending_of_parse {bytes : List UInt8} {v : Value} (h : parse bytes = .ok v) :
    ∀ members, v = .object members → Entries.Ascending members := by
  refine parse_induction (P := fun v => ∀ members, v = .object members → Entries.Ascending members) ?_ h
  refine ⟨fun b => (yields_scalar b).mono ?_, ?_, ?_⟩
  · rintro v hv members rfl
    exact absurd hv id
  · rintro items - members ⟨⟩
  · rintro members hasc - - members' ⟨⟩
    exact hasc

namespace Policy

/-- The effect of a policy follows from what is given for it, and from nothing else. -/
theorem given_effect : schema.Given "effect" fun p given => p.effect.FollowsFrom given where
  blank := rfl
  others := by
    simp only [schema, List.forall_mem_cons, List.not_mem_nil, false_imp_iff, implies_true, and_true]
    refine ⟨?id, ?description, ?subjects, ?resources, ?actions, ?effect, ?conditions⟩ <;> intro hn
    case effect => exact absurd rfl hn
    all_goals exact Field.keeps_of fun _ _ _ hp => hp
  field := by
    simp only [schema, List.forall_mem_cons, List.not_mem_nil, false_imp_iff, implies_true, and_true]
    refine ⟨?_, ?_, ?_, ?_, ?_, ?own, ?_⟩ <;> intro hn
    case own =>
      exact Field.gives_of (fun v e h => Effect.ofValue_eq_ok.1 h) Effect.tracks_read fun e v p h => h
    all_goals exact absurd hn (by decide)

theorem effect_of_ofValue {v : Value} {p : Policy}
    (hasc : ∀ members, v = .object members → Entries.Ascending members) (h : schema.ofValue v = .ok p) :
    p.effect.FollowsFrom (v.part? "effect" 5) := by
  have hfields : schema.fields = schema.fields.take 5 ++ schema.fields[5] :: schema.fields.drop 6 := rfl
  exact given_effect.ofValue hfields rfl (by decide) (by decide) hasc h

end Policy

/-! ## Seeds -/

namespace Seed

/-- The fields of a seed, of which the policies are kept, each with what is given as its effect. -/
def notedSchema : Schema (List (Policy × Option Value)) where
  title := schema.title
  blank := []
  fields := [
    .of "roles" (.list Role.schema.decoder) fun _ policies => policies,
    .of "policies" (.list (Policy.schema.noting "effect").decoder) fun policies _ => policies]

/-- The policies in a seed file, each with what stands in the file as its effect. -/
def noted (file : File) : List (Policy × Option Value) :=
  match file.contents with
  | .ok bytes => (notedSchema.decoder.parse bytes).toOption.getD []
  | .error _ => []

/-- The effects of the policies that are loaded follow from what the file says about each. -/
theorem noted_of_ofFile {file : File} {seed : Seed} (h : ofFile file = .ok seed) :
    List.Forall₂ (Noted fun p given => p.effect.FollowsFrom given) seed.policies (noted file) := by
  have htracks : ∀ depth, Tracks (schema.decoder.read depth) (notedSchema.decoder.read depth)
      fun seed l => List.Forall₂ (Noted fun p given => p.effect.FollowsFrom given) seed.policies l := by
    refine Schema.tracks_read .nil (.cons ?_ (.cons ?_ .nil))
    · exact Field.tracks_of (fun depth => tracks_refl _) fun _ _ _ _ _ h => h
    · exact Field.tracks_of (Decoder.tracks_list Policy.given_effect.tracks_noting) fun _ _ h _ _ _ => h
  obtain ⟨path, contents⟩ := file
  cases contents with
  | error reason => cases h
  | ok bytes =>
    obtain ⟨seed', hs, h₁⟩ := Except.bind_eq_ok.1 (show ofBytes bytes = .ok seed from h)
    obtain ⟨⟨⟩, -, h₂⟩ := Except.bind_eq_ok.1 h₁
    cases h₂
    obtain ⟨l, hl, hnoted⟩ := runAll_tracks (htracks _) (Except.mapError_eq_ok.1 hs)
    have hparse : notedSchema.decoder.parse bytes = .ok l := hl
    unfold noted
    dsimp only
    rw [hparse]
    exact hnoted

end Seed

end AccessRecords
