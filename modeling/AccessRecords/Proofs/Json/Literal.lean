/-
Values as they stand in a text. A text that is read with its embedded texts resolved can be read
without resolving them, too, up to the same place. The two values differ only in objects that are
nothing but the mark of an embedded text.
-/
import AccessRecords.Proofs.Json.Tracking

namespace AccessRecords.Json

namespace Value

/-- An embedded text: an object that is nothing but a mark with a text. -/
def Embedded (w : Value) : Prop := ∃ s, w = .object [(embeddingKey, .text s)]

mutual

/-- What a value may stand for: itself, with some value in place of each of its embedded texts. -/
inductive StandsFor : Value → Value → Prop
  | scalar {v : Value} : v.Scalar → StandsFor v v
  | list {ws vs : List Value} : List.Forall₂ StandsFor ws vs → StandsFor (.list ws) (.list vs)
  | object {ws vs : List (String × Value)} :
      List.Forall₂ MemberStandsFor ws vs → StandsFor (.object ws) (.object vs)
  | embedded {w v : Value} : w.Embedded → StandsFor w v

/-- The same of a member, which keeps its key. -/
inductive MemberStandsFor : String × Value → String × Value → Prop
  | value {k : String} {w v : Value} : StandsFor w v → MemberStandsFor (k, w) (k, v)

end

/-- The JSON value of a text as it stands, with its embedded texts left alone. -/
def literal (bytes : List UInt8) : Except Fault Value :=
  Reader.runAll (Reader.anyValue false Reader.maxDepth) bytes

/-! ## Parts of what a value stands for -/

theorem getElem?_standsFor {ws vs : List Value} (h : List.Forall₂ StandsFor ws vs) (i : Nat) :
    Option.Rel StandsFor ws[i]? vs[i]? := by
  induction h generalizing i with
  | nil => exact .none
  | cons hv _ ih =>
    cases i with
    | zero => exact .some hv
    | succ i => exact ih i

theorem find?_standsFor {ws vs : List (String × Value)} (h : List.Forall₂ MemberStandsFor ws vs) (k : String) :
    Option.Rel StandsFor (Entries.find? k ws) (Entries.find? k vs) := by
  induction h with
  | nil => exact .none
  | cons hm _ ih =>
    obtain ⟨hv⟩ := hm
    rw [Entries.find?_cons, Entries.find?_cons]
    split_ifs
    · exact .some hv
    · exact ih

theorem standsFor_insert {ws vs : List (String × Value)} {w v : Value} (hv : w.StandsFor v)
    (h : List.Forall₂ MemberStandsFor ws vs) (k : String) :
    List.Forall₂ MemberStandsFor (Entries.insert k w ws) (Entries.insert k v vs) := by
  induction h with
  | nil => exact .cons (.value hv) .nil
  | @cons m u ws vs hm hs ih =>
    obtain ⟨hm'⟩ := hm
    unfold Entries.insert
    dsimp only
    split
    · exact .cons (.value hv) (.cons (.value hm') hs)
    · exact .cons (.value hv) hs
    · exact .cons (.value hm') ih

end Value

namespace Reader

open Value

variable {c c₁ c₂ c₃ : Cursor} {resolve : Bool} {fuel depth : Nat}

/-! ## Short runs -/

/-- A value that begins with a quote is a text. -/
theorem value_text {s : String} (hb : peekToken c = .ok (some 0x22, c₁)) (hs : skip c₁ = .ok ((), c₂))
    (ht : text c₂ = .ok (s, c₃)) : value resolve (fuel + 1) depth c = .ok (.text s, c₃) := by
  unfold value
  refine bind_eq_ok.2 ⟨_, c₁, hb, ?_⟩
  exact bind_eq_ok.2 ⟨(), c₂, hs, bind_eq_ok.2 ⟨s, c₃, ht, rfl⟩⟩

theorem value_null (hb : peekToken c = .ok (some 0x6E, c₁)) (hs : skip c₁ = .ok ((), c₂))
    (hn : restOfNull c₂ = .ok ((), c₃)) : value resolve (fuel + 1) depth c = .ok (.null, c₃) := by
  unfold value
  refine bind_eq_ok.2 ⟨_, c₁, hb, ?_⟩
  exact bind_eq_ok.2 ⟨(), c₂, hs, bind_eq_ok.2 ⟨(), c₃, hn, rfl⟩⟩

/-- At its closing bracket an object has the members that have been read. -/
theorem members_end {first : Bool} {before : List (String × Value)} (hb : peekToken c = .ok (some 0x7D, c₁))
    (hs : skip c₁ = .ok ((), c₂)) :
    members resolve (fuel + 1) depth first before c = .ok (.object before, c₂) := by
  unfold members
  refine bind_eq_ok.2 ⟨false, c₁, bind_eq_ok.2 ⟨_, c₁, hb, rfl⟩, ?_⟩
  exact bind_eq_ok.2 ⟨(), c₂, hs, rfl⟩

/-! ## Texts with and without their embedded texts resolved -/

/-- What is read as the value of an embedded text is, as it stands, an object that is only a mark. -/
theorem tracks_embedded (fuel depth : Nat) :
    Tracks (embedded true fuel)
      (do let w ← value false fuel depth
          members false fuel depth false (Entries.insert embeddingKey w []))
      fun _ w => w.Embedded := by
  cases fuel with
  | zero => exact tracks_of_never (yields_failHere _)
  | succ fuel =>
    intro c v c' e
    unfold embedded at e
    obtain ⟨s, c₃, hs, e⟩ := bind_eq_ok.1 e
    obtain ⟨v', c₄, hv, e⟩ := bind_eq_ok.1 e
    obtain ⟨⟨⟩, c₅, hclose, e⟩ := bind_eq_ok.1 e
    cases e
    -- the text is read in its own place and leaves the reader where it was
    obtain ⟨v'', -, hv⟩ := Except.map_eq_ok.1 hv
    cases hv
    have htext : value false (fuel + 1) depth c = .ok (.text s, c₃) := by
      unfold embeddedText at hs
      obtain ⟨b, c₁, hb, hs⟩ := bind_eq_ok.1 hs
      split at hs
      · obtain ⟨⟨⟩, c₂, hskip, ht⟩ := bind_eq_ok.1 hs
        exact value_text hb hskip ht
      · exact (yields_wrongKind (P := fun _ => False) _ _ _ _ hs).elim
    have hend : members false (fuel + 1) depth false [(embeddingKey, .text s)] c₃ =
        .ok (.object [(embeddingKey, .text s)], c') := by
      unfold closeMembers at hclose
      obtain ⟨b, c₁, hb, hclose⟩ := bind_eq_ok.1 hclose
      cases b with
      | none => cases hclose
      | some b =>
        dsimp only at hclose
        split_ifs at hclose with h7D h2C
        · subst h7D
          exact members_end hb hclose
        · cases hclose
        · cases hclose
    exact ⟨_, bind_eq_ok.2 ⟨.text s, c₃, htext, hend⟩, s, rfl⟩

/-- The readers share one bound on their steps, on which the induction is. -/
theorem tracks_nested : ∀ fuel,
    (∀ depth, Tracks (value true fuel depth) (value false fuel depth) fun v w => w.StandsFor v) ∧
    (∀ depth first before before', List.Forall₂ StandsFor before' before →
      Tracks (items true fuel depth first before) (items false fuel depth first before')
        fun vs ws => List.Forall₂ StandsFor ws vs) ∧
    (∀ depth first before before', (first = true → before' = []) → List.Forall₂ MemberStandsFor before' before →
      Tracks (members true fuel depth first before) (members false fuel depth first before')
        fun v w => w.StandsFor v) := by
  intro fuel
  induction fuel with
  | zero =>
    refine ⟨fun depth => ?_, fun depth first before before' _ => ?_, fun depth first before before' _ _ => ?_⟩
    · unfold value
      exact tracks_of_never (yields_failHere _)
    · unfold items
      exact tracks_of_never (yields_failHere _)
    · unfold members
      exact tracks_of_never (yields_failHere _)
  | succ fuel ih =>
    obtain ⟨ihValue, ihItems, ihMembers⟩ := ih
    refine ⟨fun depth => ?_, fun depth first before before' hb => ?_, fun depth first before before' hf hb => ?_⟩
    · unfold value
      refine tracks_then fun b => ?_
      cases b with
      | none => exact tracks_of_never (yields_failHere _)
      | some b =>
        by_cases hb : b = 0x5B ∨ b = 0x7B
        · simp only [if_pos hb]
          cases depth with
          | zero => exact tracks_of_never (yields_failAhead _)
          | succ depth =>
            refine tracks_then fun _ => ?_
            split
            · exact tracks_bind (ihItems depth true [] [] .nil) fun vs ws h => tracks_pure (.list h)
            · exact ihMembers depth true [] [] (fun _ => rfl) .nil
        · simp only [if_neg hb]
          intro c v c' e
          exact ⟨v, e, .scalar (yields_scalar b c v c' e)⟩
    · unfold items
      refine tracks_then fun more => ?_
      split_ifs
      · exact tracks_bind (ihValue depth) fun v w h => ihItems depth false _ _ (.cons h hb)
      · exact tracks_then fun _ => tracks_pure (List.forall₂_reverse_iff.2 hb)
    · unfold members
      refine tracks_then fun more => ?_
      split_ifs
      · refine tracks_then fun k => ?_
        rw [Bool.false_and, Bool.false_and, if_neg Bool.false_ne_true]
        split_ifs with hk
        · -- the mark comes first, so there are no members before it
          simp only [Bool.true_and, Bool.and_eq_true, beq_iff_eq] at hk
          obtain ⟨hfirst, rfl⟩ := hk
          subst hfirst
          obtain rfl := hf rfl
          exact (tracks_embedded fuel depth).mono fun _ _ h => .embedded h
        · refine tracks_bind (ihValue depth) fun v w h => ?_
          exact ihMembers depth false _ _ (fun h => by cases h) (standsFor_insert h hb k)
      · exact tracks_then fun _ => tracks_pure (.object hb)

end Reader

/-- A text that has a value has one as it stands, too, which stands for the other. -/
theorem Value.literal_of_parse {bytes : List UInt8} {v : Value} (h : parse bytes = .ok v) :
    ∃ w, literal bytes = .ok w ∧ w.StandsFor v :=
  Reader.runAll_tracks (fun c => (Reader.tracks_nested (Reader.enoughFuel c)).1 Reader.maxDepth c) h

end AccessRecords.Json
