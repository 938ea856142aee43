/-
Numerals read into 64-bit words. A word takes one digit after the other and stops at a product or a sum
that does not fit. Since every number on the way is no larger than the one that the digits write, this
gives the same as reading the number exactly and looking at its range afterwards.
-/
import AccessRecords.Proofs.Text.Numeral

namespace AccessRecords.Text

/-! ## Ranges -/

theorem inRange_toInt (w : Int64) : InRange w.toInt :=
  ⟨w.le_toInt, Int.le_sub_one_of_lt w.toInt_lt⟩

theorem exists_word {v : Int} (h : InRange v) : ∃ w : Int64, w.toInt = v :=
  ⟨.ofInt v, Int64.toInt_ofInt_of_le h.1 (Int.lt_of_le_sub_one h.2)⟩

theorem inRange_of_le {negative : Bool} {m n : Nat} (h : InRange (signed negative n)) (hle : m ≤ n) :
    InRange (signed negative m) := by
  unfold InRange signed at h ⊢
  split_ifs at h ⊢ <;> omega

theorem word?_eq_some {v : Int} {w : Int64} : word? v = some w ↔ InRange v ∧ w.toInt = v := by
  have hrange : InRange v ↔ -9223372036854775808 ≤ v ∧ v ≤ 9223372036854775807 := by
    unfold InRange
    norm_num
  unfold word?
  constructor
  · intro h
    split_ifs at h with hv
    cases h
    rw [← hrange] at hv
    exact ⟨hv, Int64.toInt_ofInt_of_le hv.1 (Int.lt_of_le_sub_one hv.2)⟩
  · rintro ⟨hv, rfl⟩
    rw [if_pos (hrange.1 hv), Int64.ofInt_toInt]

/-! ## Digits -/

theorem signed_append (negative : Bool) (n d : Nat) :
    signed negative (10 * n + d) = 10 * signed negative n + signed negative d := by
  unfold signed
  split_ifs <;> push_cast <;> ring

/-- A digit is appended exactly if the number with it fits: ten times the number is no larger. -/
theorem appendDigit?_eq_some {negative : Bool} {word w : Int64} {c : Char} {n : Nat}
    (h : word.toInt = signed negative n) :
    appendDigit? negative word c = some w ↔
      isDigit c = true ∧ w.toInt = signed negative (10 * n + (c.toNat - '0'.toNat)) := by
  have hten : 10 * word.toInt = signed negative (10 * n) := by
    have happend := signed_append negative n 0
    rw [h, ← Nat.add_zero (10 * n), happend]
    simp [signed]
  unfold appendDigit?
  split_ifs with hc
  · rw [hten, signed_append, ← h]
    constructor
    · intro e
      obtain ⟨tenfold, ht, hw⟩ := Option.bind_eq_some_iff.1 e
      rw [word?_eq_some] at ht hw
      rw [ht.2, ← hten] at hw
      exact ⟨hc, hw.2⟩
    · rintro ⟨-, hw⟩
      have hfit : InRange (signed negative (10 * n)) := by
        refine inRange_of_le ?_ (Nat.le_add_right (10 * n) (c.toNat - '0'.toNat))
        rw [signed_append, ← h, ← hw]
        exact inRange_toInt w
      obtain ⟨tenfold, ht⟩ := exists_word hfit
      refine Option.bind_eq_some_iff.2 ⟨tenfold, word?_eq_some.2 ⟨hfit, ht⟩, word?_eq_some.2 ?_⟩
      rw [ht, ← hten, ← hw]
      exact ⟨inRange_toInt w, rfl⟩
  · exact iff_of_false (by simp) fun hw => hc hw.1

/-- Appended one by one, digits give the number that they write after the one before them. The numbers in
between fit, as they are no larger. -/
theorem foldlM_appendDigit? {negative : Bool} (ds : List Char) : ∀ {word w : Int64} {n : Nat},
    word.toInt = signed negative n →
    (ds.foldlM (appendDigit? negative) word = some w ↔
      ds.all isDigit = true ∧ w.toInt = signed negative (Nat.ofDigitChars 10 ds n)) := by
  induction ds with
  | nil =>
    intro word w n h
    rw [List.foldlM_nil]
    show some word = some w ↔ true = true ∧ w.toInt = signed negative n
    rw [Option.some_inj, ← h, Int64.toInt_inj, eq_comm]
    simp
  | cons c ds ih =>
    intro word w n h
    rw [List.foldlM_cons, Nat.ofDigitChars_cons, List.all_cons, Bool.and_eq_true]
    constructor
    · intro e
      obtain ⟨word', hstep, hrest⟩ := Option.bind_eq_some_iff.1 e
      obtain ⟨hc, hword'⟩ := (appendDigit?_eq_some h).1 hstep
      obtain ⟨hds, hw⟩ := (ih hword').1 hrest
      exact ⟨⟨hc, hds⟩, hw⟩
    · rintro ⟨⟨hc, hds⟩, hw⟩
      have hfit : InRange (signed negative (10 * n + (c.toNat - '0'.toNat))) :=
        inRange_of_le (hw ▸ inRange_toInt w) (le_ofDigitChars ds _)
      obtain ⟨word', hword'⟩ := exists_word hfit
      refine Option.bind_eq_some_iff.2 ⟨_, (appendDigit?_eq_some h).2 ⟨hc, hword'⟩, (ih hword').2 ⟨hds, hw⟩⟩

/-! ## Numerals -/

theorem readDigitsWord?_eq_some {negative : Bool} {ds : List Char} {w : Int64} :
    readDigitsWord? negative ds = some w ↔ Digits ds ∧ w.toInt = signed negative (placeValue ds) := by
  have hzero : (0 : Int64).toInt = signed negative 0 := by
    cases negative <;> decide
  unfold readDigitsWord?
  rw [digits_iff, ← ofDigitChars_eq_placeValue]
  split_ifs with hd
  · simp [hd]
  · rw [foldlM_appendDigit? ds hzero, and_assoc]
    exact (and_iff_right hd).symm

theorem readSignedWord?_eq_some {cs : List Char} {w : Int64} :
    readSignedWord? cs = some w ↔ Numeral cs w.toInt := by
  constructor
  · intro h
    unfold readSignedWord? at h
    split at h <;> obtain ⟨hd, hw⟩ := readDigitsWord?_eq_some.1 h <;> rw [hw]
    · exact .minus hd
    · exact .plus hd
    · exact .unsigned hd
  · intro h
    generalize hv : w.toInt = v at h
    cases h with
    | unsigned hd =>
      have hne : ∀ (c : Char) (ds : List Char), cs = c :: ds → '0' ≤ c := by
        rintro c ds rfl
        exact (hd.2 c List.mem_cons_self).1
      unfold readSignedWord?
      split
      · exact absurd (hne _ _ rfl) (by decide)
      · exact absurd (hne _ _ rfl) (by decide)
      · exact readDigitsWord?_eq_some.2 ⟨hd, hv⟩
    | plus hd => exact readDigitsWord?_eq_some.2 ⟨hd, hv⟩
    | minus hd => exact readDigitsWord?_eq_some.2 ⟨hd, hv⟩

/-- Words give what exact numbers give: no step wraps around, and none stops before its time. -/
theorem toInt_readWord? (s : String) : (readWord? s).map Int64.toInt = readInt64? s := by
  refine Option.ext fun v => ?_
  unfold readWord?
  rw [Option.map_eq_some_iff, readInt64?_eq_some]
  constructor
  · rintro ⟨w, hw, rfl⟩
    exact ⟨readSignedWord?_eq_some.1 hw, inRange_toInt w⟩
  · rintro ⟨hn, hv⟩
    obtain ⟨w, rfl⟩ := exists_word hv
    exact ⟨w, readSignedWord?_eq_some.2 hn, rfl⟩

end AccessRecords.Text
