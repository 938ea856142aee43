/-
Numerals: digits after at most one sign, with the number that they write by position. Exactly these are
read. Numbers written in decimal are read back: their digits are no blanks and no signs, so trimming
leaves them alone and the number they write is the one that was meant.
-/
import AccessRecords.Proofs.Text.Trim
import AccessRecords.Text.Numeral
import Mathlib.Data.Nat.Digits.Defs
import Mathlib.Tactic

namespace AccessRecords.Text

/-! ## Numerals -/

/-- One or more of the ten ASCII digits. -/
def Digits (ds : List Char) : Prop := ds ≠ [] ∧ ∀ c ∈ ds, '0' ≤ c ∧ c ≤ '9'

/-- The number that digits write: the last counts once, and each other ten times as much as the next. -/
def placeValue (ds : List Char) : Nat := Nat.ofDigits 10 (ds.reverse.map fun c => c.toNat - '0'.toNat)

/-- A numeral with the number that it writes: digits after at most one sign. -/
inductive Numeral : List Char → Int → Prop
  | unsigned {ds : List Char} : Digits ds → Numeral ds (placeValue ds)
  | plus {ds : List Char} : Digits ds → Numeral ('+' :: ds) (placeValue ds)
  | minus {ds : List Char} : Digits ds → Numeral ('-' :: ds) (-placeValue ds)

theorem ofDigitChars_eq_placeValue (ds : List Char) : Nat.ofDigitChars 10 ds 0 = placeValue ds := by
  unfold placeValue Nat.ofDigitChars
  rw [Nat.ofDigits_eq_foldr, List.foldr_map, List.foldr_reverse]
  refine congrArg (fun f => List.foldl f 0 ds) ?_
  funext n c
  rw [Nat.cast_id, Nat.add_comm]

/-- Digits that are put after a number make it no smaller. -/
theorem le_ofDigitChars (ds : List Char) (n : Nat) : n ≤ Nat.ofDigitChars 10 ds n := by
  rw [Nat.ofDigitChars_eq_ofDigitChars_zero]
  have hpos : 0 < 10 ^ ds.length := Nat.pow_pos (by decide)
  calc n ≤ 10 ^ ds.length * n := Nat.le_mul_of_pos_left n hpos
    _ ≤ _ := Nat.le_add_right _ _

theorem digits_iff {ds : List Char} : Digits ds ↔ ds ≠ [] ∧ ds.all isDigit = true := by
  unfold Digits isDigit
  simp only [List.all_eq_true, Bool.and_eq_true, decide_eq_true_eq]

theorem readDigits?_of_digits {ds : List Char} (h : Digits ds) : readDigits? ds = some (placeValue ds) := by
  unfold readDigits?
  rw [if_pos (digits_iff.1 h), ofDigitChars_eq_placeValue]

theorem digits_of_readDigits? {ds : List Char} {n : Nat} (h : readDigits? ds = some n) :
    Digits ds ∧ n = placeValue ds := by
  unfold readDigits? at h
  split_ifs at h with hd
  rw [ofDigitChars_eq_placeValue] at h
  cases h
  exact ⟨digits_iff.2 hd, rfl⟩

/-- Digits have no sign before them. -/
theorem readSigned?_of_digits {ds : List Char} (h : Digits ds) : readSigned? ds = some (placeValue ds : Int) := by
  have hne : ∀ (c : Char) (cs : List Char), ds = c :: cs → '0' ≤ c := by
    rintro c cs rfl
    exact (h.2 c List.mem_cons_self).1
  unfold readSigned?
  split
  · exact absurd (hne _ _ rfl) (by decide)
  · exact absurd (hne _ _ rfl) (by decide)
  · rw [readDigits?_of_digits h]
    rfl

theorem readSigned?_eq_some {cs : List Char} {v : Int} : readSigned? cs = some v ↔ Numeral cs v := by
  constructor
  · intro h
    unfold readSigned? at h
    split at h
    · rename_i ds
      cases hr : readDigits? ds with
      | none =>
        rw [hr] at h
        cases h
      | some n =>
        obtain ⟨hd, rfl⟩ := digits_of_readDigits? hr
        rw [hr] at h
        cases h
        exact .minus hd
    · obtain ⟨n, hr, rfl⟩ := Option.map_eq_some_iff.1 h
      obtain ⟨hd, rfl⟩ := digits_of_readDigits? hr
      exact .plus hd
    · obtain ⟨n, hr, rfl⟩ := Option.map_eq_some_iff.1 h
      obtain ⟨hd, rfl⟩ := digits_of_readDigits? hr
      exact .unsigned hd
  · intro h
    cases h with
    | unsigned hd => exact readSigned?_of_digits hd
    | plus hd =>
      rw [readSigned?, readDigits?_of_digits hd]
      rfl
    | minus hd =>
      rw [readSigned?, readDigits?_of_digits hd]
      rfl

/-- The number is one of the signed 64-bit numbers. -/
def InRange (v : Int) : Prop := -2 ^ 63 ≤ v ∧ v ≤ 2 ^ 63 - 1

theorem readInt64?_eq_some {s : String} {v : Int} :
    readInt64? s = some v ↔ Numeral s.toList v ∧ InRange v := by
  unfold readInt64? InRange
  rw [Option.filter_eq_some_iff, readSigned?_eq_some, decide_eq_true_eq]
  norm_num

/-- A numeral without a minus sign, with the number that it writes. -/
inductive Unsigned : List Char → Nat → Prop
  | bare {ds : List Char} : Digits ds → Unsigned ds (placeValue ds)
  | plus {ds : List Char} : Digits ds → Unsigned ('+' :: ds) (placeValue ds)

theorem readUInt16?_eq_some {s : String} {n : Nat} : readUInt16? s = some n ↔ Unsigned s.toList n ∧ n ≤ 65535 := by
  unfold readUInt16?
  rw [Option.filter_eq_some_iff, decide_eq_true_eq]
  refine and_congr_left fun _ => ?_
  generalize s.toList = cs
  constructor
  · intro h
    split at h
    · obtain ⟨hd, rfl⟩ := digits_of_readDigits? h
      exact .plus hd
    · obtain ⟨hd, rfl⟩ := digits_of_readDigits? h
      exact .bare hd
  · intro h
    cases h with
    | bare hd =>
      split
      · -- no digit is a plus sign
        exact absurd (hd.2 '+' List.mem_cons_self) (by decide)
      · exact readDigits?_of_digits hd
    | plus hd => exact readDigits?_of_digits hd

/-! ## Numbers that were written -/

theorem isDigit_of_char {c : Char} (h : c.isDigit = true) : isDigit c = true := by
  unfold Char.isDigit at h
  unfold isDigit
  rw [Bool.and_eq_true, decide_eq_true_eq, decide_eq_true_eq] at h ⊢
  exact h

theorem not_isBlank_of_char {c : Char} (h : c.isDigit = true) : isBlank c = false := by
  unfold Char.isDigit at h
  rw [Bool.and_eq_true, decide_eq_true_eq, decide_eq_true_eq] at h
  have h₁ : 48 ≤ c.toNat := h.1
  have h₂ : c.toNat ≤ 57 := h.2
  unfold isBlank
  dsimp only
  simp only [Bool.or_eq_false_iff, Bool.and_eq_false_iff, decide_eq_false_iff_not, beq_eq_false_iff_ne]
  omega

theorem toList_toString (n : Nat) : (toString n).toList = Nat.toDigits 10 n := Nat.toList_repr

theorem isDigit_toDigits {n : Nat} {c : Char} (h : c ∈ Nat.toDigits 10 n) : c.isDigit = true :=
  Nat.isDigit_of_mem_toDigits (by decide) (by decide) h

@[simp] theorem trim_toString (n : Nat) : trim (toString n) = toString n := by
  refine trim_of_not_blank fun c hc => not_isBlank_of_char ?_
  rw [toList_toString] at hc
  exact isDigit_toDigits hc

theorem readDigits?_toDigits (n : Nat) : readDigits? (Nat.toDigits 10 n) = some n := by
  have hall : (Nat.toDigits 10 n).all isDigit = true :=
    List.all_eq_true.2 fun c hc => isDigit_of_char (isDigit_toDigits hc)
  unfold readDigits?
  rw [if_pos ⟨Nat.toDigits_ne_nil, hall⟩, Nat.ofDigitChars_ten_toDigits]

theorem readSigned?_toDigits (n : Nat) : readSigned? (Nat.toDigits 10 n) = some (n : Int) := by
  have hd := digits_of_readDigits? (readDigits?_toDigits n)
  rw [readSigned?_of_digits hd.1, ← hd.2]

theorem readInt64?_toString {n : Nat} (h : n < 2 ^ 63) : readInt64? (toString n) = some (n : Int) := by
  unfold readInt64?
  rw [toList_toString, readSigned?_toDigits, Option.filter_some, if_pos]
  rw [decide_eq_true_eq]
  omega

end AccessRecords.Text
