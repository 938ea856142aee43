/-
The page that a query asks for. Under each of its two keys only the first value counts, and that only if
it is a numeral, blanks around it ignored, for a signed 64-bit number; everything else is as if nothing
had been asked for. Main statement: which page that is, for every query and whatever the defaults and the
largest limit are, and that 64-bit arithmetic finds the same one.
-/
import AccessRecords.Proofs.Page
import AccessRecords.Proofs.Query
import AccessRecords.Proofs.Text.Word

namespace AccessRecords

/-! ## Numbers that are asked for -/

/-- The query asks for a number under a key: the first value of the key, trimmed, is a numeral of a signed
64-bit number. A number below zero counts as zero. -/
def Query.Asks (q : Query) (key : String) (n : Nat) : Prop :=
  ∃ value t v, (q.values key).head? = some value ∧ Text.Trims value t ∧ Text.Numeral t.toList v ∧
    Text.InRange v ∧ (n : Int) = max v 0

namespace Page

variable {q q' : Query} {key : String}

theorem number?_eq_some {v : Int} : number? q key = some v ↔
    ∃ value t, (q.values key).head? = some value ∧ Text.Trims value t ∧ Text.Numeral t.toList v ∧ Text.InRange v := by
  unfold number?
  rw [Query.first?_eq, Option.bind_eq_some_iff]
  refine exists_congr fun value => ?_
  rw [Text.readInt64?_eq_some]
  constructor
  · rintro ⟨hv, hn⟩
    exact ⟨Text.trim value, hv, Text.trims_iff.2 rfl, hn⟩
  · rintro ⟨t, hv, ht, hn⟩
    rw [Text.trims_iff] at ht
    exact ⟨hv, ht ▸ hn⟩

theorem asks_iff {n : Nat} : q.Asks key n ↔ (number? q key).map Int.toNat = some n := by
  have hclamp : ∀ v : Int, v.toNat = n ↔ (n : Int) = max v 0 := fun v => by omega
  rw [Option.map_eq_some_iff]
  constructor
  · rintro ⟨value, t, v, hv, ht, hn, hr, hmax⟩
    exact ⟨v, number?_eq_some.2 ⟨value, t, hv, ht, hn, hr⟩, (hclamp v).2 hmax⟩
  · rintro ⟨v, hn, hmax⟩
    obtain ⟨value, t, hv, ht, hn, hr⟩ := number?_eq_some.1 hn
    exact ⟨value, t, v, hv, ht, hn, hr, (hclamp v).1 hmax⟩

theorem getD_of_asks {n : Nat} (h : q.Asks key n) (default : Nat) :
    ((number? q key).map Int.toNat).getD default = n := by
  rw [asks_iff.1 h, Option.getD_some]

theorem getD_of_not_asks (h : ∀ n, ¬ q.Asks key n) (default : Nat) :
    ((number? q key).map Int.toNat).getD default = default := by
  have hnone : (number? q key).map Int.toNat = none :=
    Option.eq_none_iff_forall_ne_some.2 fun n hn => h n (asks_iff.2 hn)
  rw [hnone, Option.getD_none]

theorem number?_congr (h : (q.values key).head? = (q'.values key).head?) : number? q key = number? q' key := by
  unfold number?
  rw [Query.first?_eq, Query.first?_eq, h]

/-! ## In 64-bit arithmetic -/

theorem toNat_clampWord (w : Int64) : (clampWord w).toNat = w.toInt.toNat := by
  unfold clampWord
  split_ifs with h
  · rw [Int64.lt_iff_toInt_lt, Int64.toInt_zero] at h
    rw [Int.toNat_of_nonpos h.le]
    rfl
  · exact Int64.toNat_toUInt64_of_le (Int64.not_lt.1 h)

/-- The number under a key, read and clamped in words, is the one that is read exactly. -/
theorem toNat_getD_clampWord (q : Query) (key : String) (default : UInt64) :
    ((((q.first? key).bind fun value => Text.readWord? (Text.trim value)).map clampWord).getD default).toNat =
      ((number? q key).map Int.toNat).getD default.toNat := by
  unfold number?
  cases q.first? key with
  | none => rfl
  | some value =>
    rw [Option.bind_some, Option.bind_some, ← Text.toInt_readWord?]
    cases Text.readWord? (Text.trim value) with
    | none => rfl
    | some w => exact toNat_clampWord w

/-! ## The main statement -/

/-- For all 64-bit defaults and every query: the limit is the number that is asked for under `limit`, or
else the default, but no more than the largest limit; the offset is the number that is asked for under
`offset`, or else the default. Only the first values of the two keys count, and computing with 64-bit
words gives the same page. -/
theorem ofQuery_asked (limit offset maxLimit : UInt64) (q : Query) :
    let rules : Rules := ⟨limit.toNat, offset.toNat, maxLimit.toNat⟩
    let p := ofQuery rules q
    ((∀ n, q.Asks "limit" n → p.limit = min n maxLimit.toNat) ∧
      ((∀ n, ¬ q.Asks "limit" n) → p.limit = min limit.toNat maxLimit.toNat) ∧ p.limit ≤ maxLimit.toNat) ∧
    ((∀ n, q.Asks "offset" n → p.offset = n) ∧ ((∀ n, ¬ q.Asks "offset" n) → p.offset = offset.toNat)) ∧
    (∀ q' : Query, (q'.values "limit").head? = (q.values "limit").head? →
      (q'.values "offset").head? = (q.values "offset").head? → ofQuery rules q' = p) ∧
    (ofQueryWords limit offset maxLimit q).1.toNat = p.limit ∧
    (ofQueryWords limit offset maxLimit q).2.toNat = p.offset := by
  intro rules p
  refine ⟨⟨fun n h => ?_, fun h => ?_, min_le_right _ _⟩, ⟨fun n h => ?_, fun h => ?_⟩, fun q' hl ho => ?_, ?_, ?_⟩
  · show min _ _ = _
    rw [getD_of_asks h]
  · show min _ _ = _
    rw [getD_of_not_asks h]
  · exact getD_of_asks h _
  · exact getD_of_not_asks h _
  · show ofQuery rules q' = ofQuery rules q
    unfold ofQuery
    rw [number?_congr hl, number?_congr ho]
  · show (min _ maxLimit).toNat = _
    rw [toNat_min, toNat_getD_clampWord]
    rfl
  · exact toNat_getD_clampWord q "offset" offset

-- a sign and zeros are read over, a second limit is not looked at, and 2 ^ 63 is no signed 64-bit number
example : ofQuery {} (.ofPairs [("limit", "\t+0007 "), ("limit", "9"), ("offset", "9223372036854775808")]) =
    ⟨7, 0⟩ := by
  decide +kernel

end Page

end AccessRecords
