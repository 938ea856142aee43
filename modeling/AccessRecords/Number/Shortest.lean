/-
Shortest decimal digits of a double: the fewest digits of which no other double is nearer to the
decimal, and of those the digits nearest to the double itself.
-/
import AccessRecords.Number.Double

namespace AccessRecords

/-- A positive decimal number: digits and the power of ten that they are scaled by. -/
structure Decimal where
  digits : Nat
  exponent : Int
deriving DecidableEq, Repr, Inhabited

namespace Decimal

/-- How many decimal digits a natural number has. -/
def digitCount (n : Nat) : Nat := (Nat.toDigits 10 n).length

/-- The exponent of the first decimal digit of a positive quotient. -/
def leadingExponent (num den : Nat) : Int :=
  if den ≤ num then digitCount (num / den) - 1 else -(digitCount ((den - 1) / num))

/-- The same number without zeros at the end of its digits. -/
def stripZeros (fuel : Nat) (d : Decimal) : Decimal :=
  match fuel with
  | 0 => d
  | fuel + 1 =>
    if d.digits ≠ 0 ∧ d.digits % 10 = 0 then stripZeros fuel ⟨d.digits / 10, d.exponent + 1⟩ else d

end Decimal

namespace Double

/-- A multiple of a power of ten, and `quarters` quarters of the unit in the last place of `x`, on
one scale. -/
def onScale (x : Double) (c : Nat) (p : Int) (quarters : Nat) : Nat × Nat :=
  (c * tenPow p.toNat * twoPow 1077, quarters * twoPow x.scale * tenPow (-p).toNat)

/-- Whether `c * 10 ^ p` is at least as near to `x` as to any other double; a point half-way
between two doubles belongs to the one with the even significand. -/
def covers (x : Double) (c : Nat) (p : Int) : Bool :=
  let below := if x.fraction = 0 ∧ 1 < x.biased then 1 else 2
  let low := x.onScale c p (4 * x.mantissa - below)
  let high := x.onScale c p (4 * x.mantissa + 2)
  (low.2 < low.1 && high.1 < high.2) ||
    (x.mantissa % 2 == 0 && (low.2 == low.1 || high.1 == high.2))

/-- How far `c * 10 ^ p` lies from `x`, on the scale of `onScale`. -/
def distance (x : Double) (c : Nat) (p : Int) : Nat :=
  let (a, b) := x.onScale c p (4 * x.mantissa)
  (a - b) + (b - a)

/-- The multiple of `10 ^ p` that stands for `x`, if one of its two neighbours does. Of two the
nearer wins, and of two equally near the even one. -/
def onGrid? (x : Double) (p : Int) : Option Decimal :=
  let c := x.mantissa * twoPow x.scale * tenPow (-p).toNat / (twoPow 1075 * tenPow p.toNat)
  match x.covers c p, x.covers (c + 1) p with
  | true, true =>
    let lower := x.distance c p
    let upper := x.distance (c + 1) p
    if lower < upper ∨ (lower = upper ∧ c % 2 = 0) then some ⟨c, p⟩ else some ⟨c + 1, p⟩
  | true, false => some ⟨c, p⟩
  | false, true => some ⟨c + 1, p⟩
  | false, false => none

/-- The shortest decimal of a finite magnitude other than zero: grids of one to seventeen digits
are tried in turn, and seventeen always suffice. -/
def shortest (x : Double) : Decimal :=
  let first := Decimal.leadingExponent (x.mantissa * twoPow x.scale) (twoPow 1075)
  let hit := (List.range 17).findSome? fun (n : Nat) => x.onGrid? (first - n)
  (hit.getD ⟨x.mantissa, 0⟩).stripZeros 17

end Double

end AccessRecords
