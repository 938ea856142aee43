/-
Double-precision numbers, held as their 64 bits and computed with exact natural numbers: rounding
a quotient to the nearest double, products and quotients, and the double that a decimal numeral
stands for.
-/
import AccessRecords.Number.Power

namespace AccessRecords

/-- A double-precision number: a sign bit, eleven exponent bits and 52 fraction bits. -/
structure Double where
  bits : UInt64
deriving DecidableEq, Repr, Inhabited

namespace Double

/-! ## Parts -/

/-- Whether the sign bit is set. -/
def isNegative (x : Double) : Bool := twoPow 63 ≤ x.bits.toNat

/-- The exponent bits. -/
def biased (x : Double) : Nat := x.bits.toNat / twoPow 52 % twoPow 11

/-- The fraction bits. -/
def fraction (x : Double) : Nat := x.bits.toNat % twoPow 52

/-- The integer significand: a finite magnitude is `mantissa * 2 ^ scale / 2 ^ 1075`. -/
def mantissa (x : Double) : Nat := if x.biased = 0 then x.fraction else twoPow 52 + x.fraction

/-- The power of two that the significand is scaled by. -/
def scale (x : Double) : Nat := max x.biased 1

/-- Whether the number is neither infinite nor undefined. -/
def isFinite (x : Double) : Bool := x.biased != 2047

/-- Whether the number is zero of either sign. -/
def isZero (x : Double) : Bool := x.mantissa == 0

/-! ## Rounding -/

/-- A quotient rounded to the nearest natural number, a half going to the even neighbour. -/
def roundHalfEven (num den : Nat) : Nat :=
  let q := num / den
  let r := num % den
  if den < 2 * r ∨ (2 * r = den ∧ q % 2 = 1) then q + 1 else q

/-- The double nearest to a quotient of natural numbers, ties going to the even significand;
infinite past the largest finite double. -/
def ofRatio (num den : Nat) : Double :=
  let units := num * twoPow 1074
  let shift := (units / den).log2 + 1 - 53
  let bits := shift * twoPow 52 + roundHalfEven units (den * twoPow shift)
  ⟨UInt64.ofNat (min bits (2047 * twoPow 52))⟩

/-- The double nearest to a natural number. -/
def ofNat (n : Nat) : Double := ofRatio n 1

/-- The double nearest to a power of ten. -/
def powTen (e : Nat) : Double := ofRatio (tenPow e) 1

/-- The number with the other sign. -/
def neg (x : Double) : Double := ⟨x.bits + 0x8000000000000000⟩

/-- The rounded product of two magnitudes. -/
def mul (x y : Double) : Double :=
  ofRatio (x.mantissa * y.mantissa * twoPow (x.scale + y.scale)) (twoPow 2150)

/-- The rounded quotient of two magnitudes. -/
def div (x y : Double) : Double :=
  ofRatio (x.mantissa * twoPow x.scale) (y.mantissa * twoPow y.scale)

/-! ## Decimal numerals -/

/-- A magnitude divided by a power of ten, in steps of at most `10 ^ 308`. -/
def divTen (x : Double) (e : Nat) : Double :=
  if e ≤ 308 then x.div (powTen e)
  else if x.isZero then x
  else divTen (x.div (powTen 308)) (e - 308)
termination_by e

/-- The magnitude `significand * 10 ^ exponent`: the rounded significand is multiplied or divided
by the rounded power of ten. There is none past the largest finite double. -/
def ofDecimal? (significand : Nat) (exponent : Int) : Option Double :=
  let x := ofNat significand
  match exponent with
  | .negSucc e => some (x.divTen (e + 1))
  | .ofNat e =>
    if e ≤ 308 then (some (x.mul (powTen e))).filter isFinite
    else if x.isZero then some x
    else none

end Double

end AccessRecords
