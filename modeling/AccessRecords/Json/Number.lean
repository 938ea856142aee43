/-
Reading a JSON number. Integers that fit in 64 bits are kept as they are; every other number is the
double of a significand of at most 64 bits and a power of ten.
-/
import AccessRecords.Json.Reader

namespace AccessRecords.Json.Reader

/-- The largest significand. -/
def significandLimit : Nat := 18446744073709551615

/-- The largest number that an exponent part may spell out. -/
def exponentLimit : Nat := 2147483647

/-- Whether a byte starts an exponent part. -/
def isExponentMark (b : UInt8) : Bool := b == 0x65 || b == 0x45

/-- The double with the given sign. -/
def signed (negative : Bool) (x : Double) : Value := .double (if negative then x.neg else x)

/-- The double of a significand and a power of ten. -/
def scaled (negative : Bool) (significand : Nat) (exponent : Int) : Reader Value :=
  match Double.ofDecimal? significand exponent with
  | some x => pure (signed negative x)
  | none => failHere .numberOutOfRange

/-- The sign of an exponent part, positive if none is written. -/
def exponentSign : Reader Bool := do
  match ← peek with
  | some 0x2B => skip; return false
  | some 0x2D => skip; return true
  | _ => return false

/-- The exponent part, from its mark on. One that is too large to spell out makes the number zero
or puts it out of range. -/
def exponentPart (negative : Bool) (significand : Nat) (exponent : Int) : Reader Value := do
  skip
  let down ← exponentSign
  match ← next with
  | none => failHere .endInValue
  | some b =>
    if isDigit b then
      let (e, _) ← digits exponentLimit (digitValue b)
      if ((← peek).map isDigit).getD false then
        if significand ≠ 0 ∧ !down then
          skip
          failHere .numberOutOfRange
        else
          let _ ← skipDigits
          return signed negative ⟨0⟩
      else scaled negative significand (if down then exponent - e else exponent + e)
    else failHere .invalidNumber

/-- The fraction part, from its point on. Digits past the largest significand are left out. -/
def fractionPart (negative : Bool) (significand : Nat) (exponent : Int) : Reader Value := do
  skip
  let (m, used) ← digits significandLimit significand
  let unused ← skipDigits
  if used + unused = 0 then
    match ← peek with
    | none => failHere .endInValue
    | some _ => failAhead .invalidNumber
  else
    match ← peek with
    | some b =>
      if isExponentMark b then exponentPart negative m (exponent - used)
      else scaled negative m (exponent - used)
    | none => scaled negative m (exponent - used)

/-- The number that the integer digits alone stand for. -/
def whole (negative : Bool) (n : Nat) : Value :=
  if !negative then .int n
  else if 0 < n ∧ n ≤ 9223372036854775808 then .int (-n)
  else .double (Double.ofNat n).neg

/-- What follows the integer digits, of which `dropped` did not fit into the significand. -/
def afterInteger (negative : Bool) (n dropped : Nat) : Reader Value := do
  match ← peek with
  | some b =>
    if b = 0x2E then fractionPart negative n dropped
    else if isExponentMark b then exponentPart negative n dropped
    else if dropped = 0 then return whole negative n
    else scaled negative n dropped
  | none => if dropped = 0 then return whole negative n else scaled negative n dropped

/-- A number after its sign. -/
def number (negative : Bool) : Reader Value := do
  match ← next with
  | none => failHere .endInValue
  | some b =>
    if b = 0x30 then
      if ((← peek).map isDigit).getD false then failAhead .invalidNumber
      else afterInteger negative 0 0
    else if isDigit b then
      let (n, _) ← digits significandLimit (digitValue b)
      let dropped ← skipDigits
      afterInteger negative n dropped
    else failHere .invalidNumber

end AccessRecords.Json.Reader
