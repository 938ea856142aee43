/-
Decimal numerals: an optional sign and one or more ASCII digits, read into a bounded range.
Leading zeros are fine; a value outside the range is no numeral at all.
-/

namespace AccessRecords.Text

/-- Whether a character is one of the ten ASCII digits. -/
def isDigit (c : Char) : Bool := '0' ≤ c && c ≤ '9'

/-- The number written by one or more digits, most significant first. -/
def readDigits? (cs : List Char) : Option Nat :=
  if cs ≠ [] ∧ cs.all isDigit then some (Nat.ofDigitChars 10 cs 0) else none

/-- The number written by an optional sign and one or more digits. -/
def readSigned? : List Char → Option Int
  | '-' :: ds => (readDigits? ds).map fun n => -(n : Int)
  | '+' :: ds => (readDigits? ds).map Int.ofNat
  | ds => (readDigits? ds).map Int.ofNat

/-- The signed number of a text, if it fits in 64 bits. -/
def readInt64? (s : String) : Option Int :=
  (readSigned? s.toList).filter fun n => decide (-9223372036854775808 ≤ n ∧ n ≤ 9223372036854775807)

/-- The number of a text of digits with at most a plus sign, if it fits in 16 bits. -/
def readUInt16? (s : String) : Option Nat :=
  let digits := match s.toList with
    | '+' :: ds => ds
    | ds => ds
  (readDigits? digits).filter (· ≤ 65535)

/-! ## Reading in 64-bit arithmetic -/

/-- A number as a signed 64-bit word, if it fits in one. -/
def word? (n : Int) : Option Int64 :=
  if -9223372036854775808 ≤ n ∧ n ≤ 9223372036854775807 then some (.ofInt n) else none

/-- The number with a magnitude and a sign. -/
def signed (negative : Bool) (n : Nat) : Int := if negative then -n else n

/-- Puts a digit after the ones that a word has been read from. A negative number is counted down from
zero, so that the smallest word is within reach. -/
def appendDigit? (negative : Bool) (word : Int64) (c : Char) : Option Int64 :=
  if isDigit c then do
    let tenfold ← word? (10 * word.toInt)
    word? (tenfold.toInt + signed negative (c.toNat - '0'.toNat))
  else none

/-- The number of one or more digits, read one by one. -/
def readDigitsWord? (negative : Bool) (ds : List Char) : Option Int64 :=
  if ds = [] then none else ds.foldlM (appendDigit? negative) 0

/-- The number written by an optional sign and one or more digits, read one by one. -/
def readSignedWord? : List Char → Option Int64
  | '-' :: ds => readDigitsWord? true ds
  | '+' :: ds => readDigitsWord? false ds
  | ds => readDigitsWord? false ds

/-- `readInt64?`, computed without leaving the range of signed 64-bit words. -/
def readWord? (s : String) : Option Int64 := readSignedWord? s.toList

end AccessRecords.Text
