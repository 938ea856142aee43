/-
Percent-encoded bytes: `%` and two hexadecimal digits stand for one byte. A `%` without two such
digits stands for itself.
-/

namespace AccessRecords.Text

/-- The value of an ASCII hexadecimal digit of either case. -/
def hexValue? (b : UInt8) : Option UInt8 :=
  if 0x30 ≤ b && b ≤ 0x39 then some (b - 0x30)
  else if 0x41 ≤ b && b ≤ 0x46 then some (b - 0x41 + 10)
  else if 0x61 ≤ b && b ≤ 0x66 then some (b - 0x61 + 10)
  else none

/-- The bytes that percent-encoded bytes stand for. -/
def percentDecode : List UInt8 → List UInt8
  | [] => []
  | [b] => [b]
  | [b, c] => [b, c]
  | b :: c :: d :: rest =>
    match b == 0x25, hexValue? c, hexValue? d with
    | true, some hi, some lo => (hi * 16 + lo) :: percentDecode rest
    | _, _, _ => b :: percentDecode (c :: d :: rest)

end AccessRecords.Text
