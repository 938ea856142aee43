/-
UTF-8 on lists of bytes: encoding, strict decoding, how far a list of bytes is well formed, and
lenient decoding. Main statement: decoding what was encoded gives the text back.
-/

namespace AccessRecords.Text.Utf8

/-- The bytes of a text. -/
def encode (s : String) : List UInt8 := s.toByteArray.data.toList

/-- The text of a list of bytes, if they are well formed. -/
def decode? (bytes : List UInt8) : Option String := String.fromUTF8? ⟨bytes.toArray⟩

theorem decode?_encode (s : String) : decode? (encode s) = some s := by
  simp [decode?, encode, String.fromUTF8?, s.isValidUTF8, String.fromUTF8]

/-! ## Sequences -/

/-- For a first byte above the ASCII range: how many bytes follow it, and the range in which the
first of those must lie. -/
def follow (b : UInt8) : Option (Nat × UInt8 × UInt8) :=
  if 0xC2 ≤ b && b ≤ 0xDF then some (1, 0x80, 0xBF)
  else if b = 0xE0 then some (2, 0xA0, 0xBF)
  else if b = 0xED then some (2, 0x80, 0x9F)
  else if 0xE1 ≤ b && b ≤ 0xEF then some (2, 0x80, 0xBF)
  else if b = 0xF0 then some (3, 0x90, 0xBF)
  else if 0xF1 ≤ b && b ≤ 0xF3 then some (3, 0x80, 0xBF)
  else if b = 0xF4 then some (3, 0x80, 0x8F)
  else none

/-- How many of at most `n` bytes continue a sequence, the first of them lying in a given range. -/
def continuation : Nat → UInt8 → UInt8 → List UInt8 → Nat
  | n + 1, lo, hi, b :: bs => if lo ≤ b && b ≤ hi then continuation n 0x80 0xBF bs + 1 else 0
  | _, _, _, _ => 0

/-- Whether a sequence starts with this byte and the ones after it, and how many bytes it has. A
sequence that breaks off counts the bytes that it had. -/
def sequence (b : UInt8) (bs : List UInt8) : Bool × Nat :=
  if b < 0x80 then (true, 1)
  else match follow b with
    | none => (false, 1)
    | some (n, lo, hi) => let m := continuation n lo hi bs; (m == n, m + 1)

/-- How many bytes the longest well-formed beginning has, `pending` of which belong to a sequence
already checked. -/
def validLengthFrom : Nat → List UInt8 → Nat
  | _, [] => 0
  | pending + 1, _ :: bs => validLengthFrom pending bs + 1
  | 0, b :: bs =>
    match sequence b bs with
    | (true, n) => validLengthFrom (n - 1) bs + 1
    | (false, _) => 0

/-- How many bytes the longest well-formed beginning of a list of bytes has. -/
def validLength (bytes : List UInt8) : Nat := validLengthFrom 0 bytes

/-! ## Lenient decoding -/

/-- The bytes of U+FFFD, which stands for bytes that are not well formed. -/
def replacement : List UInt8 := [0xEF, 0xBF, 0xBD]

/-- Copies well-formed sequences and puts one replacement for each ill-formed one; `pending` bytes
belong to a sequence already judged, and `keep` says how. -/
def mendFrom (keep : Bool) : Nat → List UInt8 → List UInt8
  | _, [] => []
  | pending + 1, b :: bs =>
    if keep then b :: mendFrom keep pending bs else mendFrom keep pending bs
  | 0, b :: bs =>
    match sequence b bs with
    | (true, n) => b :: mendFrom true (n - 1) bs
    | (false, n) => replacement ++ mendFrom false (n - 1) bs

/-- The text of a list of bytes, with U+FFFD in place of each ill-formed sequence. -/
def decodeLenient (bytes : List UInt8) : String := (decode? (mendFrom true 0 bytes)).getD ""

end AccessRecords.Text.Utf8
