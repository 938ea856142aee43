/-
Readers: steps over the bytes of a JSON text that either give a value and move on, or stop with a
fault at a place. A fault is placed either before the next byte or after it.
-/
import AccessRecords.Json.Fault
import AccessRecords.Text.Utf8

namespace AccessRecords.Json

/-- What is left of a text, and the place where it starts. -/
structure Cursor where
  rest : List UInt8
  position : Position := {}
deriving DecidableEq, Repr, Inhabited

/-- The place after the next byte, or the present place at the end of the text. -/
def Cursor.ahead (c : Cursor) : Position :=
  match c.rest with
  | [] => c.position
  | b :: _ => c.position.after b

/-- A step over a text that gives a value. -/
abbrev Reader (α : Type) := StateT Cursor (Except Fault) α

namespace Reader

/-- Stops with a fault before the next byte. -/
def failHere {α : Type} (cause : Cause) : Reader α := fun c => .error ⟨cause, some c.position⟩

/-- Stops with a fault after the next byte. -/
def failAhead {α : Type} (cause : Cause) : Reader α := fun c => .error ⟨cause, some c.ahead⟩

/-- The next byte, left in place. -/
def peek : Reader (Option UInt8) := fun c => .ok (c.rest.head?, c)

/-- Moves past the next byte. -/
def skip : Reader Unit := fun c =>
  match c.rest with
  | [] => .ok ((), c)
  | b :: bs => .ok ((), ⟨bs, c.position.after b⟩)

/-- The next byte, moved past. -/
def next : Reader (Option UInt8) := do
  let b ← peek
  skip
  return b

/-! ## Blanks -/

/-- The four bytes that may stand between the parts of a text. -/
def isSpace (b : UInt8) : Bool := b == 0x20 || b == 0x09 || b == 0x0A || b == 0x0D

/-- The rest of a text after its leading blanks. -/
def dropSpaces : List UInt8 → Position → Cursor
  | [], p => ⟨[], p⟩
  | b :: bs, p => if isSpace b then dropSpaces bs (p.after b) else ⟨b :: bs, p⟩

/-- Moves past blanks. -/
def skipSpaces : Reader Unit := fun c => .ok ((), dropSpaces c.rest c.position)

/-- Moves past blanks and gives the byte after them, left in place. -/
def peekToken : Reader (Option UInt8) := do
  skipSpaces
  peek

/-! ## Words -/

/-- Moves past the given bytes. A byte that differs is moved past before the reader stops. -/
def word : List UInt8 → Reader Unit
  | [] => pure ()
  | w :: ws => do
    match ← next with
    | none => failHere .endInValue
    | some b => if b = w then word ws else failHere .expectedWord

/-- The rest of `null`. -/
def restOfNull : Reader Unit := word [0x75, 0x6C, 0x6C]

/-- The rest of `true`. -/
def restOfTrue : Reader Unit := word [0x72, 0x75, 0x65]

/-- The rest of `false`. -/
def restOfFalse : Reader Unit := word [0x61, 0x6C, 0x73, 0x65]

/-! ## Digits -/

/-- Whether a byte is one of the ten ASCII digits. -/
def isDigit (b : UInt8) : Bool := 0x30 ≤ b && b ≤ 0x39

/-- The value of a digit. -/
def digitValue (b : UInt8) : Nat := b.toNat - 0x30

/-- Appends digits to a number as long as it does not exceed a limit. Gives the number, how many
digits were appended, and the bytes after them. -/
def appendDigits (limit : Nat) : Nat → Nat → List UInt8 → Nat × Nat × List UInt8
  | n, count, [] => (n, count, [])
  | n, count, b :: bs =>
    if isDigit b && n * 10 + digitValue b ≤ limit then
      appendDigits limit (n * 10 + digitValue b) (count + 1) bs
    else (n, count, b :: bs)

/-- Moves past digits that can be appended to `n` within a limit. Gives the number and how many
digits there were. -/
def digits (limit n : Nat) : Reader (Nat × Nat) := fun c =>
  let (m, count, bs) := appendDigits limit n 0 c.rest
  .ok ((m, count), ⟨bs, { c.position with column := c.position.column + count }⟩)

/-- Moves past all digits and gives their number. -/
def skipDigits : Reader Nat := fun c =>
  let count := (c.rest.takeWhile isDigit).length
  .ok (count, ⟨c.rest.dropWhile isDigit, { c.position with column := c.position.column + count }⟩)

end Reader

end AccessRecords.Json
