/-
Reading a JSON text between quotes: escapes are replaced by what they stand for, and the result
must be well-formed UTF-8.
-/
import AccessRecords.Json.Reader
import AccessRecords.Text.Percent

namespace AccessRecords.Json.Reader

/-- What the bytes read so far ask of the next one. -/
inductive Expect where
  | plain
  | escape
  | hex (lead : Option Nat) (digits : List UInt8)
  | secondEscape (lead : Nat)
  | secondMark (lead : Nat)
deriving Repr, Inhabited

/-- What one byte inside the quotes leads to. -/
inductive Step where
  | go (state : Expect) (out : List UInt8)
  | close
  | stop (cause : Cause)
deriving Repr, Inhabited

/-- The byte that a one-letter escape stands for. -/
def escapedByte? (b : UInt8) : Option UInt8 :=
  if b = 0x22 ∨ b = 0x5C ∨ b = 0x2F then some b
  else if b = 0x62 then some 0x08
  else if b = 0x66 then some 0x0C
  else if b = 0x6E then some 0x0A
  else if b = 0x72 then some 0x0D
  else if b = 0x74 then some 0x09
  else none

/-- The number that four hexadecimal digits write, latest digit first. -/
def hexNumber? : List UInt8 → Option Nat
  | [] => some 0
  | b :: earlier => do
    let d ← Text.hexValue? b
    let n ← hexNumber? earlier
    return n * 16 + d.toNat

/-- Whether a number is the first half of a pair that stands for one character. -/
def isLead (n : Nat) : Bool := 0xD800 ≤ n && n ≤ 0xDBFF

/-- Whether a number is the second half of such a pair. -/
def isTrail (n : Nat) : Bool := 0xDC00 ≤ n && n ≤ 0xDFFF

/-- The bytes of the character with a code point. -/
def codePoint (n : Nat) : List UInt8 := Text.Utf8.encode (String.singleton (Char.ofNat n))

/-- What a four-digit escape with the number `n` leads to, alone or after the first half of a
pair. -/
def afterHex (lead : Option Nat) (n : Nat) : Step :=
  match lead with
  | none =>
    if isTrail n then .stop .loneSurrogate
    else if isLead n then .go (.secondEscape n) []
    else .go .plain (codePoint n)
  | some first =>
    if isTrail n then
      .go .plain (codePoint (0x10000 + (first - 0xD800) * 0x400 + (n - 0xDC00)))
    else .stop .loneSurrogate

/-- One byte inside the quotes. -/
def textStep (state : Expect) (b : UInt8) : Step :=
  match state with
  | .plain =>
    if b = 0x22 then .close
    else if b = 0x5C then .go .escape []
    else if b < 0x20 then .stop .controlCharacter
    else .go .plain [b]
  | .escape =>
    if b = 0x75 then .go (.hex none []) []
    else match escapedByte? b with
      | some e => .go .plain [e]
      | none => .stop .invalidEscape
  | .hex lead digits =>
    if digits.length < 3 then .go (.hex lead (b :: digits)) []
    else match hexNumber? (b :: digits) with
      | some n => afterHex lead n
      | none => .stop .invalidEscape
  | .secondEscape lead => if b = 0x5C then .go (.secondMark lead) [] else .stop .endOfHexEscape
  | .secondMark lead => if b = 0x75 then .go (.hex (some lead) []) [] else .stop .endOfHexEscape

/-- The bytes up to the closing quote with escapes replaced, after the bytes `out`, which are held
latest first. -/
def textBytes : Expect → List UInt8 → List UInt8 → Position → Except Fault (List UInt8 × Cursor)
  | _, _, [], p => .error ⟨.endInText, some p⟩
  | state, out, b :: bs, p =>
    match textStep state b with
    | .go state' more => textBytes state' (more.reverse ++ out) bs (p.after b)
    | .close => .ok (out.reverse, ⟨bs, p.after b⟩)
    | .stop cause => .error ⟨cause, some (p.after b)⟩

/-- The text after an opening quote. Bytes that are not well-formed UTF-8 are reported as many bytes
before the end of the text as follow its well-formed beginning. -/
def text : Reader String := fun c =>
  match textBytes .plain [] c.rest c.position with
  | .error fault => .error fault
  | .ok (bytes, c') =>
    match Text.Utf8.decode? bytes with
    | some s => .ok (s, c')
    | none =>
      let wrong := bytes.length - Text.Utf8.validLength bytes
      .error ⟨.invalidCodePoint, some { c'.position with column := c'.position.column - wrong }⟩

end AccessRecords.Json.Reader
