/-
Moving past a JSON value that nobody asked for. Its brackets, commas, colons and quotes must be in
order, and so must the shape of its numbers and escapes; what its numbers and texts stand for is
not looked at, and it may be nested to any depth.
-/
import AccessRecords.Json.Parser

namespace AccessRecords.Json.Reader

/-! ## Texts and numbers -/

/-- One byte of a text that is moved past: pairs of escapes are not looked at. -/
def skipStep (state : Expect) (b : UInt8) : Step :=
  match state with
  | .hex lead digits =>
    if digits.length < 3 then .go (.hex lead (b :: digits)) []
    else if (hexNumber? (b :: digits)).isSome then .go .plain []
    else .stop .invalidEscape
  | state => textStep state b

/-- Moves past a text up to and with its closing quote. A control character is not moved past. -/
def skipTextBytes : Expect → List UInt8 → Position → Except Fault Cursor
  | _, [], p => .error ⟨.endInText, some p⟩
  | state, b :: bs, p =>
    match skipStep state b with
    | .go state' _ => skipTextBytes state' bs (p.after b)
    | .close => .ok ⟨bs, p.after b⟩
    | .stop cause => .error ⟨cause, some (if cause = .controlCharacter then p else p.after b)⟩

/-- Moves past a text, after its opening quote. -/
def skipText : Reader Unit := fun c =>
  match skipTextBytes .plain c.rest c.position with
  | .ok c' => .ok ((), c')
  | .error fault => .error fault

/-- Moves past an exponent part, from its mark on. -/
def skipExponentPart : Reader Unit := do
  skip
  let _ ← exponentSign
  match ← next with
  | none => failHere .invalidNumber
  | some b => if isDigit b then let _ ← skipDigits else failHere .invalidNumber

/-- Moves past what follows the integer digits of a number. -/
def skipAfterInteger : Reader Unit := do
  match ← peek with
  | none => pure ()
  | some b =>
    if b = 0x2E then
      skip
      if (← skipDigits) = 0 then failAhead .invalidNumber
      else if ((← peek).map isExponentMark).getD false then skipExponentPart
    else if isExponentMark b then skipExponentPart

/-- Moves past a number after its sign. -/
def skipNumber : Reader Unit := do
  match ← next with
  | none => failHere .invalidNumber
  | some b =>
    if b = 0x30 then
      if ((← peek).map isDigit).getD false then failAhead .invalidNumber else skipAfterInteger
    else if isDigit b then
      let _ ← skipDigits
      skipAfterInteger
    else failHere .invalidNumber

/-- Moves past a value that opens no bracket and starts with the byte `b`, which is next. -/
def skipScalar (b : UInt8) : Reader Unit := do
  if b = 0x6E then
    skip
    restOfNull
  else if b = 0x74 then
    skip
    restOfTrue
  else if b = 0x66 then
    skip
    restOfFalse
  else if b = 0x2D then
    skip
    skipNumber
  else if isDigit b then skipNumber
  else if b = 0x22 then
    skip
    skipText
  else failAhead .expectedValue

/-! ## Values -/

/-- The kinds of brackets. -/
inductive Bracket where
  | square
  | curly
deriving DecidableEq, Repr, Inhabited

/-- The byte that closes a bracket. -/
def Bracket.closing : Bracket → UInt8
  | .square => 0x5D
  | .curly => 0x7D

/-- What is wrong when the text ends inside a bracket. -/
def Bracket.unclosed : Bracket → Cause
  | .square => .endInList
  | .curly => .endInObject

/-- What is wrong when an element is followed by neither a comma nor the closing bracket. -/
def Bracket.unseparated : Bracket → Cause
  | .square => .expectedListEnd
  | .curly => .expectedObjectEnd

/-- Moves past a key and its colon; between square brackets there is none. -/
def skipKey : Bracket → Reader Unit
  | .square => pure ()
  | .curly => do
    match ← peekToken with
    | none => failHere .endInObject
    | some b =>
      if b = 0x22 then
        skip
        skipText
        colon
      else failAhead .keyNotText

mutual

/-- Moves past a value and then out of the given open brackets, innermost first. The first argument
bounds the number of steps. -/
def skipValue : Nat → List Bracket → Reader Unit
  | 0, _ => failHere .endInValue
  | fuel + 1, opened => do
    match ← peekToken with
    | none => failHere .endInValue
    | some b =>
      if b = 0x5B then
        skip
        skipElements fuel true (.square :: opened)
      else if b = 0x7B then
        skip
        skipElements fuel true (.curly :: opened)
      else
        skipScalar b
        skipElements fuel false opened

/-- Moves past the remaining elements of the given open brackets, innermost first. -/
def skipElements : Nat → Bool → List Bracket → Reader Unit
  | 0, _, _ => failHere .endInValue
  | _ + 1, _, [] => pure ()
  | fuel + 1, first, bracket :: opened => do
    match ← peekToken with
    | none => failHere bracket.unclosed
    | some b =>
      if b = 0x2C ∧ !first then
        skip
        skipKey bracket
        skipValue fuel (bracket :: opened)
      else if b = bracket.closing then
        skip
        skipElements fuel false opened
      else if first then
        skipKey bracket
        skipValue fuel (bracket :: opened)
      else failAhead bracket.unseparated

end

/-- Moves past a value of any kind. -/
def skipAny : Reader Unit := fun c => skipValue (enoughFuel c) [] c

end AccessRecords.Json.Reader
