/-
Reading a whole JSON text. Brackets may be nested 127 deep, of members with one key the last
counts, and only blanks may follow the value. An object whose first member has the key of an
embedded text can be read as the value of that text; it holds nothing else then, and faults in the
text are placed in the text.
-/
import AccessRecords.Json.Number
import AccessRecords.Json.Text

namespace AccessRecords.Json.Reader

/-! ## Items and members -/

/-- Whether a list has another item. At an item, its first byte is next; at the end, the closing
bracket. -/
def hasItem (first : Bool) : Reader Bool := do
  match ← peekToken with
  | none => failHere .endInList
  | some b =>
    if b = 0x5D then return false
    else if first then return true
    else if b = 0x2C then
      skip
      match ← peekToken with
      | none => failHere .endInValue
      | some b => if b = 0x5D then failAhead .trailingComma else return true
    else failAhead .expectedListEnd

/-- Whether an object has another member. At a member, the quote before its key is next; at the
end, the closing bracket. -/
def hasMember (first : Bool) : Reader Bool := do
  match ← peekToken with
  | none => failHere .endInObject
  | some b =>
    if b = 0x7D then return false
    else if first then
      if b = 0x22 then return true else failAhead .keyNotText
    else if b = 0x2C then
      skip
      match ← peekToken with
      | none => failHere .endInValue
      | some b =>
        if b = 0x22 then return true
        else if b = 0x7D then failAhead .trailingComma
        else failAhead .keyNotText
    else failAhead .expectedObjectEnd

/-- Moves past the colon between a key and its value. -/
def colon : Reader Unit := do
  match ← peekToken with
  | none => failHere .endInObject
  | some b => if b = 0x3A then skip else failAhead .expectedColon

/-- A key with the colon after it, from its opening quote on. -/
def key : Reader String := do
  skip
  let k ← text
  colon
  return k

/-! ## Values -/

/-- A value that starts with the byte `b`, which is next and opens no bracket. -/
def scalar (b : UInt8) : Reader Value := do
  if b = 0x6E then
    skip
    restOfNull
    return .null
  else if b = 0x74 then
    skip
    restOfTrue
    return .bool true
  else if b = 0x66 then
    skip
    restOfFalse
    return .bool false
  else if b = 0x2D then
    skip
    number true
  else if isDigit b then number false
  else if b = 0x22 then
    skip
    return .text (← text)
  else failAhead .expectedValue

/-- Stops at a value of the wrong kind, which is about to start. A value without brackets is moved
past, so it must be well formed itself. -/
def wrongKind {α : Type} (expected : String) : Reader α := do
  match ← peekToken with
  | none => failHere .endInValue
  | some b =>
    if b = 0x5B then failHere (.invalidType .list expected)
    else if b = 0x7B then failHere (.invalidType .object expected)
    else
      let v ← scalar b
      failHere (.invalidType v.found expected)

/-! ## Whole texts -/

/-- How many brackets may be open at once. -/
def maxDepth : Nat := 127

/-- A number of steps that suffices for the rest of a text. -/
def enoughFuel (c : Cursor) : Nat := 2 * c.rest.length + 2

/-- Moves past blanks to the end of the text. -/
def finish : Reader Unit := do
  match ← peekToken with
  | none => pure ()
  | some _ => failAhead .trailingCharacters

/-- Reads a whole text of which nothing but blanks may be left over. -/
def runAll {α : Type} (reader : Reader α) (bytes : List UInt8) : Except Fault α :=
  match (do let a ← reader; finish; return a : Reader α) ⟨bytes, {}⟩ with
  | .ok (a, _) => .ok a
  | .error fault => .error fault

/-! ## Embedded texts -/

/-- The text under the key of an embedded text. -/
def embeddedText : Reader String := do
  match ← peekToken with
  | some 0x22 =>
    skip
    text
  | _ => wrongKind "raw value"

/-- Reads a text of its own as a whole and stays in place. -/
def onText {α : Type} (reader : Reader α) (s : String) : Reader α := fun c =>
  (runAll reader (Text.Utf8.encode s)).map (·, c)

/-- Moves past the closing bracket of an object of which no more members are wanted. -/
def closeMembers : Reader Unit := do
  match ← peekToken with
  | none => failHere .endInObject
  | some b =>
    if b = 0x7D then skip
    else if b = 0x2C then failAhead .trailingComma
    else failAhead .trailingCharacters

/-! ## Nested values -/

mutual

/-- A value inside which `depth` more brackets may be open at once. `resolve` says whether embedded
texts are read as their values. The number after it bounds the number of steps. -/
def value (resolve : Bool) : Nat → Nat → Reader Value
  | 0, _ => failHere .endInValue
  | fuel + 1, depth => do
    match ← peekToken with
    | none => failHere .endInValue
    | some b =>
      if b = 0x5B ∨ b = 0x7B then
        match depth with
        | 0 => failAhead .tooDeep
        | depth + 1 =>
          skip
          if b = 0x5B then return .list (← items resolve fuel depth true [])
          else members resolve fuel depth true []
      else scalar b

/-- The items of a list up to its closing bracket, after items that are held latest first. -/
def items (resolve : Bool) : Nat → Nat → Bool → List Value → Reader (List Value)
  | 0, _, _, _ => failHere .endInList
  | fuel + 1, depth, first, before => do
    if ← hasItem first then
      let v ← value resolve fuel depth
      items resolve fuel depth false (v :: before)
    else
      skip
      return before.reverse

/-- What an object stands for, of which the members up to its closing bracket are still to be read
and put among the members before them. -/
def members (resolve : Bool) : Nat → Nat → Bool → List (String × Value) → Reader Value
  | 0, _, _, _ => failHere .endInObject
  | fuel + 1, depth, first, before => do
    if ← hasMember first then
      let k ← key
      if resolve && first && k == Value.embeddingKey then embedded resolve fuel
      else
        let v ← value resolve fuel depth
        members resolve fuel depth false (Entries.insert k v before)
    else
      skip
      return .object before

/-- The value of an embedded text, from the text up to the bracket that closes its object. -/
def embedded (resolve : Bool) : Nat → Reader Value
  | 0 => failHere .endInObject
  | fuel + 1 => do
    let s ← embeddedText
    let v ← onText (value resolve fuel maxDepth) s
    closeMembers
    return v

end

/-- A value inside which `depth` more brackets may be open at once. -/
def anyValue (resolve : Bool) (depth : Nat) : Reader Value := fun c =>
  value resolve (enoughFuel c) depth c

end Reader

namespace Value

/-- The JSON value of a text. -/
def parse (bytes : List UInt8) : Except Fault Value :=
  Reader.runAll (Reader.anyValue true Reader.maxDepth) bytes

/-! ## Embedded texts in values -/

mutual

/-- A value with its embedded texts replaced by their values. Only an object whose smallest key
marks an embedded text is one, and it must have no other. -/
def resolve : Value → Except Fault Value
  | .list items => (resolveItems items).map .list
  | .object [] => .ok (.object [])
  | .object ((key, v) :: rest) =>
    if key = embeddingKey then
      match v with
      | .text s => do
        let w ← parse (Text.Utf8.encode s)
        if rest.isEmpty then return w
        else .error (.inValue (.invalidLength (rest.length + 1) "fewer elements in map"))
      | v => .error (.inValue (.invalidType v.found "raw value"))
    else do
      let v ← resolve v
      let rest ← resolveMembers rest
      return .object ((key, v) :: rest)
  | v => .ok v

/-- The same in each of some items. -/
def resolveItems : List Value → Except Fault (List Value)
  | [] => .ok []
  | v :: rest => do
    let v ← resolve v
    let rest ← resolveItems rest
    return v :: rest

/-- The same in each of some member values. -/
def resolveMembers : List (String × Value) → Except Fault (List (String × Value))
  | [] => .ok []
  | (key, v) :: rest => do
    let v ← resolve v
    let rest ← resolveMembers rest
    return (key, v) :: rest

end

end Value

end AccessRecords.Json
