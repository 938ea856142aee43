/-
The effect of a policy: it allows or it denies. A description that does not name one of the two,
in lower case, is refused.
-/
import AccessRecords.Json.Schema

namespace AccessRecords

open Json

/-- What a policy does to the accesses it covers. -/
inductive Effect where
  | allow
  | deny
deriving DecidableEq, Repr, Inhabited

namespace Effect

/-- The name of an effect. -/
def name : Effect → String
  | .allow => "allow"
  | .deny => "deny"

/-- The effect with a name. -/
def ofName (name : String) : Except Cause Effect :=
  if name = "allow" then .ok .allow
  else if name = "deny" then .ok .deny
  else .error (.unknownVariant name ["allow", "deny"])

/-- The effect that a JSON value describes: its name, or an object whose only member has that name
and the value null. -/
def ofValue : Value → Except Fault Effect
  | .text s => (ofName s).mapError .inValue
  | .object [(key, v)] => do
    let e ← (ofName key).mapError .inValue
    match v with
    | .null => return e
    | v => .error (.inValue (.invalidType v.found "unit"))
  | .object _ => .error (.inValue .notSingleKey)
  | v => .error (.inValue (.invalidType v.found "string or map"))

/-- Reads the name of an effect, from its opening quote on. -/
def readName : Reader Effect := do
  Reader.skip
  match ofName (← Reader.text) with
  | .ok e => return e
  | .error cause => Reader.failHere cause

/-- Reads the key of the object form, after the opening bracket. -/
def readKey : Reader Effect := do
  match ← Reader.peekToken with
  | none => Reader.failHere .endInObject
  | some 0x22 => readName
  | some 0x7D => Reader.failAhead .expectedValue
  | some _ => Reader.failAhead .keyNotText

/-- Reads a null. -/
def readNull : Reader Unit := do
  match ← Reader.peekToken with
  | some 0x6E =>
    Reader.skip
    Reader.restOfNull
  | _ => Reader.wrongKind "unit"

/-- Reads an effect in either form. -/
def read (depth : Nat) : Reader Effect := do
  match ← Reader.peekToken with
  | none => Reader.failHere .endInValue
  | some 0x22 => readName
  | some 0x7B =>
    let _ ← Reader.enter depth
    let e ← readKey
    Reader.colon
    readNull
    match ← Reader.peekToken with
    | none => Reader.failHere .endInObject
    | some b =>
      if b = 0x7D then
        Reader.skip
        return e
      else Reader.failHere .expectedValue
  | some _ => Reader.failAhead .expectedValue

/-- Effects by either form. -/
def decoder : Decoder Effect where
  ofValue := ofValue
  read := read

end Effect

end AccessRecords
