/-
Decoders: what a typed value looks like as a JSON value, and how it is read straight from a text.
The two ways accept the same descriptions; reading from a text also says where a fault lies.
-/
import AccessRecords.Json.Skip

namespace AccessRecords.Json

/-- A way to get a typed value out of a JSON value, and one to get it out of a text, in which as
many brackets as the argument says may be open at once. -/
structure Decoder (α : Type) where
  ofValue : Value → Except Fault α
  read : Nat → Reader α

namespace Reader

/-- Stops at a fault that shows once a closing bracket, if one comes next, has been moved past. -/
def failAfterClosing {α : Type} (closing : UInt8) (cause : Cause) : Reader α := do
  if (← peekToken) = some closing then skip
  failHere cause

/-- Moves past an opening bracket, unless too many are open. Gives how many more may be opened. -/
def enter : Nat → Reader Nat
  | 0 => failAhead .tooDeep
  | depth + 1 => do
    skip
    return depth

/-- Runs a reader on each item of a list up to its closing bracket, after items that are held
latest first. The first argument bounds the number of items. -/
def each {α : Type} (item : Reader α) : Nat → Bool → List α → Reader (List α)
  | 0, _, _ => failHere .endInList
  | fuel + 1, first, before => do
    if ← hasItem first then
      let a ← item
      each item fuel false (a :: before)
    else
      skip
      return before.reverse

/-- Runs a reader on each item of a list, after its opening bracket. -/
def eachItem {α : Type} (item : Reader α) : Reader (List α) := fun c =>
  each item (c.rest.length + 1) true [] c

end Reader

namespace Decoder

/-- Any JSON value; embedded texts in it count as their values. -/
def any : Decoder Value where
  ofValue := Value.resolve
  read := Reader.anyValue true

/-- A text. -/
def text : Decoder String where
  ofValue
    | .text s => .ok s
    | v => .error (.inValue (.invalidType v.found "a string"))
  read _ := do
    match ← Reader.peekToken with
    | some 0x22 =>
      Reader.skip
      Reader.text
    | _ => Reader.wrongKind "a string"

/-- A list of items of one kind. -/
def list {α : Type} (item : Decoder α) : Decoder (List α) where
  ofValue
    | .list items => items.mapM item.ofValue
    | v => .error (.inValue (.invalidType v.found "a sequence"))
  read depth := do
    match ← Reader.peekToken with
    | some 0x5B =>
      let depth ← Reader.enter depth
      Reader.eachItem (item.read depth)
    | _ => Reader.wrongKind "a sequence"

/-- The value of a whole text. -/
def parse {α : Type} (d : Decoder α) (bytes : List UInt8) : Except Fault α :=
  Reader.runAll (d.read Reader.maxDepth) bytes

end Decoder

end AccessRecords.Json
