/-
Schemas: records with named fields in a fixed order. A record is described by an object with its
fields as members or by a list of its fields by position; a field that is left out keeps the value
it has in a blank record, and members of other names are passed over.
-/
import AccessRecords.Json.Decoder

namespace AccessRecords.Json

/-- A named field: how its value is found in a JSON value or read from a text, and put into a
record. -/
structure Field (α : Type) where
  name : String
  ofValue : Value → α → Except Fault α
  read : Nat → α → Reader α

/-- The field whose value a decoder gives. -/
def Field.of {α β : Type} (name : String) (d : Decoder β) (set : β → α → α) : Field α where
  name := name
  ofValue v a := (d.ofValue v).map (set · a)
  read depth a := do return set (← d.read depth) a

/-- A record type: what messages call it, the record of which no field is given, and its fields in
order. -/
structure Schema (α : Type) where
  title : String
  blank : α
  fields : List (Field α)

namespace Schema

variable {α : Type}

/-- The field with a name. -/
def field? (s : Schema α) (name : String) : Option (Field α) :=
  s.fields.find? (·.name == name)

/-! ## From values -/

/-- Puts one member into a record; a member that is no field is passed over. -/
def putMember (s : Schema α) (a : α) (member : String × Value) : Except Fault α :=
  match s.field? member.1 with
  | some f => f.ofValue member.2 a
  | none => .ok a

/-- Puts items into a record by position. -/
def putItems : List (Field α) → List Value → α → Except Fault α
  | f :: fields, v :: items, a => do
    let a ← f.ofValue v a
    putItems fields items a
  | _, _, a => .ok a

/-- The record that a JSON value describes. -/
def ofValue (s : Schema α) : Value → Except Fault α
  | .object members => members.foldlM s.putMember s.blank
  | .list items => do
    let a ← putItems s.fields items s.blank
    if items.length ≤ s.fields.length then return a
    else .error (.inValue (.invalidLength items.length "fewer elements in array"))
  | v => .error (.inValue (.invalidType v.found s.title))

/-! ## From texts -/

/-- Reads fields by position, after the opening bracket, until the items or the fields end. -/
def readItems : List (Field α) → Nat → Bool → α → Reader α
  | [], _, _, a => pure a
  | f :: fields, depth, first, a => do
    if ← Reader.hasItem first then
      let a ← f.read depth a
      readItems fields depth false a
    else return a

/-- Moves past the closing bracket of a list of which no more items are wanted. -/
def closeItems : Reader Unit := do
  match ← Reader.peekToken with
  | none => Reader.failHere .endInList
  | some b =>
    if b = 0x5D then Reader.skip
    else if b = 0x2C then
      Reader.skip
      match ← Reader.peekToken with
      | some 0x5D => Reader.failAhead .trailingComma
      | _ => Reader.failAhead .trailingCharacters
    else Reader.failAhead .trailingCharacters

/-- Reads fields by name, after the opening bracket, up to and with the closing one. The first
argument bounds the number of members; `seen` are the fields already given. -/
def readMembers (s : Schema α) (depth : Nat) : Nat → Bool → List String → α → Reader α
  | 0, _, _, _ => Reader.failHere .endInObject
  | fuel + 1, first, seen, a => do
    if ← Reader.hasMember first then
      Reader.skip
      let name ← Reader.text
      match s.field? name with
      | some f =>
        if seen.contains name then Reader.failAfterClosing 0x7D (.duplicateField name)
        else
          Reader.colon
          let a ← f.read depth a
          readMembers s depth fuel false (name :: seen) a
      | none =>
        Reader.colon
        Reader.skipAny
        readMembers s depth fuel false seen a
    else
      Reader.skip
      return a

/-- Reads fields by name with enough steps for the rest of the text. -/
def readAllMembers (s : Schema α) (depth : Nat) : Reader α := fun c =>
  s.readMembers depth (c.rest.length + 1) true [] s.blank c

/-- Reads a record. -/
def read (s : Schema α) (depth : Nat) : Reader α := do
  match ← Reader.peekToken with
  | some 0x5B =>
    let depth ← Reader.enter depth
    let a ← readItems s.fields depth true s.blank
    closeItems
    return a
  | some 0x7B =>
    let depth ← Reader.enter depth
    s.readAllMembers depth
  | _ => Reader.wrongKind s.title

/-- The records of a schema. -/
def decoder (s : Schema α) : Decoder α where
  ofValue := s.ofValue
  read := s.read

end Schema

end AccessRecords.Json
