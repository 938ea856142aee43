/-
Reading a failure back from the text of its document: an object whose member `type` names the kind,
or a list that starts with the kind's name. The text is read as a whole before the code and the
message are looked at.
-/
import AccessRecords.Failure
import AccessRecords.Json.Schema

namespace AccessRecords.Failure

open Json

/-- The name that messages have for a kind of failure. -/
def Kind.title : Kind → String
  | .userInput => "UserInput"
  | .notFound => "NotFound"
  | .backend => "Backend"
  | .contract => "Contract"
  | .cancelled => "Cancelled"
  | .internal => "Internal"

/-! ## The code and the message -/

/-- A failure whose code and message may still be missing. -/
structure Draft where
  code : Option String := none
  message : Option String := none

/-- Puts one member into a draft; each field may be given once. -/
def Draft.put (d : Draft) (member : String × Value) : Except Fault Draft :=
  match member.1 with
  | "code" =>
    match d.code with
    | some _ => .error (.inValue (.duplicateField "code"))
    | none => (Decoder.text.ofValue member.2).map fun s => { d with code := some s }
  | "message" =>
    match d.message with
    | some _ => .error (.inValue (.duplicateField "message"))
    | none => (Decoder.text.ofValue member.2).map fun s => { d with message := some s }
  | _ => .ok d

/-- The failure of a kind with the given members. -/
def ofMembers (kind : Kind) (members : List (String × Value)) : Except Fault Failure := do
  let d ← members.foldlM Draft.put {}
  match d.code, d.message with
  | some code, some message => return ⟨kind, code, message⟩
  | none, _ => .error (.inValue (.missingField "code"))
  | some _, none => .error (.inValue (.missingField "message"))

/-- A list that ends before the code and the message. -/
def Kind.tooFew (kind : Kind) (length : Nat) : Cause :=
  .invalidLength length ("struct variant AppError::" ++ kind.title ++ " with 2 elements")

/-- The failure of a kind with the given code and message. -/
def ofItems (kind : Kind) : List Value → Except Fault Failure
  | code :: rest => do
    let code ← Decoder.text.ofValue code
    match rest with
    | [] => .error (.inValue (kind.tooFew 1))
    | message :: rest => do
      let message ← Decoder.text.ofValue message
      match rest with
      | [] => return ⟨kind, code, message⟩
      | rest => .error (.inValue (.invalidLength (rest.length + 2) "2 elements in sequence"))
  | [] => .error (.inValue (kind.tooFew 0))

/-! ## The whole text -/

/-- Reads the name of a kind. -/
def readKind : Reader Kind := do
  match ← Reader.peekToken with
  | some 0x22 =>
    Reader.skip
    let name ← Reader.text
    match Kind.ofName? name with
    | some kind => return kind
    | none => Reader.failHere (.unknownVariant name (Kind.all.map Kind.name))
  | _ => Reader.wrongKind "variant identifier"

/-- Reads the members of an object up to and with its closing bracket: the kind, and the other
members in order, which are held latest first. The first argument bounds the number of members. -/
def readMembers (depth : Nat) :
    Nat → Bool → Option Kind → List (String × Value) → Reader (Kind × List (String × Value))
  | 0, _, _, _ => Reader.failHere .endInObject
  | fuel + 1, first, kind, before => do
    if ← Reader.hasMember first then
      Reader.skip
      let name ← Reader.text
      if name = "type" then
        if kind.isSome then Reader.failAfterClosing 0x7D (.duplicateField "type")
        else
          Reader.colon
          let kind ← readKind
          readMembers depth fuel false (some kind) before
      else
        Reader.colon
        let v ← Reader.anyValue false depth
        readMembers depth fuel false kind ((name, v) :: before)
    else
      match kind with
      | some kind =>
        Reader.skip
        return (kind, before.reverse)
      | none => Reader.failAfterClosing 0x7D (.missingField "type")

/-- Reads the items of a list up to and with its closing bracket: the kind, and the other items. -/
def readItems (depth : Nat) : Reader (Kind × List Value) := do
  if ← Reader.hasItem true then
    let kind ← readKind
    let rest ← fun c => Reader.each (Reader.anyValue false depth) (c.rest.length + 1) false [] c
    return (kind, rest)
  else Reader.failAfterClosing 0x5D (.missingField "type")

/-- Reads a failure, of which the code and the message are judged by the second step. -/
def read (depth : Nat) : Reader (Except Fault Failure) := do
  match ← Reader.peekToken with
  | some 0x5B =>
    let depth ← Reader.enter depth
    let (kind, items) ← readItems depth
    return ofItems kind items
  | some 0x7B =>
    let depth ← Reader.enter depth
    let found ← fun c => readMembers depth (c.rest.length + 1) true none [] c
    return ofMembers found.1 found.2
  | _ => Reader.wrongKind "internally tagged enum AppError"

/-- The failure whose document a text is. What is wrong with the code or the message comes before
what follows the document. -/
def parse (bytes : List UInt8) : Except Fault Failure :=
  Reader.runAll (do
    match ← read Reader.maxDepth with
    | .ok f => return f
    | .error fault => throw fault) bytes

end AccessRecords.Failure
