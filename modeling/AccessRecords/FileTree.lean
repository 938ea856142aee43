/-
Trees of directories and files. A path is followed from a working directory, or from the topmost one
if it starts with a slash, piece by piece; the first step that cannot be taken is the reason why the
path leads to no bytes.
-/
import AccessRecords.Text.Pieces
import AccessRecords.Text.Utf8

namespace AccessRecords

/-! ## Reasons -/

/-- Why the bytes of a file cannot be read: the system's words for it, and its number. -/
structure Unreadable where
  details : String
  code : Nat
deriving DecidableEq, Repr, Inhabited

namespace Unreadable

/-- Nothing has this name. -/
def missing : Unreadable := ⟨"No such file or directory", 2⟩

/-- A file stands where the path goes on. -/
def notDirectory : Unreadable := ⟨"Not a directory", 20⟩

/-- The path leads to a directory. -/
def isDirectory : Unreadable := ⟨"Is a directory", 21⟩

/-- The path or a name in it is too long. -/
def nameTooLong : Unreadable := ⟨"File name too long", 36⟩

/-- The file may not be read. -/
def permissionDenied : Unreadable := ⟨"Permission denied", 13⟩

/-- The reason with a number, which has these words if it is none of the above. -/
def ofCode (code : Nat) (details : String) : Unreadable :=
  ([missing, notDirectory, isDirectory, nameTooLong, permissionDenied].find? (·.code = code)).getD
    ⟨details, code⟩

/-- The wording of a reason. -/
def message (u : Unreadable) : String :=
  u.details ++ " (os error " ++ toString u.code ++ ")"

end Unreadable

/-! ## Trees -/

/-- A file with its bytes, or a directory with its entries by name. -/
inductive FileTree where
  | file (bytes : List UInt8)
  | directory (entries : List (String × FileTree))
deriving Repr, Inhabited

namespace FileTree

/-- A place in a tree: what stands there, and the directories above it, the nearest first. -/
structure Place where
  here : FileTree
  above : List FileTree := []
deriving Repr, Inhabited

/-- The topmost place. -/
def Place.top (p : Place) : Place := ⟨p.above.getLastD p.here, []⟩

/-- The place one directory up; the topmost one is above itself. -/
def Place.up (p : Place) : Place :=
  match p.above with
  | [] => p
  | d :: above => ⟨d, above⟩

/-- How many bytes a name may have. -/
def maxName : Nat := 255

/-- How many bytes a path may have. -/
def maxPath : Nat := 4095

/-- The step that a piece of a path takes: an empty one and a dot stay, two dots go up, and any
other piece goes to the entry of its name. A step is taken from a directory only. -/
def Place.step (p : Place) (piece : List UInt8) : Except Unreadable Place :=
  match p.here with
  | .file _ => .error .notDirectory
  | .directory entries =>
    if piece = [] ∨ piece = [0x2E] then .ok p
    else if piece = [0x2E, 0x2E] then .ok p.up
    else if maxName < piece.length then .error .nameTooLong
    else match entries.find? fun entry => Text.Utf8.encode entry.1 = piece with
      | some entry => .ok ⟨entry.2, p.here :: p.above⟩
      | none => .error .missing

/-- The place that a path leads to from a working directory. -/
def Place.follow (work : Place) (path : String) : Except Unreadable Place :=
  let bytes := Text.Utf8.encode path
  if bytes = [] then .error .missing
  else if maxPath < bytes.length then .error .nameTooLong
  else
    let start := if bytes.head? = some 0x2F then work.top else work
    (Text.pieces 0x2F bytes).foldlM Place.step start

/-- The bytes of the file that a path leads to from a working directory. -/
def Place.read (work : Place) (path : String) : Except Unreadable (List UInt8) := do
  match (← work.follow path).here with
  | .file bytes => return bytes
  | .directory _ => .error .isDirectory

end FileTree

end AccessRecords
