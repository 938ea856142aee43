/-
Request targets: the path and the query of a target, the segments of a path and the pairs of a
query.
-/
import AccessRecords.Text.Percent
import AccessRecords.Text.Pieces
import AccessRecords.Text.Utf8

namespace AccessRecords.Http

open Text

/-- The segments of a path that starts with a slash; any other path has none. -/
def segments (path : List UInt8) : List (List UInt8) :=
  match pieces 0x2F path with
  | [] :: rest => rest
  | _ => []

/-- A key or a value of a query: a plus sign stands for a blank. -/
def queryText (bytes : List UInt8) : String :=
  Utf8.decodeLenient (percentDecode (bytes.map fun b => if b = 0x2B then 0x20 else b))

/-- The pairs of a query, in order; pieces without any byte are left out. -/
def queryPairs (query : List UInt8) : List (String × String) :=
  ((pieces 0x26 query).filter (!·.isEmpty)).map fun piece =>
    let (key, value) := cut 0x3D piece
    (queryText key, queryText value)

/-- Whether a byte may stand in a scheme: a letter, a digit or one of `+`, `-`, `.` and `~`. -/
def isSchemeByte (b : UInt8) : Bool :=
  (0x30 ≤ b && b ≤ 0x39) || (0x41 ≤ b && b ≤ 0x5A) || (0x61 ≤ b && b ≤ 0x7A) ||
    b == 0x2B || b == 0x2D || b == 0x2E || b == 0x7E

/-- What follows the scheme of a target, if the target starts with a scheme and `://`. -/
def afterScheme? (target : List UInt8) : Option (List UInt8) :=
  match target.dropWhile isSchemeByte with
  | 0x3A :: 0x2F :: 0x2F :: rest => some rest
  | _ => none

/-- The path of a target that has neither query nor fragment. After a scheme comes a host, and the
path is what follows the host, or a slash if nothing does; without a host there is no path. Without
a scheme only a target that starts with a slash is a path. -/
def pathOf (target : List UInt8) : List UInt8 :=
  if target.head? = some 0x2F then target
  else match afterScheme? target with
    | some [] | none => []
    | some (b :: rest) =>
      if b = 0x2F then []
      else match rest.dropWhile (· ≠ 0x2F) with
        | [] => [0x2F]
        | path => path

/-- The path and the query of a target, without its fragment. -/
def splitTarget (target : String) : List UInt8 × List UInt8 :=
  let (target, query) := cut 0x3F (cut 0x23 (Utf8.encode target)).1
  (pathOf target, query)

/-- A path parameter. -/
def pathText? (segment : List UInt8) : Option String := Utf8.decode? (percentDecode segment)

end AccessRecords.Http
