/-
Pages: at most so many items from so many items on. A query asks for a page by `limit` and
`offset`; what it does not ask for, or asks for in a form that is no number, takes a default.
-/
import AccessRecords.Query
import AccessRecords.Text.Blank
import AccessRecords.Text.Numeral

namespace AccessRecords

/-- At most `limit` items, the first `offset` left out. -/
structure Page where
  limit : Nat
  offset : Nat
deriving DecidableEq, Repr, Inhabited

namespace Page

/-- The page that is meant when nothing is asked for, and the most items that one may ask for. -/
structure Rules where
  limit : Nat := 100
  offset : Nat := 0
  maxLimit : Nat := 500
deriving DecidableEq, Repr, Inhabited

/-- The number that the first value of a key writes, blanks around it ignored. -/
def number? (q : Query) (key : String) : Option Int :=
  (q.first? key).bind fun value => Text.readInt64? (Text.trim value)

/-- The page that a query asks for. A number below zero counts as zero. -/
def ofQuery (rules : Rules) (q : Query) : Page where
  limit := min (((number? q "limit").map Int.toNat).getD rules.limit) rules.maxLimit
  offset := ((number? q "offset").map Int.toNat).getD rules.offset

/-! ## Windows -/

/-- Where a page starts and where it ends in a sequence of a given length. -/
def index (p : Page) (length : Nat) : Nat × Nat :=
  if length < p.offset then (length, length) else (p.offset, min (p.offset + p.limit) length)

/-- The items of a list that lie on a page. -/
def window {α : Type} (p : Page) (items : List α) : List α :=
  let (start, stop) := p.index items.length
  (items.take stop).drop start

/-! ## In 64-bit arithmetic -/

/-- A signed word as an unsigned one; a number below zero counts as zero. -/
def clampWord (word : Int64) : UInt64 := if word < 0 then 0 else word.toUInt64

/-- The limit and the offset of `Page.ofQuery`, computed without leaving the range of 64-bit numbers. -/
def ofQueryWords (limit offset maxLimit : UInt64) (q : Query) : UInt64 × UInt64 :=
  let read key := ((q.first? key).bind fun value => Text.readWord? (Text.trim value)).map clampWord
  (min ((read "limit").getD limit) maxLimit, (read "offset").getD offset)

/-- A sum that stays at the largest 64-bit number when it would exceed it. -/
def addSaturating (a b : UInt64) : UInt64 := if a + b < a then 0xFFFFFFFFFFFFFFFF else a + b

/-- `Page.index`, computed without leaving the range of 64-bit numbers. -/
def indexWords (limit offset length : UInt64) : UInt64 × UInt64 :=
  if length < offset then (length, length)
  else (offset, min (addSaturating offset limit) length)

/-- A list without the given number of its first items, if it has as many. -/
def withoutFirst? {α : Type} (count : UInt64) (items : List α) : Option (List α) :=
  if count.toNat ≤ items.length then some (items.drop count.toNat) else none

/-- `Page.window` with the bounds of `indexWords`: the items from the end on are cut off, and then those
before the start taken away. -/
def windowWords? {α : Type} (limit offset : UInt64) (items : List α) : Option (List α) :=
  let (start, stop) := indexWords limit offset (UInt64.ofNat items.length)
  withoutFirst? start (items.take stop.toNat)

/-- The difference of two words, if the second is not the larger one. -/
def subWord? (a b : UInt64) : Option UInt64 := if b ≤ a then some (a - b) else none

/-- The items from the start of a page on, as many as lie between its bounds; all items if there is no
limit. -/
def sliceWords? {α : Type} (limit : Option UInt64) (offset : UInt64) (items : List α) : Option (List α) :=
  let length := UInt64.ofNat items.length
  let (start, stop) := match limit with
    | some limit => indexWords limit offset length
    | none => (0, length)
  (subWord? stop start).map fun count => (items.drop start.toNat).take count.toNat

end Page

end AccessRecords
