/-
JSON values: integers are kept exactly, every other number is a double, and the members of an
object are kept as a list of pairs.
-/
import AccessRecords.Number.Double
import AccessRecords.Table.Entries

namespace AccessRecords.Json

/-- A JSON value. -/
inductive Value where
  | null
  | bool (b : Bool)
  | int (n : Int)
  | double (x : Double)
  | text (s : String)
  | list (items : List Value)
  | object (members : List (String × Value))
deriving Repr, Inhabited

namespace Value

/-- The object without members. -/
def emptyObject : Value := .object []

/-- The key that marks an embedded text: an object that starts with it stands for the value of the
JSON text that it holds. -/
def embeddingKey : String := "$serde_json::private::RawValue"

/-- The list of some texts. -/
def texts (l : List String) : Value := .list (l.map .text)

/-! ## Canonical values -/

mutual

/-- A value as reading produces it: integers fit in 64 bits, doubles are finite, and the members
of every object ascend by key. -/
def Canonical : Value → Prop
  | .int n => -9223372036854775808 ≤ n ∧ n ≤ 18446744073709551615
  | .double x => x.isFinite = true
  | .list items => CanonicalItems items
  | .object members => Entries.Ascending members ∧ CanonicalMembers members
  | _ => True

/-- All items are canonical. -/
def CanonicalItems : List Value → Prop
  | [] => True
  | v :: rest => Canonical v ∧ CanonicalItems rest

/-- All member values are canonical. -/
def CanonicalMembers : List (String × Value) → Prop
  | [] => True
  | (_, v) :: rest => Canonical v ∧ CanonicalMembers rest

end

/-! ## Depth -/

mutual

/-- How many brackets are open at once at the deepest point of the value's text. -/
def depth : Value → Nat
  | .list items => itemsDepth items + 1
  | .object members => membersDepth members + 1
  | _ => 0

/-- The largest depth of some items. -/
def itemsDepth : List Value → Nat
  | [] => 0
  | v :: rest => max (depth v) (itemsDepth rest)

/-- The largest depth of some member values. -/
def membersDepth : List (String × Value) → Nat
  | [] => 0
  | (_, v) :: rest => max (depth v) (membersDepth rest)

end

/-! ## Values without doubles -/

mutual

/-- Whether the value holds no double. -/
def isExact : Value → Bool
  | .double _ => false
  | .list items => itemsExact items
  | .object members => membersExact members
  | _ => true

/-- Whether no item holds a double. -/
def itemsExact : List Value → Bool
  | [] => true
  | v :: rest => isExact v && itemsExact rest

/-- Whether no member value holds a double. -/
def membersExact : List (String × Value) → Bool
  | [] => true
  | (_, v) :: rest => isExact v && membersExact rest

end

end Value

end AccessRecords.Json
