/-
Query parameters: each key with all of its values, in the order in which they arrived.
-/
import AccessRecords.Table

namespace AccessRecords

/-- Query parameters by key. -/
abbrev Query := Table String (List String)

namespace Query

/-- Adds a value after the ones that a key already has. -/
def add (q : Query) (key value : String) : Query :=
  q.insert key ((q.get? key).getD [] ++ [value])

/-- The query of some pairs in the order of their arrival. -/
def ofPairs (pairs : List (String × String)) : Query :=
  pairs.foldl (fun q p => q.add p.1 p.2) ∅

/-- The first value of a key. -/
def first? (q : Query) (key : String) : Option String := (q.get? key).bind List.head?

/-- All values of a key; none if the key does not occur. -/
def values (q : Query) (key : String) : List String := (q.get? key).getD []

end Query

end AccessRecords
