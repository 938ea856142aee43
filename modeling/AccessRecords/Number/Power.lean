/-
Powers of the two bases of numbers: two, in which they are held, and ten, in which they are written.
-/

namespace AccessRecords

/-- A power of two. -/
def twoPow (n : Nat) : Nat := Nat.pow 2 n

/-- A power of ten. -/
def tenPow (n : Nat) : Nat := Nat.pow 10 n

end AccessRecords
