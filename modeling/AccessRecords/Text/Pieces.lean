/-
Splitting bytes at a separator: at every place where it stands, or at the first.
-/

namespace AccessRecords.Text

/-- The pieces of a list of bytes between separators. -/
def pieces (separator : UInt8) : List UInt8 → List (List UInt8)
  | [] => [[]]
  | b :: bs =>
    if b = separator then [] :: pieces separator bs
    else match pieces separator bs with
      | piece :: rest => (b :: piece) :: rest
      | [] => [[b]]

/-- What comes before the first separator, and what comes after it if there is one. -/
def cut (separator : UInt8) (bytes : List UInt8) : List UInt8 × List UInt8 :=
  (bytes.takeWhile (· ≠ separator), (bytes.dropWhile (· ≠ separator)).drop 1)

end AccessRecords.Text
