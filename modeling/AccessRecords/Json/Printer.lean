/-
The compact text of a JSON value: no blanks, object members in the order in which the value holds
them, integers in full and doubles by their shortest digits.
-/
import AccessRecords.Json.Value
import AccessRecords.Number.Shortest

namespace AccessRecords.Json

/-! ## Numbers -/

/-- How a decimal number is laid out: the exponents of the first digit for which it is written
without an exponent part. -/
structure NumberLayout where
  plainFrom : Int
  plainTo : Int

/-- A number is written out in full from five zeros after the point up to sixteen digits before
it. -/
def numberLayout : NumberLayout := ⟨-5, 15⟩

/-- The digits of a number in full, with at least one digit on either side of the point. -/
def plainDigits (digits : List Char) (leading : Int) : List Char :=
  match leading with
  | .ofNat e =>
    let whole := digits.take (e + 1) ++ List.replicate (e + 1 - digits.length) '0'
    let fraction := digits.drop (e + 1)
    whole ++ '.' :: (if fraction.isEmpty then ['0'] else fraction)
  | .negSucc zeros => '0' :: '.' :: List.replicate zeros '0' ++ digits

/-- The digits of a number with an exponent part, whose sign is always written. -/
def scientificDigits (digits : List Char) (leading : Int) : List Char :=
  let fraction := digits.drop 1
  digits.take 1 ++ (if fraction.isEmpty then [] else '.' :: fraction) ++
    'e' :: (if leading < 0 then '-' else '+') :: Nat.toDigits 10 leading.natAbs

/-- A decimal number in a layout. -/
def decimalChars (layout : NumberLayout) (d : Decimal) : List Char :=
  let digits := Nat.toDigits 10 d.digits
  let leading := d.exponent + digits.length - 1
  if layout.plainFrom ≤ leading ∧ leading ≤ layout.plainTo then plainDigits digits leading
  else scientificDigits digits leading

/-- A finite double by its shortest digits; zero is `0.0` with its sign. -/
def doubleChars (x : Double) : List Char :=
  let magnitude := if x.isZero then ['0', '.', '0'] else decimalChars numberLayout x.shortest
  if x.isNegative then '-' :: magnitude else magnitude

/-- An integer by all its digits. -/
def intChars (n : Int) : List Char :=
  let digits := Nat.toDigits 10 n.natAbs
  if n < 0 then '-' :: digits else digits

/-! ## Texts -/

/-- How a character is written between the quotes of a text: quotes, backslashes and the control
characters are escaped. -/
def escapeChar (c : Char) : List Char :=
  if c = '"' then ['\\', '"']
  else if c = '\\' then ['\\', '\\']
  else if c = '\x08' then ['\\', 'b']
  else if c = '\x09' then ['\\', 't']
  else if c = '\x0a' then ['\\', 'n']
  else if c = '\x0c' then ['\\', 'f']
  else if c = '\x0d' then ['\\', 'r']
  else if c.toNat < 0x20 then
    ['\\', 'u', '0', '0', Nat.digitChar (c.toNat / 16), Nat.digitChar (c.toNat % 16)]
  else [c]

/-- A text between quotes. -/
def textChars (s : String) : List Char := '"' :: s.toList.flatMap escapeChar ++ ['"']

/-! ## Values -/

namespace Value

mutual

/-- The characters of a value. -/
def chars : Value → List Char
  | .null => ['n', 'u', 'l', 'l']
  | .bool true => ['t', 'r', 'u', 'e']
  | .bool false => ['f', 'a', 'l', 's', 'e']
  | .int n => intChars n
  | .double x => doubleChars x
  | .text s => textChars s
  | .list [] => ['[', ']']
  | .list (v :: rest) => '[' :: chars v ++ itemsChars rest
  | .object [] => ['{', '}']
  | .object ((k, v) :: rest) => '{' :: textChars k ++ ':' :: chars v ++ membersChars rest

/-- The characters of the items after the first one, and the closing bracket. -/
def itemsChars : List Value → List Char
  | [] => [']']
  | v :: rest => ',' :: chars v ++ itemsChars rest

/-- The characters of the members after the first one, and the closing bracket. -/
def membersChars : List (String × Value) → List Char
  | [] => ['}']
  | (k, v) :: rest => ',' :: textChars k ++ ':' :: chars v ++ membersChars rest

end

/-- The compact text of a value. -/
def print (v : Value) : String := String.ofList v.chars

end Value

end AccessRecords.Json
