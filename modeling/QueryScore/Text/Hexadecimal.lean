/-
# QueryScore.Text.Hexadecimal -- numbers in hexadecimal digits

Digits of both cases are read; they are written in upper case with a least number of places.
-/

namespace QueryScore.Text

/-! ## Reading -/

/-- The value of a hexadecimal digit. -/
def hexValue? (c : Char) : Option Nat :=
  if c.isDigit then some (c.toNat - '0'.toNat)
  else if 'a' ≤ c && c ≤ 'f' then some (c.toNat - 'a'.toNat + 10)
  else if 'A' ≤ c && c ≤ 'F' then some (c.toNat - 'A'.toNat + 10)
  else none

/-- The character is a hexadecimal digit. -/
def isHexDigit (c : Char) : Bool := (hexValue? c).isSome

/-- The number that digits continue, after `value`; all of them must be hexadecimal. -/
def hexNumberFrom (value : Nat) : List Char → Option Nat
  | [] => some value
  | c :: cs => (hexValue? c).bind fun digit => hexNumberFrom (value * 16 + digit) cs

/-- The number of a string of hexadecimal digits. -/
def hexNumber? (cs : List Char) : Option Nat := hexNumberFrom 0 cs

/-! ## Writing -/

/-- A number in at least so many upper-case digits. -/
def hexText (places n : Nat) : List Char :=
  let digits := (Nat.toDigits 16 n).map Char.toUpper
  List.replicate (places - digits.length) '0' ++ digits

/-- The character of a code point, unless there is none. -/
def charOfCode? (n : Nat) : Option Char := if n.isValidChar then some (Char.ofNat n) else none

end QueryScore.Text
