/-
# QueryScore.Decimal.Binary64 -- 64-bit floats as exact numbers

A finite float is a sign, a natural significand and a power of two. Everything the library
decides about floats (whether one is integral, how it is rounded, how it is written) is
decided on that view in exact arithmetic, and a number is turned back into a float by one
function that rounds an exact ratio to the nearest float, ties to the even significand.

A number that stands alone in a text has an optional sign, digits with at most one point and at
least one digit, and an optional power of ten. The whole text must be the number, and the float
is the one nearest to it.
-/

namespace QueryScore

/-! ## Powers of two and ten -/

/-- A power of two. -/
abbrev twoTo (n : Nat) : Nat := Nat.pow 2 n

/-- A power of ten. -/
abbrev tenTo (n : Nat) : Nat := Nat.pow 10 n

end QueryScore

namespace QueryScore.Decimal

/-! ## Rounding a ratio to an integer -/

/-- The integer nearest to `num / den`, a half going to the even neighbour. -/
def roundHalfEven (num den : Nat) : Nat :=
  let floor := num / den
  let twice := 2 * (num % den)
  if twice < den then floor
  else if den < twice then floor + 1
  else if floor % 2 = 0 then floor else floor + 1

/-- The integer nearest to `num / den`, a half going up. -/
def roundHalfUp (num den : Nat) : Nat := (2 * num + den) / (2 * den)

/-! ## The view of a float -/

/-- What a float stands for; a finite one is `± significand * 2 ^ exponent`. -/
inductive Binary64 where
  /-- Not a number. -/
  | nan
  /-- One of the infinities. -/
  | infinite (negative : Bool)
  /-- A finite number, zero with a sign included. -/
  | finite (negative : Bool) (significand : Nat) (exponent : Int)
  deriving DecidableEq, Repr

/-- The least exponent, shared by zero, the subnormal and the smallest normal numbers. -/
def minExponent : Int := -1074

/-- Significands of normal numbers start here. -/
def hiddenBit : Nat := twoTo 52

/-- The view of a float, read off its bits. -/
def Binary64.ofFloat (x : Float) : Binary64 :=
  let bits := x.toBits.toNat
  let negative := twoTo 63 ≤ bits
  let field := bits / hiddenBit % 2048
  let fraction := bits % hiddenBit
  if field = 2047 then
    if fraction = 0 then .infinite negative else .nan
  else if field = 0 then .finite negative fraction minExponent
  else .finite negative (hiddenBit + fraction) (minExponent + field - 1)

/-- The magnitude `significand * 2 ^ exponent` as numerator and denominator. -/
def ratio (significand : Nat) (exponent : Int) : Nat × Nat :=
  if 0 ≤ exponent then (significand * twoTo exponent.toNat, 1)
  else (significand, twoTo (-exponent).toNat)

/-! ## From exact numbers to floats -/

/-- The bits of positive infinity. -/
def infinityBits : Nat := 2047 * hiddenBit

/-- The bits of the non-negative float nearest to `num / den`. The exponent is chosen so that
the significand has 53 bits, or is the least one; a significand that rounds up to the next
power of two carries into the exponent field by itself. -/
def nearestBits (num den : Nat) : Nat :=
  if num = 0 then 0
  else
    let guess : Int := num.log2 - den.log2 - 52
    let scaled (q : Int) : Nat × Nat :=
      if 0 ≤ q then (num, den * twoTo q.toNat) else (num * twoTo (-q).toNat, den)
    let (n, d) := scaled guess
    let exponent := max minExponent (if n / d < hiddenBit then guess - 1 else guess)
    let (n, d) := scaled exponent
    min infinityBits ((exponent - minExponent).toNat * hiddenBit + roundHalfEven n d)

/-- The float nearest to `± num / den`. -/
def nearest (negative : Bool) (num den : Nat) : Float :=
  let bits := nearestBits num den
  Float.ofBits (UInt64.ofNat (if negative then twoTo 63 + bits else bits))

/-- The float nearest to `± digits * 10 ^ exponent`. Exponents far outside the range of
floats are answered without computing the power. -/
def nearestScaled (negative : Bool) (digits : Nat) (exponent : Int) : Float :=
  let magnitude := (Nat.toDigits 10 digits).length + exponent
  if digits = 0 || magnitude < -330 then nearest negative 0 1
  else if 310 < magnitude then nearest negative (twoTo 1024) 1
  else if 0 ≤ exponent then nearest negative (digits * tenTo exponent.toNat) 1
  else nearest negative digits (tenTo (-exponent).toNat)

/-! ## Integral values -/

/-- The integer that a float stands for, if it stands for one. -/
def integer? (x : Float) : Option Int :=
  match Binary64.ofFloat x with
  | .finite negative significand exponent =>
    let (num, den) := ratio significand exponent
    if num % den = 0 then some (if negative then -(num / den : Int) else num / den) else none
  | _ => none

/-- The integer nearest to a float, as a float, a half going away from zero. -/
def roundAwayFromZero (x : Float) : Float :=
  match Binary64.ofFloat x with
  | .finite negative significand exponent =>
    let (num, den) := ratio significand exponent
    nearest negative (roundHalfUp num den) 1
  | _ => x

/-! ## Numbers in texts -/

/-- The value of one digit. -/
def digitValue (c : Char) : Nat := c.toNat - '0'.toNat

/-- The number that a digit string continues, after `value`. -/
def digitsFrom (value : Nat) (cs : List Char) : Nat :=
  cs.foldl (fun n c => 10 * n + digitValue c) value

/-- The value of a digit string. -/
def digitsValue (cs : List Char) : Nat := digitsFrom 0 cs

/-- The leading digits of a text, and the rest. -/
def splitDigits (cs : List Char) : List Char × List Char :=
  (cs.takeWhile Char.isDigit, cs.dropWhile Char.isDigit)

/-- A sign at the front of a text: whether it is a minus, and the rest. -/
def splitSign : List Char → Bool × List Char
  | '-' :: cs => (true, cs)
  | '+' :: cs => (false, cs)
  | cs => (false, cs)

/-- The power of ten that makes up a whole text: nothing, or `e`, a sign and digits. -/
def exponentPart? : List Char → Option Int
  | [] => some 0
  | c :: cs =>
    if c == 'e' || c == 'E' then
      let (negative, rest) := splitSign cs
      let (digits, after) := splitDigits rest
      if digits.isEmpty || !after.isEmpty then none
      else some (if negative then -(digitsValue digits : Int) else digitsValue digits)
    else none

/-- The float nearest to the number that makes up the text. -/
def float? (cs : List Char) : Option Float :=
  let (negative, rest) := splitSign cs
  let (whole, rest) := splitDigits rest
  let (fraction, rest) :=
    match rest with
    | '.' :: after => splitDigits after
    | _ => ([], rest)
  if whole.isEmpty && fraction.isEmpty then none
  else (exponentPart? rest).map fun power =>
    nearestScaled negative (digitsValue (whole ++ fraction)) (power - fraction.length)

end QueryScore.Decimal
