/-
# QueryScore.Decimal.Layout -- how numbers are spelled

A float is written with the fewest decimal digits that read back as the same float, and among
texts of that length with the one nearest to its exact value. The reals that read back as
`m * 2 ^ q` form an interval around it whose ends belong to it exactly when `m` is even. For
a number of digits, only the two neighbours of the value on that decimal grid can be the
answer, so it is found by trying 1, 2, ... 17 digits in exact arithmetic.

These digits are spelled in two ways: that of JSON texts (positional notation for magnitudes from
`1e-5` up to `1e16`, a point in every number, a signed exponent elsewhere), and the plain one of
messages (always positional, no point in whole numbers). Reports have a third spelling (a fixed
number of places, computed from the exact value, ties to even).
-/

import QueryScore.Decimal.Binary64

namespace QueryScore.Decimal

/-! ## The fewest digits that read back -/

/-- A decimal number `digits * 10 ^ exponent`. -/
structure Scaled where
  /-- The digits, as a number. -/
  digits : Nat
  /-- The power of ten. -/
  exponent : Int
  deriving DecidableEq, Repr

/-- The two sides of a comparison of `digits * 10 ^ k` with `quarters * 2 ^ (q - 2)`, each
multiplied by the denominators of both. -/
def crossed (digits : Nat) (k : Int) (quarters : Nat) (q : Int) : Nat × Nat :=
  (digits * tenTo k.toNat * twoTo (2 - q).toNat, quarters * twoTo (q - 2).toNat * tenTo (-k).toNat)

/-- The distance in quarters from a significand down to the edge of its interval. Below a
power of two the neighbour is twice as close. -/
def gapBelow (m : Nat) (q : Int) : Nat := if m = hiddenBit && minExponent < q then 1 else 2

/-- `digits * 10 ^ k` reads back as `m * 2 ^ q`. -/
def readsBack (m : Nat) (q : Int) (digits : Nat) (k : Int) : Bool :=
  let (x, low) := crossed digits k (4 * m - gapBelow m q) q
  let (y, high) := crossed digits k (4 * m + 2) q
  if m % 2 = 0 then low ≤ x && y ≤ high else low < x && y < high

/-- The lower of the two neighbours is the nearer one, or as near and even. -/
def prefersLower (m : Nat) (q : Int) (lower : Nat) (k : Int) : Bool :=
  let (x, value) := crossed (2 * lower + 1) k (8 * m) q
  value < x || (value == x && lower % 2 == 0)

/-- The power of ten just above `m * 2 ^ q`, for a positive `m`. -/
def decimalExponent (m : Nat) (q : Int) : Int :=
  let (num, den) := ratio m q
  (Nat.toDigits 10 (num * tenTo 330 / den)).length - 330

/-- The best decimal with `size` digits that reads back, if one does. -/
def shortestOfSize? (m : Nat) (q : Int) (size : Nat) : Option Scaled :=
  let k := decimalExponent m q - size
  let (num, den) := ratio m q
  let lower := num * tenTo (-k).toNat / (den * tenTo k.toNat)
  match readsBack m q lower k, readsBack m q (lower + 1) k with
  | true, true => some ⟨if prefersLower m q lower k then lower else lower + 1, k⟩
  | true, false => some ⟨lower, k⟩
  | false, true => some ⟨lower + 1, k⟩
  | false, false => none

/-- The shortest decimal that reads back as `m * 2 ^ q`; seventeen digits always suffice. -/
def shortest (m : Nat) (q : Int) : Scaled :=
  if m = 0 then ⟨0, 0⟩
  else ((List.range' 1 17).findSome? (shortestOfSize? m q)).getD ⟨0, 0⟩

/-! ## Spelling a decimal -/

/-- The decisions of a spelling. -/
structure Style where
  /-- Powers of ten of the leading digit that are written positionally; `none` is all. -/
  positional : Option (Int × Int)
  /-- Whole numbers in positional notation end in `.0`. -/
  pointZero : Bool
  deriving DecidableEq, Repr

/-- Numbers in JSON texts. -/
def Style.json : Style := ⟨some (-5, 15), true⟩

/-- Numbers in messages. -/
def Style.plain : Style := ⟨none, false⟩

/-- The digits of a number without trailing zeros, with the place of the decimal point counted
from the front. -/
def significantDigits (d : Scaled) : List Char × Int :=
  let digits := Nat.toDigits 10 d.digits
  let kept := (digits.reverse.dropWhile (· == '0')).reverse
  (if kept.isEmpty then ['0'] else kept, digits.length + d.exponent)

/-- Positional notation: the point stands after `point` digits. -/
def positionalText (pointZero : Bool) (digits : List Char) (point : Int) : List Char :=
  if point ≤ 0 then "0.".toList ++ List.replicate (-point).toNat '0' ++ digits
  else if digits.length ≤ point then
    digits ++ List.replicate (point - digits.length).toNat '0' ++
      (if pointZero then ".0".toList else [])
  else digits.take point.toNat ++ '.' :: digits.drop point.toNat

/-- Scientific notation with a sign in every exponent. -/
def scientificText (digits : List Char) (power : Int) : List Char :=
  let mantissa :=
    match digits with
    | first :: second :: rest => first :: '.' :: second :: rest
    | short => short
  let sign := if power < 0 then '-' else '+'
  mantissa ++ 'e' :: sign :: Nat.toDigits 10 power.natAbs

/-- The text of a non-negative decimal in a style. -/
def Style.spell (style : Style) (d : Scaled) : List Char :=
  if d.digits = 0 then if style.pointZero then "0.0".toList else ['0']
  else
    let (digits, point) := significantDigits d
    match style.positional with
    | some (low, high) =>
      if low ≤ point - 1 && point - 1 ≤ high then positionalText style.pointZero digits point
      else scientificText digits (point - 1)
    | none => positionalText style.pointZero digits point

/-- The text of a float in a style. -/
def Style.text (style : Style) (x : Float) : List Char :=
  match Binary64.ofFloat x with
  | .nan => "NaN".toList
  | .infinite negative => if negative then "-inf".toList else "inf".toList
  | .finite negative significand exponent =>
    let magnitude := style.spell (shortest significand exponent)
    if negative then '-' :: magnitude else magnitude

/-! ## A fixed number of places -/

/-- `value / 10 ^ places` with all its places. -/
def fixedText (places value : Nat) : List Char :=
  let fraction := Nat.toDigits 10 (value % tenTo places)
  Nat.toDigits 10 (value / tenTo places) ++
    '.' :: (List.replicate (places - fraction.length) '0' ++ fraction)

/-- A float with a fixed number of places, at least one, nearest to its exact value. -/
def fixed (places : Nat) (x : Float) : List Char :=
  match Binary64.ofFloat x with
  | .nan => "NaN".toList
  | .infinite negative => if negative then "-inf".toList else "inf".toList
  | .finite negative significand exponent =>
    let (num, den) := ratio significand exponent
    let magnitude := fixedText places (roundHalfEven (num * tenTo places) den)
    if negative then '-' :: magnitude else magnitude

end QueryScore.Decimal
