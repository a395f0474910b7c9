/-
# QueryScore.Json.Number -- what a written number stands for

A number without point and exponent is an integer if it fits 64 bits, signed or unsigned;
minus zero and larger ones are floats. A float is computed from a 64-bit significand: digits
are taken while it does not overflow, the digits before the point that no longer fit count as
powers of ten, the ones after it are dropped. The significand, as a float, is then multiplied
or divided by one power of ten, so the result may differ from the nearest float in its last
bit. A value too large for a float is refused.
-/

import QueryScore.Decimal.Binary64
import QueryScore.Json.Basic

namespace QueryScore.Json

open Decimal

/-- A number as written: sign, digits before and after the point, and the power of ten. -/
structure Numeral where
  /-- There is a minus sign. -/
  negative : Bool
  /-- The digits before the point. -/
  whole : List Char
  /-- The digits after the point; none if there is no point. -/
  fraction : List Char
  /-- The power of ten: whether it is negative, and its digits. -/
  power : Option (Bool × List Char)
  deriving DecidableEq, Repr

/-- The first number that is too large for the significand. -/
def significandLimit : Nat := twoTo 64

/-- The significand continued by digits while it fits, and the digits left over. -/
def takeSignificand (value : Nat) : List Char → Nat × List Char
  | [] => (value, [])
  | c :: cs =>
    let next := 10 * value + digitValue c
    if next < significandLimit then takeSignificand next cs else (value, c :: cs)

/-- The float of an integer. -/
def wholeFloat (negative : Bool) (n : Nat) : Float := nearest negative n 1

/-- A power of ten as a float. -/
def powerOfTen (n : Nat) : Float := nearest false (tenTo n) 1

/-- The greatest power of ten that is a float. -/
def maxPower : Nat := 308

/-- The significand times a power of ten; nothing if that is too large. Negative powers below
the table take two divisions, and further down every significand is divided away to zero. -/
def scaleFloat? (significand : Nat) (power : Int) : Option Float :=
  let x := wholeFloat false significand
  if significand = 0 then some x
  else if 0 ≤ power then
    if maxPower < power then none
    else
      let y := x * powerOfTen power.toNat
      if Binary64.ofFloat y = .infinite false then none else some y
  else if -power ≤ maxPower then some (x / powerOfTen (-power).toNat)
  else if -power ≤ 2 * maxPower then
    some (x / powerOfTen maxPower / powerOfTen ((-power).toNat - maxPower))
  else some (wholeFloat false 0)

/-- The greatest written power of ten that is still counted. -/
def powerLimit : Nat := twoTo 31

/-- The magnitude of a number read as a float. -/
def Numeral.magnitude? (n : Numeral) : Option Float :=
  let (start, excess) := takeSignificand 0 n.whole
  let (significand, dropped) := takeSignificand start n.fraction
  let shift : Int := excess.length - (n.fraction.length - dropped.length : Nat)
  match n.power with
  | none => scaleFloat? significand shift
  | some (negative, digits) =>
    let power := digitsValue digits
    if powerLimit ≤ power then
      if significand ≠ 0 && !negative then none else some (wholeFloat false 0)
    else scaleFloat? significand (if negative then shift - power else shift + power)

/-- The number is written as an integer. -/
def Numeral.isWhole (n : Numeral) : Bool := n.fraction.isEmpty && n.power.isNone

/-- The number read as a float. -/
def Numeral.float? (n : Numeral) : Option Float :=
  n.magnitude?.map fun x => if n.negative then -x else x

/-- The number as an integer, if it is written as one and fits 64 bits. -/
def Numeral.int? (n : Numeral) : Option Int :=
  let value := digitsValue n.whole
  if !n.isWhole then none
  else if n.negative then
    if 0 < value && value ≤ twoTo 63 then some (-(value : Int)) else none
  else if value < significandLimit then some value else none

/-- The value of the number; nothing if it is too large for a float. -/
def Numeral.value? (n : Numeral) : Option Json :=
  match n.int? with
  | some i => some (.int i)
  | none => n.float?.map .float

/-- The number as a float, integers included. -/
def Numeral.asFloat? (n : Numeral) : Option Float :=
  match n.int? with
  | some i => some (wholeFloat (i < 0) i.natAbs)
  | none => n.float?

end QueryScore.Json
