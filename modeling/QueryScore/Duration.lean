/-
# QueryScore.Duration -- time limits in words

Durations are whole milliseconds. A message writes them in the largest unit that is not below
one: seconds with up to three places and no trailing zeros, else milliseconds; no time at all
is `0ns`.
-/

namespace QueryScore

/-- A duration in milliseconds. -/
abbrev Milliseconds := Nat

/-- The places after the point of a number of seconds, without trailing zeros. -/
def secondFraction (rest : Nat) : List Char :=
  let digits := Nat.toDigits 10 rest
  let padded := List.replicate (3 - digits.length) '0' ++ digits
  (padded.reverse.dropWhile (· == '0')).reverse

/-- A duration as messages write it. -/
def Milliseconds.text (ms : Milliseconds) : String :=
  if ms = 0 then "0ns"
  else if ms < 1000 then ms.repr ++ "ms"
  else
    match secondFraction (ms % 1000) with
    | [] => (ms / 1000).repr ++ "s"
    | places => (ms / 1000).repr ++ "." ++ String.ofList places ++ "s"

end QueryScore
