/-!
# `Text/Elapsed.lean` — durations

A duration is written in the largest of the units s, ms, µs and ns in which it is at least one, with
the rest as an exact decimal fraction.
-/

set_option autoImplicit false

namespace GeneticRepair

/-- A span of time in seconds and nanoseconds. -/
structure Elapsed where
  seconds : Nat
  /-- The rest in nanoseconds, below `10 ^ 9`. -/
  nanoseconds : Nat
deriving DecidableEq

namespace Elapsed

/-- A number with a fraction of the given number of places, without the zeros at its end. -/
def decimal (whole fraction places : Nat) : String :=
  let digits := (toString fraction).toList
  let padded := List.replicate (places - digits.length) '0' ++ digits
  let kept := (padded.reverse.dropWhile (· == '0')).reverse
  if kept.isEmpty then toString whole else s!"{whole}.{String.ofList kept}"

def text (t : Elapsed) : String :=
  let n := t.nanoseconds
  if 0 < t.seconds then decimal t.seconds n 9 ++ "s"
  else if Nat.pow 10 6 ≤ n then decimal (n / Nat.pow 10 6) (n % Nat.pow 10 6) 6 ++ "ms"
  else if Nat.pow 10 3 ≤ n then decimal (n / Nat.pow 10 3) (n % Nat.pow 10 3) 3 ++ "µs"
  else decimal n 0 0 ++ "ns"

end Elapsed

end GeneticRepair
