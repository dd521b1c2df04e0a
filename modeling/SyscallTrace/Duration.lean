import SyscallTrace.Decimal

/-!
# Durations

A length of time in whole seconds and nanoseconds. It is read from decimal seconds without going
through a floating-point number, so that every printed digit counts.
-/

namespace SyscallTrace

structure Duration where
  seconds : Nat
  nanos : Nat
  deriving DecidableEq

/-- Durations are compared by their seconds and, where these are equal, by their nanoseconds. -/
instance : Ord Duration where
  compare d e := (compare d.seconds e.seconds).then (compare d.nanos e.nanos)

namespace Duration

/-- The length in nanoseconds. -/
def totalNanos (d : Duration) : Nat :=
  d.seconds * Nat.pow 10 9 + d.nanos

/-- The number that `digits` stand for as the first of `places` places. -/
def fraction (places : Nat) (digits : Text) : Nat :=
  Decimal.valueOf (digits ++ List.replicate (places - digits.length) '0')

/-- Reads seconds with up to nine places. The seconds fit an unsigned word of 64 bits. -/
def ofText? (t : Text) : Option Duration :=
  let (whole, part) := (t.cutFirst? (· == '.')).getD (t, [])
  if Decimal.isDigits whole && part.all Char.isDigit && part.length ≤ 9 &&
      Decimal.valueOf whole < Nat.pow 2 64 then
    some ⟨Decimal.valueOf whole, fraction 9 part⟩
  else none

end Duration

end SyscallTrace
