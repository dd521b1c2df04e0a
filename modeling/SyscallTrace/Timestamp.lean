import SyscallTrace.Duration

/-!
# Timestamps

A tracer prints at most one kind of timestamp in front of its calls: the time since the previous
call, a time of day with or without a fraction, or the time since the epoch. `Timestamp.ofText?`
reads a column as its mode says and keeps the printed text.
-/

namespace SyscallTrace

/-- The kind of timestamp that a trace carries. -/
inductive TimestampMode where
  | absent
  | relative
  | timeOfDay
  | timeOfDayMicros
  | epoch
  deriving DecidableEq

/-- The option of the tracer that prints such timestamps. -/
def TimestampMode.flag? : TimestampMode → Option Text
  | .absent => none
  | .relative => some "-r".toList
  | .timeOfDay => some "-t".toList
  | .timeOfDayMicros => some "-tt".toList
  | .epoch => some "-ttt".toList

structure TimeOfDay where
  hour : Nat
  minute : Nat
  second : Nat
  micros : Nat
  deriving DecidableEq

namespace TimeOfDay

/-- Reads the part after the point: one to six digits. -/
def micros? (t : Text) : Option Nat :=
  if Decimal.isDigits t && t.length ≤ 6 then some (Duration.fraction 6 t) else none

/-- Reads hours, minutes and seconds between colons. -/
def clock? (t : Text) : Option (Nat × Nat × Nat) :=
  match t.splitOn ':' with
  | [h, m, s] => do
    let h ← Decimal.below? 24 h
    let m ← Decimal.below? 60 m
    let s ← Decimal.below? 60 s
    some (h, m, s)
  | _ => none

/-- Reads a clock with an optional fraction of a second. -/
def ofText? (t : Text) : Option TimeOfDay :=
  match t.cutFirst? (· == '.') with
  | none => (clock? t).map fun (h, m, s) => ⟨h, m, s, 0⟩
  | some (clock, part) => do
    let (h, m, s) ← clock? clock
    let micros ← micros? part
    some ⟨h, m, s, micros⟩

end TimeOfDay

/-- What a timestamp says under the mode of its trace. -/
inductive TimestampValue where
  | timeOfDay (time : TimeOfDay)
  | epoch (nanos : Nat)
  | relative (elapsed : Duration)
  deriving DecidableEq

/-- A timestamp column as printed, and what it says. -/
structure Timestamp where
  raw : Text
  value : TimestampValue
  deriving DecidableEq

namespace Timestamp

/-- The last nanosecond of the year 9999, counted from the epoch. -/
def lastNanos : Nat := 253402300799999999999

/-- Reads a timestamp column as `mode` says. -/
def ofText? (mode : TimestampMode) (raw : Text) : Option Timestamp :=
  match mode with
  | .absent => none
  | .timeOfDay | .timeOfDayMicros =>
    (TimeOfDay.ofText? raw).map fun time => ⟨raw, .timeOfDay time⟩
  | .epoch =>
    ((Duration.ofText? raw).filter fun d => d.totalNanos ≤ lastNanos).map fun d =>
      ⟨raw, .epoch d.totalNanos⟩
  | .relative => (Duration.ofText? raw).map fun d => ⟨raw, .relative d⟩

end Timestamp

end SyscallTrace
