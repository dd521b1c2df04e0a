import SyscallTrace.Line.Fault
import SyscallTrace.Duration

/-!
# Outcomes

The end of a finished call: the return value, an error label after a failure, a remark, and
the elapsed time if the trace has that column.
-/

namespace SyscallTrace

/-- What a call returned: a number, an address, or nothing. -/
inductive ReturnValue where
  | int (value : Int64)
  | pointer (address : Text)
  | noReturn
  deriving DecidableEq

/-- A return value and the name of the error, if there was one. -/
structure Return where
  value : ReturnValue
  label : Option Text
  deriving DecidableEq

structure Outcome where
  ret : Return
  elapsed : Option Duration
  remark : Option Text
  deriving DecidableEq

namespace ReturnValue

def isHexDigit (c : Char) : Bool :=
  c.isDigit || ('a' ≤ c && c ≤ 'f') || ('A' ≤ c && c ≤ 'F')

/-- Reads a number that is written without a plus sign and without leading zeros. -/
def canonicalInt64? (t : Text) : Option Int64 :=
  (Decimal.int64? t).filter fun v => Decimal.ofInt v.toInt = t

/-- Reads a return value. -/
def ofText? (t : Text) : Option ReturnValue :=
  if t = ['?'] then some .noReturn
  else
    match t.dropPrefix? "0x".toList with
    | some digits => if !digits.isEmpty && digits.all isHexDigit then some (.pointer t) else none
    | none => (canonicalInt64? t).map .int

def text : ReturnValue → Text
  | int value => Decimal.ofInt value.toInt
  | pointer address => address
  | noReturn => ['?']

end ReturnValue

/-- The value, and the error label after it. -/
def Return.text (r : Return) : Text :=
  r.value.text ++ r.label.elim [] fun label => ' ' :: label

namespace Outcome

/-- Reads a return value. A number below -1 is none. -/
def readValue (t : Text) : Except LineFault ReturnValue :=
  match ReturnValue.ofText? t with
  | none => .error (.unknownReturn t)
  | some (.int v) => if v < -1 then .error (.negativeReturn v) else .ok (.int v)
  | some value => .ok value

/-- Error names start with E and go on with capitals, digits and underscores. -/
def isErrorLabel (word : Text) : Bool :=
  word.startsWith ['E'] && word.all fun c => c.isUpper || c.isDigit || c == '_'

/-- A label follows the return value -1, and no value if the next word starts with a capital. -/
def hasLabel (value : ReturnValue) (word : Text) : Bool :=
  match value with
  | .int v => v == -1
  | .noReturn => word.head?.any Char.isUpper
  | .pointer _ => false

/-- Takes the error label from the front of the text after the return value. -/
def takeLabel (value : ReturnValue) (t : Text) : Except LineFault (Option Text × Text) :=
  let word := t.firstWord
  if hasLabel value word then
    if isErrorLabel word then .ok (some word, Text.trimStart (t.drop word.length))
    else .error (.invalidLabel word)
  else .ok (none, t)

/-- Takes the elapsed time from the last opening angle bracket on. -/
def takeElapsed (t : Text) : Except LineFault (Duration × Text) :=
  match t.cutLast? (· == '<') with
  | none => .error .noElapsed
  | some (before, after) =>
    match after.cutFirst? (· == '>') with
    | none => .error .noElapsed
    | some (elapsed, _) =>
      (Duration.ofText? elapsed).elim (.error (.invalidElapsed elapsed)) fun d =>
        .ok (d, before.trimEnd)

/-- A call that does not return has no elapsed time, unless it was interrupted. -/
def returns (r : Return) : Bool :=
  !(r.value == .noReturn && r.label.isNone)

/-- Reads an outcome from the text of the return value and the text after it. -/
def read (hasElapsed : Bool) (ret rest : Text) : Except LineFault Outcome := do
  let value ← readValue ret
  let (label, rest) ← takeLabel value rest.trim
  let (elapsed, rest) ←
    if hasElapsed && returns ⟨value, label⟩ then
      (takeElapsed rest).map fun x => (some x.1, x.2)
    else .ok (none, rest)
  return ⟨⟨value, label⟩, elapsed, if rest.isEmpty then none else some rest⟩

end Outcome

end SyscallTrace
