import SyscallTrace.Toml.Quoted
import SyscallTrace.Toml.Value

/-!
# TOML scalars

Numbers, truth values and dates: the values without quotes or brackets. Underscores may stand
between digits. A number that 128 bits or a finite float cannot hold is unreadable, and so is one
whose digits do not suit its base; dates and times are checked against the calendar and the clock.
-/

namespace SyscallTrace.Toml

/-- Removes the underscores between the characters, all of which satisfy `p`. -/
def ungroup? (p : Char → Bool) (t : Text) : Option Text :=
  let groups := t.splitOn '_'
  if groups.all fun g => !g.isEmpty && g.all p then some groups.flatten else none

/-- The sign at the front, if there is one, and the text after it. -/
def cutSign : Text → Option Char × Text
  | '+' :: t => (some '+', t)
  | '-' :: t => (some '-', t)
  | t => (none, t)

/-- Decimal digits without a leading zero. -/
def decimal? (t : Text) : Option Text :=
  (ungroup? Char.isDigit t).filter fun d => d.length == 1 || d.head? != some '0'

/-- The character is a digit of a base up to sixteen. -/
def isDigitIn (base : Nat) (c : Char) : Bool := (hexDigitValue? c).any (· < base)

/-- The number that digits of a base up to sixteen stand for. -/
def valueIn? (base : Nat) (t : Text) : Option Nat :=
  t.foldl (fun n c => do
    let d ← hexDigitValue? c
    if d < base then return base * (← n) + d else none) (some 0)

/-- An integer, if there is one and 128 bits can hold it. -/
def Value.ofInteger (text : Text) (n? : Option Int) : Value :=
  match n?.filter fun n => -Int.pow 2 127 ≤ n && n < Int.pow 2 128 with
  | some n => .integer n
  | none => .unreadable text

/-- Reads an unsigned integer with the mark of its base. Without digits it is unreadable. -/
def markedInteger? (t : Text) : Option Value :=
  let read (base : Nat) (mark : Text) : Option Value := do
    match ← t.dropPrefix? mark with
    | [] => some (.unreadable t)
    | digits => (ungroup? (isDigitIn base) digits).map fun digits =>
        .ofInteger t ((valueIn? base digits).map Int.ofNat)
  (read 16 "0x".toList).or <| (read 8 "0o".toList).or (read 2 "0b".toList)

/-- A group after an underscore can pass for digits if hexadecimal digits stand next to the
underscores. A point or the mark of an exponent gives it away. -/
def canPass (isLast : Bool) (group : Text) : Bool :=
  group.head?.any (isDigitIn 16) && (isLast || group.getLast?.any (isDigitIn 16)) &&
    group.all fun c => c != '.' && c != 'e' && c != 'E'

/-- Groups after the first underscore can pass for digits. -/
def allCanPass : List Text → Bool
  | [] => true
  | [g] => canPass true g
  | g :: groups => canPass false g && allCanPass groups

/-- Reads an integer in base ten. It is unreadable if there are other characters than digits in a
group after an underscore. -/
def decimalInteger? (t : Text) : Option Value :=
  let (sign, unsigned) := cutSign t
  let groups := unsigned.splitOn '_'
  let first := groups.headD []
  let canLead := !first.isEmpty && first.all Char.isDigit &&
    (first.head? != some '0' || unsigned == ['0'])
  if canLead && allCanPass groups.tail then
    let n? := (valueIn? 10 groups.flatten).map Int.ofNat
    some (.ofInteger t (if sign = some '-' then n?.map (- ·) else n?))
  else none

/-- Reads an integer. -/
def integer? (t : Text) : Option Value := (markedInteger? t).or (decimalInteger? t)

/-- The least number that is too large for a binary float of double width, after rounding. -/
def overflowBound : Nat := Nat.pow 2 1024 - Nat.pow 2 970

/-- The number with these digits before and after the point, times a power of ten, is finite as a
float. -/
def isFinite (whole part : Text) (exponent : Int) : Bool :=
  let digits := whole ++ part
  let mantissa := (valueIn? 10 digits).getD 0
  let shift := exponent - part.length
  let width := (digits.dropWhile (· == '0')).length
  if mantissa = 0 then true
  else if shift + width < 300 then true
  else if 320 < shift + width then false
  else mantissa * Nat.pow 10 shift.toNat < overflowBound * Nat.pow 10 (-shift).toNat

/-- Cuts off an exponent. Without one it is 0, and the flag says whether there was one. -/
def cutExponent? (t : Text) : Option (Text × Int × Bool) :=
  match t.cutFirst? (fun c => c == 'e' || c == 'E') with
  | none => some (t, 0, false)
  | some (t, e) => do
    let (sign, digits) := cutSign e
    let n ← valueIn? 10 (← ungroup? Char.isDigit digits)
    some (t, if sign = some '-' then -n else n, true)

/-- Reads a float. It is unreadable if it is too large. -/
def float? (t : Text) : Option Value := do
  let (_, unsigned) := cutSign t
  if unsigned = "inf".toList ∨ unsigned = "nan".toList then return .float t
  let (number, exponent, hasExponent) ← cutExponent? unsigned
  let (whole, part) ← match number.cutFirst? (· == '.') with
    | none => if hasExponent then some (number, []) else none
    | some (whole, part) => (ungroup? Char.isDigit part).map fun part => (whole, part)
  let whole ← decimal? whole
  return if isFinite whole part exponent then .float t else .unreadable t

/-! ## Dates and times -/

/-- Reads a number of exactly `n` digits at the front. -/
def fixedDigits? (n : Nat) (t : Text) : Option (Nat × Text) :=
  let digits := t.take n
  if digits.length = n ∧ digits.all Char.isDigit then
    some (Nat.ofDigitChars 10 digits 0, t.drop n)
  else none

def isLeapYear (year : Nat) : Bool :=
  year % 4 == 0 && (year % 100 != 0 || year % 400 == 0)

def daysIn (year month : Nat) : Nat :=
  if month = 2 then if isLeapYear year then 29 else 28
  else if [4, 6, 9, 11].contains month then 30
  else 31

/-- Takes a date. -/
def dropDate? (t : Text) : Option Text := do
  let (year, t) ← fixedDigits? 4 t
  let (month, t) ← fixedDigits? 2 (← t.dropPrefix? ['-'])
  let (day, t) ← fixedDigits? 2 (← t.dropPrefix? ['-'])
  if 1 ≤ month ∧ month ≤ 12 ∧ 1 ≤ day ∧ day ≤ daysIn year month then some t else none

/-- Takes hours and minutes. -/
def dropHourMinute? (t : Text) : Option Text := do
  let (hour, t) ← fixedDigits? 2 t
  let (minute, t) ← fixedDigits? 2 (← t.dropPrefix? [':'])
  if hour ≤ 23 ∧ minute ≤ 59 then some t else none

/-- Takes a fraction of a second, if there is one. -/
def dropFraction? (t : Text) : Option Text :=
  match t with
  | '.' :: t => if t.head?.any Char.isDigit then some (t.dropWhile Char.isDigit) else none
  | t => some t

/-- Takes a time of day. The seconds may be left out, and may count a leap second. -/
def dropTime? (t : Text) : Option Text := do
  match ← dropHourMinute? t with
  | ':' :: t =>
    let (second, t) ← fixedDigits? 2 t
    if second ≤ 60 then dropFraction? t else none
  | t => some t

/-- Takes an offset from universal time, if there is one. -/
def dropOffset? : Text → Option Text
  | 'Z' :: t => some t
  | 'z' :: t => some t
  | '+' :: t => dropHourMinute? t
  | '-' :: t => dropHourMinute? t
  | t => some t

/-- Takes the time after a date, if there is one. -/
def dropDateTime? (t : Text) : Option Text := do
  match ← dropDate? t with
  | c :: rest => if c == 'T' || c == 't' || c == ' ' then dropOffset? (← dropTime? rest) else none
  | [] => some []

/-- Reads a date, a time or both; the text is returned as it is. -/
def datetime? (t : Text) : Option Text :=
  if dropDateTime? t = some [] ∨ dropTime? t = some [] then some t else none

/-! ## Scalars -/

/-- The characters that do not end a scalar. -/
def isScalarChar (c : Char) : Bool :=
  !(isBlank c || "\n\r,=#[]\x7b\x7d".toList.contains c)

/-- A date may be followed by a blank and the time. -/
def scalarLength (t : Text) : Nat :=
  let word := t.takeWhile isScalarChar
  match t.drop word.length with
  | ' ' :: c :: rest =>
    if c.isDigit && dropDate? word == some [] then
      word.length + 1 + ((c :: rest).takeWhile isScalarChar).length
    else word.length
  | _ => word.length

/-- The value of a scalar. -/
def scalarOf? (t : Text) : Option Value :=
  if t = "true".toList then some (.boolean true)
  else if t = "false".toList then some (.boolean false)
  else
    (integer? t).or <| (float? t).or ((datetime? t).map .datetime)

/-- Reads a scalar at the front of a text. -/
def scalar? (t : Text) : Option (Value × Text) :=
  (scalarOf? (t.take (scalarLength t))).map fun v => (v, t.drop (scalarLength t))

end SyscallTrace.Toml
