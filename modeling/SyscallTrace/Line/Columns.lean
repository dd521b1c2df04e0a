import SyscallTrace.Line.Fault
import SyscallTrace.Timestamp

/-!
# Columns

Every line of a trace starts with the process that made the call. Options of the tracer add a
timestamp and an instruction pointer before the call and an elapsed time after it. `Columns` says
which of them a trace has, and `Heading.take` reads them from the front of a line.
-/

namespace SyscallTrace

/-- The optional columns of a trace. -/
structure Columns where
  instPointer : Bool := false
  timestamp : TimestampMode := .absent
  elapsed : Bool := false
  deriving DecidableEq

/-- The options of the tracer that print these columns. -/
def Columns.text (c : Columns) : Text :=
  [' '].intercalate <|
    ["-f".toList] ++ (if c.instPointer then ["-i".toList] else []) ++ c.timestamp.flag?.toList ++
      (if c.elapsed then ["-T".toList] else []) ++ ["-v".toList]

/-- What the columns before a call hold. -/
structure Heading where
  pid : UInt32
  timestamp : Option Text
  instPointer : Option Text
  deriving DecidableEq

namespace Heading

/-- Takes the gap after a column. -/
def dropGap? (t : Text) : Option Text :=
  if t.head?.any Text.isGap then some (t.dropWhile Text.isGap) else none

/-- Takes a non-empty column of characters that satisfy `p`, and the gap after it. -/
def takeColumn? (p : Char → Bool) (t : Text) : Option (Text × Text) :=
  if (t.takeWhile p).isEmpty then none
  else (dropGap? (t.dropWhile p)).map fun rest => (t.takeWhile p, rest)

def takePid (t : Text) : Except LineFault (UInt32 × Text) :=
  match takeColumn? Char.isDigit t with
  | none => .error .noPid
  | some (digits, rest) =>
    (Decimal.uint32? digits).elim (.error .pidOutOfRange) fun pid => .ok (pid, rest)

def takeTimestamp (mode : TimestampMode) (t : Text) : Except LineFault (Option Text × Text) :=
  if mode = .absent then .ok (none, t)
  else
    (takeColumn? (fun c => !Text.isBlank c) t).elim (.error .noTimestamp) fun x =>
      .ok (some x.1, x.2)

/-- The text between the brackets at the front, and the text after the gap that follows. -/
def bracketed? (t : Text) : Option (Text × Text) := do
  let inner ← t.dropPrefix? ['[']
  let (pointer, rest) ← inner.cutFirst? (· == ']')
  if pointer.isEmpty then none else (dropGap? rest).map fun rest => (pointer, rest)

def takeInstPointer (present : Bool) (t : Text) : Except LineFault (Option Text × Text) :=
  if present then
    (bracketed? t).elim (.error .noInstPointer) fun x => .ok (some x.1, x.2)
  else .ok (none, t)

/-- The rest of a line that reports a signal or the end of a process. -/
def isNotice (t : Text) : Bool :=
  t.startsWith "+++".toList || t.startsWith "---".toList

/-- Reads the columns at the front of a line, and returns the text after them. A line that reports
a signal or the end of a process has no call; it may leave out columns. -/
def take (columns : Columns) (t : Text) : Except LineFault (Option (Heading × Text)) := do
  let (pid, t) ← takePid t
  if isNotice t then return none
  let (timestamp, t) ← takeTimestamp columns.timestamp t
  if isNotice t then return none
  let (instPointer, t) ← takeInstPointer columns.instPointer t
  if isNotice t then return none
  return some (⟨pid, timestamp, instPointer⟩, t)

end Heading

end SyscallTrace
