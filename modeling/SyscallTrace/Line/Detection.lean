import SyscallTrace.Config
import SyscallTrace.Line.Columns
import SyscallTrace.Line.Form

/-!
# Detection of columns

The first line of a trace that shows a whole call tells which columns the trace has.
`Columns.detect` reads them off that line, and `isCallLine` tells which lines are passed over in
the search for it.
-/

namespace SyscallTrace

namespace Columns

/-- Reads the end of the call structure: the return value and the rest of the line, of which it
returns the latter. -/
def callEnd? (t : Text) : Option Text := do
  let t ← CallForm.dropEquals? t
  let after ← match t with
    | '?' :: rest => some rest
    | _ =>
      match (t.dropPrefix? ['-']).getD t with
      | c :: rest =>
        if c.isDigit then
          some (rest.dropWhile fun c => c.isDigit || ('a' ≤ c && c ≤ 'f') || c == 'x')
        else none
      | [] => none
  if CallForm.isLine after then some after else none

/-- The text before the arguments of a call, its arguments, and the text after its return value. -/
structure CallStructure where
  front : Text
  args : Text
  after : Text

def callStructure? (t : Text) : Option CallStructure := do
  let (front, t) ← CallForm.called? t
  let (args, after) ← t.latest? callEnd?
  some ⟨front, args, after⟩

/-- The column is an instruction pointer in brackets. -/
def isPointer (column : Text) : Bool :=
  column.startsWith ['['] && column.endsWith [']']

/-- The kind of timestamp that a column holds. -/
def timestampMode (config : Config) (column : Text) : Except LineFault TimestampMode :=
  if column.contains ':' then
    .ok (if column.contains '.' then .timeOfDayMicros else .timeOfDay)
  else
    match (column.cutFirst? (· == '.')).bind fun x => Decimal.int64? x.1 with
    | none => .error (.unknownTimestamp column)
    | some seconds => .ok (if config.epochThreshold < seconds.toInt then .epoch else .relative)

/-- The columns between the process and the name of the call. -/
def ofMiddle (config : Config) : List Text → Except LineFault Columns
  | [] => .ok {}
  | [column] =>
    if isPointer column then .ok { instPointer := true }
    else (timestampMode config column).map fun mode => { timestamp := mode }
  | first :: second :: others => do
    if isPointer first then throw .extraColumns
    let mode ← timestampMode config first
    if !isPointer second then throw .noPointerAfterTimestamp
    if !others.isEmpty then throw .extraColumns
    return { instPointer := true, timestamp := mode }

/-- The columns in front of the arguments of a call. -/
def ofFront (config : Config) (front : Text) : Except LineFault Columns :=
  match front.words with
  | [] => .error .extraColumns
  | [_] => .error .noPidColumn
  | pid :: rest =>
    if 3 < rest.length then .error .extraColumns
    else if !pid.all Char.isDigit then .error .pidNotNumeric
    else ofMiddle config rest.dropLast

/-- The arguments show that structures were abbreviated. -/
def isAbbreviated (args : Text) : Bool :=
  args.includes "[/*".toList && args.includes "*/]".toList || args.includes ", ...\x7d".toList

/-- Reads the columns off a line without blanks around it. -/
def ofCallLine (config : Config) (t : Text) : Except LineFault Columns := do
  if !(t.contains '(' && t.contains ')' && t.contains '=') then throw .notCall
  let call ← (callStructure? t).elim (.error .noCallStructure) .ok
  let columns ← ofFront config call.front
  if config.requireVerbose && isAbbreviated call.args then throw .abbreviated
  return { columns with elapsed := call.after.contains '<' && call.after.contains '>' }

/-- Reads the columns of a trace off a line with a whole call. -/
def detect (config : Config) (line : Text) : Except TraceError Columns :=
  (ofCallLine config line.trim).mapError (.format line.trim)

end Columns

/-- The word can stand in front of a call: digits, points and colons, or anything in brackets. -/
def isLeadingColumn (column : Text) : Bool :=
  column.all (fun c => c.isDigit || c == '.' || c == ':') || Columns.isPointer column

/-- Takes at most `n` columns off the front. -/
def dropLeadingColumns : Nat → Text → Text
  | 0, t => t
  | n + 1, t =>
    match t.cutFirst? Text.isBlank with
    | some (column, rest) =>
      if isLeadingColumn column then dropLeadingColumns n rest.trimStart else t
    | none => t

/-- The line can tell the columns of its trace. Blank lines, notices, and lines with an unfinished
or resumed call cannot; a malformed line can, so that it is reported. -/
def isCallLine (line : Text) : Bool :=
  let body := dropLeadingColumns 3 line.trim
  !line.trim.isEmpty && !Heading.isNotice body && !body.startsWith "<... ".toList &&
    !body.endsWith CallForm.unfinishedMark

end SyscallTrace
