import SyscallTrace.Argument.CastError

/-!
# Errors of traces

A trace fails at a line of the wrong form, at a resumed call that nothing started, at arguments
that do not fit their parameters, or at a file that cannot be read. Each error names its cause, and
`TraceError.message` has the wording.
-/

namespace SyscallTrace

/-- What is wrong with the form of a line, or of a trace that has no line to go by. -/
inductive LineFault where
  | noCalls
  | notCall
  | noCallStructure
  | noPidColumn
  | pidNotNumeric
  | extraColumns
  | unknownTimestamp (column : Text)
  | noPointerAfterTimestamp
  | abbreviated
  | noPid
  | pidOutOfRange
  | noTimestamp
  | noInstPointer
  | unknownForm
  | unknownReturn (text : Text)
  | negativeReturn (value : Int64)
  | invalidLabel (word : Text)
  | noElapsed
  | invalidElapsed (text : Text)
  | invalidTimestamp (raw : Text)
  deriving DecidableEq

def LineFault.text : LineFault → Text
  | noCalls => "trace contains no syscall lines".toList
  | notCall => "not a syscall line".toList
  | noCallStructure => "unable to find the call structure of the first syscall".toList
  | noPidColumn => "no pid column; strace -f required".toList
  | pidNotNumeric => "pid column is not numeric".toList
  | extraColumns => "unexpected columns before syscall name".toList
  | unknownTimestamp column => "unrecognized timestamp column ".toList ++ column.quote
  | noPointerAfterTimestamp => "expected an instruction pointer after the timestamp".toList
  | abbreviated => "structures are abbreviated; strace -v required".toList
  | noPid => "expected a pid column".toList
  | pidOutOfRange => "pid out of range".toList
  | noTimestamp => "expected a timestamp column".toList
  | noInstPointer => "expected an instruction pointer column".toList
  | unknownForm => "unrecognized syscall line".toList
  | unknownReturn text => "unrecognized return value ".toList ++ text.quote
  | negativeReturn value => "unexpected negative return value ".toList ++ Decimal.ofInt value.toInt
  | invalidLabel word => "invalid error label ".toList ++ word.quote
  | noElapsed => "missing elapsed time".toList
  | invalidElapsed text => "invalid elapsed time ".toList ++ text.quote
  | invalidTimestamp raw => "invalid timestamp ".toList ++ raw.quote

/-- Why a file gives no text. -/
inductive ReadFailure where
  | notFound
  | notDirectory
  | isDirectory
  | nameTooLong
  | notUtf8
  deriving DecidableEq

def ReadFailure.message : ReadFailure → Text
  | notFound => "No such file or directory (os error 2)".toList
  | notDirectory => "Not a directory (os error 20)".toList
  | isDirectory => "Is a directory (os error 21)".toList
  | nameTooLong => "File name too long (os error 36)".toList
  | notUtf8 => "stream did not contain valid UTF-8".toList

/-- Why a trace cannot be parsed. -/
inductive TraceError where
  | format (line : Text) (fault : LineFault)
  | danglingResume (line : Text) (pid : UInt32) (name : Text)
  | cast (line : Text) (cause : CastError)
  | unreadable (path : Text) (cause : ReadFailure)
  deriving DecidableEq

namespace TraceError

def message : TraceError → Text
  | format line fault =>
    "unexpected trace line format (".toList ++ fault.text ++ "); line was: ".toList ++ line.quote
  | danglingResume line pid name =>
    "found resumed syscall ".toList ++ name ++ " for pid ".toList ++ Decimal.ofNat pid.toNat ++
      " without a matching unfinished call; line was: ".toList ++ line.quote
  | cast line _ => "unable to cast arguments of trace line ".toList ++ line.quote
  | unreadable path _ => "failed to read trace file ".toList ++ path.quote

/-- The message of the error underneath, if there is one. -/
def cause? : TraceError → Option Text
  | cast _ cause => some cause.message
  | unreadable _ cause => some cause.message
  | format _ _ | danglingResume _ _ _ => none

end TraceError

end SyscallTrace
