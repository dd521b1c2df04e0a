import SyscallTrace.Pending

/-!
# Records and diagnostics

A record is a call with typed arguments, together with the lines that it was built from. Where the
catalog does not know the syscall or has no representation for a parameter, the tokens are kept as
they are and a diagnostic says so.
-/

namespace SyscallTrace

structure Record where
  /-- The line that the record was built from; for a resumed call, the resumed line. -/
  originalLine : Text
  /-- The line that started a resumed call. -/
  unfinishedLine : Option Text
  kind : CallKind
  pid : UInt32
  name : Text
  args : List ArgumentValue
  /-- Missing from a call that never resumed. -/
  ret : Option Return
  instPointer : Option Text
  timestamp : Option Timestamp
  elapsed : Option Duration
  deriving DecidableEq

/-- What a parse left untyped, with the number of the line. -/
inductive Diagnostic where
  | unknownSyscall (name : Text) (line : Nat)
  | untypedParameter (syscall : Text) (parameter : UntypedParameter) (line : Nat)
  deriving DecidableEq

namespace Diagnostic

def line : Diagnostic → Nat
  | unknownSyscall _ line | untypedParameter _ _ line => line

def text : Diagnostic → Text
  | unknownSyscall name line =>
    "line ".toList ++ Decimal.ofNat line ++ ": syscall ".toList ++ name ++
      " is not in the definition catalog".toList
  | untypedParameter syscall parameter line =>
    "line ".toList ++ Decimal.ofNat line ++ ": parameter ".toList ++ parameter.name ++
      " of ".toList ++ syscall ++ " has unmodeled type ".toList ++
      parameter.type?.getD "(none)".toList

end Diagnostic

namespace Record

/-- The call returned, and not with an error. -/
def isSuccessful (r : Record) : Bool :=
  r.ret.any fun ret => ret.value != .int (-1) && ret.value != .noReturn

/-- The call as a tracer prints it. -/
def text (r : Record) : Text :=
  Decimal.ofNat r.pid.toNat ++ [' '] ++ r.name ++ ['('] ++ renderArguments r.args ++
    match r.ret with
    | some ret => ") = ".toList ++ ret.text
    | none => " <unfinished ...>".toList

/-- Types the tokens of a call, and reports what stays untyped. -/
def typeArguments (catalog : Catalog) (c : Call) (lineNumber : Nat) :
    Except CastError (List ArgumentValue × List Diagnostic) :=
  match catalog.resolve c.name with
  | none => .ok (c.args.map .unimplemented, [.unknownSyscall c.name lineNumber])
  | some definition =>
    (castArguments c.name c.kind definition.parameters? c.args).map fun output =>
      (output.arguments, output.untyped.map fun p => .untypedParameter c.name p lineNumber)

/-- Reads the timestamp of a call, if it has one. -/
def readTimestamp (mode : TimestampMode) : Option Text → Except LineFault (Option Timestamp)
  | none => .ok none
  | some raw => (Timestamp.ofText? mode raw).elim (.error (.invalidTimestamp raw)) fun t => .ok t

/-- Builds the record of a call, and reports what stays untyped. -/
def ofCall (catalog : Catalog) (mode : TimestampMode) (c : Call) (line : Text)
    (unfinishedLine : Option Text) (lineNumber : Nat) :
    Except TraceError (Record × List Diagnostic) := do
  let (args, diagnostics) ← (typeArguments catalog c lineNumber).mapError (.cast line)
  let timestamp ← (readTimestamp mode c.heading.timestamp).mapError (.format line)
  let record :=
    { originalLine := line
      unfinishedLine := unfinishedLine
      kind := c.kind
      pid := c.pid
      name := c.name
      args := args
      ret := c.ret?
      instPointer := c.heading.instPointer
      timestamp := timestamp
      elapsed := c.elapsed? }
  return (record, diagnostics)

end Record

end SyscallTrace
