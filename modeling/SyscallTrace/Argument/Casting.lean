import SyscallTrace.Argument.Token
import SyscallTrace.Argument.Value

/-!
# Casting

Casting gives each parameter of a syscall the tokens that its kind takes from the front of the
list. It stops at the first parameter without a token, and tokens after the last parameter are kept
as they are. A `Casting` records every step with its tokens, so that the arguments and the untyped
parameters are two views of one run.
-/

namespace SyscallTrace

/-- How far a line takes its call. -/
inductive CallKind where
  | complete
  | unfinished
  | resumed
  deriving DecidableEq

def CallKind.name : CallKind → Text
  | complete => "Complete".toList
  | unfinished => "Unfinished".toList
  | resumed => "Resumed".toList

/-- A parameter whose type has no typed representation. -/
structure UntypedParameter where
  name : Text
  type? : Option Text
  deriving DecidableEq

/-- One parameter, the kind chosen for it, the tokens it took and the value read from them. -/
structure CastStep where
  parameter : Parameter
  kind : ArgumentKind
  tokens : List Text
  value? : Option ArgumentValue

/-- The steps of a cast in order, the first parameter without a token, and the tokens that no
parameter took. -/
structure Casting where
  steps : List CastStep
  unfilled : Option Parameter
  rest : List Text

namespace ArgumentValue

/-- Reads an integer, in brackets or plain. -/
def readInt (token : Text) : Except CastError Int64 :=
  (Decimal.int64? ((ArgumentKind.bracketed? token).getD token)).elim
    (.error (.value token .int)) .ok

/-- The digits of an address or a size, without brackets and without the mark of base sixteen. -/
def hexDigits (token : Text) : Text :=
  let inner := (ArgumentKind.bracketed? token).getD token
  (inner.dropPrefix? "0x".toList).getD inner

/-- Reads a descriptor. Brackets around a pair of descriptors do not count. -/
def readDescriptor (token : Text) : Except CastError FileDescriptor :=
  let isBracket (c : Char) := c == '[' || c == ']'
  let inner := Text.dropEndWhile isBracket (token.dropWhile isBracket)
  if inner = "AT_FDCWD".toList then .ok .currentDirectory
  else
    (Decimal.int64? inner).elim (.error (.value token .fileDescriptor)) fun fd =>
      .ok (.number fd)

/-- Reads a value of the given kind from the tokens, and returns the tokens after it. There is no
value where only an address was printed. -/
def read (kind : ArgumentKind) (token : Text) (rest : List Text) :
    Except CastError (Option ArgumentValue × List Text) :=
  match kind with
  | .int => (readInt token).map fun v => (some (int v), rest)
  | .hex => .ok (some (hex (hexDigits token)), rest)
  | .fileDescriptor => (readDescriptor token).map fun fd => (some (fileDescriptor fd), rest)
  | .filepath => .ok ((SocketAddress.unquote? token).map filepath, rest)
  | .flags => .ok (some (flags (Flags.ofToken token)), rest)
  | .unimplemented => .ok (some (unimplemented token), rest)
  | .sockaddr => (SocketAddress.take (token :: rest)).map fun r => (r.1.map sockaddr, r.2)
  | .stat => (StatBuffer.take (token :: rest)).map fun r => (r.1.map stat, r.2)
  | .pollFdList => (PollFd.takeList (token :: rest)).map fun r => (r.1.map pollFdList, r.2)

end ArgumentValue

namespace CastStep

/-- The argument of a step: its value, or a placeholder with the first token. -/
def argument (s : CastStep) : ArgumentValue :=
  s.value?.getD (.missing ⟨s.parameter, s.tokens.head?⟩)

/-- The parameter of a step without a typed representation. -/
def untyped? (s : CastStep) : Option UntypedParameter :=
  if s.kind = .unimplemented then some ⟨s.parameter.name, s.parameter.type?⟩ else none

end CastStep

namespace Casting

/-- Casts tokens against parameters. -/
def run (syscall : Text) : List Parameter → List Text → Except CastError Casting
  | [], tokens => .ok ⟨[], none, tokens⟩
  | p :: _, [] => .ok ⟨[], some p, []⟩
  | p :: ps, token :: tokens =>
    let kind := ArgumentKind.select syscall p token
    match ArgumentValue.read kind token tokens with
    | .error e => .error e
    | .ok (value, rest) =>
      let taken := (token :: tokens).take (tokens.length + 1 - rest.length)
      match run syscall ps rest with
      | .error e => .error e
      | .ok casting => .ok { casting with steps := ⟨p, kind, taken, value⟩ :: casting.steps }

/-- The arguments of a call: those of the steps, a placeholder where the tokens of a finished call
ran out, and the remaining tokens. -/
def arguments (c : Casting) (kind : CallKind) : List ArgumentValue :=
  c.steps.map CastStep.argument ++
    (if kind = .unfinished then [] else c.unfilled.toList.map fun p => .missing ⟨p, none⟩) ++
    c.rest.map .unimplemented

/-- The parameters without a typed representation, in order. -/
def untyped (c : Casting) : List UntypedParameter :=
  c.steps.filterMap CastStep.untyped?

end Casting

/-- The arguments of a call and its parameters without a typed representation. -/
structure CastOutput where
  arguments : List ArgumentValue
  untyped : List UntypedParameter
  deriving DecidableEq

/-- Casts the tokens of a call. A syscall without a modeled signature has no parameters. -/
def castArguments (syscall : Text) (kind : CallKind) (parameters? : Option (List Parameter))
    (tokens : List Text) : Except CastError CastOutput :=
  (Casting.run syscall (parameters?.getD []) tokens).map fun c => ⟨c.arguments kind, c.untyped⟩

/-- Equality of outputs, with arguments compared by `ArgumentValue.agrees`. -/
def CastOutput.agrees (x y : CastOutput) : Bool :=
  x.arguments.length == y.arguments.length &&
    (x.arguments.zip y.arguments).all (fun p => p.1.agrees p.2) && x.untyped == y.untyped

end SyscallTrace
