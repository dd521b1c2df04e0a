import SyscallTrace.Argument.Flags
import SyscallTrace.Argument.PollFd
import SyscallTrace.Argument.SocketAddress
import SyscallTrace.Argument.StatBuffer

/-!
# Argument values

A typed argument of a syscall, its kind and its printed form. A placeholder stands for a parameter
that the line has no usable value for. Two placeholders agree when their parameters have the same
declared type, and other values agree when they are equal (`agrees`).
-/

namespace SyscallTrace

/-- An open file, or the mark for the current directory. -/
inductive FileDescriptor where
  | number (fd : Int64)
  | currentDirectory
  deriving DecidableEq

def FileDescriptor.text : FileDescriptor → Text
  | number fd => Decimal.ofInt fd.toInt
  | currentDirectory => "AT_FDCWD".toList

/-- Stands for a parameter without a value: the tokens ran out, or an address was printed in place
of a structure. -/
structure Placeholder where
  expected : Parameter
  given : Option Text
  deriving DecidableEq

inductive ArgumentValue where
  | int (value : Int64)
  | hex (digits : Text)
  | fileDescriptor (fd : FileDescriptor)
  | filepath (path : Text)
  | flags (symbols : List Text)
  | sockaddr (address : SocketAddress)
  | stat (buffer : StatBuffer)
  | pollFdList (list : List PollFd)
  | unimplemented (token : Text)
  | missing (placeholder : Placeholder)
  deriving DecidableEq

namespace ArgumentValue

/-- The kind of a value; a placeholder has none. -/
def kind? : ArgumentValue → Option ArgumentKind
  | int _ => some .int
  | hex _ => some .hex
  | fileDescriptor _ => some .fileDescriptor
  | filepath _ => some .filepath
  | flags _ => some .flags
  | sockaddr _ => some .sockaddr
  | stat _ => some .stat
  | pollFdList _ => some .pollFdList
  | unimplemented _ => some .unimplemented
  | missing _ => none

/-- The printed form of a value. -/
def text : ArgumentValue → Text
  | int value => Decimal.ofInt value.toInt
  | hex digits => digits
  | fileDescriptor fd => fd.text
  | filepath path => ['"'] ++ path ++ ['"']
  | flags symbols => Flags.text symbols
  | sockaddr address => address.text
  | stat buffer => buffer.text
  | pollFdList list => PollFd.listText list
  | unimplemented token => token
  | missing placeholder => placeholder.given.getD []

/-- Equality, with placeholders compared by their declared types alone. -/
def agrees : ArgumentValue → ArgumentValue → Bool
  | missing p, missing q => p.expected.type? == q.expected.type?
  | v, w => v == w

end ArgumentValue

/-- The printed forms of values with ", " between them. -/
def renderArguments (values : List ArgumentValue) : Text :=
  Text.joinCommas (values.map ArgumentValue.text)

end SyscallTrace
