import SyscallTrace.Catalog
import SyscallTrace.Decimal

/-!
# Argument kinds

How the value of a parameter is represented. `ArgumentKind.select` decides by the declared type,
then by the name of the parameter, and for numbers that may also be symbols by the shape of the
next token.
-/

namespace SyscallTrace

inductive ArgumentKind where
  | int
  | hex
  | fileDescriptor
  | filepath
  | flags
  | sockaddr
  | stat
  | pollFdList
  | unimplemented
  deriving DecidableEq

namespace ArgumentKind

/-- The kind in words. -/
def text : ArgumentKind → Text
  | int => "int".toList
  | hex => "hex".toList
  | fileDescriptor => "file descriptor".toList
  | filepath => "file path".toList
  | flags => "flags".toList
  | sockaddr => "sockaddr".toList
  | stat => "stat".toList
  | pollFdList => "pollfd list".toList
  | unimplemented => "unimplemented".toList

/-- Parameters such as fd, oldfd and fd_in hold descriptors; nfds is a count. -/
def namesDescriptor (name : Text) : Bool :=
  name.startsWith "fd".toList && !name.startsWith "fds".toList || name.endsWith "fd".toList

/-- Parameters whose name says that they hold symbols. -/
def namesFlags (syscall name type : Text) : Bool :=
  name.includes "flag".toList || name.includes "mode".toList || name.includes "prot".toList ||
    name.includes "domain".toList ||
    syscall.includes "socket".toList && type == "int".toList && name.includes "type".toList

/-- What stands between brackets. -/
def bracketed? (t : Text) : Option Text :=
  (t.dropPrefix? ['[']).bind fun r => r.dropSuffix? [']']

/-- The kind of a parameter with an integer type. -/
def ofInteger (syscall : Text) (p : Parameter) (type token : Text) : ArgumentKind :=
  if namesDescriptor p.name then fileDescriptor
  else if namesFlags syscall p.name type then flags
  else if p.isPointer then
    if (bracketed? token).any Decimal.isDigits then int else hex
  else if type = "off_t".toList ∨ type = "size_t".toList then hex
  else if Decimal.isDigits token then int
  else flags

/-- The kind of a parameter whose next token is `token`. -/
def select (syscall : Text) (p : Parameter) (token : Text) : ArgumentKind :=
  match p.type? with
  | none => unimplemented
  | some type =>
    if type = "char".toList then
      if p.isPointer && (p.name.includes "path".toList || p.name.includes "filename".toList) then
        filepath
      else unimplemented
    else if type = "pollfd".toList then
      if p.isPointer then pollFdList else unimplemented
    else if type = "int".toList ∨ type.endsWith "_t".toList then
      ofInteger syscall p type token
    else if type = "sockaddr".toList then sockaddr
    else if (type = "stat".toList ∨ type = "stat64".toList) ∧ p.isStruct then stat
    else unimplemented

end ArgumentKind

end SyscallTrace
