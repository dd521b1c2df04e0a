import SyscallTrace.Argument.Kind
import SyscallTrace.Text.Quoted

/-!
# Errors of argument readers

A token that is no value of its kind, or tokens that are no structure of their kind, with the
fault. `CastError.message` has the wording.
-/

namespace SyscallTrace

/-- What is wrong with the tokens of a structure. -/
inductive StructureFault where
  | noTokens
  | noOpeningBrace
  | noClosingBrace
  | familyNotFirst
  | unknownFamily
  | badUnixPath
  | badData
  | noData
  | inetFields
  | badPort
  | badAddress
  | invalidAddress
  | netlinkFields
  | badNetlinkPid
  | badNetlinkGroups
  | fieldCount (expected found : Nat)
  | noOpeningBracket
  | noClosingBracket
  | noDescriptor
  | eventsMissing
  | noEvents
  deriving DecidableEq

def StructureFault.text : StructureFault → Text
  | noTokens => "no tokens".toList
  | noOpeningBrace => "expected an opening '\x7b'".toList
  | noClosingBrace => "missing closing '\x7d'".toList
  | familyNotFirst => "first field must be sa_family".toList
  | unknownFamily => "unknown socket family".toList
  | badUnixPath => "bad unix path".toList
  | badData => "bad sa_data".toList
  | noData => "expected sa_data".toList
  | inetFields => "expected sin_port and sin_addr".toList
  | badPort => "bad sin_port".toList
  | badAddress => "bad sin_addr".toList
  | invalidAddress => "not a valid IPv4 address".toList
  | netlinkFields => "expected pid and groups".toList
  | badNetlinkPid => "bad netlink pid".toList
  | badNetlinkGroups => "bad netlink groups".toList
  | fieldCount expected found =>
    "expected ".toList ++ Decimal.ofNat expected ++ " fields but found ".toList ++
      Decimal.ofNat found
  | noOpeningBracket => "expected an opening '['".toList
  | noClosingBracket => "missing closing ']'".toList
  | noDescriptor => "expected \x7bfd=...".toList
  | eventsMissing => "missing events".toList
  | noEvents => "expected events=...".toList

/-- Why the tokens of a call do not fit its parameters. -/
inductive CastError where
  | value (token : Text) (target : ArgumentKind)
  | malformed (kind : ArgumentKind) (tokens : List Text) (fault : StructureFault)
  deriving DecidableEq

def CastError.message : CastError → Text
  | value token target =>
    "token ".toList ++ token.quote ++ " is not a valid ".toList ++ target.text ++ " value".toList
  | malformed kind tokens fault =>
    "malformed ".toList ++ kind.text ++ " structure (".toList ++ fault.text ++
      "); tokens were ".toList ++ Text.quoteList tokens

end SyscallTrace
