import SyscallTrace.Argument.Braced

/-!
# Stat buffers

The file status structure is kept as its fifteen printed fields. A device field that was cut at its
comma is put together again.
-/

namespace SyscallTrace

structure StatBuffer where
  fields : List Text
  deriving DecidableEq

namespace StatBuffer

/-- The number of fields of a file status. -/
def fieldCount : Nat := 15

/-- The value of the first field with this name. -/
def get? (s : StatBuffer) (name : Text) : Option Text :=
  s.fields.findSome? fun field =>
    ((field.cutFirst? (· == '=')).filter fun x => x.1 == name).map Prod.snd

/-- The fields between braces. -/
def text (s : StatBuffer) : Text :=
  ['{'] ++ Text.joinCommas s.fields ++ ['}']

/-- The field is the first half of a device number. -/
def opensDevice (field : Text) : Bool :=
  field.startsWith "st_dev=makedev(".toList && !field.endsWith [')']

/-- Joins the halves of device numbers. -/
def mergeDevices : List Text → List Text
  | field :: next :: fields =>
    if opensDevice field then (field ++ Text.comma ++ next) :: mergeDevices fields
    else field :: mergeDevices (next :: fields)
  | fields => fields

/-- Only an address was printed, or a null pointer. -/
def isPointer (token : Text) : Bool :=
  token.startsWith "0x".toList || token == "0".toList || token == "NULL".toList

/-- Reads a buffer from the front of the tokens, and returns the tokens after it. There is no
buffer where only a pointer was printed. -/
def take (tokens : List Text) : Except CastError (Option StatBuffer × List Text) :=
  if tokens.head?.any isPointer then .ok (none, tokens.tail)
  else do
    let braced ← Braced.take .stat tokens
    let fields := mergeDevices braced.fields
    if fields.length = fieldCount then .ok (some ⟨fields⟩, braced.rest)
    else .error (.malformed .stat braced.raw (.fieldCount fieldCount fields.length))

end StatBuffer

end SyscallTrace
