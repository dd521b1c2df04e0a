import SyscallTrace.Line.Fault

/-!
# File contents

The text of a file, or the reason why it has none.
-/

namespace SyscallTrace

/-- The contents of a file that was read, or the reason why it could not be. -/
abbrev FileText := Except ReadFailure Text

/-- The text that bytes encode. -/
def FileText.ofBytes (bytes : ByteArray) : FileText :=
  match String.fromUTF8? bytes with
  | some s => .ok s.toList
  | none => .error .notUtf8

end SyscallTrace
