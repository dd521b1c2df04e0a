import SyscallTrace.Text.Basic
import SyscallTrace.Text.Printable

/-!
# Quoted texts

Messages show texts between double quotes, with escapes for the quote, the backslash, the common
controls and everything else that has no visible form of its own. An apostrophe stays as it is.
-/

namespace SyscallTrace.Text

/-- The form of one character inside quotes. -/
def escape (c : Char) : Text :=
  match c with
  | '"' => ['\\', '"']
  | '\\' => ['\\', '\\']
  | '\n' => ['\\', 'n']
  | '\r' => ['\\', 'r']
  | '\t' => ['\\', 't']
  | '\x00' => ['\\', '0']
  | _ =>
    if isPrintable c then [c]
    else "\\u\x7b".toList ++ Nat.toDigits 16 c.toNat ++ "\x7d".toList

/-- The text between quotes. -/
def quote (t : Text) : Text :=
  '"' :: t.flatMap escape ++ ['"']

/-- The quoted items of a list, in brackets. -/
def quoteList (ts : List Text) : Text :=
  '[' :: joinCommas (ts.map quote) ++ [']']

/-- A quoted text that may be absent. -/
def quoteOption : Option Text → Text
  | none => "None".toList
  | some t => "Some(".toList ++ quote t ++ ")".toList

end SyscallTrace.Text
