import SyscallTrace.Decimal
import SyscallTrace.Text.Quoted

/-!
# Permission modes

An octal mode of at most three significant digits, one for each class of users, written out as
permission symbols. A digit 7 has a symbol of its own, and so has the mode 777.
-/

namespace SyscallTrace

/-- The users that one octal digit of a mode is about. -/
inductive UserClass where
  | owner
  | group
  | other
  deriving DecidableEq

inductive AccessRight where
  | read
  | write
  | execute
  deriving DecidableEq

/-- A set of access rights that has a symbol. -/
inductive Permission where
  | one (users : UserClass) (right : AccessRight)
  | full (users : UserClass)
  | everything
  deriving DecidableEq

/-- The text is no octal mode of at most three significant digits. -/
structure ModeError where
  mode : Text
  deriving DecidableEq

def ModeError.message (e : ModeError) : Text :=
  e.mode.quote ++ " is not an octal permission mode".toList

/-- The weight of the digit of these users. -/
def UserClass.weight : UserClass → Nat
  | .owner => 64
  | .group => 8
  | .other => 1

/-- The bit of this right within a digit. -/
def AccessRight.bit : AccessRight → Nat
  | .read => 4
  | .write => 2
  | .execute => 1

namespace Permission

/-- The bits of a mode that a permission stands for. -/
def bits : Permission → Nat
  | one users right => right.bit * users.weight
  | full users => 7 * users.weight
  | everything => 511

def symbol : Permission → Text
  | one .owner .read => "S_IRUSR".toList
  | one .owner .write => "S_IWUSR".toList
  | one .owner .execute => "S_IXUSR".toList
  | one .group .read => "S_IRGRP".toList
  | one .group .write => "S_IWGRP".toList
  | one .group .execute => "S_IXGRP".toList
  | one .other .read => "S_IROTH".toList
  | one .other .write => "S_IWOTH".toList
  | one .other .execute => "S_IXOTH".toList
  | full .owner => "S_IRWXU".toList
  | full .group => "S_IRWXG".toList
  | full .other => "S_IRWXO".toList
  | everything => "S_IRWXA".toList

/-- The permissions of one octal digit, from reading to executing. -/
def ofDigit (users : UserClass) (digit : Nat) : List Permission :=
  if digit = 7 then [full users]
  else [AccessRight.read, .write, .execute].filterMap fun right =>
    if digit &&& right.bit = right.bit then some (one users right) else none

/-- The permissions of a mode below 512. -/
def ofMode (mode : Nat) : List Permission :=
  if mode = 511 then [everything]
  else ofDigit .owner (mode / 64 % 8) ++ ofDigit .group (mode / 8 % 8) ++ ofDigit .other (mode % 8)

def isOctalDigit (c : Char) : Bool :=
  '0' ≤ c && c ≤ '7'

/-- Reads an octal mode. Leading zeros do not count, and the empty text is the mode 0. -/
def ofOctal? (t : Text) : Except ModeError (List Permission) :=
  let digits := t.dropWhile (· == '0')
  if t.all isOctalDigit && digits.length ≤ 3 then
    .ok (ofMode (Nat.ofDigitChars 8 digits 0))
  else .error ⟨t⟩

end Permission

end SyscallTrace
