import SyscallTrace.Argument.Permission

/-!
# Flags

A flags argument is a list of symbols between bars. Pieces that are octal modes are written out as
permission symbols; a token that is the mode 0 stays as it is.
-/

namespace SyscallTrace.Flags

/-- The flags of one piece between bars. -/
def ofPiece (t : Text) : List Text :=
  if Decimal.isDigits t then
    match Permission.ofOctal? t with
    | .ok permissions => permissions.map Permission.symbol
    | .error _ => [t]
  else [t]

/-- The flags of a token. -/
def ofToken (t : Text) : List Text :=
  if Decimal.isDigits t && (ofPiece t).isEmpty then [t]
  else (t.splitOn '|').flatMap ofPiece

/-- Why a token of digits is kept as it is, if it is. -/
def keptVerbatim? (t : Text) : Option ModeError :=
  if Decimal.isDigits t then
    match Permission.ofOctal? t with
    | .ok _ => none
    | .error e => some e
  else none

/-- The flags between bars, or 0 if there is none. -/
def text (flags : List Text) : Text :=
  if flags.isEmpty then ['0'] else ['|'].intercalate flags

end SyscallTrace.Flags
