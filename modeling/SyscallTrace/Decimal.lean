import SyscallTrace.Text.Basic

/-!
# Decimal numbers

Numbers written with ASCII digits. An unsigned number may carry a plus sign, a signed one a plus or
a minus sign; leading zeros are allowed, and a number outside its word is refused.
-/

namespace SyscallTrace.Decimal

/-- A non-empty run of ASCII digits. -/
def isDigits (t : Text) : Bool :=
  !t.isEmpty && t.all Char.isDigit

/-- The number written by a run of digits. -/
def valueOf (t : Text) : Nat :=
  Nat.ofDigitChars 10 t 0

/-- Reads a run of digits. -/
def digits? (t : Text) : Option Nat :=
  if isDigits t then some (valueOf t) else none

/-- Reads digits with an optional plus sign. -/
def unsigned? : Text → Option Nat
  | '+' :: t => digits? t
  | t => digits? t

/-- Reads digits with an optional sign. -/
def signed? : Text → Option Int
  | '-' :: t => (digits? t).map fun n => -(n : Int)
  | '+' :: t => (digits? t).map fun n => (n : Int)
  | t => (digits? t).map fun n => (n : Int)

/-- Reads an unsigned number below `bound`. -/
def below? (bound : Nat) (t : Text) : Option Nat :=
  (unsigned? t).filter fun n => n < bound

def uint8? (t : Text) : Option UInt8 := (below? (Nat.pow 2 8) t).map UInt8.ofNat

def uint16? (t : Text) : Option UInt16 := (below? (Nat.pow 2 16) t).map UInt16.ofNat

def uint32? (t : Text) : Option UInt32 := (below? (Nat.pow 2 32) t).map UInt32.ofNat

/-- The number fits a signed word of 64 bits. -/
def fitsInt64 (v : Int) : Bool :=
  -Int.pow 2 63 ≤ v && v < Int.pow 2 63

def int64? (t : Text) : Option Int64 :=
  ((signed? t).filter fitsInt64).map Int64.ofInt

/-- The digits of a number, without leading zeros. -/
def ofNat (n : Nat) : Text := Nat.toDigits 10 n

/-- The digits of a number, after a minus sign if it is negative. -/
def ofInt : Int → Text
  | .ofNat n => ofNat n
  | .negSucc n => '-' :: ofNat (n + 1)

end SyscallTrace.Decimal
