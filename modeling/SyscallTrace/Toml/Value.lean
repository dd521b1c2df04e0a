import SyscallTrace.Text.Basic

/-!
# TOML values

The values of a TOML document. Numbers with a fraction and dates are kept as they are written,
because no setting takes them. A number that no machine number stands for does no harm as long as
nothing reads it: `Value.parts?` looks at named members and at all members that nobody named, but
never beyond the items of an array that it needs.
-/

namespace SyscallTrace.Toml

inductive Value where
  | string (text : Text)
  | integer (value : Int)
  | float (text : Text)
  /-- A number that is out of reach, or whose digits do not suit its base. -/
  | unreadable (text : Text)
  | boolean (value : Bool)
  | datetime (text : Text)
  | array (items : List Value)
  | table (members : List (Text × Value))

/-- The members of a table in the order of the document; no key occurs twice. -/
abbrev Members := List (Text × Value)

namespace Value

def string? : Value → Option Text
  | string t => some t
  | _ => none

def boolean? : Value → Option Bool
  | boolean b => some b
  | _ => none

def integer? : Value → Option Int
  | integer n => some n
  | _ => none

def array? : Value → Option (List Value)
  | array items => some items
  | _ => none

mutual

/-- No number in the value is unreadable. -/
def isReadable : Value → Bool
  | unreadable _ => false
  | array items => areReadable items
  | table members => haveReadable members
  | string _ | integer _ | float _ | boolean _ | datetime _ => true

/-- All items are readable. -/
def areReadable : List Value → Bool
  | [] => true
  | v :: items => isReadable v && areReadable items

/-- All members are readable. -/
def haveReadable : List (Text × Value) → Bool
  | [] => true
  | (_, v) :: members => isReadable v && haveReadable members

end

/-- The parts of a structure that has these names: those members of a table, or the items of an
array by position. Members with other names have to be readable. -/
def parts? (names : List Text) : Value → Option (List (Option Value))
  | table members =>
    if haveReadable (members.filter fun m => !names.contains m.1) then
      some (names.map fun n => members.lookup n)
    else none
  | array items => some (names.zipIdx.map fun n => items[n.2]?)
  | _ => none

end Value

end SyscallTrace.Toml
