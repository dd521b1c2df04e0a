import SyscallTrace.Decimal

/-!
# Compact JSON

JSON values with integers as their only numbers, and their compact texts: no blanks, members in the
order given, and escapes for the quote, the backslash and the controls only.
-/

namespace SyscallTrace

inductive Json where
  | null
  | bool (value : Bool)
  | int (value : Int)
  | string (text : Text)
  | array (items : List Json)
  | object (members : List (Text × Json))

namespace Json

/-- Four hexadecimal digits. -/
def hex4 (n : Nat) : Text :=
  let digits := Nat.toDigits 16 n
  List.replicate (4 - digits.length) '0' ++ digits

/-- The form of one character of a string. -/
def escape (c : Char) : Text :=
  match c with
  | '"' => ['\\', '"']
  | '\\' => ['\\', '\\']
  | '\x08' => ['\\', 'b']
  | '\t' => ['\\', 't']
  | '\n' => ['\\', 'n']
  | '\x0c' => ['\\', 'f']
  | '\r' => ['\\', 'r']
  | _ => if c.toNat < 0x20 then ['\\', 'u'] ++ hex4 c.toNat else [c]

def stringText (t : Text) : Text :=
  '"' :: t.flatMap escape ++ ['"']

mutual

/-- The compact text of a value. -/
def text : Json → Text
  | null => "null".toList
  | bool true => "true".toList
  | bool false => "false".toList
  | int value => Decimal.ofInt value
  | string t => stringText t
  | array items => '[' :: itemsText items ++ [']']
  | object members => '{' :: membersText members ++ ['}']

/-- The texts of items, with commas between them. -/
def itemsText : List Json → Text
  | [] => []
  | [item] => text item
  | item :: items => text item ++ ',' :: itemsText items

/-- The names and texts of members, with commas between them. -/
def membersText : List (Text × Json) → Text
  | [] => []
  | [(name, value)] => stringText name ++ ':' :: text value
  | (name, value) :: members =>
    stringText name ++ ':' :: text value ++ ',' :: membersText members

end

/-- An object with the given members. -/
def ofMembers (members : List (String × Json)) : Json :=
  object (members.map fun m => (m.1.toList, m.2))

/-- A value that may be absent. -/
def ofOption {α : Type} (f : α → Json) : Option α → Json
  | none => null
  | some x => f x

def ofString (s : String) : Json := string s.toList

end Json

end SyscallTrace
