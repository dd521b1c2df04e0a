import SyscallTrace.Text.Basic

/-!
# TOML strings

The four kinds of quoted strings: basic and literal ones, on one line or on several. Each reader
starts after the opening quotes, and returns the string and the text after the closing quotes.
Characters that belong to an escape are skipped one by one, so that the readers recurse on the text
alone.
-/

namespace SyscallTrace.Toml

def isBlank (c : Char) : Bool := c == ' ' || c == '\t'

def dropBlanks (t : Text) : Text := t.dropWhile isBlank

/-- The characters of comments and strings: all but the controls other than the tabulator. -/
def isPlain (c : Char) : Bool :=
  c == '\t' || (0x20 ≤ c.toNat && c.toNat != 0x7F)

/-- Takes the end of a line. -/
def dropNewline? : Text → Option Text
  | '\n' :: t => some t
  | '\r' :: '\n' :: t => some t
  | _ => none

def hexDigitValue? (c : Char) : Option Nat :=
  if c.isDigit then some (c.toNat - '0'.toNat)
  else if 'a' ≤ c && c ≤ 'f' then some (c.toNat - 'a'.toNat + 10)
  else if 'A' ≤ c && c ≤ 'F' then some (c.toNat - 'A'.toNat + 10)
  else none

/-- The number that hexadecimal digits stand for. -/
def hexValue? (t : Text) : Option Nat :=
  t.foldl (fun n c => do return 16 * (← n) + (← hexDigitValue? c)) (some 0)

/-- The character with the code point that the first `n` characters write. -/
def codePoint? (n : Nat) (t : Text) : Option Char := do
  if t.length < n then none
  let code ← hexValue? (t.take n)
  if h : code.isValidChar then some (Char.ofNatAux code h) else none

/-- Reads what follows a backslash. Returns the character it stands for, and its length. -/
def escape? : Text → Option (Char × Nat)
  | [] => none
  | c :: t =>
    match c with
    | 'b' => some ('\x08', 1)
    | 't' => some ('\t', 1)
    | 'n' => some ('\n', 1)
    | 'f' => some ('\x0c', 1)
    | 'r' => some ('\r', 1)
    | 'e' => some ('\x1b', 1)
    | '"' => some ('"', 1)
    | '\\' => some ('\\', 1)
    | 'x' => (codePoint? 2 t).map fun c => (c, 3)
    | 'u' => (codePoint? 4 t).map fun c => (c, 5)
    | 'U' => (codePoint? 8 t).map fun c => (c, 9)
    | _ => none

/-- Puts a character in front of a string that was read. -/
def consChar (c : Char) (r : Text × Text) : Text × Text := (c :: r.1, r.2)

/-- Reads a basic string, after skipping `n` characters. -/
def basicString? : Nat → Text → Option (Text × Text)
  | _, [] => none
  | n + 1, _ :: t => basicString? n t
  | 0, c :: t =>
    if c = '"' then some ([], t)
    else if c = '\\' then do
      let (escaped, n) ← escape? t
      (basicString? n t).map (consChar escaped)
    else if isPlain c then (basicString? 0 t).map (consChar c)
    else none

/-- Reads a literal string. -/
def literalString? : Text → Option (Text × Text)
  | [] => none
  | c :: t =>
    if c = '\'' then some ([], t)
    else if isPlain c then (literalString? t).map (consChar c)
    else none

/-- Takes blanks and ends of lines off the front. -/
def dropBlankLines : Text → Text
  | [] => []
  | '\r' :: '\n' :: t => dropBlankLines t
  | c :: t => if isBlank c || c == '\n' then dropBlankLines t else c :: t

/-- The quotes that close a string on several lines. Up to two more quotes right before them belong
to the string: with three to five quotes at the front, the string ends. -/
def closing? (quote : Char) (t : Text) : Option (Text × Text) :=
  let n := min 5 (t.takeWhile (· == quote)).length
  if 3 ≤ n then some (List.replicate (n - 3) quote, t.drop n) else none

/-- A backslash at the end of a line hides the end of the line and all blanks after it. Returns
the number of the characters it hides. -/
def hidden? (t : Text) : Option Nat :=
  (dropNewline? (dropBlanks t)).map fun rest => t.length - (dropBlankLines rest).length

/-- Reads a basic string on several lines, after skipping `n` characters. -/
def basicLines? : Nat → Text → Option (Text × Text)
  | _, [] => none
  | n + 1, _ :: t => basicLines? n t
  | 0, c :: t =>
    match closing? '"' (c :: t) with
    | some r => some r
    | none =>
      if c = '\\' then
        match hidden? t with
        | some n => basicLines? n t
        | none => do
          let (escaped, n) ← escape? t
          (basicLines? n t).map (consChar escaped)
      else if c = '\r' then
        if t.head? = some '\n' then (basicLines? 0 t).map (consChar c) else none
      else if isPlain c || c == '\n' then (basicLines? 0 t).map (consChar c)
      else none

/-- Reads a literal string on several lines. -/
def literalLines? : Text → Option (Text × Text)
  | [] => none
  | c :: t =>
    match closing? '\'' (c :: t) with
    | some r => some r
    | none =>
      if c = '\r' then
        if t.head? = some '\n' then (literalLines? t).map (consChar c) else none
      else if isPlain c || c == '\n' then (literalLines? t).map (consChar c)
      else none

/-- A string on several lines starts after the first end of a line, if it comes at once. -/
def dropFirstNewline (t : Text) : Text := (dropNewline? t).getD t

/-- Reads a quoted string of any kind. -/
def quoted? : Text → Option (Text × Text)
  | '"' :: '"' :: '"' :: t => basicLines? 0 (dropFirstNewline t)
  | '\'' :: '\'' :: '\'' :: t => literalLines? (dropFirstNewline t)
  | '"' :: t => basicString? 0 t
  | '\'' :: t => literalString? t
  | _ => none

def isBareKeyChar (c : Char) : Bool :=
  c.isAlphanum || c == '-' || c == '_'

/-- Reads one part of a key. -/
def simpleKey? : Text → Option (Text × Text)
  | '"' :: t => basicString? 0 t
  | '\'' :: t => literalString? t
  | t =>
    if (t.takeWhile isBareKeyChar).isEmpty then none
    else some (t.takeWhile isBareKeyChar, t.dropWhile isBareKeyChar)

end SyscallTrace.Toml
