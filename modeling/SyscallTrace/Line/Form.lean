import SyscallTrace.Text.Basic
import SyscallTrace.Text.DecimalDigit

/-!
# Forms of calls

After the columns, a line shows a call in one of four forms: complete, unfinished, resumed, or
resumed and interrupted again. Each form is recognised by its fixed marks. The argument text may
hold any of the marks itself, so the last place counts at which the line can end as its form says.
-/

namespace SyscallTrace

/-- A call as a line shows it: its name, the text of its arguments and, if it finished, the text of
its return value and the text after that. -/
inductive CallForm where
  | complete (name args ret rest : Text)
  | unfinished (name args : Text)
  | continued (name args : Text)
  | resumed (name args ret rest : Text)
  deriving DecidableEq

namespace CallForm

/-- Ends a line whose call goes on. -/
def unfinishedMark : Text := "<unfinished ...>".toList

/-- A non-empty run of blanks is taken off. -/
def dropBlanks? (t : Text) : Option Text :=
  if t.head?.any Text.isBlank then some t.trimStart else none

/-- Takes the closing parenthesis, the equals sign and the blanks around it. -/
def dropEquals? (t : Text) : Option Text := do
  let t ← t.dropPrefix? [')']
  let t ← dropBlanks? t
  let t ← t.dropPrefix? ['=']
  dropBlanks? t

def isLine (t : Text) : Bool :=
  !t.contains '\n'

/-- The characters of a return value. -/
def isReturnChar (c : Char) : Bool :=
  ('a' ≤ c && c ≤ 'f') || c == 'x' || Text.isDecimalDigit c || c == '-' || c == '?'

/-- Reads the end of a finished call: its return value and the rest of the line. -/
def returned? (t : Text) : Option (Text × Text) := do
  let t ← dropEquals? t
  let ret := t.takeWhile isReturnChar
  let rest := t.dropWhile isReturnChar
  if ret.isEmpty || !isLine rest then none else some (ret, rest)

/-- The line ends with the mark of an unfinished call. -/
def interrupted? (t : Text) : Option Unit :=
  if t = unfinishedMark then some () else none

/-- The line ends with the mark of an unfinished call, or with the mark and a call that does not
return. -/
def interruptedAgain? (t : Text) : Option Unit := do
  let t ← t.dropPrefix? unfinishedMark
  if t.isEmpty then some ()
  else
    match ← dropEquals? t with
    | '?' :: rest => if isLine rest then some () else none
    | _ => none

/-- The name before the first parenthesis, and the text after it. -/
def called? (t : Text) : Option (Text × Text) :=
  (t.cutFirst? (· == '(')).filter fun x => !x.1.isEmpty

/-- The name of a resumed call, and the text after its mark. -/
def resumption? (t : Text) : Option (Text × Text) := do
  let t ← t.dropPrefix? "<... ".toList
  let name := t.takeWhile fun c => !Text.isBlank c
  let rest ← Text.dropPrefix? (t.dropWhile fun c => !Text.isBlank c) " resumed>".toList
  if name.isEmpty then none else some (name, rest)

/-- The arguments of a resumed call go on with the list, and may start with its comma. -/
def resumedArgs (t : Text) : Text :=
  (t.trim.dropPrefix? [',']).getD t.trim

def continued? (t : Text) : Option CallForm := do
  let (name, t) ← resumption? t
  let (args, _) ← t.latest? interruptedAgain?
  some (continued name (resumedArgs args))

def unfinished? (t : Text) : Option CallForm := do
  let (name, t) ← called? t
  let (args, _) ← t.latest? interrupted?
  some (unfinished name args)

def resumed? (t : Text) : Option CallForm := do
  let (name, t) ← resumption? t
  let (args, ret, rest) ← t.latest? returned?
  some (resumed name (resumedArgs args) ret rest)

def complete? (t : Text) : Option CallForm := do
  let (name, t) ← called? t
  let (args, ret, rest) ← t.latest? returned?
  some (complete name args ret rest)

/-- Reads the form of a call. -/
def ofText? (t : Text) : Option CallForm :=
  continued? t <|> unfinished? t <|> resumed? t <|> complete? t

end CallForm

end SyscallTrace
