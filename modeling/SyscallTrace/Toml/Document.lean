import SyscallTrace.Toml.Scalar
import SyscallTrace.Toml.Table

/-!
# TOML documents

A document is a list of statements: headers of tables, headers of arrays of tables, and keys with
values. `Toml.parse?` reads a whole document into its outermost table. Keys have at most
`depthLimit` parts, and as many brackets at most are open at a time. The readers of nested values
and of statements stop after as many steps as the document has characters, which is more than they
can take.
-/

namespace SyscallTrace.Toml

/-- Takes blanks, comments and ends of lines off the front. A control character in a comment ends
it, and nothing that may follow starts with one. -/
def dropFiller (inComment : Bool) : Text → Text
  | [] => []
  | '\r' :: '\n' :: t => dropFiller false t
  | c :: t =>
    if c = '\n' then dropFiller false t
    else if inComment then if isPlain c then dropFiller true t else c :: t
    else if isBlank c then dropFiller false t
    else if c = '#' then dropFiller true t
    else c :: t

/-- How deep values nest at most, and how many parts a key has at most. -/
def depthLimit : Nat := 80

/-- Reads the parts of a key, with points between them. -/
def keyParts? : Nat → Text → Option (List Text × Text)
  | 0, _ => none
  | steps + 1, t => do
    let (part, t) ← simpleKey? t
    match dropBlanks t with
    | '.' :: t => (keyParts? steps (dropBlanks t)).map fun r => (part :: r.1, r.2)
    | t => some ([part], t)

/-- Reads a key and the blanks after it. -/
def key? (steps : Nat) (t : Text) : Option (List Text × Text) :=
  (keyParts? steps t).filter fun r => r.1.length ≤ depthLimit

mutual

/-- Reads a value in which at most `depth` brackets are open at a time. -/
def value? : Nat → Nat → Text → Option (Value × Text)
  | 0, _, _ => none
  | steps + 1, depth, t =>
    match t, depth with
    | '[' :: t, depth + 1 =>
      (items? steps depth (dropFiller false t)).map fun r => (.array r.1, r.2)
    | '\x7b' :: t, depth + 1 => do
      let (nodes, t) ← members? steps depth [] (dropFiller false t)
      some (.table (Nodes.toMembers nodes), t)
    | '"' :: _, _ => (quoted? t).map fun r => (.string r.1, r.2)
    | '\'' :: _, _ => (quoted? t).map fun r => (.string r.1, r.2)
    | t, _ => scalar? t

/-- Reads the items of an array up to its closing bracket. A comma may follow the last one. -/
def items? : Nat → Nat → Text → Option (List Value × Text)
  | 0, _, _ => none
  | steps + 1, depth, t =>
    match t with
    | ']' :: t => some ([], t)
    | t => do
      let (v, t) ← value? steps depth t
      match dropFiller false t with
      | ',' :: t => (items? steps depth (dropFiller false t)).map fun r => (v :: r.1, r.2)
      | ']' :: t => some ([v], t)
      | _ => none

/-- Reads the members of an inline table up to its closing brace. A comma may follow the last
one. -/
def members? : Nat → Nat → Nodes → Text → Option (Nodes × Text)
  | 0, _, _, _ => none
  | steps + 1, depth, nodes, t =>
    match t with
    | '\x7d' :: t => some (nodes, t)
    | t => do
      let (path, t) ← key? steps t
      let t ← (dropFiller false t).dropPrefix? ['=']
      let (v, t) ← value? steps depth (dropFiller false t)
      let nodes ← nodes.assign? v path
      match dropFiller false t with
      | ',' :: t => members? steps depth nodes (dropFiller false t)
      | '\x7d' :: t => some (nodes, t)
      | _ => none

end

/-- One statement of a document. -/
inductive Statement where
  | header (path : List Text)
  | arrayHeader (path : List Text)
  | assignment (path : List Text) (value : Value)

/-- Reads one statement. -/
def statement? (steps : Nat) (t : Text) : Option (Statement × Text) :=
  match t with
  | '[' :: '[' :: t => do
    let (path, t) ← key? steps (dropBlanks t)
    some (.arrayHeader path, ← t.dropPrefix? "]]".toList)
  | '[' :: t => do
    let (path, t) ← key? steps (dropBlanks t)
    some (.header path, ← t.dropPrefix? [']'])
  | t => do
    let (path, t) ← key? steps t
    let (v, t) ← value? steps depthLimit (dropBlanks (← t.dropPrefix? ['=']))
    some (.assignment path v, t)

/-- Takes the rest of a line after a statement: blanks, a comment and the end of the line. -/
def dropLineEnd? (t : Text) : Option Text :=
  let t := match dropBlanks t with
    | '#' :: t => t.dropWhile isPlain
    | t => t
  if t.isEmpty then some [] else dropNewline? t

/-- The tables of a document so far, and the key of the last header. -/
structure Progress where
  nodes : Nodes := []
  path : List Text := []

/-- Carries out a statement. -/
def Progress.apply? (p : Progress) : Statement → Option Progress
  | .header path => (p.nodes.defineTable? path).map fun nodes => ⟨nodes, path⟩
  | .arrayHeader path => (p.nodes.addTable? path).map fun nodes => ⟨nodes, path⟩
  | .assignment path v => (p.nodes.within? (Nodes.assign? v path) p.path).map fun nodes =>
      ⟨nodes, p.path⟩

/-- Carries out the statements of a text. -/
def statements? : Nat → Progress → Text → Option Progress
  | 0, _, _ => none
  | steps + 1, p, t =>
    match dropFiller false t with
    | [] => some p
    | t => do
      let (s, t) ← statement? steps t
      statements? steps (← p.apply? s) (← dropLineEnd? t)

/-- Reads a document. A mark of byte order in front does not count. -/
def parse? (t : Text) : Option Value :=
  let t := (t.dropPrefix? ['\ufeff']).getD t
  (statements? (t.length + 2) {} t).map fun p => .table (Nodes.toMembers p.nodes)

end SyscallTrace.Toml
