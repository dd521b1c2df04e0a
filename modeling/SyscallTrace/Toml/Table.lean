import SyscallTrace.Toml.Value

/-!
# TOML tables under construction

Statements of a document add to tables that earlier statements created. How a table came about
decides what may be added: a header defines a table once, a dotted key leads through tables without
a header of their own and gives its value to a table that dotted keys created, and nothing is added
to the tables and arrays that are written as values.
-/

namespace SyscallTrace.Toml

/-- How a table came about. -/
inductive Origin where
  /-- As a step in the key of a header. -/
  | implied
  /-- By a header of its own. -/
  | header
  /-- As a step in a dotted key. -/
  | dotted
  deriving DecidableEq

/-- A value, a table, or an array of tables of which the last can be added to. -/
inductive Node where
  | value (value : Value)
  | table (origin : Origin) (members : List (Text × Node))
  | tables (earlier : List (List (Text × Node))) (last : List (Text × Node))

abbrev Nodes := List (Text × Node)

namespace Nodes

/-- Changes the node of a key, or adds one. -/
def update? (f : Option Node → Option Node) (key : Text) : Nodes → Option Nodes
  | [] => (f none).map fun n => [(key, n)]
  | (k, n) :: nodes =>
    if k = key then (f (some n)).map fun n => (k, n) :: nodes
    else (update? f key nodes).map fun nodes => (k, n) :: nodes

/-- Changes the node at the end of a header key, and creates the tables on the way. -/
def define? (f : Option Node → Option Node) : List Text → Nodes → Option Nodes
  | [], _ => none
  | [key], nodes => update? f key nodes
  | key :: path, nodes =>
    update? (fun
      | none => (define? f path []).map (.table .implied)
      | some (.table origin members) => (define? f path members).map (.table origin)
      | some (.tables earlier last) => (define? f path last).map (.tables earlier)
      | some (.value _) => none) key nodes

/-- Defines the table of a header. -/
def defineTable? : List Text → Nodes → Option Nodes :=
  define? fun
    | none => some (.table .header [])
    | some (.table .implied members) => some (.table .header members)
    | some _ => none

/-- Adds a table to the array of a header. -/
def addTable? : List Text → Nodes → Option Nodes :=
  define? fun
    | none => some (.tables [] [])
    | some (.tables earlier last) => some (.tables (earlier ++ [last]) [])
    | some _ => none

/-- Gives a value to a dotted key that has none. The flag tells whether the table at hand takes
values: the one of the header does, and those that dotted keys created. Other tables on the way are
only passed, and of an array of tables the last one. -/
def assignIn? (v : Value) : Bool → List Text → Nodes → Option Nodes
  | _, [], _ => none
  | takes, [key], nodes =>
    if takes then
      update? (fun
        | none => some (.value v)
        | some _ => none) key nodes
    else none
  | _, key :: path, nodes =>
    update? (fun
      | none => (assignIn? v true path []).map (.table .dotted)
      | some (.table .dotted members) => (assignIn? v true path members).map (.table .dotted)
      | some (.table .implied members) => (assignIn? v false path members).map (.table .implied)
      | some (.tables earlier last) => (assignIn? v false path last).map (.tables earlier)
      | some (.table .header _) | some (.value _) => none) key nodes

/-- Gives a value to a dotted key of a table that takes values. -/
def assign? (v : Value) (path : List Text) (nodes : Nodes) : Option Nodes :=
  assignIn? v true path nodes

/-- Changes the table that a header key leads to. -/
def within? (f : Nodes → Option Nodes) : List Text → Nodes → Option Nodes
  | [], nodes => f nodes
  | key :: path, nodes =>
    update? (fun
      | some (.table origin members) => (within? f path members).map (.table origin)
      | some (.tables earlier last) => (within? f path last).map (.tables earlier)
      | _ => none) key nodes

end Nodes

mutual

/-- The value of a finished node. -/
def Node.toValue : Node → Value
  | .value v => v
  | .table _ members => .table (Nodes.toMembers members)
  | .tables earlier last => .array (Nodes.toTables earlier ++ [.table (Nodes.toMembers last)])

/-- The members of a finished table. -/
def Nodes.toMembers : List (Text × Node) → Members
  | [] => []
  | (key, n) :: nodes => (key, Node.toValue n) :: Nodes.toMembers nodes

/-- The tables of a finished array. -/
def Nodes.toTables : List (List (Text × Node)) → List Value
  | [] => []
  | nodes :: rest => .table (Nodes.toMembers nodes) :: Nodes.toTables rest

end

end SyscallTrace.Toml
