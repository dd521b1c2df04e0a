import SyscallTrace.Text.Basic

/-!
# The catalog of syscalls

A catalog knows the formal parameters of syscalls by name. Inserting a definition replaces the one
of the same name (`lookup_insert_self`, `lookup_insert_of_ne`), and a name that is not found is
looked up again without the underscores around it.
-/

namespace SyscallTrace

/-- One formal parameter of a syscall: its name, the base type if it is known, and whether it is a
pointer and a structure. -/
structure Parameter where
  name : Text
  type? : Option Text := none
  isPointer : Bool := false
  isStruct : Bool := false
  deriving DecidableEq

/-- A syscall and its formal parameters. A known syscall may have no modeled signature. -/
structure Definition where
  name : Text
  parameters? : Option (List Parameter) := none
  deriving DecidableEq

/-- The known syscalls, one definition for each name. -/
structure Catalog where
  definitions : List Definition := []

namespace Catalog

def empty : Catalog := {}

/-- The definition with exactly this name. -/
def lookup (c : Catalog) (name : Text) : Option Definition :=
  c.definitions.find? fun d => d.name == name

/-- Adds a definition in place of the one with its name. -/
def insert (c : Catalog) (d : Definition) : Catalog :=
  ⟨d :: c.definitions.filter fun e => e.name != d.name⟩

/-- Adds definitions in order. -/
def ofList (ds : List Definition) : Catalog :=
  ds.foldl insert empty

/-- The number of names. -/
def size (c : Catalog) : Nat := c.definitions.length

def isEmpty (c : Catalog) : Bool := c.definitions.isEmpty

/-- The definition with this name, or else with the name stripped of underscores at both ends. -/
def resolve (c : Catalog) (name : Text) : Option Definition :=
  (c.lookup name).or (c.lookup (name.trimChar '_'))

/-- The number of modeled parameters. -/
def arity (c : Catalog) (name : Text) : Option Nat :=
  ((c.resolve name).bind Definition.parameters?).map List.length

@[simp] theorem lookup_empty (name : Text) : empty.lookup name = none := rfl

@[simp] theorem lookup_insert_self (c : Catalog) (d : Definition) :
    (c.insert d).lookup d.name = some d := by
  simp [insert, lookup]

theorem lookup_insert_of_ne (c : Catalog) {d : Definition} {name : Text} (h : d.name ≠ name) :
    (c.insert d).lookup name = c.lookup name := by
  simp only [insert, lookup, List.find?_cons, beq_eq_false_iff_ne.2 h, List.find?_filter]
  congr 1
  funext e
  by_cases he : e.name = name
  · simp [he, Ne.symm h]
  · simp [he]

end Catalog

end SyscallTrace
