import SyscallTrace.Catalog
import SyscallTrace.Toml.Document

/-!
# Catalogs from TOML

A catalog file is an array of `syscall` tables. Each has a name and, if its signature is modeled,
an array of parameters. Keys with other names do not count.
-/

namespace SyscallTrace

open Toml (Value)

/-- A part that may be missing, read by `f` if it is there. -/
def Toml.optional? {α : Type} (f : Value → Option α) : Option Value → Option (Option α)
  | none => some none
  | some v => (f v).map some

/-- Reads a parameter: a name, a type, and whether it is a pointer or a structure. -/
def Parameter.ofToml? (v : Value) : Option Parameter := do
  match ← v.parts? ["name".toList, "type".toList, "pointer".toList, "struct".toList] with
  | [some name, type, pointer, struct] =>
    some {
      name := ← name.string?
      type? := ← Toml.optional? Value.string? type
      isPointer := (← Toml.optional? Value.boolean? pointer).getD false
      isStruct := (← Toml.optional? Value.boolean? struct).getD false }
  | _ => none

/-- Reads a definition: a name and an array of parameters. -/
def Definition.ofToml? (v : Value) : Option Definition := do
  match ← v.parts? ["name".toList, "parameters".toList] with
  | [some name, parameters] =>
    let readAll (v : Value) := do (← v.array?).mapM Parameter.ofToml?
    some ⟨← name.string?, ← Toml.optional? readAll parameters⟩
  | _ => none

/-- Reads a catalog. -/
def Catalog.ofToml? (t : Text) : Option Catalog := do
  match ← (← Toml.parse? t).parts? ["syscall".toList] with
  | [some v] => (← v.array?).mapM Definition.ofToml? |>.map ofList
  | _ => some empty

end SyscallTrace
