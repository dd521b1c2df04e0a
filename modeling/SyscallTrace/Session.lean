import SyscallTrace.Line.Detection
import SyscallTrace.Record

/-!
# Parse sessions

A session goes through the lines of a trace and keeps one slot for each line with a call, in order.
The slot of a finished call holds its record at once. An unfinished call waits with a slot reserved;
the slot stays empty if the call is resumed, because its record then stands at the resumed line, and
takes the call if it never is. At the end the slots, read in order, are the records of the trace.
-/

namespace SyscallTrace

/-- A place among the records. -/
inductive Slot where
  | record (record : Record)
  /-- The call of this slot waits to be resumed. -/
  | waiting
  /-- The call of this slot was resumed at a later line. -/
  | resumed
  /-- The call of this slot never resumes. -/
  | unfinished (call : PendingCall)
  deriving DecidableEq

/-- A slot and the number of its line. -/
structure NumberedSlot where
  line : Nat
  slot : Slot
  deriving DecidableEq

/-- What stays the same during a session. -/
structure Setting where
  catalog : Catalog
  columns : Columns

/-- The state of a session between two lines. -/
structure Session where
  slots : Array NumberedSlot := #[]
  pending : PendingTable := {}
  diagnostics : Array Diagnostic := #[]

namespace Setting

/-- Builds the record of a call. -/
def record (s : Setting) (c : Call) (line : Text) (unfinishedLine : Option Text)
    (lineNumber : Nat) : Except TraceError (Record × List Diagnostic) :=
  Record.ofCall s.catalog s.columns.timestamp c line unfinishedLine lineNumber

end Setting

namespace Session

/-- Changes what a slot holds, and leaves its line. -/
def setSlot (slots : Array NumberedSlot) (i : Nat) (slot : Slot) : Array NumberedSlot :=
  slots.modify i fun s => { s with slot := slot }

/-- Stores a call that never resumes in the slot reserved for it. -/
def store (slots : Array NumberedSlot) (p : PendingCall) : Array NumberedSlot :=
  setSlot slots p.slot (.unfinished p)

/-- Adds a slot at the end. -/
def push (slots : Array NumberedSlot) (line : Nat) (slot : Slot) : Array NumberedSlot :=
  Array.push slots ⟨line, slot⟩

/-- Takes a line with a call into the session. -/
def take (setting : Setting) (s : Session) (number : Nat) (line : Text) (c : Call) :
    Except TraceError Session := do
  let (advance, pending) ← s.pending.advance c line s.slots.size
  match advance with
  | .oneLine call =>
    let (record, diagnostics) ← setting.record call line none number
    return ⟨push s.slots number (.record record), pending, s.diagnostics ++ diagnostics⟩
  | .twoLine call started =>
    let (record, diagnostics) ← setting.record call line (some started.line) number
    let slots := setSlot s.slots started.slot .resumed
    return ⟨push slots number (.record record), pending, s.diagnostics ++ diagnostics⟩
  | .waiting superseded =>
    let slots := superseded.elim s.slots (store s.slots)
    return ⟨push slots number .waiting, pending, s.diagnostics⟩
  | .continued => return { s with pending := pending }

/-- Takes a line into the session. -/
def step (setting : Setting) (s : Session) (number : Nat) (line : Text) :
    Except TraceError Session := do
  match ← Call.ofLine setting.columns line with
  | none => return s
  | some c => take setting s number line c

/-- Goes through numbered lines. -/
def run (setting : Setting) (s : Session) (lines : List (Text × Nat)) :
    Except TraceError Session :=
  lines.foldlM (fun s line => step setting s line.2 line.1) s

/-- The slots after the last line, with the calls that still wait stored in theirs. -/
def finalSlots (s : Session) : List NumberedSlot :=
  (s.pending.drain.foldl store s.slots).toList

/-- The record of a slot, if it has one, and what stays untyped in it that was not reported
before. -/
def slotRecord (setting : Setting) (s : NumberedSlot) :
    Except TraceError (Option Record × List Diagnostic) :=
  match s.slot with
  | .record record => .ok (some record, [])
  | .waiting | .resumed => .ok (none, [])
  | .unfinished p =>
    (setting.record p.call p.line none s.line).map fun r => (some r.1, r.2)

/-- The records and the diagnostics of a session after the last line. Diagnostics are in the order
of their lines. -/
def finish (setting : Setting) (s : Session) :
    Except TraceError (List Record × List Diagnostic) := do
  let results ← s.finalSlots.mapM (slotRecord setting)
  let diagnostics := s.diagnostics.toList ++ results.flatMap Prod.snd
  return (results.filterMap Prod.fst, diagnostics.mergeSort fun d e => d.line ≤ e.line)

end Session

end SyscallTrace
