import SyscallTrace.Line.Alignment

/-!
# Pending calls

A call that a line leaves unfinished waits for the line that resumes it. At most one call waits for
each process and name, so a table of pending calls is a list without two calls of one key. The
lookup laws `lookup_insert` and `lookup_remove` say what each operation does to every key.

`PendingTable.advance` takes the next call of a trace: a complete call passes, an unfinished one
starts to wait, a continuation adds its tokens to the waiting call, and a resumed one is put
together with the call that waits for it.
-/

namespace SyscallTrace

/-- An unfinished call, its line, and the place kept for it among the records. -/
structure PendingCall where
  call : Call
  line : Text
  slot : Nat
  deriving DecidableEq

/-- A process and the name of a syscall. -/
abbrev CallKey := UInt32 × Text

def Call.key (c : Call) : CallKey := (c.pid, c.name)

namespace PendingCall

def key (p : PendingCall) : CallKey := p.call.key

/-- Adds tokens to the call. -/
def extend (p : PendingCall) (args : List Text) : PendingCall :=
  { p with call := { p.call with args := p.call.args ++ args } }

end PendingCall

/-- The calls that wait to be resumed, at most one for each key. -/
structure PendingTable where
  calls : List PendingCall := []

namespace PendingTable

def empty : PendingTable := {}

/-- The call that waits under this key. -/
def lookup (t : PendingTable) (k : CallKey) : Option PendingCall :=
  t.calls.find? fun p => p.key == k

/-- Takes the call of this key out of the table. -/
def remove (t : PendingTable) (k : CallKey) : PendingTable :=
  ⟨t.calls.filter fun p => p.key != k⟩

/-- Puts a call into the table, in place of the one with its key. -/
def insert (t : PendingTable) (p : PendingCall) : PendingTable :=
  ⟨p :: (t.remove p.key).calls⟩

def size (t : PendingTable) : Nat := t.calls.length

def isEmpty (t : PendingTable) : Bool := t.calls.isEmpty

/-- The waiting calls in the order of their places. -/
def drain (t : PendingTable) : List PendingCall :=
  t.calls.mergeSort fun p q => p.slot ≤ q.slot

@[simp] theorem lookup_empty (k : CallKey) : empty.lookup k = none := rfl

theorem lookup_remove (t : PendingTable) (k k' : CallKey) :
    (t.remove k).lookup k' = if k = k' then none else t.lookup k' := by
  unfold remove lookup
  rw [List.find?_filter]
  split
  · next h =>
    subst h
    simp
  · next h =>
    congr 1
    funext p
    by_cases hp : p.key = k'
    · simp [hp, Ne.symm h]
    · simp [hp]

theorem lookup_insert (t : PendingTable) (p : PendingCall) (k : CallKey) :
    (t.insert p).lookup k = if p.key = k then some p else t.lookup k := by
  by_cases h : p.key = k
  · simp [insert, lookup, h]
  · have hr : (t.remove p.key).lookup k = t.lookup k := by simp [lookup_remove, h]
    simpa [insert, lookup, h] using hr

theorem key_of_lookup {t : PendingTable} {k : CallKey} {p : PendingCall}
    (h : t.lookup k = some p) : p.key = k := by
  simpa using List.find?_some h

end PendingTable

/-- What becomes of the next call of a trace. -/
inductive Advance where
  /-- The line has the whole call. -/
  | oneLine (call : Call)
  /-- The line finishes the call that an earlier line started. -/
  | twoLine (call : Call) (started : PendingCall)
  /-- The call waits. A call that waited under its key never resumes and is handed back. -/
  | waiting (superseded : Option PendingCall)
  /-- The tokens of the line went to the waiting call. -/
  | continued
  deriving DecidableEq

/-- The call of a resumed line, put together with the call that waited for it. It started when the
unfinished line was printed. -/
def PendingCall.resume (started : PendingCall) (c : Call) : Call :=
  { c with
    args := started.call.args ++ c.args
    heading :=
      { c.heading with
        timestamp := started.call.heading.timestamp.or c.heading.timestamp
        instPointer := started.call.heading.instPointer.or c.heading.instPointer } }

namespace PendingTable

/-- Takes the next call of a trace. `slot` is the place kept for it if it has to wait. -/
def advance (t : PendingTable) (c : Call) (line : Text) (slot : Nat) :
    Except TraceError (Advance × PendingTable) :=
  match c.stage with
  | .complete _ => .ok (.oneLine c.aligned, t)
  | .unfinished => .ok (.waiting (t.lookup c.key), t.insert ⟨c, line, slot⟩)
  | .continued =>
    match t.lookup c.key with
    | none => .error (.danglingResume line c.pid c.name)
    | some p => .ok (.continued, t.insert (p.extend c.args))
  | .resumed _ =>
    match t.lookup c.key with
    | none => .error (.danglingResume line c.pid c.name)
    | some p => .ok (.twoLine (p.resume c).aligned p, t.remove c.key)

end PendingTable

end SyscallTrace
