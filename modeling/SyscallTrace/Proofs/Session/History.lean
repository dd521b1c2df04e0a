import Mathlib.Data.List.ReduceOption
import Mathlib.Logic.Function.Basic
import SyscallTrace.Trace

/-!
# Histories

A history is the list of the lines of a trace, each with the call that it shows. It says by itself
what the records of the trace are built from: `History.sources` goes through the lines with the
calls that wait, and asks the lines that follow what becomes of an unfinished call. There are no
slots and no table in it, and nothing is stored to be filled in later.

* `laterArgs?`: the tokens that later lines add to an unfinished call, or nothing if one of them
  resumes it.
* `Waiting.next`, `Waiting.Admits`: the calls that wait after a line, and whether the line can
  follow.
* `slotSources`: what the slot of each line holds at the end.
-/

namespace SyscallTrace

/-! ## Lines and the calls on them -/

/-- A line of a trace, its number, and the call that it shows if it shows one. -/
structure Entry where
  line : Text
  number : Nat
  call? : Option Call

namespace Entry

/-- The entry of a numbered line. A line that cannot be read has no call. -/
def ofLine (columns : Columns) (x : Text × Nat) : Entry :=
  ⟨x.1, x.2, ((Call.ofLine columns x.1).toOption).join⟩

theorem call?_ofLine {columns : Columns} {x : Text × Nat} {c? : Option Call}
    (h : Call.ofLine columns x.1 = .ok c?) : (ofLine columns x).call? = c? := by
  unfold ofLine
  rw [h]
  rfl

theorem call?_ofLine_eq_some_iff {columns : Columns} {x : Text × Nat} {c : Call} :
    (ofLine columns x).call? = some c ↔ Call.ofLine columns x.1 = .ok (some c) := by
  unfold ofLine
  cases h : Call.ofLine columns x.1 with
  | error e => simp [Except.toOption]
  | ok c? => cases c? <;> simp [Except.toOption]

end Entry

/-- The entries of the lines of a trace. -/
def entries (columns : Columns) (lines : List Text) : List Entry :=
  (lines.zipIdx 1).map (Entry.ofLine columns)

/-! ## What a line does to the call that waits under a key -/

inductive Effect where
  /-- The call goes on waiting. -/
  | passes
  /-- A new call waits in its place. -/
  | starts
  /-- The call gets more tokens. -/
  | adds (args : List Text)
  /-- The call is resumed. -/
  | ends
  deriving DecidableEq

/-- What a call on a line does to the call that waits under the key `k`. -/
def Call.effect (c : Call) (k : CallKey) : Effect :=
  if c.key = k then
    match c.stage with
    | .complete _ => .passes
    | .unfinished => .starts
    | .continued => .adds c.args
    | .resumed _ => .ends
  else .passes

def Entry.effect (e : Entry) (k : CallKey) : Effect :=
  e.call?.elim .passes fun c => c.effect k

/-- Adds tokens to a call. -/
def Call.extend (c : Call) (args : List Text) : Call :=
  { c with args := c.args ++ args }

/-- The tokens that the lines add to a call that waits under `k`, until it is handed back. There
are none if the call is resumed. -/
def laterArgs? (k : CallKey) : List Entry → Option (List Text)
  | [] => some []
  | e :: es =>
    match e.effect k with
    | .passes => laterArgs? k es
    | .starts => some []
    | .adds args => (laterArgs? k es).map (args ++ ·)
    | .ends => none

/-! ## The calls that wait -/

/-- A call that waits, with the tokens that it has so far, and the line that started it. -/
structure OpenCall where
  call : Call
  line : Text

namespace OpenCall

def extend (o : OpenCall) (args : List Text) : OpenCall :=
  { o with call := o.call.extend args }

/-- The call of a resumed line put together with the call that waited for it. -/
def resume (o : OpenCall) (c : Call) : Call :=
  { c with
    args := o.call.args ++ c.args
    heading :=
      { c.heading with
        timestamp := o.call.heading.timestamp.or c.heading.timestamp
        instPointer := o.call.heading.instPointer.or c.heading.instPointer } }

end OpenCall

/-- The calls that wait, by process and name. -/
abbrev Waiting := CallKey → Option OpenCall

namespace Waiting

/-- No call waits. -/
def none : Waiting := fun _ => Option.none

/-- The calls that wait after a line with a call. -/
def next (w : Waiting) (line : Text) (c : Call) : Waiting :=
  match c.stage with
  | .complete _ => w
  | .unfinished => Function.update w c.key (some ⟨c, line⟩)
  | .continued => Function.update w c.key ((w c.key).map fun o => o.extend c.args)
  | .resumed _ => Function.update w c.key Option.none

/-- The line can follow: what it continues or resumes does wait. -/
def Admits (w : Waiting) (c : Call) : Prop :=
  match c.stage with
  | .complete _ | .unfinished => True
  | .continued | .resumed _ => (w c.key).isSome

end Waiting

/-! ## The sources of records -/

/-- What a record is built from. -/
structure Source where
  call : Call
  line : Text
  startedLine : Option Text
  number : Nat

namespace Source

/-- The call finished, on this line or on a later one. -/
def isFinished (x : Source) : Bool := x.call.kind != .unfinished

/-- Builds the record of a source. -/
def build (setting : Setting) (x : Source) : Except TraceError (Record × List Diagnostic) :=
  setting.record x.call x.line x.startedLine x.number

/-- What stays untyped in the record of a source. -/
def diagnostics (setting : Setting) (x : Source) : List Diagnostic :=
  match x.build setting with
  | .ok (_, ds) => ds
  | .error _ => []

end Source

/-- What the slot of a line with a call holds at the end. `es` are the lines that follow. A call
that is resumed later leaves its slot empty. -/
def Waiting.source? (w : Waiting) (line : Text) (number : Nat) (c : Call) (es : List Entry) :
    Option Source :=
  match c.stage with
  | .complete _ => some ⟨c.aligned, line, Option.none, number⟩
  | .unfinished =>
    (laterArgs? c.key es).map fun args => ⟨c.extend args, line, Option.none, number⟩
  | .continued => Option.none
  | .resumed _ => (w c.key).map fun o => ⟨(o.resume c).aligned, line, some o.line, number⟩

section

variable {w : Waiting} {line : Text} {number : Nat} {c : Call} {es : List Entry} {o : Outcome}
  {k : CallKey}

theorem Call.effect_eq_passes_iff :
    c.effect k = .passes ↔ c.key = k → ∃ o, c.stage = .complete o := by
  unfold Call.effect
  by_cases hk : c.key = k
  · cases hs : c.stage <;> simp [hk]
  · simp [hk]

theorem Call.effect_eq_starts_iff :
    c.effect k = .starts ↔ c.key = k ∧ c.stage = .unfinished := by
  unfold Call.effect
  by_cases hk : c.key = k
  · cases hs : c.stage <;> simp [hk]
  · simp [hk]

theorem Call.effect_eq_adds_iff {args : List Text} :
    c.effect k = .adds args ↔ c.key = k ∧ c.stage = .continued ∧ c.args = args := by
  unfold Call.effect
  by_cases hk : c.key = k
  · cases hs : c.stage <;> simp [hk]
  · simp [hk]

theorem Call.effect_eq_ends_iff :
    c.effect k = .ends ↔ c.key = k ∧ ∃ o, c.stage = .resumed o := by
  unfold Call.effect
  by_cases hk : c.key = k
  · cases hs : c.stage <;> simp [hk]
  · simp [hk]

theorem Call.effect_of_ne (h : c.key ≠ k) : c.effect k = .passes := by
  unfold Call.effect
  rw [if_neg h]

theorem Call.effect_complete (h : c.stage = .complete o) : c.effect k = .passes := by
  unfold Call.effect
  rw [h]
  exact ite_self _

theorem Call.effect_unfinished (h : c.stage = .unfinished) : c.effect c.key = .starts := by
  unfold Call.effect
  rw [if_pos rfl, h]

theorem Call.effect_continued (h : c.stage = .continued) : c.effect c.key = .adds c.args := by
  unfold Call.effect
  rw [if_pos rfl, h]

theorem Call.effect_resumed (h : c.stage = .resumed o) : c.effect c.key = .ends := by
  unfold Call.effect
  rw [if_pos rfl, h]

theorem Waiting.next_apply_of_passes (h : c.effect k = .passes) : w.next line c k = w k := by
  rw [Call.effect_eq_passes_iff] at h
  unfold next
  by_cases hk : c.key = k
  · obtain ⟨o, ho⟩ := h hk
    rw [ho]
  · cases c.stage with
    | complete o => rfl
    | unfinished | continued | resumed => exact Function.update_of_ne (Ne.symm hk) ..

theorem Waiting.next_apply_of_starts (h : c.effect k = .starts) :
    w.next line c k = some ⟨c, line⟩ := by
  obtain ⟨rfl, hs⟩ := Call.effect_eq_starts_iff.1 h
  rw [next, hs]
  exact Function.update_self ..

theorem Waiting.next_apply_of_adds {args : List Text} (h : c.effect k = .adds args) :
    w.next line c k = (w k).map fun o => o.extend args := by
  obtain ⟨rfl, hs, rfl⟩ := Call.effect_eq_adds_iff.1 h
  rw [next, hs]
  exact Function.update_self ..

theorem Waiting.next_apply_of_ends (h : c.effect k = .ends) : w.next line c k = Option.none := by
  obtain ⟨rfl, o, hs⟩ := Call.effect_eq_ends_iff.1 h
  rw [next, hs]
  exact Function.update_self ..

theorem Waiting.admits_iff_of_continued (h : c.stage = .continued) :
    w.Admits c ↔ (w c.key).isSome := by
  rw [Admits, h]

theorem Waiting.admits_iff_of_resumed (h : c.stage = .resumed o) :
    w.Admits c ↔ (w c.key).isSome := by
  rw [Admits, h]

theorem Waiting.source?_of_complete (h : c.stage = .complete o) :
    w.source? line number c es = some ⟨c.aligned, line, Option.none, number⟩ := by
  rw [source?, h]

theorem Waiting.source?_of_unfinished (h : c.stage = .unfinished) :
    w.source? line number c es =
      (laterArgs? c.key es).map fun args => ⟨c.extend args, line, Option.none, number⟩ := by
  rw [source?, h]

theorem Waiting.source?_of_continued (h : c.stage = .continued) :
    w.source? line number c es = Option.none := by
  rw [source?, h]

theorem Waiting.source?_of_resumed (h : c.stage = .resumed o) :
    w.source? line number c es =
      (w c.key).map fun o => ⟨(o.resume c).aligned, line, some o.line, number⟩ := by
  rw [source?, h]

/-- A source is of its line, and of a call with the process, the name and the stage of the line. -/
theorem Waiting.of_mem_source? {x : Source} (h : x ∈ w.source? line number c es) :
    x.line = line ∧ x.number = number ∧ x.call.stage = c.stage ∧ x.call.key = c.key := by
  cases hc : c.stage with
  | complete o =>
    rw [source?_of_complete hc] at h
    obtain rfl := Option.some.inj h
    exact ⟨rfl, rfl, hc, rfl⟩
  | unfinished =>
    rw [source?_of_unfinished hc] at h
    obtain ⟨args, -, rfl⟩ := Option.map_eq_some_iff.1 h
    exact ⟨rfl, rfl, hc, rfl⟩
  | continued =>
    rw [source?_of_continued hc] at h
    cases h
  | resumed o =>
    rw [source?_of_resumed hc] at h
    obtain ⟨w, -, rfl⟩ := Option.map_eq_some_iff.1 h
    exact ⟨rfl, rfl, hc, rfl⟩

theorem Waiting.isFinished_of_mem_source? {x : Source} (h : x ∈ w.source? line number c es) :
    x.isFinished = (c.stage != .unfinished) := by
  obtain ⟨-, -, hs, -⟩ := of_mem_source? h
  have hne : c.stage ≠ .continued := fun hc => by
    rw [source?_of_continued hc] at h
    cases h
  unfold Source.isFinished Call.kind
  rw [hs]
  cases hc : c.stage with
  | continued => exact absurd hc hne
  | complete | unfinished | resumed => rfl

end

/-- The slot that a line with a call adds. A line that continues a call adds none. -/
def Waiting.slotSource (w : Waiting) (line : Text) (number : Nat) (c : Call) (es : List Entry) :
    List (Option Source) :=
  if c.stage = .continued then [] else [w.source? line number c es]

namespace History

/-- Each line that continues or resumes a call finds it waiting. -/
def Valid (w : Waiting) : List Entry → Prop
  | [] => True
  | e :: es =>
    match e.call? with
    | none => Valid w es
    | some c => w.Admits c ∧ Valid (w.next e.line c) es

/-- What the slots of the lines hold at the end. -/
def slotSources (w : Waiting) : List Entry → List (Option Source)
  | [] => []
  | e :: es =>
    match e.call? with
    | none => slotSources w es
    | some c => w.slotSource e.line e.number c es ++ slotSources (w.next e.line c) es

/-- What the records are built from, in order. -/
def sources (w : Waiting) (es : List Entry) : List Source :=
  (slotSources w es).reduceOption

end History

end SyscallTrace
