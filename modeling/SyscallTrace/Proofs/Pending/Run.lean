import SyscallTrace.Proofs.PendingTable
import SyscallTrace.Proofs.Session.History

/-!
# Runs of a pending table

Calls arrive at a table one after another, each with its line and a place that is kept for it
(`Arrival`). One that cannot be taken is answered with an error and leaves the table as it was; the
run goes on after it. `PendingTable.Takes` lists what an arrival can do and `PendingTable.takes`
says that there is nothing else; `PendingTable.lookup_next` says what it does to each key.
-/

namespace SyscallTrace

/-- A call that is given to a table, its line, and the place kept for it. -/
structure Arrival where
  call : Call
  line : Text
  slot : Nat
  deriving DecidableEq

namespace Arrival

/-- The call as it waits if it is unfinished. -/
def pending (a : Arrival) : PendingCall := ⟨a.call, a.line, a.slot⟩

@[simp] theorem key_pending (a : Arrival) : a.pending.key = a.call.key := rfl

/-- The line goes on with a call that an earlier line started. -/
def GoesOn (a : Arrival) : Prop :=
  a.call.stage = .continued ∨ ∃ o, a.call.stage = .resumed o

/-- The error for a line that goes on with no call. -/
def dangling (a : Arrival) : TraceError := .danglingResume a.line a.call.pid a.call.name

end Arrival

/-- The call that waits under a key after a line with this effect on the key. `started` is the call
of the line. -/
def Effect.apply (started : PendingCall) : Effect → Option PendingCall → Option PendingCall
  | .passes, waiting => waiting
  | .starts, _ => some started
  | .adds args, waiting => waiting.map fun p => p.extend args
  | .ends, _ => none

namespace PendingTable

/-! ## Steps -/

/-- What becomes of an arrival. -/
def answer (t : PendingTable) (a : Arrival) : Except TraceError Advance :=
  (t.advance a.call a.line a.slot).map Prod.fst

/-- The table after an arrival. It stays as it was if the arrival cannot be taken. -/
def next (t : PendingTable) (a : Arrival) : PendingTable :=
  match t.advance a.call a.line a.slot with
  | .ok (_, t') => t'
  | .error _ => t

/-- An arrival is answered with the third argument and takes the table to the fourth. -/
inductive Takes (t : PendingTable) (a : Arrival) :
    Except TraceError Advance → PendingTable → Prop where
  | complete {o : Outcome} (hs : a.call.stage = .complete o) :
      Takes t a (.ok (.oneLine a.call.aligned)) t
  | unfinished (hs : a.call.stage = .unfinished) :
      Takes t a (.ok (.waiting (t.lookup a.call.key))) (t.insert a.pending)
  | continued {p : PendingCall} (hs : a.call.stage = .continued)
      (hp : t.lookup a.call.key = some p) :
      Takes t a (.ok .continued) (t.insert (p.extend a.call.args))
  | resumed {o : Outcome} {p : PendingCall} (hs : a.call.stage = .resumed o)
      (hp : t.lookup a.call.key = some p) :
      Takes t a (.ok (.twoLine (p.resume a.call).aligned p)) (t.remove a.call.key)
  | dangling (hs : a.GoesOn) (hp : t.lookup a.call.key = none) : Takes t a (.error a.dangling) t

variable {t : PendingTable} {a : Arrival} {k : CallKey} {e : TraceError}

theorem takes (t : PendingTable) (a : Arrival) : Takes t a (t.answer a) (t.next a) := by
  unfold answer next advance
  cases hs : a.call.stage with
  | complete o => exact .complete hs
  | unfinished => exact .unfinished hs
  | continued =>
    dsimp only
    cases hp : t.lookup a.call.key with
    | none => exact .dangling (.inl hs) hp
    | some p => exact .continued hs hp
  | resumed o =>
    dsimp only
    cases hp : t.lookup a.call.key with
    | none => exact .dangling (.inr ⟨o, hs⟩) hp
    | some p => exact .resumed hs hp

/-- Exactly the lines that go on with no call of the table are refused. -/
theorem answer_eq_error_iff :
    t.answer a = .error e ↔ a.GoesOn ∧ t.lookup a.call.key = none ∧ e = a.dangling := by
  have h := t.takes a
  generalize t.answer a = r, t.next a = t' at h
  cases h with
  | complete hs | unfinished hs => simp [Arrival.GoesOn, hs]
  | continued hs hp | resumed hs hp => simp [hp]
  | dangling hs hp =>
    rw [Except.error.injEq, and_iff_right hs, and_iff_right hp]
    exact eq_comm

/-- An arrival that is refused changes nothing. -/
theorem next_of_answer_eq_error (h : t.answer a = .error e) : t.next a = t := by
  unfold answer at h
  unfold next
  cases ha : t.advance a.call a.line a.slot with
  | ok x =>
    rw [ha] at h
    cases h
  | error e => rfl

theorem next_of_complete {o : Outcome} (hs : a.call.stage = .complete o) : t.next a = t := by
  unfold next advance
  rw [hs]

/-! ## Keys -/

theorem lookup_next (t : PendingTable) (a : Arrival) (k : CallKey) :
    (t.next a).lookup k = (a.call.effect k).apply a.pending (t.lookup k) := by
  have h := t.takes a
  generalize t.answer a = r, t.next a = t' at h ⊢
  by_cases hk : a.call.key = k
  · subst hk
    cases h with
    | complete hs => rw [Call.effect_complete hs, Effect.apply]
    | unfinished hs => simp [Call.effect_unfinished hs, Effect.apply, lookup_insert]
    | continued hs hp =>
      simp [Call.effect_continued hs, Effect.apply, hp, lookup_insert, key_of_lookup hp]
    | resumed hs hp => simp [Call.effect_resumed hs, Effect.apply, lookup_remove]
    | dangling hs hp =>
      rcases hs with hs | ⟨o, hs⟩
      · simp [Call.effect_continued hs, Effect.apply, hp]
      · simp [Call.effect_resumed hs, Effect.apply, hp]
  · rw [Call.effect_of_ne hk, Effect.apply]
    cases h with
    | complete | dangling => rfl
    | unfinished | resumed => simp [lookup_insert, lookup_remove, hk]
    | continued hs hp => simp [lookup_insert, key_of_lookup hp, hk]

theorem DistinctKeys.next (h : t.DistinctKeys) (a : Arrival) : (t.next a).DistinctKeys := by
  have ht := t.takes a
  generalize t.answer a = r, t.next a = t' at ht ⊢
  cases ht with
  | complete | dangling => exact h
  | unfinished | continued => exact h.insert _
  | resumed => exact h.remove _

/-! ## Runs -/

/-- The table after these arrivals. -/
def after (t : PendingTable) (as : List Arrival) : PendingTable := as.foldl next t

theorem after_concat (t : PendingTable) (as : List Arrival) (a : Arrival) :
    t.after (as ++ [a]) = (t.after as).next a :=
  List.foldl_concat ..

theorem DistinctKeys.after (h : t.DistinctKeys) (as : List Arrival) :
    (t.after as).DistinctKeys := by
  induction as generalizing t with
  | nil => exact h
  | cons a as ih => exact ih (h.next a)

end PendingTable

end SyscallTrace
