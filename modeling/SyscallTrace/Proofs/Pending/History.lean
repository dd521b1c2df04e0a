import Mathlib.Data.List.Induction
import SyscallTrace.Proofs.Pending.Run

/-!
# The table after a history

What a table of pending calls holds after any calls have arrived at it, said by the arrivals alone:
`Waits as k p` looks for the last arrival that started a call under the key `k`, and collects the
tokens of the continuations since. `PendingTable.lookup_after` says that the table agrees with it
key by key, and `PendingTable.reflects_after` that the size of the table and the calls that it hands
back at the end do too.
-/

namespace SyscallTrace

/-! ## Calls that wait after a history -/

/-- The call that waits goes on waiting. -/
def Effect.keepsOpen : Effect → Bool
  | .passes | .adds _ => true
  | .starts | .ends => false

def Effect.isAdds : Effect → Bool
  | .adds _ => true
  | .passes | .starts | .ends => false

/-- The continuations of a key. -/
def Arrival.continuations (k : CallKey) (as : List Arrival) : List Arrival :=
  as.filter fun a => (a.call.effect k).isAdds

/-- The tokens of the arrivals, in order. -/
def Arrival.tokens (as : List Arrival) : List Text :=
  as.flatMap fun a => a.call.args

open Arrival

/-- After the arrivals `as` the call `p` waits under the key `k`: of the arrivals that start or end
a call of the key, the last one started `p`, and the continuations since have added their tokens. -/
def Waits (as : List Arrival) (k : CallKey) (p : PendingCall) : Prop :=
  ∃ before a later, as = before ++ a :: later ∧ a.call.effect k = .starts ∧
    (∀ b ∈ later, (b.call.effect k).keepsOpen) ∧
    p = a.pending.extend (tokens (continuations k later))

variable {as bs : List Arrival} {a : Arrival} {k : CallKey} {p : PendingCall}

theorem Arrival.tokens_continuations_append :
    tokens (continuations k (as ++ bs)) =
      tokens (continuations k as) ++ tokens (continuations k bs) := by
  unfold tokens continuations
  rw [List.filter_append, List.flatMap_append]

theorem Arrival.tokens_continuations_of_passes (h : a.call.effect k = .passes) :
    tokens (continuations k [a]) = [] := by
  simp [tokens, continuations, h, Effect.isAdds]

theorem Arrival.tokens_continuations_of_adds {args : List Text} (h : a.call.effect k = .adds args) :
    tokens (continuations k [a]) = args := by
  obtain ⟨-, -, rfl⟩ := Call.effect_eq_adds_iff.1 h
  simp [tokens, continuations, h, Effect.isAdds]

theorem not_waits_nil : ¬ Waits [] k p := by
  rintro ⟨before, a, later, has, -⟩
  simp at has

/-- What waits after one more arrival is the call that it starts, or a call that waited before. -/
theorem waits_concat_iff :
    Waits (as ++ [a]) k p ↔ a.call.effect k = .starts ∧ p = a.pending ∨
      (a.call.effect k).keepsOpen ∧
        ∃ q, Waits as k q ∧ p = q.extend (tokens (continuations k [a])) := by
  constructor
  · rintro ⟨before, b, later, has, hb, hlater, rfl⟩
    rcases List.eq_nil_or_concat later with rfl | ⟨later, c, rfl⟩
    · obtain ⟨-, rfl⟩ := List.append_singleton_inj.1 has
      exact .inl ⟨hb, PendingCall.extend_nil _⟩
    · rw [List.concat_eq_append, ← List.cons_append, ← List.append_assoc] at has
      obtain ⟨rfl, rfl⟩ := List.append_singleton_inj.1 has
      rw [List.concat_eq_append, List.forall_mem_append, List.forall_mem_singleton] at hlater
      refine .inr ⟨hlater.2, _, ⟨before, b, later, rfl, hb, hlater.1, rfl⟩, ?_⟩
      rw [PendingCall.extend_extend, List.concat_eq_append, tokens_continuations_append]
  · rintro (⟨ha, rfl⟩ | ⟨ha, q, ⟨before, b, later, rfl, hb, hlater, rfl⟩, rfl⟩)
    · exact ⟨as, a, [], rfl, ha, by simp, (PendingCall.extend_nil _).symm⟩
    · refine ⟨before, b, later ++ [a], by simp, hb, ?_, ?_⟩
      · exact List.forall_mem_append.2 ⟨hlater, List.forall_mem_singleton.2 ha⟩
      · rw [PendingCall.extend_extend, tokens_continuations_append]

/-- A call that waits is in one of the arrivals. -/
theorem Waits.exists_arrival (h : Waits as k p) :
    ∃ a ∈ as, a.call.key = k ∧ p.key = k ∧ p.slot = a.slot := by
  obtain ⟨before, a, later, rfl, ha, -, rfl⟩ := h
  have hkey := (Call.effect_eq_starts_iff.1 ha).1
  exact ⟨a, by simp, hkey, hkey, rfl⟩

namespace PendingTable

variable {t : PendingTable}

/-- The table holds under each key what waits there. -/
theorem lookup_after : (empty.after as).lookup k = some p ↔ Waits as k p := by
  induction as using List.reverseRecOn generalizing p with
  | nil => simpa [after] using not_waits_nil
  | append_singleton as a ih =>
    rw [after_concat, lookup_next, waits_concat_iff]
    cases he : a.call.effect k with
    | passes =>
      rw [tokens_continuations_of_passes he]
      simp [Effect.apply, Effect.keepsOpen, PendingCall.extend_nil, ih]
    | starts => simp [Effect.apply, Effect.keepsOpen, eq_comm]
    | adds args =>
      rw [tokens_continuations_of_adds he, Effect.apply, Option.map_eq_some_iff]
      simp [Effect.keepsOpen, ih, @eq_comm _ p]
    | ends => simp [Effect.apply, Effect.keepsOpen]

/-- Calls that arrived with slots of their own are kept apart by them. -/
theorem distinct_after (h : (as.map Arrival.slot).Nodup) : (empty.after as).Distinct := by
  have hkeys : (empty.after as).DistinctKeys := DistinctKeys.empty.after as
  have hwaits : ∀ p ∈ (empty.after as).calls, Waits as p.key p := fun p hp =>
    lookup_after.1 (hkeys.lookup_eq_some_iff.2 ⟨hp, rfl⟩)
  refine ⟨hkeys, fun p hp q hq hslot => ?_⟩
  obtain ⟨a, ha, hak, -, has⟩ := (hwaits p hp).exists_arrival
  obtain ⟨b, hb, hbk, -, hbs⟩ := (hwaits q hq).exists_arrival
  obtain rfl := List.inj_on_of_nodup_map h ha hb (has.symm.trans (hslot.trans hbs))
  exact hkeys.eq_of_key hp hq (hak.symm.trans hbk)

/-- The table holds the calls that wait after the arrivals, one for each key, and hands them back in
the order of their slots. -/
structure Reflects (t : PendingTable) (as : List Arrival) : Prop where
  lookup_eq_some_iff : ∀ k p, t.lookup k = some p ↔ Waits as k p
  size_eq : ∃ keys : List CallKey, keys.Nodup ∧ (∀ k, k ∈ keys ↔ ∃ p, Waits as k p) ∧
    t.size = keys.length
  mem_drain_iff : ∀ p, p ∈ t.drain ↔ ∃ k, Waits as k p
  pairwise_drain : (t.drain.map PendingCall.slot).Pairwise (· < ·)
  drain_eq_of_perm : ∀ calls, calls.Perm t.calls → drain ⟨calls⟩ = t.drain

/-- The state of the table after any history, and what it does with the next arrival. -/
theorem reflects_after (h : (as.map Arrival.slot).Pairwise (· < ·)) :
    (empty.after as).Reflects as ∧ ∀ a,
      ((∃ o, a.call.stage = .complete o) → (empty.after as).next a = empty.after as) ∧
      (∀ k, a.call.key ≠ k →
        ((empty.after as).next a).lookup k = (empty.after as).lookup k) ∧
      (∀ e, (empty.after as).answer a = .error e ↔
        a.GoesOn ∧ (empty.after as).lookup a.call.key = none ∧ e = a.dangling) ∧
      ∀ e, (empty.after as).answer a = .error e → (empty.after as).next a = empty.after as := by
  have hdistinct := distinct_after (h.imp Nat.ne_of_lt)
  have hmem : ∀ p, p ∈ (empty.after as).calls ↔ ∃ k, Waits as k p := fun p => by
    simp only [← lookup_after, hdistinct.lookup_eq_some_iff, exists_and_left, exists_eq', and_true]
  refine ⟨⟨fun k p => lookup_after, ?_, fun p => mem_drain.trans (hmem p),
    hdistinct.pairwise_drain, fun calls => hdistinct.drain_eq_of_perm⟩, fun a => ⟨?_, ?_, ?_, ?_⟩⟩
  · refine ⟨_, hdistinct.keys, fun k => ?_, (List.length_map _).symm⟩
    simp only [List.mem_map, ← lookup_after, hdistinct.lookup_eq_some_iff]
  · rintro ⟨o, hs⟩
    exact next_of_complete hs
  · intro k hk
    rw [lookup_next, Call.effect_of_ne hk, Effect.apply]
  · exact fun e => answer_eq_error_iff
  · exact fun e => next_of_answer_eq_error

/-! ### Calls of two processes -/

def overlapping (pid : UInt32) (name : Text) (args : List Text) (stage : Stage) (slot : Nat) :
    Arrival :=
  ⟨⟨⟨pid, none, none⟩, name, args, stage⟩, name ++ Decimal.ofNat slot, slot⟩

def returning (v : Int64) : Outcome := ⟨⟨.int v, none⟩, none, none⟩

/-- A line that resumes nothing, a call that is superseded after a continuation, and a call of
another process that is resumed while the next one waits. -/
def overlaps : List Arrival :=
  [overlapping 100 "read".toList ["3".toList] .unfinished 0,
    overlapping 200 "write".toList ["x".toList] (.resumed (returning 1)) 1,
    overlapping 100 "read".toList ["y".toList] .continued 2,
    overlapping 200 "write".toList ["1".toList] .unfinished 3,
    overlapping 100 "read".toList ["4".toList] .unfinished 4,
    overlapping 100 "read".toList ["z".toList] .continued 7,
    overlapping 200 "write".toList ["2".toList] (.resumed (returning 2)) 8]

theorem reflects_after_overlaps :
    (overlaps.map Arrival.slot).Pairwise (· < ·) ∧ (empty.after overlaps).Reflects overlaps ∧
      ((empty.after overlaps).lookup (100, "read".toList)).map (fun p => (p.call.args, p.slot)) =
        some (["4".toList, "z".toList], 4) ∧
      (empty.after overlaps).answer
          (overlapping 200 "write".toList [] (.resumed (returning 3)) 9) =
        .error (.danglingResume "write9".toList 200 "write".toList) := by
  have hslots : (overlaps.map Arrival.slot).Pairwise (· < ·) := by decide
  have hafter := reflects_after hslots
  refine ⟨hslots, hafter.1, by decide +kernel, ?_⟩
  refine ((hafter.2 (overlapping 200 "write".toList [] (.resumed (returning 3)) 9)).2.2.1 _).2
    ⟨.inr ⟨_, rfl⟩, ?_, rfl⟩
  decide +kernel

end PendingTable

end SyscallTrace
