import SyscallTrace.Proofs.Pending.History

/-!
# What leaves a table

In a run over any arrivals, each unfinished call leaves the table once: with the line that resumes
it, superseded by the next call of its key, or at the end. It leaves with the tokens of the
continuations that came while it was open, and those are the continuations that the table took
(`PendingTable.leaves_once`).

Both halves are the same induction on the run. An `Account` says what a table still owes for a
waiting call and what it pays with an answer; `Account.perm_run` says that all that is owed is paid
once.
-/

namespace SyscallTrace

open Arrival

/-! ## Continuations to come -/

/-- The continuations that a call of the key gets if it waits before these arrivals. -/
def Arrival.ahead (k : CallKey) (as : List Arrival) : List Arrival :=
  continuations k (as.takeWhile fun a => (a.call.effect k).keepsOpen)

/-- An unfinished call that arrives, and the continuations that it gets. -/
structure Opening where
  start : Arrival
  continuations : List Arrival
  deriving DecidableEq

/-- The call with the tokens of its continuations. -/
def Opening.grown (x : Opening) : PendingCall := x.start.pending.extend (tokens x.continuations)

/-- The unfinished calls among the arrivals. -/
def Arrival.openings : List Arrival → List Opening
  | [] => []
  | a :: as =>
    (if a.call.stage = .unfinished then [⟨a, ahead a.call.key as⟩] else []) ++ openings as

variable {a : Arrival} {as : List Arrival} {k : CallKey} {β : Type}

namespace Arrival

theorem ahead_cons_of_passes (h : a.call.effect k = .passes) : ahead k (a :: as) = ahead k as := by
  simp [ahead, continuations, h, Effect.keepsOpen, Effect.isAdds]

theorem ahead_cons_of_starts (h : a.call.effect k = .starts) : ahead k (a :: as) = [] := by
  simp [ahead, continuations, h, Effect.keepsOpen]

theorem ahead_cons_of_adds {args : List Text} (h : a.call.effect k = .adds args) :
    ahead k (a :: as) = a :: ahead k as := by
  simp [ahead, continuations, h, Effect.keepsOpen, Effect.isAdds]

theorem ahead_cons_of_ends (h : a.call.effect k = .ends) : ahead k (a :: as) = [] := by
  simp [ahead, continuations, h, Effect.keepsOpen]

theorem map_start_openings (as : List Arrival) :
    (openings as).map Opening.start = as.filter fun a => a.call.stage = .unfinished := by
  induction as with
  | nil => rfl
  | cons a as ih =>
    by_cases hs : a.call.stage = .unfinished <;> simp [openings, hs, ih]

end Arrival

namespace PendingTable

variable {t : PendingTable}

/-! ## Runs with their answers -/

/-- The arrivals of a run, each with its answer. -/
def transcript (t : PendingTable) : List Arrival → List (Arrival × Except TraceError Advance)
  | [] => []
  | a :: as => (a, t.answer a) :: (t.next a).transcript as

/-- The call that leaves the table with an answer. -/
def leaving : Except TraceError Advance → List PendingCall
  | .ok (.twoLine _ started) => [started]
  | .ok (.waiting superseded) => superseded.toList
  | .ok (.oneLine _) | .ok .continued | .error _ => []

/-- The calls that leave the table during a run and at its end. -/
def exits (t : PendingTable) (as : List Arrival) : List PendingCall :=
  ((t.transcript as).flatMap fun x => leaving x.2) ++ (t.after as).drain

/-- The arrival, if it is a continuation that the table took. -/
def taken (a : Arrival) : Except TraceError Advance → List Arrival
  | .ok .continued => [a]
  | .ok (.oneLine _) | .ok (.twoLine ..) | .ok (.waiting _) | .error _ => []

/-- The continuations that the table took in a run. -/
def accepted (t : PendingTable) (as : List Arrival) : List Arrival :=
  (t.transcript as).flatMap fun x => taken x.1 x.2

theorem remove_next (t : PendingTable) (a : Arrival) :
    (t.next a).remove a.call.key = t.remove a.call.key := by
  have hremove : ∀ p : PendingCall, p.key = a.call.key →
      (t.insert p).remove a.call.key = t.remove a.call.key := fun p hp => by
    simp [insert, remove, hp]
  have h := t.takes a
  generalize t.answer a = r, t.next a = t' at h ⊢
  cases h with
  | complete | dangling => rfl
  | unfinished => exact hremove _ rfl
  | continued hs hp => exact hremove _ (by simpa using key_of_lookup hp)
  | resumed => simp [remove]

/-! ## Accounts -/

/-- What can be counted over a run: `owed p as` for a call that waits and the continuations that it
still gets, and `paid a r` for an arrival with its answer. -/
structure Account (β : Type) where
  owed : PendingCall → List Arrival → List β
  paid : Arrival → Except TraceError Advance → List β
  paid_error : ∀ a e, paid a (.error e) = []
  paid_oneLine : ∀ a c, paid a (.ok (.oneLine c)) = []
  paid_waiting : ∀ a w, paid a (.ok (.waiting w)) = w.toList.flatMap fun p => owed p []
  paid_twoLine : ∀ a c p, paid a (.ok (.twoLine c p)) = owed p []
  owed_cons : ∀ p a as, owed p (a :: as) = paid a (.ok .continued) ++ owed (p.extend a.call.args) as

namespace Account

/-- Each call is owed once, with the tokens of its continuations. -/
def calls : Account PendingCall where
  owed p as := [p.extend (tokens as)]
  paid _ r := leaving r
  paid_error _ _ := rfl
  paid_oneLine _ _ := rfl
  paid_waiting _ w := by
    cases w with
    | none => rfl
    | some p => exact congrArg ([·]) (PendingCall.extend_nil p).symm
  paid_twoLine _ _ p := congrArg ([·]) (PendingCall.extend_nil p).symm
  owed_cons p a as := congrArg ([·]) (PendingCall.extend_extend p a.call.args (tokens as)).symm

/-- Each continuation is owed once. -/
def continued : Account Arrival where
  owed _ as := as
  paid := taken
  paid_error _ _ := rfl
  paid_oneLine _ _ := rfl
  paid_waiting _ w := by cases w <;> rfl
  paid_twoLine _ _ _ := rfl
  owed_cons _ _ _ := rfl

variable (account : Account β)

/-- What a table owes for some of its calls before these arrivals. -/
def due (ps : List PendingCall) (as : List Arrival) : List β :=
  ps.flatMap fun p => account.owed p (ahead p.key as)

/-- What is owed for a call that starts. -/
def opened (x : Opening) : List β := account.owed x.start.pending x.continuations

/-- Only what is owed for the key of an arrival changes with it. -/
theorem due_remove_cons (t : PendingTable) (a : Arrival) (as : List Arrival) :
    account.due (t.remove a.call.key).calls (a :: as) =
      account.due (t.remove a.call.key).calls as := by
  refine List.flatMap_congr fun p hp => ?_
  have hne : a.call.key ≠ p.key := fun h => (mem_calls_remove.1 hp).2 h.symm
  rw [ahead_cons_of_passes (Call.effect_of_ne hne)]

theorem due_perm (h : t.DistinctKeys) (k : CallKey) (as : List Arrival) :
    (account.due t.calls as).Perm
      (account.due (t.lookup k).toList as ++ account.due (t.remove k).calls as) := by
  have hperm := (h.perm_lookup_remove k).flatMap_right fun p => account.owed p (ahead p.key as)
  rwa [List.flatMap_append] at hperm

theorem due_lookup (t : PendingTable) (k : CallKey) (as : List Arrival) :
    account.due (t.lookup k).toList as =
      (t.lookup k).toList.flatMap fun p => account.owed p (ahead k as) :=
  List.flatMap_congr fun p hp => by rw [key_of_lookup (Option.mem_toList.1 hp)]

/-- What is owed for the key of an arrival, and for the call that it starts, is paid with the answer
or is still owed. -/
theorem due_key (t : PendingTable) (a : Arrival) (as : List Arrival) :
    account.due (t.lookup a.call.key).toList (a :: as) ++
        (if a.call.stage = .unfinished then account.owed a.pending (ahead a.call.key as) else []) =
      account.paid a (t.answer a) ++ account.due ((t.next a).lookup a.call.key).toList as := by
  rw [due_lookup, due_lookup, lookup_next]
  have h := t.takes a
  generalize t.answer a = r, t.next a = t' at h
  cases h with
  | complete hs =>
    have heffect := Call.effect_complete (k := a.call.key) hs
    rw [ahead_cons_of_passes heffect, heffect, account.paid_oneLine, hs]
    simp [Effect.apply]
  | unfinished hs =>
    have heffect := Call.effect_unfinished hs
    rw [ahead_cons_of_starts heffect, heffect, account.paid_waiting, if_pos hs]
    simp [Effect.apply]
  | continued hs hp =>
    have heffect := Call.effect_continued hs
    rw [ahead_cons_of_adds heffect, heffect, hp, hs]
    simp [Effect.apply, account.owed_cons]
  | resumed hs hp =>
    have heffect := Call.effect_resumed hs
    rw [ahead_cons_of_ends heffect, heffect, hp, account.paid_twoLine, hs]
    simp [Effect.apply]
  | dangling hs hp =>
    rw [hp, account.paid_error]
    rcases hs with hs | ⟨o, hs⟩
    · simp [Call.effect_continued hs, hs, Effect.apply]
    · simp [Call.effect_resumed hs, hs, Effect.apply]

/-- Over a run, what the table owes at the start and for the calls that start is paid or still owed
at the end. -/
theorem perm_run (h : t.DistinctKeys) (as : List Arrival) :
    (((t.transcript as).flatMap fun x => account.paid x.1 x.2) ++
        account.due (t.after as).calls []).Perm
      (account.due t.calls as ++ (openings as).flatMap account.opened) := by
  induction as generalizing t with
  | nil => simp [transcript, after, openings]
  | cons a as ih =>
    -- only the key of the arrival matters: `kept` is owed for the other keys before and after it
    have hnext := account.due_perm (h.next a) a.call.key as
    have hnow := account.due_perm h a.call.key (a :: as)
    have hkey := account.due_key t a as
    rw [remove_next, ← due_remove_cons] at hnext
    have hopenings : (openings (a :: as)).flatMap account.opened =
        (if a.call.stage = .unfinished then account.owed a.pending (ahead a.call.key as) else []) ++
          (openings as).flatMap account.opened := by
      rw [openings, List.flatMap_append]
      split <;> simp [opened]
    rw [hopenings]
    generalize (if a.call.stage = .unfinished then _ else []) = opened at hkey ⊢
    generalize (openings as).flatMap _ = later at ih ⊢
    generalize account.due (t.remove a.call.key).calls (a :: as) = kept at hnext hnow
    calc ((t.transcript (a :: as)).flatMap fun x => account.paid x.1 x.2) ++
          account.due (t.after (a :: as)).calls []
      _ = account.paid a (t.answer a) ++
            ((((t.next a).transcript as).flatMap fun x => account.paid x.1 x.2) ++
              account.due ((t.next a).after as).calls []) := by
        rw [transcript, List.flatMap_cons, List.append_assoc]
        rfl
      List.Perm _ (account.paid a (t.answer a) ++
            (account.due ((t.next a).lookup a.call.key).toList as ++ kept ++ later)) :=
        ((ih (h.next a)).trans (hnext.append_right later)).append_left _
      _ = account.due (t.lookup a.call.key).toList (a :: as) ++ (opened ++ kept) ++ later := by
        rw [← List.append_assoc, ← List.append_assoc, ← hkey]
        simp only [List.append_assoc]
      List.Perm _
          (account.due (t.lookup a.call.key).toList (a :: as) ++ (kept ++ opened) ++ later) :=
        (List.perm_append_comm.append_left _).append_right later
      List.Perm _ (account.due t.calls (a :: as) ++ (opened ++ later)) := by
        rw [← List.append_assoc, List.append_assoc]
        exact hnow.symm.append_right _

end Account

/-! ## Conservation -/

/-- The calls that leave are the unfinished ones that arrived, each with the tokens of its
continuations. -/
theorem perm_exits (as : List Arrival) :
    (empty.exits as).Perm ((openings as).map Opening.grown) := by
  have hrun := Account.calls.perm_run DistinctKeys.empty as
  have hwaiting : Account.calls.due (empty.after as).calls [] = (empty.after as).calls :=
    (List.flatMap_congr fun p _ => congrArg ([·]) (PendingCall.extend_nil p)).trans
      (List.flatMap_singleton' _)
  rw [hwaiting] at hrun
  have hdrain : (empty.after as).drain.Perm (empty.after as).calls := List.mergeSort_perm _ _
  refine (hdrain.append_left _).trans (hrun.trans ?_)
  rw [List.map_eq_flatMap]
  exact List.Perm.refl _

/-- The continuations that the table takes are those of the unfinished calls. -/
theorem perm_accepted (as : List Arrival) :
    (empty.accepted as).Perm ((openings as).flatMap Opening.continuations) := by
  have hrun := Account.continued.perm_run DistinctKeys.empty as
  have hwaiting : Account.continued.due (empty.after as).calls [] = [] :=
    List.flatMap_eq_nil_iff.2 fun p _ => rfl
  rwa [hwaiting, List.append_nil] at hrun

theorem exists_of_mem_transcript {x : Arrival × Except TraceError Advance}
    (hx : x ∈ t.transcript as) : ∃ t' : PendingTable, x.2 = t'.answer x.1 := by
  induction as generalizing t with
  | nil => cases hx
  | cons a as ih =>
    rcases List.mem_cons.1 hx with rfl | hx
    · exact ⟨t, rfl⟩
    · exact ih hx

/-- A resumed call has the tokens that it left with, and then those of its last line. -/
theorem args_of_mem_transcript {c : Call} {started : PendingCall}
    (hx : (a, .ok (.twoLine c started)) ∈ t.transcript as) :
    c.args = Alignment.align a.call.name a.call.remark? (started.call.args ++ a.call.args) := by
  obtain ⟨t', ht'⟩ := exists_of_mem_transcript hx
  have h := t'.takes a
  rw [← show _ = t'.answer a from ht'] at h
  generalize t'.next a = t'' at h
  cases h with
  | resumed => rfl

theorem filter_slot_of_nodup {ps : List PendingCall} {p : PendingCall}
    (h : (ps.map PendingCall.slot).Nodup) (hp : p ∈ ps) :
    (ps.filter fun q => q.slot = p.slot) = [p] := by
  refine List.perm_singleton.1 ((List.perm_ext_iff_of_nodup (h.of_map.filter _)
    (List.nodup_singleton p)).2 fun q => ?_)
  rw [List.mem_filter, decide_eq_true_eq, List.mem_singleton]
  constructor
  · rintro ⟨hq, hslot⟩
    exact List.inj_on_of_nodup_map h hq hp hslot
  · rintro rfl
    exact ⟨hp, rfl⟩

/-- Each unfinished call of a run leaves the table once, with its own tokens and those of the
continuations that came while it was open, and nothing else leaves. Each continuation that the table
took leaves once. -/
theorem leaves_once (h : (as.map Arrival.slot).Nodup) :
    (openings as).map Opening.start = (as.filter fun a => a.call.stage = .unfinished) ∧
    (empty.exits as).Perm ((openings as).map Opening.grown) ∧
    (∀ x ∈ openings as, ((empty.exits as).filter fun p => p.slot = x.start.slot) = [x.grown]) ∧
    (empty.accepted as).Perm ((openings as).flatMap Opening.continuations) ∧
    ∀ a c started, (a, .ok (.twoLine c started)) ∈ empty.transcript as →
      c.args = Alignment.align a.call.name a.call.remark? (started.call.args ++ a.call.args) := by
  refine ⟨map_start_openings as, perm_exits as, fun x hx => ?_, perm_accepted as,
    fun a c started hx => args_of_mem_transcript hx⟩
  have hslots : (((openings as).map Opening.grown).map PendingCall.slot).Nodup := by
    have hstarts : ((openings as).map Opening.grown).map PendingCall.slot =
        ((openings as).map Opening.start).map Arrival.slot := by
      rw [List.map_map, List.map_map]
      rfl
    rw [hstarts, map_start_openings]
    exact h.sublist (List.filter_sublist.map _)
  have hone := filter_slot_of_nodup hslots (List.mem_map_of_mem hx)
  have hexits := (perm_exits as).filter fun p => p.slot = x.start.slot
  exact List.perm_singleton.1 (hexits.trans (List.Perm.of_eq hone))

/-- The first call of the run leaves when it is superseded, with the tokens of its continuation. -/
theorem leaves_once_overlaps :
    (overlaps.map Arrival.slot).Nodup ∧
      ((empty.exits overlaps).filter fun p => p.slot = 0) =
        [⟨⟨⟨100, none, none⟩, "read".toList, ["3".toList, "y".toList], .unfinished⟩,
          "read0".toList, 0⟩] ∧
      (empty.accepted overlaps).Perm
        [overlapping 100 "read".toList ["y".toList] .continued 2,
          overlapping 100 "read".toList ["z".toList] .continued 7] := by
  have hslots : (overlaps.map Arrival.slot).Nodup := by decide
  obtain ⟨-, -, hexits, haccepted, -⟩ := leaves_once hslots
  have hfirst : ⟨overlapping 100 "read".toList ["3".toList] .unfinished 0,
      [overlapping 100 "read".toList ["y".toList] .continued 2]⟩ ∈ openings overlaps := by
    decide +kernel
  have hcontinuations : (openings overlaps).flatMap Opening.continuations =
      [overlapping 100 "read".toList ["y".toList] .continued 2,
        overlapping 100 "read".toList ["z".toList] .continued 7] := by decide +kernel
  rw [hcontinuations] at haccepted
  exact ⟨hslots, hexits _ hfirst, haccepted⟩

end PendingTable

end SyscallTrace
