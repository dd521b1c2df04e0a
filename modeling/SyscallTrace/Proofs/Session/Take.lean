import SyscallTrace.Proofs.PendingTable
import SyscallTrace.Proofs.Session.History
import SyscallTrace.Proofs.Success

/-!
# What a line does to a session

`Session.Takes` lists the four things that a line with a call can do to a session, and
`Session.take_eq_ok_iff` says that there are no others. The invariant `Session.Consistent` ties the
slots to the pending calls: a slot waits exactly if a pending call has it. `Takes.consistent` and
`Takes.waiting` carry it and the view of the pending calls from line to line.
-/

namespace SyscallTrace.Session

variable {setting : Setting} {s s' : Session} {number : Nat} {line : Text} {c : Call}

/-! ## Steps -/

/-- A line with a call takes the session `s` to `s'`. -/
inductive Takes (setting : Setting) (s : Session) (number : Nat) (line : Text) (c : Call) :
    Session → Prop where
  | complete {o : Outcome} {r : Record} {ds : List Diagnostic} (hc : c.stage = .complete o)
      (hr : setting.record c.aligned line none number = .ok (r, ds)) :
      Takes setting s number line c
        ⟨push s.slots number (.record r), s.pending, s.diagnostics ++ ds⟩
  | unfinished (hc : c.stage = .unfinished) :
      Takes setting s number line c
        ⟨push ((s.pending.lookup c.key).elim s.slots (store s.slots)) number .waiting,
          s.pending.insert ⟨c, line, s.slots.size⟩, s.diagnostics⟩
  | continued {p : PendingCall} (hc : c.stage = .continued)
      (hp : s.pending.lookup c.key = some p) :
      Takes setting s number line c { s with pending := s.pending.insert (p.extend c.args) }
  | resumed {o : Outcome} {p : PendingCall} {r : Record} {ds : List Diagnostic}
      (hc : c.stage = .resumed o) (hp : s.pending.lookup c.key = some p)
      (hr : setting.record (p.resume c).aligned line (some p.line) number = .ok (r, ds)) :
      Takes setting s number line c
        ⟨push (setSlot s.slots p.slot .resumed) number (.record r), s.pending.remove c.key,
          s.diagnostics ++ ds⟩

theorem take_eq_ok_iff :
    take setting s number line c = .ok s' ↔ Takes setting s number line c s' := by
  constructor
  · intro h
    obtain ⟨⟨advance, pending⟩, ha, h⟩ := bind_eq_ok_iff.1 h
    unfold PendingTable.advance at ha
    split at ha
    · next o hc =>
      obtain ⟨rfl, rfl⟩ := Prod.mk.inj (Except.ok.inj ha)
      obtain ⟨⟨r, ds⟩, hr, h⟩ := bind_eq_ok_iff.1 h
      obtain rfl := pure_eq_ok_iff.1 h
      exact .complete hc hr
    · next hc =>
      obtain ⟨rfl, rfl⟩ := Prod.mk.inj (Except.ok.inj ha)
      obtain rfl := pure_eq_ok_iff.1 h
      exact .unfinished hc
    · next hc =>
      split at ha
      · cases ha
      · next p hp =>
        obtain ⟨rfl, rfl⟩ := Prod.mk.inj (Except.ok.inj ha)
        obtain rfl := pure_eq_ok_iff.1 h
        exact .continued hc hp
    · next o hc =>
      split at ha
      · cases ha
      · next p hp =>
        obtain ⟨rfl, rfl⟩ := Prod.mk.inj (Except.ok.inj ha)
        obtain ⟨⟨r, ds⟩, hr, h⟩ := bind_eq_ok_iff.1 h
        obtain rfl := pure_eq_ok_iff.1 h
        exact .resumed hc hp hr
  · intro h
    unfold take PendingTable.advance
    cases h with
    | complete hc hr =>
      rw [hc]
      exact bind_eq_ok_iff.2 ⟨_, rfl, bind_eq_ok_iff.2 ⟨_, hr, rfl⟩⟩
    | unfinished hc => rw [hc]; rfl
    | continued hc hp => rw [hc]; dsimp only; rw [hp]; rfl
    | resumed hc hp hr =>
      rw [hc]
      dsimp only
      rw [hp]
      exact bind_eq_ok_iff.2 ⟨_, rfl, bind_eq_ok_iff.2 ⟨_, hr, rfl⟩⟩

/-! ## Slots -/

theorem getElem?_setSlot (slots : Array NumberedSlot) (i j : Nat) (slot : Slot) :
    (setSlot slots i slot)[j]? =
      if i = j then slots[j]?.map fun x => { x with slot := slot } else slots[j]? := by
  unfold setSlot
  rw [Array.getElem?_modify]

@[simp] theorem size_setSlot (slots : Array NumberedSlot) (i : Nat) (slot : Slot) :
    (setSlot slots i slot).size = slots.size := by
  unfold setSlot
  rw [Array.size_modify]

theorem getElem?_push (slots : Array NumberedSlot) (number i : Nat) (slot : Slot) :
    (push slots number slot)[i]? = if i = slots.size then some ⟨number, slot⟩ else slots[i]? := by
  unfold push
  rw [Array.getElem?_push]

/-- The slots after a call that waited, if one did, is stored as unfinished. -/
theorem getElem?_elim_store (slots : Array NumberedSlot) (p? : Option PendingCall) (i : Nat) :
    (p?.elim slots (store slots))[i]? =
      match p?.filter fun p => p.slot == i with
      | some p => slots[i]?.map fun x => { x with slot := .unfinished p }
      | none => slots[i]? := by
  cases p? with
  | none => rfl
  | some p =>
    show (setSlot slots p.slot (.unfinished p))[i]? = _
    rw [getElem?_setSlot]
    by_cases h : p.slot = i <;> simp [Option.filter, h]

@[simp] theorem size_elim_store (slots : Array NumberedSlot) (p? : Option PendingCall) :
    (p?.elim slots (store slots)).size = slots.size := by
  cases p? with
  | none => rfl
  | some p => exact size_setSlot slots p.slot _

/-! ## The invariant -/

/-- The slot of the session waits. -/
def IsWaiting (slots : Array NumberedSlot) (i : Nat) : Prop :=
  ∃ number, slots[i]? = some ⟨number, .waiting⟩

/-- The slots that wait are those of the pending calls, one for each. -/
structure Consistent (s : Session) : Prop where
  distinct : s.pending.Distinct
  waiting_iff : ∀ i, IsWaiting s.slots i ↔ ∃ p ∈ s.pending.calls, p.slot = i

theorem IsWaiting.lt {slots : Array NumberedSlot} {i : Nat} (h : IsWaiting slots i) :
    i < slots.size := by
  obtain ⟨number, h⟩ := h
  exact (Array.getElem?_eq_some_iff.1 h).1

namespace Consistent

variable {p : PendingCall}

theorem empty : Consistent {} :=
  ⟨PendingTable.Distinct.empty, by simp [IsWaiting]⟩

theorem isWaiting (h : Consistent s) (hp : p ∈ s.pending.calls) : IsWaiting s.slots p.slot :=
  (h.waiting_iff p.slot).2 ⟨p, hp, rfl⟩

theorem slot_lt (h : Consistent s) (hp : p ∈ s.pending.calls) : p.slot < s.slots.size :=
  (h.isWaiting hp).lt

end Consistent

theorem isWaiting_push_iff {slots : Array NumberedSlot} {slot : Slot} {i : Nat} :
    IsWaiting (push slots number slot) i ↔
      i = slots.size ∧ slot = .waiting ∨ IsWaiting slots i := by
  unfold IsWaiting
  rw [getElem?_push]
  by_cases hi : i = slots.size
  · subst hi
    simp
  · simp [hi]

theorem isWaiting_setSlot_iff {slots : Array NumberedSlot} {slot : Slot} {i j : Nat}
    (hs : slot ≠ .waiting) : IsWaiting (setSlot slots i slot) j ↔ i ≠ j ∧ IsWaiting slots j := by
  unfold IsWaiting
  rw [getElem?_setSlot]
  by_cases hi : i = j
  · subst hi
    cases slots[i]? <;> simp [hs]
  · simp [hi]

theorem isWaiting_elim_store_iff {slots : Array NumberedSlot} {p? : Option PendingCall} {j : Nat} :
    IsWaiting (p?.elim slots (store slots)) j ↔
      (∀ p ∈ p?, p.slot ≠ j) ∧ IsWaiting slots j := by
  cases p? with
  | none => simp
  | some p =>
    show IsWaiting (setSlot slots p.slot (.unfinished p)) j ↔ _
    rw [isWaiting_setSlot_iff (by simp)]
    simp

theorem Takes.consistent (h : Takes setting s number line c s') (hs : s.Consistent) :
    s'.Consistent := by
  have hlt : ∀ q ∈ s.pending.calls, q.slot ≠ s.slots.size := fun q hq =>
    Nat.ne_of_lt (hs.slot_lt hq)
  cases h with
  | complete hc hr =>
    refine ⟨hs.distinct, fun i => ?_⟩
    rw [isWaiting_push_iff, hs.waiting_iff]
    simp
  | unfinished hc =>
    refine ⟨hs.distinct.insert fun q hq hqs => absurd hqs (hlt q hq), fun i => ?_⟩
    rw [isWaiting_push_iff, size_elim_store, isWaiting_elim_store_iff, hs.waiting_iff]
    constructor
    · rintro (⟨rfl, -⟩ | ⟨hq, p, hp, rfl⟩)
      · exact ⟨_, PendingTable.mem_calls_insert.2 (Or.inl rfl), rfl⟩
      · refine ⟨p, PendingTable.mem_calls_insert.2 (Or.inr ⟨hp, fun hk => ?_⟩), rfl⟩
        exact hq p (hs.distinct.lookup_eq_some_iff.2 ⟨hp, hk⟩) rfl
    · rintro ⟨p, hp, rfl⟩
      rcases PendingTable.mem_calls_insert.1 hp with rfl | ⟨hp, hk⟩
      · exact Or.inl ⟨rfl, rfl⟩
      · refine Or.inr ⟨fun q hq hqs => ?_, p, hp, rfl⟩
        have hq := hs.distinct.lookup_eq_some_iff.1 hq
        rw [hs.distinct.slots q hq.1 p hp hqs] at hq
        exact hk hq.2
  | @continued p hc hp =>
    have hp := hs.distinct.lookup_eq_some_iff.1 hp
    have hins : ∀ q ∈ s.pending.calls, q.slot = p.slot → q.key = p.key := fun q hq hqs => by
      rw [hs.distinct.slots q hq p hp.1 hqs]
    refine ⟨hs.distinct.insert hins, fun i => ?_⟩
    show IsWaiting s.slots i ↔ _
    rw [hs.waiting_iff]
    constructor
    · rintro ⟨q, hq, rfl⟩
      by_cases hk : q.key = p.key
      · obtain rfl := hs.distinct.distinctKeys.eq_of_key hq hp.1 hk
        exact ⟨_, PendingTable.mem_calls_insert.2 (Or.inl rfl), rfl⟩
      · exact ⟨q, PendingTable.mem_calls_insert.2 (Or.inr ⟨hq, hk⟩), rfl⟩
    · rintro ⟨q, hq, rfl⟩
      rcases PendingTable.mem_calls_insert.1 hq with rfl | ⟨hq, -⟩
      · exact ⟨p, hp.1, rfl⟩
      · exact ⟨q, hq, rfl⟩
  | @resumed o p r ds hc hp hr =>
    have hp := hs.distinct.lookup_eq_some_iff.1 hp
    refine ⟨hs.distinct.remove c.key, fun i => ?_⟩
    rw [isWaiting_push_iff, isWaiting_setSlot_iff (by simp), hs.waiting_iff]
    constructor
    · rintro (⟨-, h⟩ | ⟨hne, q, hq, rfl⟩)
      · cases h
      · refine ⟨q, PendingTable.mem_calls_remove.2 ⟨hq, fun hk => hne ?_⟩, rfl⟩
        rw [hs.distinct.distinctKeys.eq_of_key hq hp.1 (hk.trans hp.2.symm)]
    · rintro ⟨q, hq, rfl⟩
      obtain ⟨hq, hk⟩ := PendingTable.mem_calls_remove.1 hq
      refine Or.inr ⟨fun hs' => hk ?_, q, hq, rfl⟩
      rw [hs.distinct.slots q hq p hp.1 hs'.symm]
      exact hp.2

/-! ## The calls that wait -/

/-- The pending calls of a session without their slots. -/
def waiting (s : Session) : Waiting :=
  fun k => (s.pending.lookup k).map fun p => ⟨p.call, p.line⟩

theorem Takes.waiting (h : Takes setting s number line c s') :
    s'.waiting = s.waiting.next line c := by
  funext k
  unfold Waiting.next
  cases h with
  | complete hc hr => rw [hc]; rfl
  | unfinished hc =>
    rw [hc]
    show ((s.pending.insert _).lookup k).map _ =
      Function.update s.waiting c.key (some ⟨c, line⟩) k
    rw [PendingTable.lookup_insert, PendingCall.key_mk, Function.update_apply]
    by_cases hk : c.key = k
    · subst hk
      rw [if_pos rfl, if_pos rfl]
      rfl
    · rw [if_neg hk, if_neg (Ne.symm hk)]
      rfl
  | @continued p hc hp =>
    have hkey : p.key = c.key := PendingTable.key_of_lookup hp
    rw [hc]
    show ((s.pending.insert _).lookup k).map _ =
      Function.update s.waiting c.key ((s.waiting c.key).map fun o => o.extend c.args) k
    rw [PendingTable.lookup_insert, PendingCall.key_extend, hkey, Function.update_apply]
    by_cases hk : c.key = k
    · subst hk
      rw [if_pos rfl, if_pos rfl]
      unfold Session.waiting
      rw [hp]
      rfl
    · rw [if_neg hk, if_neg (Ne.symm hk)]
      rfl
  | resumed hc hp hr =>
    rw [hc]
    show ((s.pending.remove _).lookup k).map _ = Function.update s.waiting c.key none k
    rw [PendingTable.lookup_remove, Function.update_apply]
    by_cases hk : c.key = k
    · subst hk
      simp
    · rw [if_neg hk, if_neg (Ne.symm hk)]
      rfl

theorem Takes.admits (h : Takes setting s number line c s') : s.waiting.Admits c := by
  unfold Waiting.Admits
  cases h with
  | complete hc hr => rw [hc]; trivial
  | unfinished hc => rw [hc]; trivial
  | continued hc hp => rw [hc]; simp [Session.waiting, hp]
  | resumed hc hp hr => rw [hc]; simp [Session.waiting, hp]

end SyscallTrace.Session
