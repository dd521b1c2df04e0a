import SyscallTrace.Proofs.Session.RecordSequence

/-!
# Slots during a session

At each line a session has one slot for each line with a call that it went through
(`SlotInvariant.lines`). The slots that wait are those of the pending calls, one for each, and the
other empty slots are those of the calls that were resumed. `Session.slotInvariant_of_run` says so
after any number of lines, `Session.Takes.keeps` that a line leaves what is stored as it is, and
`Session.slots_reflect_pending` that what a line or the end of the session writes goes to a slot
that waits.
-/

namespace SyscallTrace

/-- Nothing is stored in the slot: its call waits, or was resumed at a later line. -/
def Slot.isEmpty : Slot → Bool
  | .waiting | .resumed => true
  | .record _ | .unfinished _ => false

/-- The slot that is written to as a call takes this course. -/
def Advance.written? : Advance → Option Nat
  | .twoLine _ started => some started.slot
  | .waiting superseded => superseded.map PendingCall.slot
  | .oneLine _ | .continued => none

namespace History

variable {es : List Entry} {e : Entry} {c : Call} {i j n : Nat} {w : Waiting} {x : Source}

/-! ## Lines with a slot -/

/-- The line shows a call, and does not continue one: it gets a slot. -/
def reserves (e : Entry) : Bool := e.call?.any fun c => c.stage != .continued

/-- The line with this number started a call that one of the lines resumed. -/
def WasResumed (es : List Entry) (number : Nat) : Prop :=
  ∃ j e c m, es[j]? = some e ∧ e.number = number ∧ e.call? = some c ∧ OpenAt es c.key j m ∧
    effectAt es c.key m = .ends

theorem reserves_of_none (h : e.call? = none) : reserves e = false := by
  unfold reserves
  rw [h]
  rfl

theorem reserves_of_some (h : e.call? = some c) : reserves e = (c.stage != .continued) := by
  unfold reserves
  rw [h]
  rfl

/-- What the slots of the lines from a place on hold at the end, next to their lines. -/
theorem forall₂_slotSources_drop (hn : n ≤ es.length) :
    List.Forall₂ (fun e x? => ∃ j, es[j]? = some e ∧ sourceAt? es j = x?)
      ((es.drop n).filter reserves) (slotSources (waitingAt es n) (es.drop n)) := by
  induction hlen : es.length - n generalizing n with
  | zero =>
    rw [List.drop_eq_nil_of_le (by omega)]
    exact .nil
  | succ len ih =>
    obtain ⟨e, he⟩ : ∃ e, es[n]? = some e := ⟨es[n], List.getElem?_eq_getElem (by omega)⟩
    have ih := @ih (n + 1) (by omega) (by omega)
    rw [waitingAt_succ he] at ih
    rw [drop_eq_cons he, List.filter_cons]
    cases hc : e.call? with
    | none =>
      rw [hc] at ih
      rw [slotSources_cons_of_none hc, reserves_of_none hc]
      exact ih
    | some c =>
      rw [hc] at ih
      rw [slotSources_cons_of_some hc, reserves_of_some hc]
      unfold Waiting.slotSource
      by_cases hs : c.stage = .continued
      · rw [if_pos hs, if_neg (by simp [hs])]
        exact ih
      · rw [if_neg hs, if_pos (by simp [hs])]
        exact .cons ⟨n, he, sourceAt?_of_call he hc⟩ ih

theorem forall₂_slotSources :
    List.Forall₂ (fun e x? => ∃ j, es[j]? = some e ∧ sourceAt? es j = x?) (es.filter reserves)
      (slotSources Waiting.none es) :=
  forall₂_slotSources_drop (Nat.zero_le _)

/-- Of the lines with a slot, those without a source started a call that was resumed. -/
theorem sourceAt?_eq_none_iff (hval : Valid Waiting.none es) (he : es[j]? = some e)
    (hc : e.call? = some c) (hs : c.stage ≠ .continued) :
    sourceAt? es j = none ↔ ∃ m, OpenAt es c.key j m ∧ effectAt es c.key m = .ends := by
  rw [Option.eq_none_iff_forall_ne_some, ← not_exists, ← hasRecord_iff hval]
  constructor
  · intro h
    by_contra hnot
    refine h ⟨e, c, he, hc, ?_⟩
    cases hstage : c.stage with
    | complete | resumed => trivial
    | unfinished => exact fun m ho hends => hnot ⟨m, ho, hends⟩
    | continued => exact hs hstage
  · rintro ⟨m, ho, hends⟩ ⟨e', c', he', hc', h⟩
    obtain rfl := Option.some.inj (he.symm.trans he')
    obtain rfl := Option.some.inj (hc.symm.trans hc')
    have hstarts := ho.starts
    rw [effectAt_of_getElem? he, Entry.effect, hc] at hstarts
    rw [(Call.effect_eq_starts_iff.1 hstarts).2] at h
    exact h m ho hends

end History

open History

namespace Session

variable {setting : Setting} {s s' : Session} {es : List Entry} {number i : Nat} {line : Text}
  {c : Call}

/-! ## The lines of the slots -/

/-- The numbers of the lines of the slots. -/
def slotLines (s : Session) : List Nat := s.slots.toList.map NumberedSlot.line

theorem slotLines_push (slots : Array NumberedSlot) (number : Nat) (slot : Slot) :
    (push slots number slot).toList.map NumberedSlot.line =
      slots.toList.map NumberedSlot.line ++ [number] := by
  unfold push
  rw [Array.toList_push, List.map_append]
  rfl

theorem slotLines_setSlot (slots : Array NumberedSlot) (i : Nat) (slot : Slot) :
    (setSlot slots i slot).toList.map NumberedSlot.line =
      slots.toList.map NumberedSlot.line := by
  apply List.ext_getElem?
  intro j
  rw [List.getElem?_map, List.getElem?_map, Array.getElem?_toList, Array.getElem?_toList,
    getElem?_setSlot]
  split
  · rw [Option.map_map]
    rfl
  · rfl

theorem slotLines_elim_store (slots : Array NumberedSlot) (p? : Option PendingCall) :
    (p?.elim slots (store slots)).toList.map NumberedSlot.line =
      slots.toList.map NumberedSlot.line := by
  cases p? with
  | none => rfl
  | some p => exact slotLines_setSlot slots p.slot _

theorem Takes.slotLines (h : Takes setting s number line c s') :
    s'.slotLines = s.slotLines ++ if c.stage = .continued then [] else [number] := by
  unfold Session.slotLines
  cases h with
  | complete hc hr =>
    rw [slotLines_push, if_neg (by simp [hc])]
  | unfinished hc =>
    rw [slotLines_push, slotLines_elim_store, if_neg (by simp [hc])]
  | continued hc hp =>
    rw [if_pos hc, List.append_nil]
  | resumed hc hp hr =>
    rw [slotLines_push, slotLines_setSlot, if_neg (by simp [hc])]

theorem slotLines_of_run (h : es.foldlM (takeEntry setting) s = .ok s') :
    s'.slotLines = s.slotLines ++ (es.filter reserves).map Entry.number := by
  induction es generalizing s with
  | nil =>
    obtain rfl := pure_eq_ok_iff.1 h
    exact (List.append_nil _).symm
  | cons e es ih =>
    obtain ⟨s₁, h₁, hes⟩ := foldlM_cons_eq_ok_iff.1 h
    rw [ih hes, List.filter_cons]
    unfold takeEntry at h₁
    cases hc : e.call? with
    | none =>
      rw [hc] at h₁
      obtain rfl := Except.ok.inj h₁
      rw [reserves_of_none hc]
      rfl
    | some c =>
      rw [hc] at h₁
      rw [(take_eq_ok_iff.1 h₁).slotLines, reserves_of_some hc, List.append_assoc]
      by_cases hs : c.stage = .continued
      · rw [if_pos hs, if_neg (by simp [hs]), List.nil_append]
      · rw [if_neg hs, if_pos (by simp [hs]), List.map_cons, List.singleton_append]

/-! ## The invariant -/

/-- The slots of a session that went through the lines `es`, against its pending calls. A slot and
the number of its line are kept together. -/
structure SlotInvariant (es : List Entry) (s : Session) : Prop where
  paired : s.slotLines.length = s.slots.size
  lines : s.slotLines = (es.filter reserves).map Entry.number
  increasing : s.slotLines.Pairwise (· < ·)
  /-- The slot of a pending call is there, and waits. -/
  waits : ∀ p ∈ s.pending.calls, IsWaiting s.slots p.slot
  alone : (s.pending.calls.map PendingCall.slot).Nodup
  /-- The empty slots that no pending call has are those of the calls that were resumed. -/
  empty_iff : ∀ i x, s.slots[i]? = some x →
    ((x.slot.isEmpty ∧ ∀ p ∈ s.pending.calls, p.slot ≠ i) ↔ WasResumed es x.line)

variable {x : NumberedSlot}

/-- A slot belongs to a line with a slot, and fits what the history says about that line. -/
theorem exists_line_of_slot (hlines : s.slotLines = (es.filter reserves).map Entry.number)
    (hfits : List.Forall₂ (Fits setting) (slotSources Waiting.none es)
      (settled s.slots s.pending [])) (hx : s.slots[i]? = some x) :
    ∃ j e c, es[j]? = some e ∧ e.number = x.line ∧ e.call? = some c ∧ c.stage ≠ .continued ∧
      Fits setting (sourceAt? es j) (NumberedSlot.settled s.pending [] i x) := by
  have hline : ((es.filter reserves).map Entry.number)[i]? = some x.line := by
    rw [← hlines, slotLines, List.getElem?_map, Array.getElem?_toList, hx]
    rfl
  rw [List.getElem?_map, Option.map_eq_some_iff] at hline
  obtain ⟨e, he, hnumber⟩ := hline
  obtain ⟨hi, hget⟩ := List.getElem?_eq_some_iff.1 he
  have hslot : (settled s.slots s.pending [])[i]? =
      some (NumberedSlot.settled s.pending [] i x) := by
    rw [getElem?_settled, hx, Option.map_some]
  obtain ⟨hi', hget'⟩ := List.getElem?_eq_some_iff.1 hslot
  have hpair : List.Forall₂ (fun e slot => ∃ j, es[j]? = some e ∧
      Fits setting (sourceAt? es j) slot) (es.filter reserves) (settled s.slots s.pending []) := by
    refine forall₂_trans (fun e x? slot he hfit => ?_) forall₂_slotSources hfits
    obtain ⟨j, he, rfl⟩ := he
    exact ⟨j, he, hfit⟩
  obtain ⟨j, hj, hfit⟩ := hpair.get hi hi'
  rw [List.get_eq_getElem, hget] at hj
  rw [List.get_eq_getElem, hget'] at hfit
  have hreserves := (List.mem_filter.1 (List.mem_of_getElem? he)).2
  cases hc : e.call? with
  | none =>
    rw [reserves_of_none hc] at hreserves
    cases hreserves
  | some c =>
    rw [reserves_of_some hc, bne_iff_ne] at hreserves
    exact ⟨j, e, c, hj, hnumber, hc, hreserves, hfit⟩

theorem slotInvariant_of_run (h : es.foldlM (takeEntry setting) {} = .ok s)
    (hnumbers : (es.map Entry.number).Pairwise (· < ·)) : SlotInvariant es s := by
  obtain ⟨hcon, hval, ⟨new, hslots, hfits⟩, -⟩ := replays_of_run h Consistent.empty
  have hval : Valid Waiting.none es := hval
  have hlines : s.slotLines = (es.filter reserves).map Entry.number := slotLines_of_run h
  have hfits : List.Forall₂ (Fits setting) (slotSources Waiting.none es)
      (settled s.slots s.pending []) := by
    rw [hslots]
    exact hfits
  refine ⟨by simp [slotLines], hlines, ?_, fun p hp => hcon.isWaiting hp,
    hcon.distinct.nodup_slots, fun i x hx => ?_⟩
  · rw [hlines]
    exact hnumbers.sublist (List.filter_sublist.map _)
  obtain ⟨j, e, c, he, hnumber, hc, hs, hfit⟩ := exists_line_of_slot hlines hfits hx
  have hsource := sourceAt?_eq_none_iff hval he hc hs
  constructor
  · rintro ⟨hempty, hfree⟩
    rw [settled_of_atSlot_none (PendingTable.atSlot_eq_none_iff.2 hfree)] at hfit
    cases hfit' : sourceAt? es j with
    | none =>
      obtain ⟨m, ho, hends⟩ := hsource.1 hfit'
      exact ⟨j, e, c, m, he, hnumber, hc, ho, hends⟩
    | some source =>
      rw [hfit'] at hfit
      cases hfit with
      | finished => cases hempty
      | never => cases hempty
  · rintro ⟨j', e', c', m, he', hnumber', hc', ho, hends⟩
    -- the numbers of the lines tell their places
    obtain rfl : j = j' := by
      have hnumber : (es.map Entry.number)[j]? = (es.map Entry.number)[j']? := by
        rw [List.getElem?_map, List.getElem?_map, he, he', Option.map_some, Option.map_some,
          hnumber, hnumber']
      have hj : j < (es.map Entry.number).length := by
        rw [List.length_map]
        exact (List.getElem?_eq_some_iff.1 he).1
      exact (List.getElem?_inj hj hnumbers.nodup).1 hnumber
    obtain rfl := Option.some.inj (he.symm.trans he')
    obtain rfl := Option.some.inj (hc.symm.trans hc')
    rw [hsource.2 ⟨m, ho, hends⟩] at hfit
    cases hat : s.pending.atSlot i with
    | none =>
      rw [settled_of_atSlot_none hat] at hfit
      refine ⟨?_, PendingTable.atSlot_eq_none_iff.1 hat⟩
      cases hfit
      rfl
    | some p =>
      rw [settled_of_atSlot hat, PendingCall.settled_nil] at hfit
      cases hfit

/-! ## What is written -/

/-- What the slots store stays as it is. -/
def Keeps (slots slots' : List NumberedSlot) : Prop :=
  ∀ (i : Nat) (x : NumberedSlot), slots[i]? = some x → x.slot.isEmpty = false →
    slots'[i]? = some x

theorem ne_of_isWaiting {slots : Array NumberedSlot} {i j : Nat} (h : IsWaiting slots j)
    (hx : slots[i]? = some x) (hfull : x.slot.isEmpty = false) : j ≠ i := by
  rintro rfl
  obtain ⟨number, h⟩ := h
  obtain rfl := Option.some.inj (hx.symm.trans h)
  cases hfull

theorem Takes.keeps (h : Takes setting s number line c s') (hs : s.Consistent) :
    Keeps s.slots.toList s'.slots.toList := by
  intro i x hx hfull
  rw [Array.getElem?_toList] at hx ⊢
  have hi : i ≠ s.slots.size := Nat.ne_of_lt (Array.getElem?_eq_some_iff.1 hx).1
  -- a slot that is written to waits, and what is stored does not
  have hne : ∀ p, s.pending.lookup c.key = some p → p.slot ≠ i := fun p hp =>
    ne_of_isWaiting (hs.isWaiting (PendingTable.mem_of_lookup hp)) hx hfull
  cases h with
  | complete hc hr => rw [getElem?_push, if_neg hi, hx]
  | unfinished hc =>
    rw [getElem?_push, size_elim_store, if_neg hi, getElem?_elim_store,
      Option.filter_eq_none_iff.2 fun p hp => by simpa using hne p hp]
    exact hx
  | continued hc hp => exact hx
  | resumed hc hp hr =>
    rw [getElem?_push, size_setSlot, if_neg hi, getElem?_setSlot, if_neg (hne _ hp), hx]

theorem Consistent.keeps_finalSlots (hs : s.Consistent) : Keeps s.slots.toList s.finalSlots := by
  intro i x hx hfull
  rw [Array.getElem?_toList] at hx
  unfold finalSlots
  rw [Array.getElem?_toList, getElem?_foldl_store_of_ne fun p hp => ?_, hx]
  exact ne_of_isWaiting (hs.isWaiting (PendingTable.mem_drain.1 hp)) hx hfull

/-- The slot of each call that is left over still waits when its turn comes. -/
theorem Consistent.isWaiting_foldl_store (hs : s.Consistent) {ps qs : List PendingCall}
    {p : PendingCall} (h : s.pending.drain = ps ++ p :: qs) :
    IsWaiting (ps.foldl store s.slots) p.slot := by
  have hslots := hs.distinct.pairwise_drain
  rw [h, List.map_append, List.map_cons, List.pairwise_append] at hslots
  have hmem : p ∈ s.pending.drain := by simp [h]
  obtain ⟨number, hp⟩ := hs.isWaiting (PendingTable.mem_drain.1 hmem)
  refine ⟨number, ?_⟩
  rw [getElem?_foldl_store_of_ne fun q hq => ?_, hp]
  exact Nat.ne_of_lt (hslots.2.2 _ (List.mem_map_of_mem hq) _ List.mem_cons_self)

theorem Consistent.isWaiting_written (hs : s.Consistent) {slot : Nat} {a : Advance}
    {t : PendingTable} (h : s.pending.advance c line slot = .ok (a, t)) :
    ∀ i ∈ a.written?, IsWaiting s.slots i := by
  intro i hi
  have hlookup : ∀ p, s.pending.lookup c.key = some p → IsWaiting s.slots p.slot := fun p hp =>
    hs.isWaiting (PendingTable.mem_of_lookup hp)
  unfold PendingTable.advance at h
  split at h
  · obtain ⟨rfl, -⟩ := Prod.mk.inj (Except.ok.inj h)
    cases hi
  · obtain ⟨rfl, -⟩ := Prod.mk.inj (Except.ok.inj h)
    obtain ⟨p, hp, rfl⟩ := Option.map_eq_some_iff.1 hi
    exact hlookup p hp
  · split at h
    · cases h
    · obtain ⟨rfl, -⟩ := Prod.mk.inj (Except.ok.inj h)
      cases hi
  · split at h
    · cases h
    · next p hp =>
      obtain ⟨rfl, -⟩ := Prod.mk.inj (Except.ok.inj h)
      obtain rfl := Option.some.inj hi
      exact hlookup p hp

/-! ## A whole trace -/

theorem pairwise_number_entries_take (columns : Columns) (lines : List Text) (n : Nat) :
    (((entries columns lines).take n).map Entry.number).Pairwise (· < ·) := by
  rw [List.map_take, map_number_entries]
  exact (List.pairwise_lt_range' (s := 1)).sublist (List.take_sublist _ _)

/-- However many lines a session went through, its slots reflect its pending calls. What the next
line writes goes to a slot that waits, and so does what is left over at the end, one call after the
other; nothing that is stored is overwritten. -/
theorem slots_reflect_pending {lines : List Text} {n : Nat}
    (h : run setting {} ((lines.zipIdx 1).take n) = .ok s) :
    SlotInvariant ((entries setting.columns lines).take n) s ∧
      (∀ c line a t, s.pending.advance c line s.slots.size = .ok (a, t) →
        ∀ i ∈ a.written?, IsWaiting s.slots i) ∧
      (∀ ps p qs, s.pending.drain = ps ++ p :: qs → IsWaiting (ps.foldl store s.slots) p.slot) ∧
      (∀ number line s', step setting s number line = .ok s' →
        Keeps s.slots.toList s'.slots.toList) ∧
      Keeps s.slots.toList s.finalSlots := by
  have hrun := (run_eq_ok_iff.1 h).2
  rw [List.map_take] at hrun
  have hcon : s.Consistent := (replays_of_run hrun Consistent.empty).consistent
  refine ⟨slotInvariant_of_run hrun (pairwise_number_entries_take _ _ _),
    fun c line a t => hcon.isWaiting_written, fun ps p qs => hcon.isWaiting_foldl_store,
    fun number line s' hstep => ?_, hcon.keeps_finalSlots⟩
  obtain ⟨c?, -, hstep⟩ := bind_eq_ok_iff.1 hstep
  cases c? with
  | none =>
    obtain rfl := pure_eq_ok_iff.1 hstep
    exact fun i x hx _ => hx
  | some c => exact (take_eq_ok_iff.1 hstep).keeps hcon

/-- Of the first five lines, one finished its call, one was resumed, and one waits. -/
theorem slots_reflect_pending_overlapping :
    ∃ s, run ⟨{}, {}⟩ {} ((overlapping.lines.zipIdx 1).take 5) = .ok s ∧
      s.slotLines = [1, 2, 4, 5] ∧ s.pending.size = 1 ∧
      SlotInvariant ((entries {} overlapping.lines).take 5) s ∧
      (∀ c line a t, s.pending.advance c line s.slots.size = .ok (a, t) →
        ∀ i ∈ a.written?, IsWaiting s.slots i) ∧
      (∀ ps p qs, s.pending.drain = ps ++ p :: qs → IsWaiting (ps.foldl store s.slots) p.slot) ∧
      (∀ number line s', step ⟨{}, {}⟩ s number line = .ok s' →
        Keeps s.slots.toList s'.slots.toList) ∧
      Keeps s.slots.toList s.finalSlots := by
  have hview : (run ⟨{}, {}⟩ {} ((overlapping.lines.zipIdx 1).take 5)).toOption.map
      (fun s => (s.slotLines, s.pending.size)) = some ([1, 2, 4, 5], 1) := by decide +kernel
  obtain ⟨s, hs, hview⟩ := Option.map_eq_some_iff.1 hview
  obtain ⟨hlines, hsize⟩ := Prod.mk.inj hview
  have hs := toOption_eq_some_iff.1 hs
  have hreflect := slots_reflect_pending hs
  exact ⟨s, hs, hlines, hsize, hreflect⟩

end Session

end SyscallTrace
