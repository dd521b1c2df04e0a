import SyscallTrace.Proofs.Session.Take

/-!
# Settled slots

The slots of a session, seen from the end of the trace: `settled slots t es` replaces each slot
that waits by what it will hold after the lines `es`. `Takes.settled` says that a line changes no
settled slot and adds at most one, which fits what the history says about the line, and
`finalSlots_eq_settled` that nothing is left to settle after the last line. Their induction is
`settled_of_run`: the final slots of a session are those of its history.
-/

namespace SyscallTrace

/-! ## What later lines do to a pending call -/

section Effect

variable {k : CallKey} {e : Entry} {es : List Entry} {args : List Text}

theorem laterArgs?_cons_of_passes (h : e.effect k = .passes) :
    laterArgs? k (e :: es) = laterArgs? k es := by
  rw [laterArgs?, h]

theorem laterArgs?_cons_of_starts (h : e.effect k = .starts) :
    laterArgs? k (e :: es) = some [] := by
  rw [laterArgs?, h]

theorem laterArgs?_cons_of_adds (h : e.effect k = .adds args) :
    laterArgs? k (e :: es) = (laterArgs? k es).map (args ++ ·) := by
  rw [laterArgs?, h]

theorem laterArgs?_cons_of_ends (h : e.effect k = .ends) :
    laterArgs? k (e :: es) = none := by
  rw [laterArgs?, h]

end Effect

@[simp] theorem Call.extend_nil (c : Call) : c.extend [] = c := by
  unfold Call.extend
  rw [List.append_nil]

theorem Call.extend_extend (c : Call) (xs ys : List Text) :
    (c.extend xs).extend ys = c.extend (xs ++ ys) := by
  unfold Call.extend
  rw [List.append_assoc]

namespace PendingCall

/-- What the slot of a pending call holds after the lines `es`. -/
def settled (p : PendingCall) (es : List Entry) : Slot :=
  ((laterArgs? p.key es).map fun args => Slot.unfinished (p.extend args)).getD .resumed

variable {p : PendingCall} {e : Entry} {args : List Text} (es : List Entry)

@[simp] theorem settled_nil : p.settled [] = .unfinished p := by
  show Slot.unfinished (p.extend []) = _
  rw [extend_nil]

theorem settled_cons_of_passes (h : e.effect p.key = .passes) :
    p.settled (e :: es) = p.settled es := by
  unfold settled
  rw [laterArgs?_cons_of_passes h]

theorem settled_cons_of_starts (h : e.effect p.key = .starts) :
    p.settled (e :: es) = .unfinished p := by
  unfold settled
  rw [laterArgs?_cons_of_starts h]
  show Slot.unfinished (p.extend []) = _
  rw [extend_nil]

theorem settled_cons_of_adds (h : e.effect p.key = .adds args) :
    p.settled (e :: es) = (p.extend args).settled es := by
  unfold settled
  rw [laterArgs?_cons_of_adds h, key_extend, Option.map_map]
  congr 2
  funext later
  exact congrArg Slot.unfinished (extend_extend p args later).symm

theorem settled_cons_of_ends (h : e.effect p.key = .ends) : p.settled (e :: es) = .resumed := by
  unfold settled
  rw [laterArgs?_cons_of_ends h]
  rfl

end PendingCall

/-! ## Settled slots -/

/-- The slot at place `i` after the lines `es`. -/
def NumberedSlot.settled (t : PendingTable) (es : List Entry) (i : Nat) (x : NumberedSlot) :
    NumberedSlot :=
  match t.atSlot i with
  | none => x
  | some p => { x with slot := p.settled es }

namespace Session

/-- The slots after the lines `es`. -/
def settled (slots : Array NumberedSlot) (t : PendingTable) (es : List Entry) :
    List NumberedSlot :=
  slots.toList.mapIdx (NumberedSlot.settled t es)

variable {slots slots' : Array NumberedSlot} {t t' : PendingTable} {es es' : List Entry}

theorem getElem?_settled (i : Nat) :
    (settled slots t es)[i]? = slots[i]?.map (NumberedSlot.settled t es i) := by
  unfold settled
  rw [List.getElem?_mapIdx, Array.getElem?_toList]

/-- Slots are settled alike if each pair of them is. -/
theorem settled_congr (hsize : slots'.size = slots.size)
    (h : ∀ i x, slots[i]? = some x → ∃ x', slots'[i]? = some x' ∧
      NumberedSlot.settled t' es' i x' = NumberedSlot.settled t es i x) :
    settled slots' t' es' = settled slots t es := by
  apply List.ext_getElem?
  intro i
  rw [getElem?_settled, getElem?_settled]
  cases hx : slots[i]? with
  | none =>
    rw [Array.getElem?_eq_none_iff] at hx
    rw [Array.getElem?_eq_none (by omega)]
    rfl
  | some x =>
    obtain ⟨x', hx', hxx⟩ := h i x hx
    rw [hx', Option.map_some, Option.map_some, hxx]

theorem settled_push (number : Nat) (slot : Slot) :
    settled (push slots number slot) t es =
      settled slots t es ++ [NumberedSlot.settled t es slots.size ⟨number, slot⟩] := by
  unfold settled push
  rw [Array.toList_push, List.mapIdx_append]
  simp

/-! ### The end of a session -/

theorem getElem?_foldl_store_of_ne {ps : List PendingCall} {i : Nat} (h : ∀ p ∈ ps, p.slot ≠ i) :
    (ps.foldl store slots)[i]? = slots[i]? := by
  induction ps generalizing slots with
  | nil => rfl
  | cons p ps ih =>
    rw [List.foldl_cons, ih fun q hq => h q (List.mem_cons_of_mem _ hq)]
    unfold store
    rw [getElem?_setSlot, if_neg (h p List.mem_cons_self)]

theorem getElem?_foldl_store {ps : List PendingCall} {p : PendingCall} (hp : p ∈ ps)
    (h : ∀ q ∈ ps, q.slot = p.slot → q = p) :
    (ps.foldl store slots)[p.slot]? =
      slots[p.slot]?.map fun x => { x with slot := .unfinished p } := by
  induction ps generalizing slots with
  | nil => cases hp
  | cons q ps ih =>
    rw [List.foldl_cons]
    have hstore : (store slots q)[p.slot]?.map
        (fun x : NumberedSlot => { x with slot := .unfinished p }) =
          slots[p.slot]?.map fun x => { x with slot := .unfinished p } := by
      unfold store
      rw [getElem?_setSlot]
      split
      · rw [Option.map_map]
        rfl
      · rfl
    by_cases hps : p ∈ ps
    · rw [ih hps fun r hr => h r (List.mem_cons_of_mem _ hr), hstore]
    · -- the call is stored here, and no later call has its slot
      obtain rfl : p = q := (List.mem_cons.1 hp).resolve_right hps
      rw [getElem?_foldl_store_of_ne]
      · unfold store
        rw [getElem?_setSlot, if_pos rfl]
      · intro r hr hs
        rw [h r (List.mem_cons_of_mem _ hr) hs] at hr
        exact hps hr

variable {s s' : Session}

theorem finalSlots_eq_settled (hs : s.Consistent) :
    s.finalSlots = settled s.slots s.pending [] := by
  apply List.ext_getElem?
  intro i
  have hmem : ∀ p, p ∈ s.pending.drain ↔ p ∈ s.pending.calls := fun _ => PendingTable.mem_drain
  rw [getElem?_settled]
  unfold finalSlots
  rw [Array.getElem?_toList]
  cases h : s.pending.atSlot i with
  | none =>
    have hne := PendingTable.atSlot_eq_none_iff.1 h
    rw [getElem?_foldl_store_of_ne fun p hp => hne p ((hmem p).1 hp)]
    cases s.slots[i]? <;> simp [NumberedSlot.settled, h]
  | some p =>
    obtain ⟨hp, rfl⟩ := hs.distinct.atSlot_eq_some_iff.1 h
    rw [getElem?_foldl_store ((hmem p).2 hp)
      fun q hq => hs.distinct.slots q ((hmem q).1 hq) p hp]
    cases s.slots[p.slot]? <;> simp [NumberedSlot.settled, h]

/-! ### One line -/

/-- A slot at the end, and what the history says that it holds. -/
inductive Fits (setting : Setting) : Option Source → NumberedSlot → Prop where
  | finished {x : Source} {r : Record} {ds : List Diagnostic} (hx : x.isFinished)
      (hb : x.build setting = .ok (r, ds)) : Fits setting (some x) ⟨x.number, .record r⟩
  | moved {number : Nat} : Fits setting none ⟨number, .resumed⟩
  | never {p : PendingCall} {number : Nat} (hp : p.call.kind = .unfinished) :
      Fits setting (some ⟨p.call, p.line, none, number⟩) ⟨number, .unfinished p⟩

variable {setting : Setting} {number : Nat} {line : Text} {c : Call}

theorem settled_of_atSlot_none {i : Nat} {x : NumberedSlot} (h : t.atSlot i = none) :
    NumberedSlot.settled t es i x = x := by
  unfold NumberedSlot.settled
  rw [h]

theorem settled_of_atSlot {i : Nat} {x : NumberedSlot} {p : PendingCall}
    (h : t.atSlot i = some p) :
    NumberedSlot.settled t es i x = { x with slot := p.settled es } := by
  unfold NumberedSlot.settled
  rw [h]

theorem Consistent.atSlot_size (hs : s.Consistent) : s.pending.atSlot s.slots.size = none :=
  PendingTable.atSlot_eq_none_iff.2 fun _ hp => Nat.ne_of_lt (hs.slot_lt hp)

/-- A call that leaves every pending call as it is settles no slot. -/
theorem settled_cons_of_passes {e : Entry} (h : ∀ k, e.effect k = .passes) :
    settled slots t (e :: es) = settled slots t es := by
  refine settled_congr rfl fun i x hx => ⟨x, hx, ?_⟩
  cases hat : t.atSlot i with
  | none => rw [settled_of_atSlot_none hat, settled_of_atSlot_none hat]
  | some p =>
    rw [settled_of_atSlot hat, settled_of_atSlot hat, PendingCall.settled_cons_of_passes es (h _)]

section Line

variable {p : PendingCall} {o : Outcome} (line number es)

theorem effect_ne {p : PendingCall} (hk : p.key ≠ c.key) :
    Entry.effect ⟨line, number, some c⟩ p.key = .passes :=
  Call.effect_of_ne (Ne.symm hk)

/-- The slots before the one of an unfinished line. -/
theorem settled_unfinished (hs : s.Consistent) (hc : c.stage = .unfinished) :
    settled ((s.pending.lookup c.key).elim s.slots (store s.slots))
        (s.pending.insert ⟨c, line, s.slots.size⟩) es =
      settled s.slots s.pending (⟨line, number, some c⟩ :: es) := by
  refine settled_congr (size_elim_store _ _) fun i x hx => ?_
  have hi : i < s.slots.size := (Array.getElem?_eq_some_iff.1 hx).1
  have hins := hs.distinct.atSlot_insert (p := ⟨c, line, s.slots.size⟩)
    (fun q hq hqs => absurd hqs (Nat.ne_of_lt (hs.slot_lt hq))) i
  rw [if_neg (Nat.ne_of_gt hi)] at hins
  rw [getElem?_elim_store, hx]
  cases hat : s.pending.atSlot i with
  | none =>
    rw [hat] at hins
    have hl : (s.pending.lookup c.key).filter (fun p => p.slot == i) = none := by
      rw [Option.filter_eq_none_iff]
      intro q hq hqs
      have hq := PendingTable.mem_of_lookup hq
      exact PendingTable.atSlot_eq_none_iff.1 hat q hq (by simpa using hqs)
    rw [hl]
    exact ⟨x, rfl, by rw [settled_of_atSlot_none hins, settled_of_atSlot_none hat]⟩
  | some p =>
    obtain ⟨hp, rfl⟩ := hs.distinct.atSlot_eq_some_iff.1 hat
    rw [hat] at hins
    by_cases hk : p.key = c.key
    · -- the new call takes the key of `p`, which never resumes
      rw [hs.distinct.lookup_eq_some_iff.2 ⟨hp, hk⟩]
      have hins : (s.pending.insert ⟨c, line, s.slots.size⟩).atSlot p.slot = none := by
        rw [hins]
        simp [hk]
      have he : Entry.effect ⟨line, number, some c⟩ p.key = .starts := by
        rw [hk]
        exact Call.effect_unfinished hc
      refine ⟨{ x with slot := .unfinished p }, by simp [Option.filter], ?_⟩
      rw [settled_of_atSlot_none hins, settled_of_atSlot hat,
        PendingCall.settled_cons_of_starts es he]
    · have hl : (s.pending.lookup c.key).filter (fun q => q.slot == p.slot) = none := by
        rw [Option.filter_eq_none_iff]
        intro q hq hqs
        obtain ⟨hq, hqk⟩ := hs.distinct.lookup_eq_some_iff.1 hq
        exact hk (hs.distinct.slots q hq p hp (by simpa using hqs) ▸ hqk)
      have hins : (s.pending.insert ⟨c, line, s.slots.size⟩).atSlot p.slot = some p := by
        rw [hins]
        simp [Option.filter, hk]
      rw [hl]
      refine ⟨x, rfl, ?_⟩
      rw [settled_of_atSlot hins, settled_of_atSlot hat,
        PendingCall.settled_cons_of_passes es (effect_ne number line hk)]

/-- The slots after a line that continues a call. -/
theorem settled_continued (hs : s.Consistent) (hc : c.stage = .continued)
    (hp : s.pending.lookup c.key = some p) :
    settled s.slots (s.pending.insert (p.extend c.args)) es =
      settled s.slots s.pending (⟨line, number, some c⟩ :: es) := by
  obtain ⟨hp, hpk⟩ := hs.distinct.lookup_eq_some_iff.1 hp
  refine settled_congr rfl fun i x hx => ⟨x, hx, ?_⟩
  have hins := hs.distinct.atSlot_insert (p := p.extend c.args)
    (fun q hq hqs => by rw [hs.distinct.slots q hq p hp hqs]; rfl) i
  rw [PendingCall.slot_extend, PendingCall.key_extend] at hins
  cases hat : s.pending.atSlot i with
  | none =>
    rw [hat, if_neg (PendingTable.atSlot_eq_none_iff.1 hat p hp)] at hins
    rw [settled_of_atSlot_none hins, settled_of_atSlot_none hat]
  | some q =>
    obtain ⟨hq, rfl⟩ := hs.distinct.atSlot_eq_some_iff.1 hat
    by_cases hk : q.key = c.key
    · obtain rfl := hs.distinct.distinctKeys.eq_of_key hq hp (hk.trans hpk.symm)
      have he : Entry.effect ⟨line, number, some c⟩ q.key = .adds c.args := by
        rw [hpk]
        exact Call.effect_continued hc
      rw [if_pos rfl] at hins
      rw [settled_of_atSlot hins, settled_of_atSlot hat, PendingCall.settled_cons_of_adds es he]
    · have hne : p.slot ≠ q.slot := fun h => hk (hs.distinct.slots p hp q hq h ▸ hpk)
      rw [if_neg hne, hat] at hins
      have hins : (s.pending.insert (p.extend c.args)).atSlot q.slot = some q := by
        rw [hins, hpk]
        simp [Option.filter, hk]
      rw [settled_of_atSlot hins, settled_of_atSlot hat,
        PendingCall.settled_cons_of_passes es (effect_ne number line hk)]

/-- The slots before the one of a resumed line. -/
theorem settled_resumed (hs : s.Consistent) (hc : c.stage = .resumed o)
    (hp : s.pending.lookup c.key = some p) :
    settled (setSlot s.slots p.slot .resumed) (s.pending.remove c.key) es =
      settled s.slots s.pending (⟨line, number, some c⟩ :: es) := by
  obtain ⟨hp, hpk⟩ := hs.distinct.lookup_eq_some_iff.1 hp
  refine settled_congr (size_setSlot _ _ _) fun i x hx => ?_
  have hrem := hs.distinct.atSlot_remove c.key i
  rw [getElem?_setSlot, hx]
  cases hat : s.pending.atSlot i with
  | none =>
    rw [hat] at hrem
    rw [if_neg (PendingTable.atSlot_eq_none_iff.1 hat p hp)]
    exact ⟨x, rfl, by rw [settled_of_atSlot_none hrem, settled_of_atSlot_none hat]⟩
  | some q =>
    obtain ⟨hq, rfl⟩ := hs.distinct.atSlot_eq_some_iff.1 hat
    rw [hat] at hrem
    by_cases hk : q.key = c.key
    · obtain rfl := hs.distinct.distinctKeys.eq_of_key hq hp (hk.trans hpk.symm)
      have hrem : (s.pending.remove c.key).atSlot q.slot = none := by
        rw [hrem]
        simp [Option.filter, hk]
      have he : Entry.effect ⟨line, number, some c⟩ q.key = .ends := by
        rw [hpk]
        exact Call.effect_resumed hc
      rw [if_pos rfl]
      refine ⟨{ x with slot := .resumed }, rfl, ?_⟩
      rw [settled_of_atSlot_none hrem, settled_of_atSlot hat,
        PendingCall.settled_cons_of_ends es he]
    · have hne : p.slot ≠ q.slot := fun h => hk (hs.distinct.slots p hp q hq h ▸ hpk)
      have hrem : (s.pending.remove c.key).atSlot q.slot = some q := by
        rw [hrem]
        simp [Option.filter, hk]
      rw [if_neg hne]
      refine ⟨x, rfl, ?_⟩
      rw [settled_of_atSlot hrem, settled_of_atSlot hat,
        PendingCall.settled_cons_of_passes es (effect_ne number line hk)]

variable {line number} in
/-- A line keeps the settled slots and adds what the history says. -/
theorem Takes.settled (h : Takes setting s number line c s') (hs : s.Consistent) :
    ∃ new, Session.settled s'.slots s'.pending es =
        Session.settled s.slots s.pending (⟨line, number, some c⟩ :: es) ++ new ∧
      List.Forall₂ (Fits setting) (s.waiting.slotSource line number c es) new := by
  unfold Waiting.slotSource Waiting.source?
  cases h with
  | @complete o r ds hc hr =>
    refine ⟨[⟨number, .record r⟩], ?_, ?_⟩
    · rw [settled_push, settled_of_atSlot_none hs.atSlot_size,
        settled_cons_of_passes (e := ⟨line, number, some c⟩) fun k => Call.effect_complete hc]
    · rw [hc, if_neg (by simp)]
      refine List.Forall₂.cons ?_ List.Forall₂.nil
      exact .finished (x := ⟨c.aligned, line, none, number⟩)
        (by show (c.stage.kind != .unfinished) = true; rw [hc]; rfl) hr
  | unfinished hc =>
    have hat : (s.pending.insert ⟨c, line, s.slots.size⟩).atSlot s.slots.size =
        some ⟨c, line, s.slots.size⟩ := by
      rw [hs.distinct.atSlot_insert fun q hq hqs => absurd hqs (Nat.ne_of_lt (hs.slot_lt hq)),
        if_pos rfl]
    refine ⟨[⟨number, PendingCall.settled ⟨c, line, s.slots.size⟩ es⟩], ?_, ?_⟩
    · rw [settled_push, settled_unfinished es number line hs hc, size_elim_store,
        settled_of_atSlot hat]
    · rw [hc, if_neg (by simp)]
      refine List.Forall₂.cons ?_ List.Forall₂.nil
      unfold PendingCall.settled
      show Fits setting ((laterArgs? c.key es).map _) ⟨number, ((laterArgs? c.key es).map _).getD _⟩
      cases laterArgs? c.key es with
      | none => exact .moved
      | some args =>
        exact .never (p := PendingCall.extend ⟨c, line, s.slots.size⟩ args)
          (by show c.stage.kind = .unfinished; rw [hc]; rfl)
  | continued hc hp =>
    refine ⟨[], ?_, ?_⟩
    · rw [List.append_nil]
      exact settled_continued es number line hs hc hp
    · rw [hc, if_pos rfl]
      exact List.Forall₂.nil
  | @resumed o p r ds hc hp hr =>
    have hat : (s.pending.remove c.key).atSlot s.slots.size = none := by
      rw [hs.distinct.atSlot_remove, hs.atSlot_size]
      rfl
    refine ⟨[⟨number, .record r⟩], ?_, ?_⟩
    · rw [settled_push, size_setSlot, settled_of_atSlot_none hat,
        settled_resumed es number line hs hc hp]
    · rw [hc, if_neg (by simp)]
      refine List.Forall₂.cons ?_ List.Forall₂.nil
      unfold Session.waiting
      rw [hp]
      exact .finished (x := ⟨(p.resume c).aligned, line, some p.line, number⟩)
        (by show (c.stage.kind != .unfinished) = true; rw [hc]; rfl) hr

end Line

end Session

end SyscallTrace
