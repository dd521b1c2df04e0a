import Mathlib.Data.List.Nodup
import SyscallTrace.Pending

/-!
# Tables of pending calls

A table is well formed if no two of its calls share a key or a slot. Then a call is found under its
key (`lookup_eq_some_iff`) and by its slot (`atSlot_eq_some_iff`), and inserting and removing keep
the table well formed as long as new calls get slots of their own. The calls are drained in the
order of their slots, whatever their order in the table (`drain_eq_of_perm`).
-/

namespace SyscallTrace

@[simp] theorem PendingCall.key_mk (c : Call) (line : Text) (slot : Nat) :
    PendingCall.key ⟨c, line, slot⟩ = c.key := rfl

@[simp] theorem PendingCall.key_extend (p : PendingCall) (args : List Text) :
    (p.extend args).key = p.key := rfl

@[simp] theorem PendingCall.slot_extend (p : PendingCall) (args : List Text) :
    (p.extend args).slot = p.slot := rfl

theorem PendingCall.extend_nil (p : PendingCall) : p.extend [] = p := by
  unfold extend
  rw [List.append_nil]

theorem PendingCall.extend_extend (p : PendingCall) (xs ys : List Text) :
    (p.extend xs).extend ys = p.extend (xs ++ ys) := by
  unfold extend
  rw [List.append_assoc]

namespace PendingTable

/-- No two calls of the table share a key. -/
def DistinctKeys (t : PendingTable) : Prop :=
  (t.calls.map PendingCall.key).Nodup

/-- No two calls of the table share a key or a slot. -/
structure Distinct (t : PendingTable) : Prop where
  keys : (t.calls.map PendingCall.key).Nodup
  slots : ∀ p ∈ t.calls, ∀ q ∈ t.calls, p.slot = q.slot → p = q

/-- The call that a slot is kept for. -/
def atSlot (t : PendingTable) (i : Nat) : Option PendingCall :=
  t.calls.find? fun p => p.slot == i

variable {t : PendingTable} {p q : PendingCall} {k : CallKey} {i : Nat}

theorem mem_calls_remove : q ∈ (t.remove k).calls ↔ q ∈ t.calls ∧ q.key ≠ k := by
  simp [remove]

theorem mem_calls_insert : q ∈ (t.insert p).calls ↔ q = p ∨ q ∈ t.calls ∧ q.key ≠ p.key := by
  simp [insert, mem_calls_remove]

theorem mem_of_lookup (h : t.lookup k = some p) : p ∈ t.calls :=
  List.mem_of_find?_eq_some h

theorem lookup_ne_none (h : p ∈ t.calls) : t.lookup p.key ≠ none := by
  intro hn
  have := List.find?_eq_none.1 hn p h
  simp at this

theorem mem_of_atSlot (h : t.atSlot i = some p) : p ∈ t.calls :=
  List.mem_of_find?_eq_some h

theorem slot_of_atSlot (h : t.atSlot i = some p) : p.slot = i := by
  simpa using List.find?_some h

theorem atSlot_eq_none_iff : t.atSlot i = none ↔ ∀ p ∈ t.calls, p.slot ≠ i := by
  simp [atSlot]

theorem mem_drain : p ∈ t.drain ↔ p ∈ t.calls :=
  List.mem_mergeSort

namespace DistinctKeys

theorem empty : PendingTable.empty.DistinctKeys := List.nodup_nil

theorem eq_of_key (h : t.DistinctKeys) (hp : p ∈ t.calls) (hq : q ∈ t.calls)
    (hk : p.key = q.key) : p = q :=
  List.inj_on_of_nodup_map h hp hq hk

theorem lookup_eq_some_iff (h : t.DistinctKeys) :
    t.lookup k = some p ↔ p ∈ t.calls ∧ p.key = k := by
  constructor
  · intro hp
    exact ⟨mem_of_lookup hp, key_of_lookup hp⟩
  · rintro ⟨hp, rfl⟩
    obtain ⟨q, hq⟩ := Option.ne_none_iff_exists'.1 (lookup_ne_none hp)
    rw [hq, h.eq_of_key (mem_of_lookup hq) hp (key_of_lookup hq)]

theorem remove (h : t.DistinctKeys) (k : CallKey) : (t.remove k).DistinctKeys :=
  List.Nodup.sublist (List.filter_sublist.map _) h

theorem insert (h : t.DistinctKeys) (p : PendingCall) : (t.insert p).DistinctKeys := by
  refine List.nodup_cons.2 ⟨?_, h.remove p.key⟩
  intro hmem
  obtain ⟨q, hq, hk⟩ := List.mem_map.1 hmem
  exact (mem_calls_remove.1 hq).2 hk

/-- The calls are the one of the key, if there is one, and those of other keys. -/
theorem perm_lookup_remove (h : t.DistinctKeys) (k : CallKey) :
    t.calls.Perm ((t.lookup k).toList ++ (t.remove k).calls) := by
  have hkey : ∀ p ∈ (t.lookup k).toList, p.key = k := fun p hp =>
    key_of_lookup (Option.mem_toList.1 hp)
  have hnodup : ((t.lookup k).toList ++ (t.remove k).calls).Nodup := by
    refine List.nodup_append.2 ⟨?_, (h.remove k).of_map, fun p hp q hq heq => ?_⟩
    · cases t.lookup k <;> simp
    · exact (mem_calls_remove.1 hq).2 (heq ▸ hkey p hp)
  rw [List.perm_ext_iff_of_nodup h.of_map hnodup]
  intro p
  rw [List.mem_append, Option.mem_toList, h.lookup_eq_some_iff, mem_calls_remove,
    ← and_or_left, and_iff_left (em _)]

end DistinctKeys

namespace Distinct

theorem empty : Distinct {} := ⟨List.nodup_nil, by simp⟩

theorem distinctKeys (h : t.Distinct) : t.DistinctKeys := h.keys

theorem lookup_eq_some_iff (h : t.Distinct) :
    t.lookup k = some p ↔ p ∈ t.calls ∧ p.key = k :=
  h.distinctKeys.lookup_eq_some_iff

theorem atSlot_eq_some_iff (h : t.Distinct) :
    t.atSlot i = some p ↔ p ∈ t.calls ∧ p.slot = i := by
  constructor
  · intro hp
    exact ⟨mem_of_atSlot hp, slot_of_atSlot hp⟩
  · rintro ⟨hp, rfl⟩
    have hne : t.atSlot p.slot ≠ none := fun hn => atSlot_eq_none_iff.1 hn p hp rfl
    obtain ⟨q, hq⟩ := Option.ne_none_iff_exists'.1 hne
    rw [hq, h.slots q (mem_of_atSlot hq) p hp (slot_of_atSlot hq)]

theorem remove (h : t.Distinct) (k : CallKey) : (t.remove k).Distinct where
  keys := h.distinctKeys.remove k
  slots p hp q hq :=
    h.slots p (mem_calls_remove.1 hp).1 q (mem_calls_remove.1 hq).1

/-- A call can be put in if no call of another key has its slot. -/
theorem insert (h : t.Distinct) (hp : ∀ q ∈ t.calls, q.slot = p.slot → q.key = p.key) :
    (t.insert p).Distinct where
  keys := h.distinctKeys.insert p
  slots q hq r hr hs := by
    rcases mem_calls_insert.1 hq with rfl | ⟨hqt, hqk⟩
    · rcases mem_calls_insert.1 hr with rfl | ⟨hrt, hrk⟩
      · rfl
      · exact absurd (hp r hrt hs.symm) hrk
    · rcases mem_calls_insert.1 hr with rfl | ⟨hrt, hrk⟩
      · exact absurd (hp q hqt hs) hqk
      · exact h.slots q hqt r hrt hs

theorem atSlot_remove (h : t.Distinct) (k : CallKey) (i : Nat) :
    (t.remove k).atSlot i = (t.atSlot i).filter fun p => p.key != k := by
  ext p
  rw [(h.remove k).atSlot_eq_some_iff, Option.filter_eq_some_iff, h.atSlot_eq_some_iff,
    mem_calls_remove, bne_iff_ne]
  tauto

theorem atSlot_insert (h : t.Distinct) (hp : ∀ q ∈ t.calls, q.slot = p.slot → q.key = p.key)
    (i : Nat) :
    (t.insert p).atSlot i =
      if p.slot = i then some p else (t.atSlot i).filter fun q => q.key != p.key := by
  ext q
  rw [(h.insert hp).atSlot_eq_some_iff, mem_calls_insert]
  split
  · next hi =>
    rw [Option.some.injEq]
    constructor
    · rintro ⟨rfl | ⟨hq, hqk⟩, hs⟩
      · rfl
      · exact absurd (hp q hq (hs.trans hi.symm)) hqk
    · rintro rfl
      exact ⟨Or.inl rfl, hi⟩
  · next hi =>
    rw [Option.filter_eq_some_iff, h.atSlot_eq_some_iff, bne_iff_ne]
    constructor
    · rintro ⟨rfl | ⟨hq, hqk⟩, hs⟩
      · exact absurd hs hi
      · exact ⟨⟨hq, hs⟩, hqk⟩
    · rintro ⟨⟨hq, hs⟩, hqk⟩
      exact ⟨Or.inr ⟨hq, hqk⟩, hs⟩

/-! ## Draining -/

theorem nodup_slots (h : t.Distinct) : (t.calls.map PendingCall.slot).Nodup :=
  h.distinctKeys.of_map.map_on fun p hp q hq hs => h.slots p hp q hq hs

theorem pairwise_drain (h : t.Distinct) : (t.drain.map PendingCall.slot).Pairwise (· < ·) := by
  have hsorted : t.drain.Pairwise fun p q => p.slot ≤ q.slot :=
    (List.pairwise_mergeSort (fun a b c hab hbc => by simp at *; omega)
      (fun a b => by simp; omega) t.calls).imp fun hab => of_decide_eq_true hab
  have hperm : (t.drain.map PendingCall.slot).Perm (t.calls.map PendingCall.slot) :=
    (List.mergeSort_perm t.calls _).map _
  have hnodup := hperm.nodup_iff.2 h.nodup_slots
  refine List.Pairwise.imp₂ (fun a b hle hne => Nat.lt_of_le_of_ne hle hne) ?_ hnodup
  exact List.pairwise_map.2 hsorted

/-- The order in which the table keeps its calls does not show in how they are drained. -/
theorem drain_eq_of_perm (h : t.Distinct) {calls : List PendingCall} (hcalls : calls.Perm t.calls) :
    drain ⟨calls⟩ = t.drain := by
  have hslots : ∀ p ∈ calls, ∀ q ∈ calls, p.slot = q.slot → p = q := fun p hp q hq =>
    h.slots p (hcalls.mem_iff.1 hp) q (hcalls.mem_iff.1 hq)
  have hcopy : Distinct ⟨calls⟩ := ⟨(hcalls.map _).nodup_iff.2 h.keys, hslots⟩
  have hperm : (drain ⟨calls⟩).Perm t.drain :=
    (List.mergeSort_perm calls _).trans (hcalls.trans (List.mergeSort_perm t.calls _).symm)
  refine hperm.eq_of_pairwise (fun p q hp hq hpq hqp => ?_)
    (List.pairwise_map.1 hcopy.pairwise_drain) (List.pairwise_map.1 h.pairwise_drain)
  exact absurd hpq (Nat.lt_asymm hqp)

end Distinct

end PendingTable

end SyscallTrace
