import Mathlib.Data.List.Nodup
import Mathlib.Order.Defs.LinearOrder

/-!
# Stable sorting by a key

A merge sort keeps the items of each key in order (`filter_mergeSort`), and a list sorted by a key
is determined by its items of each key (`eq_of_pairwise_of_filter`). Together they tell what a list
becomes when it is sorted (`mergeSort_eq`), without going through the sorting.
-/

namespace SyscallTrace.StableSort

variable {α : Type} (key : α → Nat)

theorem filter_mergeSort (xs : List α) (n : Nat) :
    (xs.mergeSort fun a b => key a ≤ key b).filter (fun a => key a == n) =
      xs.filter fun a => key a == n := by
  have hpair : (xs.filter fun a => key a == n).Pairwise fun a b => decide (key a ≤ key b) := by
    refine List.pairwise_of_forall_mem_list fun a ha b hb => ?_
    have ha : key a = n := by simpa using (List.mem_filter.1 ha).2
    have hb : key b = n := by simpa using (List.mem_filter.1 hb).2
    simp [ha, hb]
  have hsub := List.Sublist.filter (fun a => key a == n) <|
    List.sublist_mergeSort (fun a b c hab hbc => by simp at *; omega)
      (fun a b => by simp; omega) hpair List.filter_sublist
  rw [List.filter_filter, List.filter_congr fun a _ => Bool.and_self (key a == n)] at hsub
  exact (hsub.eq_of_length ((List.mergeSort_perm xs _).filter _).length_eq.symm).symm

variable {xs ys : List α}

theorem eq_of_pairwise_of_filter (hxs : xs.Pairwise fun a b => key a ≤ key b)
    (hys : ys.Pairwise fun a b => key a ≤ key b)
    (h : ∀ n, xs.filter (fun a => key a == n) = ys.filter fun a => key a == n) : xs = ys := by
  -- an item of one list is in the other, as the items of its key are
  have hmem : ∀ {us vs : List α}, (∀ n, us.filter (fun a => key a == n) =
      vs.filter fun a => key a == n) → ∀ a ∈ us, a ∈ vs := by
    intro us vs h a ha
    have hself : a ∈ us.filter fun b => key b == key a :=
      List.mem_filter.2 ⟨ha, beq_self_eq_true (key a)⟩
    rw [h] at hself
    exact (List.mem_filter.1 hself).1
  induction xs generalizing ys with
  | nil =>
    cases ys with
    | nil => rfl
    | cons b ys => exact absurd (hmem (fun n => (h n).symm) b List.mem_cons_self) (by simp)
  | cons a xs ih =>
    cases ys with
    | nil => exact absurd (hmem h a List.mem_cons_self) (by simp)
    | cons b ys =>
      rw [List.pairwise_cons] at hxs hys
      have hab : key a ≤ key b := by
        rcases List.mem_cons.1 (hmem (fun n => (h n).symm) b List.mem_cons_self) with rfl | hb
        · exact Nat.le_refl _
        · exact hxs.1 b hb
      have hba : key b ≤ key a := by
        rcases List.mem_cons.1 (hmem h a List.mem_cons_self) with rfl | ha
        · exact Nat.le_refl _
        · exact hys.1 a ha
      obtain rfl : a = b := by
        have := h (key a)
        rw [List.filter_cons_of_pos (by simp), List.filter_cons_of_pos (by simp; omega)] at this
        exact (List.cons.inj this).1
      refine congrArg (a :: ·) (ih hxs.2 hys.2 fun n => ?_)
      have := h n
      rw [List.filter_cons, List.filter_cons] at this
      split at this
      · exact (List.cons.inj this).2
      · exact this

theorem mergeSort_eq (hys : ys.Pairwise fun a b => key a ≤ key b)
    (h : ∀ n, xs.filter (fun a => key a == n) = ys.filter fun a => key a == n) :
    (xs.mergeSort fun a b => key a ≤ key b) = ys := by
  have hsorted : (xs.mergeSort fun a b => key a ≤ key b).Pairwise fun a b => key a ≤ key b :=
    (List.pairwise_mergeSort (fun a b c hab hbc => by simp at *; omega)
      (fun a b => by simp; omega) xs).imp fun hab => of_decide_eq_true hab
  refine eq_of_pairwise_of_filter key hsorted hys fun n => ?_
  rw [filter_mergeSort, h]

end SyscallTrace.StableSort
