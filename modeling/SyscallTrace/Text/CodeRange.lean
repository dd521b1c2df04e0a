/-!
# Code point ranges

A set of code points as a sorted list of closed ranges. `holds_iff` reads the membership test as the
statement that some range holds the point.
-/

namespace SyscallTrace.Text

/-- A set of code points: closed ranges in ascending order. -/
abbrev CodeRanges := List (Nat × Nat)

namespace CodeRanges

/-- Searches the ranges in order and stops at the first one that starts above `n`. -/
def holds (n : Nat) : CodeRanges → Bool
  | [] => false
  | (lo, hi) :: rs => lo ≤ n && (n ≤ hi || holds n rs)

/-- Each range is non-empty and ends below the start of the next. -/
def Sorted : CodeRanges → Prop
  | [] => True
  | (lo, hi) :: rs => lo ≤ hi ∧ (∀ r ∈ rs, hi < r.1) ∧ Sorted rs

theorem mem_of_holds {n : Nat} : ∀ {rs : CodeRanges}, holds n rs → ∃ r ∈ rs, r.1 ≤ n ∧ n ≤ r.2
  | (lo, hi) :: rs, h => by
    simp only [holds, Bool.and_eq_true, Bool.or_eq_true, decide_eq_true_eq] at h
    obtain ⟨hlo, hhi | hrs⟩ := h
    · exact ⟨_, List.mem_cons_self, hlo, hhi⟩
    · obtain ⟨r, hr, hn⟩ := mem_of_holds hrs
      exact ⟨r, List.mem_cons_of_mem _ hr, hn⟩

theorem holds_of_mem {n : Nat} : ∀ {rs : CodeRanges}, Sorted rs →
    (∃ r ∈ rs, r.1 ≤ n ∧ n ≤ r.2) → holds n rs
  | (lo, hi) :: rs, ⟨hle, hlt, hs⟩, ⟨r, hr, hn⟩ => by
    simp only [holds, Bool.and_eq_true, Bool.or_eq_true, decide_eq_true_eq]
    rcases List.mem_cons.1 hr with rfl | hr
    · exact ⟨hn.1, Or.inl hn.2⟩
    · have := hlt r hr
      exact ⟨by omega, Or.inr (holds_of_mem hs ⟨r, hr, hn⟩)⟩

theorem holds_iff {n : Nat} {rs : CodeRanges} (hs : Sorted rs) :
    holds n rs ↔ ∃ r ∈ rs, r.1 ≤ n ∧ n ≤ r.2 :=
  ⟨mem_of_holds, holds_of_mem hs⟩

end CodeRanges

end SyscallTrace.Text
