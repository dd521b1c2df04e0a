import SyscallTrace.Proofs.Argument.Splitting

/-!
# Tokens joined again

Splitting keeps every character of an argument text but the blanks around it and the commas at its
end, and merging keeps every character of its tokens. Merging makes lists in which no token but the
last one opens a literal without closing it (`Token.isOpenLiteral_of_mem_dropLast`), and it leaves
such lists as they are (`Token.mergeLiterals_of_closed`), so that it changes nothing when it is done
again (`Token.split_keeps_text`).
-/

namespace SyscallTrace

open Text

namespace Token

variable {held : Option Text} {t : Text} {ts : List Text}

/-! ## Closing quotes -/

/-- The text ends in a quote that is not its first character and that no backslash escapes: those
before it come in pairs. Dots may follow the quote. -/
def EndsInClosingQuote (t : Text) : Prop :=
  ∃ front pairs dots, front ≠ [] ∧ front.getLast? ≠ some '\\' ∧
    t = front ++ List.replicate (2 * pairs) '\\' ++ '"' :: List.replicate dots '.'

/-- The backslashes that escape nothing come in pairs. -/
theorem exists_pairs_of_escapes (h : escapes t = false) :
    ∃ front pairs, front.getLast? ≠ some '\\' ∧
      t = front ++ List.replicate (2 * pairs) '\\' := by
  obtain ⟨slashes, ht, hslashes⟩ := exists_dropEndWhile_append (· == '\\') t
  have hlast : (dropEndWhile (· == '\\') t).getLast? ≠ some '\\' := by
    intro hend
    exact absurd (of_mem_getLast?_dropEndWhile hend) (by decide)
  generalize dropEndWhile (· == '\\') t = front at ht hlast
  have hrun : slashes = List.replicate slashes.length '\\' :=
    List.eq_replicate_of_mem fun c hc => beq_iff_eq.1 (hslashes c hc)
  have hcount : t.reverse.takeWhile (· == '\\') = slashes.reverse := by
    rw [ht, List.reverse_append]
    refine takeWhile_append (fun c hc => hslashes c (List.mem_reverse.1 hc)) fun c hc => ?_
    rw [List.head?_reverse] at hc
    exact beq_eq_false_iff_ne.2 fun heq => hlast (heq ▸ hc)
  rw [escapes_eq, hcount, List.length_reverse, beq_eq_false_iff_ne] at h
  refine ⟨front, slashes.length / 2, hlast, ?_⟩
  rw [show 2 * (slashes.length / 2) = slashes.length by omega, ← hrun]
  exact ht

/-- A literal that is not open ends in the quote that closes it. -/
theorem endsInClosingQuote_of_closed (hquote : t.head? = some '"')
    (hclosed : isOpenLiteral t = false) : EndsInClosingQuote t := by
  obtain ⟨u, rfl⟩ : ∃ u, t = '"' :: u := List.head?_eq_some_iff.1 hquote
  have hend : endsInQuote (dropEndWhile (· == '.') ('"' :: u)) = true := by
    unfold isOpenLiteral at hclosed
    simpa [startsWith] using hclosed
  obtain ⟨dots, ht, hdots⟩ := exists_dropEndWhile_append (· == '.') ('"' :: u)
  obtain ⟨v, hv, hlast, hescapes⟩ := endsInQuote_eq_true_iff.1 hend
  obtain ⟨front, pairs, hfront, rfl⟩ := exists_pairs_of_escapes hescapes
  have hrun : dots = List.replicate dots.length '.' :=
    List.eq_replicate_of_mem fun c hc => beq_iff_eq.1 (hdots c hc)
  rw [hlast] at ht
  refine ⟨front, pairs, dots.length, ?_, hfront, ?_⟩
  · -- otherwise the token would start with one of the backslashes
    rintro rfl
    obtain ⟨c, w, hw⟩ := List.exists_cons_of_ne_nil hv
    have hslash : c ∈ List.replicate (2 * pairs) '\\' := by
      rw [List.nil_append] at hw
      rw [hw]
      exact List.mem_cons_self
    rw [hw] at ht
    rw [List.eq_of_mem_replicate hslash] at ht
    exact absurd (List.cons.inj ht).1 (by decide)
  · rw [← hrun, ht]
    simp only [List.append_assoc, List.singleton_append]

/-! ## Merging again -/

/-- Only the last token that merging makes can be an open literal. -/
theorem isOpenLiteral_of_mem_dropLast (h : t ∈ (mergeOpen held ts).dropLast) :
    isOpenLiteral t = false := by
  induction ts generalizing held with
  | nil =>
    cases held with
    | none => exact absurd h List.not_mem_nil
    | some u => exact absurd h List.not_mem_nil
  | cons u us ih =>
    rw [mergeOpen] at h
    split at h
    · exact ih h
    · next hclosed =>
      by_cases hus : mergeOpen none us = []
      · rw [hus] at h
        exact absurd h List.not_mem_nil
      · rw [List.dropLast_cons_of_ne_nil hus] at h
        rcases List.mem_cons.1 h with rfl | h
        · simpa using hclosed
        · exact ih h

/-- There is nothing to merge where only the last token can be an open literal. -/
theorem mergeLiterals_of_closed (h : ∀ t ∈ ts.dropLast, isOpenLiteral t = false) :
    mergeLiterals ts = ts := by
  induction ts with
  | nil => rfl
  | cons t ts ih =>
    rcases ts with _ | ⟨u, us⟩
    · exact mergeLiterals_singleton t
    · rw [List.dropLast_cons_of_ne_nil (List.cons_ne_nil u us), List.forall_mem_cons] at h
      rw [mergeLiterals_cons h.1, ih h.2]

/-! ## Texts that are kept -/

theorem joinCommas_split_eq (t : Text) :
    joinCommas (split t) = t.trim.dropEndWhile (· == ',') := by
  unfold split
  dsimp only
  split
  · next hempty => exact (List.isEmpty_iff.1 hempty).symm
  · rw [joinCommas_mergeLiterals, joinCommas_splitCommas]

/-- The tokens of a text, joined again, are the text without the blanks around it and without the
commas at its end. Merging joins to the same text, changes nothing when it is done again, and leaves
no literal open but the last token. -/
theorem split_keeps_text (t : Text) (ts : List Text) :
    joinCommas (split t) = t.trim.dropEndWhile (· == ',') ∧
      (∃ lead commas trail, t = lead ++ joinCommas (split t) ++ commas ++ trail ∧
        IsBlanks lead ∧ (∀ c ∈ commas, c = ',') ∧ IsBlanks trail) ∧
      joinCommas (mergeLiterals ts) = joinCommas ts ∧
      mergeLiterals (mergeLiterals ts) = mergeLiterals ts ∧
      ∀ u ∈ (mergeLiterals ts).dropLast, u.head? = some '"' → EndsInClosingQuote u := by
  have hclosed : ∀ u ∈ (mergeLiterals ts).dropLast, isOpenLiteral u = false := fun u hu =>
    isOpenLiteral_of_mem_dropLast hu
  refine ⟨joinCommas_split_eq t, ?_, joinCommas_mergeLiterals ts, mergeLiterals_of_closed hclosed,
    fun u hu hquote => endsInClosingQuote_of_closed hquote (hclosed u hu)⟩
  obtain ⟨lead, trail, ht, hlead, htrail⟩ := exists_append_trim_append t
  obtain ⟨commas, htrim, hcommas⟩ := exists_dropEndWhile_append (· == ',') t.trim
  refine ⟨lead, commas, trail, ?_, hlead, fun c hc => beq_iff_eq.1 (hcommas c hc), htrail⟩
  rw [joinCommas_split_eq, List.append_assoc lead, ← htrim]
  exact ht

/-- Pieces of a shortened literal with an escaped quote, a number, and a literal that stays open. -/
def openPieces : List Text :=
  ["\"say \\\"".toList, "hi\\\\\"..".toList, "3".toList, "\"open".toList, "end".toList]

theorem split_keeps_text_open :
    joinCommas (split "  3, \"open, ,, ".toList) = "3, \"open, ".toList ∧
      mergeLiterals openPieces =
        ["\"say \\\", hi\\\\\"..".toList, "3".toList, "\"open, end".toList] ∧
      mergeLiterals (mergeLiterals openPieces) = mergeLiterals openPieces ∧
      EndsInClosingQuote "\"say \\\", hi\\\\\"..".toList := by
  obtain ⟨hjoin, -, -, hagain, hclosing⟩ :=
    split_keeps_text "  3, \"open, ,, ".toList openPieces
  have hmerged : mergeLiterals openPieces =
      ["\"say \\\", hi\\\\\"..".toList, "3".toList, "\"open, end".toList] := by
    decide +kernel
  have htext : (trim "  3, \"open, ,, ".toList).dropEndWhile (· == ',') =
      "3, \"open, ".toList := by
    decide +kernel
  rw [hmerged] at hclosing
  exact ⟨hjoin.trans htext, hmerged, hagain, hclosing _ List.mem_cons_self rfl⟩

end Token

end SyscallTrace
