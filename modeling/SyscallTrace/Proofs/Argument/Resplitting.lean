import SyscallTrace.Proofs.Argument.Rejoining

/-!
# Tokens split again

How an argument text is split depends on its stripped text alone, which is also what its tokens join
to (`Token.split_eq_split_iff`). Blanks are taken off before the commas at the end are, and only
once, so that a blank in front of these commas is left over. The joined tokens split into the same
tokens again exactly where no such blank stands (`Token.split_joined_again_iff`).
-/

namespace SyscallTrace

open Text

namespace Token

variable {s t : Text}

/-! ## Stripped texts -/

/-- An argument text without the blanks around it and without the commas at its end. -/
def stripped (t : Text) : Text := t.trim.dropEndWhile (· == ',')

theorem joinCommas_split_eq_stripped (t : Text) : joinCommas (split t) = stripped t :=
  joinCommas_split_eq t

theorem split_eq_split_iff : split s = split t ↔ stripped s = stripped t := by
  constructor
  · intro h
    rw [← joinCommas_split_eq_stripped s, ← joinCommas_split_eq_stripped t, h]
  · intro h
    show (if (stripped s).isEmpty then [] else mergeLiterals (stripped s).splitCommas) =
      if (stripped t).isEmpty then [] else mergeLiterals (stripped t).splitCommas
    rw [h]

theorem exists_trim_eq_stripped_append (t : Text) :
    ∃ commas, t.trim = stripped t ++ commas ∧ ∀ c ∈ commas, c = ',' := by
  obtain ⟨commas, htrim, hcommas⟩ := exists_dropEndWhile_append (· == ',') t.trim
  exact ⟨commas, htrim, fun c hc => beq_iff_eq.1 (hcommas c hc)⟩

theorem of_mem_head?_stripped {c : Char} (h : c ∈ (stripped t).head?) : isBlank c = false := by
  obtain ⟨commas, htrim, -⟩ := exists_trim_eq_stripped_append t
  refine of_mem_head?_trim (t := t) ?_
  rw [htrim, List.head?_append, Option.mem_def.1 h]
  rfl

/-- A stripped text is stripped already, unless it ends in a blank. -/
theorem stripped_stripped_iff :
    stripped (stripped t) = stripped t ↔ ∀ c ∈ (stripped t).getLast?, isBlank c = false := by
  constructor
  · intro h
    obtain ⟨lead, trail, hsplit, -, -⟩ := exists_append_trim_append (stripped t)
    obtain ⟨commas, htrim, -⟩ := exists_trim_eq_stripped_append (stripped t)
    rw [h] at htrim
    -- trimming does not make a text longer, so that neither cut took anything off
    have hlength := congrArg List.length hsplit
    rw [htrim] at hlength
    simp only [List.length_append] at hlength
    have hnone : commas = [] := List.eq_nil_of_length_eq_zero (by omega)
    rw [hnone, List.append_nil] at htrim
    intro c hc
    rw [← htrim] at hc
    exact of_mem_getLast?_trim hc
  · intro hlast
    have hcomma : ∀ c ∈ (stripped t).getLast?, (c == ',') = false := fun c hc =>
      of_mem_getLast?_dropEndWhile (p := (· == ',')) hc
    have hself : (stripped t).trim = stripped t := by
      by_cases hne : stripped t = []
      · rw [hne]
        rfl
      · exact trim_eq_self hne (fun c hc => of_mem_head?_stripped hc) hlast
    have hkeep := dropEndWhile_append (s := []) hcomma fun c hc => absurd hc List.not_mem_nil
    rw [List.append_nil] at hkeep
    rw [stripped, hself]
    exact hkeep

/-! ## Blanks before the commas at the end -/

/-- A blank stands in front of the commas at the end of the text. More blanks may follow them. -/
def HasBlankBeforeCommas (t : Text) : Prop :=
  ∃ front blank commas trail, t = front ++ blank :: commas ++ trail ∧ ¬ IsBlanks front ∧
    isBlank blank ∧ commas ≠ [] ∧ (∀ c ∈ commas, c = ',') ∧ IsBlanks trail

theorem stripped_append {front commas trail : Text} {blank : Char} (hfront : ¬ IsBlanks front)
    (hblank : isBlank blank) (hne : commas ≠ []) (hcommas : ∀ c ∈ commas, c = ',')
    (htrail : IsBlanks trail) :
    stripped (front ++ blank :: commas ++ trail) = front.trimStart ++ [blank] := by
  obtain ⟨lead, hlead, hblanks⟩ := exists_append_of_dropWhile (t := front) (p := isBlank) rfl
  have hstart : front.trimStart ≠ [] := fun hnil => hfront <| by
    rw [hlead, show front.dropWhile isBlank = [] from hnil, List.append_nil]
    exact hblanks
  have hhead : ∀ c ∈ (front.trimStart ++ blank :: commas).head?, isBlank c = false := by
    intro c hc
    rw [List.head?_append_of_ne_nil _ hstart] at hc
    exact of_mem_head?_dropWhile hc
  have hlast : ∀ c ∈ (front.trimStart ++ blank :: commas).getLast?, isBlank c = false := by
    intro c hc
    rw [List.getLast?_append_of_ne_nil _ (List.cons_ne_nil _ _), List.getLast?_cons_of_ne_nil hne]
      at hc
    rw [hcommas c (List.mem_of_getLast? hc)]
    rfl
  have htrim := trim_append hblanks (by simp) hhead hlast htrail
  rw [← List.append_assoc lead, show lead ++ front.trimStart = front from hlead.symm] at htrim
  have hend : ∀ c ∈ (front.trimStart ++ [blank]).getLast?, (c == ',') = false := by
    intro c hc
    rw [List.getLast?_concat] at hc
    rw [← Option.some.inj hc, beq_eq_false_iff_ne]
    rintro rfl
    exact absurd hblank (by decide)
  rw [stripped, htrim, List.append_cons]
  exact dropEndWhile_append hend fun c hc => beq_iff_eq.2 (hcommas c hc)

theorem hasBlankBeforeCommas_iff :
    HasBlankBeforeCommas t ↔ ∃ c ∈ (stripped t).getLast?, isBlank c := by
  constructor
  · rintro ⟨front, blank, commas, trail, rfl, hfront, hblank, hne, hcommas, htrail⟩
    refine ⟨blank, ?_, hblank⟩
    rw [stripped_append hfront hblank hne hcommas htrail, List.getLast?_concat]
    rfl
  · rintro ⟨blank, hlast, hblank⟩
    obtain ⟨body, hbody⟩ := List.getLast?_eq_some_iff.1 (Option.mem_def.1 hlast)
    obtain ⟨lead, trail, ht, -, htrail⟩ := exists_append_trim_append t
    obtain ⟨commas, htrim, hcommas⟩ := exists_trim_eq_stripped_append t
    refine ⟨lead ++ body, blank, commas, trail, ?_, ?_, hblank, ?_, hcommas, htrail⟩
    · rw [htrim, hbody] at ht
      simpa using ht
    · -- the blank is not the first character of the stripped text
      intro hblanks
      have hhead : ∃ c ∈ (stripped t).head?, isBlank c := by
        rw [hbody]
        cases body with
        | nil => exact ⟨blank, rfl, hblank⟩
        | cons c body => exact ⟨c, rfl, hblanks c (by simp)⟩
      obtain ⟨c, hc, hyes⟩ := hhead
      exact absurd hyes (by simp [of_mem_head?_stripped hc])
    · rintro rfl
      rw [List.append_nil] at htrim
      rw [← htrim] at hlast
      exact absurd hblank (by simp [of_mem_getLast?_trim hlast])

/-! ## Splitting again -/

/-- The tokens of a text, joined again, split into the same tokens exactly if no blank stands in
front of the commas at the end of the text. -/
theorem split_joined_again_iff (t : Text) :
    split (joinCommas (split t)) = split t ↔ ¬ HasBlankBeforeCommas t := by
  rw [joinCommas_split_eq_stripped, split_eq_split_iff, stripped_stripped_iff,
    hasBlankBeforeCommas_iff]
  simp only [not_exists, not_and, Bool.not_eq_true]

/-- A text of one argument with two commas after it, and a blank between these. The blank makes an
empty token, which is lost when the tokens are joined and split again. -/
theorem split_again_loses_token :
    split "3, ,".toList = ["3".toList, []] ∧
      joinCommas (split "3, ,".toList) = "3, ".toList ∧
      split (joinCommas (split "3, ,".toList)) = ["3".toList] ∧
      split (joinCommas (split "3, ,".toList)) ≠ split "3, ,".toList := by
  decide +kernel

end Token

end SyscallTrace
