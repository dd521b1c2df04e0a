import SyscallTrace.Proofs.Line.Printing

/-!
# Printed lines of resumed calls

A printed line that resumes a call is read as it was printed (`Call.ofLine_resumedLine`), unless one
of its string literals holds the mark of an unfinished call and, after it, the end of a call that
does not return. Such a line is read as one that interrupts its call again, and its outcome is lost:
`Call.ofLine_resumedLine_quoted` shows one.
-/

namespace SyscallTrace

open Text CallForm

/-! ## Marks in lists of arguments -/

namespace CallForm

variable {args : List Text} {t : Text}

theorem InterruptsAgain.mono {a : Text} (h : InterruptsAgain a) (ha : a <:+: t) :
    InterruptsAgain t := by
  obtain ⟨gap, gap', hgap, hgap', hmark⟩ := h
  exact ⟨gap, gap', hgap, hgap', hmark.trans ha⟩

theorem InterruptsAgain.of_cons_blank (h : InterruptsAgain (' ' :: t)) : InterruptsAgain t := by
  obtain ⟨gap, gap', hgap, hgap', hmark⟩ := h
  rcases List.infix_cons_iff.1 hmark with ⟨u, hu⟩ | hmark
  · exact absurd (List.cons.inj hu).1 (by decide)
  · exact ⟨gap, gap', hgap, hgap', hmark⟩

/-- The list interrupts a call again if one of its arguments does. -/
theorem interruptsAgain_joinCommas_iff :
    InterruptsAgain (joinCommas args) ↔ ∃ a ∈ args, InterruptsAgain a := by
  constructor
  · rintro ⟨gap, gap', hgap, hgap', hmark⟩
    have hcomma : ',' ∉ unfinishedMark ++ (equals gap gap' ++ ['?']) := by
      have hmark : ',' ∉ unfinishedMark := by decide
      simp [equals, hmark, not_mem_of_isBlanks hgap.blanks (c := ',') (by decide),
        not_mem_of_isBlanks hgap'.blanks (c := ',') (by decide)]
    obtain ⟨a, ha, hmark⟩ := exists_infix_of_infix_joinCommas hcomma (by decide) hmark
    exact ⟨a, ha, gap, gap', hgap, hgap', hmark⟩
  · rintro ⟨a, ha, hagain⟩
    exact hagain.mono (infix_joinCommas ha)

/-- A literal ends in its quote or in dots, not in the mark of an unfinished call. -/
theorem not_mark_suffix_of_isLiteral (h : Token.IsLiteral t) : ¬ unfinishedMark <:+ t := by
  rintro ⟨p, hp⟩
  obtain ⟨body, n, -, rfl⟩ := h
  have hlast : '>' ∈ ('"' :: List.replicate n '.').getLast? := by
    rw [← List.getLast?_append_of_ne_nil ('"' :: body) (List.cons_ne_nil '"' _), ← hp,
      List.getLast?_append_of_ne_nil p (by decide)]
    rfl
  rcases List.mem_cons.1 (List.mem_of_getLast? hlast) with heq | hmem
  · exact absurd heq (by decide)
  · exact absurd (List.eq_of_mem_replicate hmem) (by decide)

/-- The list ends in no mark if only its literals hold one. -/
theorem not_mark_suffix_joinCommas (hargs : ∀ a ∈ args, Token.IsArgument a)
    (hmark : ∀ a ∈ args, Token.IsPlain a → ¬ unfinishedMark <:+: a) :
    ¬ unfinishedMark <:+ joinCommas args := by
  intro h
  obtain ⟨a, ha, hend⟩ := exists_suffix_of_suffix_joinCommas (by decide) (by decide) h
  rcases hargs a ha with hlit | hplain
  · exact not_mark_suffix_of_isLiteral hlit hend
  · exact hmark a ha hplain hend.isInfix

end CallForm

namespace Call

variable {columns : Columns} {h : Heading} {name : Text} {args : List Text}

theorem ofLine_resumedLine_of_form {form : CallForm} (hh : h.IsPrinted columns) {t : Text}
    (o : PrintedOutcome columns.elapsed)
    (hform : ofText? (resumedText name (' ' :: t) [' '] [' '] o.text) = some form) :
    ofLine columns (resumedLine h name t o) =
      ((ofForm columns.elapsed h form).map some).mapError (.format (resumedLine h name t o)) := by
  refine ofLine_text_append hh (Heading.follows_cons (by decide) (by decide) (by decide) _)
    (List.cons_ne_nil _ _) (fun c hc => o.getLast?_text ?_) hform
  rwa [show resumedText name (' ' :: t) [' '] [' '] o.text =
    ("<... ".toList ++ name ++ " resumed>".toList ++ ' ' :: t ++ equals [' '] [' ']) ++ o.text by
      simp [resumedText],
    List.getLast?_append_of_ne_nil _ o.text_ne_nil] at hc

/-- The line of a resumed call is read as it was printed, unless one of its arguments holds the mark
of an unfinished call and the end of a call that does not return. -/
theorem ofLine_resumedLine (hh : h.IsPrinted columns) (hname : IsName name)
    (hargs : ∀ a ∈ args, Token.IsArgument a) (hline : '\n' ∉ joinCommas args)
    (hmark : ∀ a ∈ args, Token.IsPlain a → ¬ unfinishedMark <:+: a)
    (o : PrintedOutcome columns.elapsed) :
    ((∀ a ∈ args, ¬ InterruptsAgain a) →
      ofLine columns (resumedLine h name (joinCommas args) o) =
        .ok (some ⟨h, name, args, .resumed o.outcome⟩)) ∧
    ∀ a ∈ args, InterruptsAgain a →
      ∃ tokens, ofLine columns (resumedLine h name (joinCommas args) o) =
        .ok (some ⟨h, name, tokens, .continued⟩) := by
  have hunblank : ∀ c ∈ name, isBlank c = false := fun c hc => hname.unblank hc
  have hblank : '\n' ∉ ' ' :: joinCommas args := fun hm =>
    (List.mem_cons.1 hm).elim (by decide) hline
  constructor
  · intro hfree
    have hagain : ¬ InterruptsAgain (' ' :: joinCommas args) := fun h => by
      obtain ⟨a, ha, hagain⟩ := interruptsAgain_joinCommas_iff.1 h.of_cons_blank
      exact hfree a ha hagain
    have hend : ¬ unfinishedMark <:+ ' ' :: joinCommas args := fun h =>
      (List.suffix_cons_iff.1 h).elim (fun heq => absurd (List.cons.inj heq).1 (by decide))
        (not_mark_suffix_joinCommas hargs hmark)
    have hform := ofText?_resumedText o.isTail isBlankRun_blank isBlankRun_blank hname.ne_nil
      hunblank hblank hagain hend
    have hleader : IsLeader [' '] := .blanks (isBlanks_cons rfl isBlanks_nil)
    have hsplit : Token.split (resumedArgs ([' '] ++ joinCommas args)) = args :=
      split_resumedArgs hargs hleader
    rw [← o.text_eq] at hform
    rw [List.singleton_append] at hsplit
    rw [ofLine_resumedLine_of_form hh o hform, ofForm, o.read, ok_bind, hname.trim, hsplit]
    rfl
  · intro a ha hagain
    have hlist : InterruptsAgain (' ' :: joinCommas args) :=
      (interruptsAgain_joinCommas_iff.2 ⟨a, ha, hagain⟩).mono (List.suffix_cons _ _).isInfix
    have hall : '\n' ∉ ' ' :: joinCommas args ++ (equals [' '] [' '] ++ o.text) := fun hm => by
      rcases List.mem_append.1 hm with hm | hm
      · exact hblank hm
      rcases List.mem_append.1 hm with hm | hm
      · exact absurd hm (by decide)
      · exact o.not_mem_text hm
    obtain ⟨t, hform⟩ := ofText?_of_interruptsAgain hname.ne_nil hunblank hall hlist
    rw [ofLine_resumedLine_of_form hh o hform, ofForm, hname.trim]
    exact ⟨_, rfl⟩

/-! ### A call that writes a line of a trace -/

def resumedHeading : Heading := ⟨9287, none, none⟩

def writtenCount : PrintedOutcome false where
  ret := ⟨.int 24, none⟩
  remark := none
  elapsed := none
  isReturn := .number (by decide)
  isRemark t ht := by cases ht
  isSome_elapsed := rfl

/-- The written text holds a mark, and a call that returns `ret`. -/
def writtenArgs (ret : Char) : List Text :=
  ['"' :: "<unfinished ...>) = ".toList ++ [ret, '"'], "24".toList]

theorem isArgument_writtenArgs {ret : Char} (hs : ret ≠ '\\') (hq : ret ≠ '"') :
    ∀ a ∈ writtenArgs ret, Token.IsArgument a := by
  intro a ha
  rcases List.mem_cons.1 ha with rfl | ha
  · have hbody : Token.LiteralBody ("<unfinished ...>) = ".toList ++ [ret]) := by
      refine Token.literalBody_of_not_mem (fun hm => ?_) fun hm => ?_
      · rcases List.mem_append.1 hm with hm | hm
        · exact absurd hm (by decide)
        · exact hs (List.mem_singleton.1 hm).symm
      · rcases List.mem_append.1 hm with hm | hm
        · exact absurd hm (by decide)
        · exact hq (List.mem_singleton.1 hm).symm
    exact .inl ⟨_, 0, hbody, by simp⟩
  · rw [List.mem_singleton.1 ha]
    refine .inr ⟨⟨by decide, fun c hc => ?_, fun c hc => ?_⟩, by decide, by decide⟩
    · rw [← Option.some.inj hc]
      decide
    · rw [← Option.some.inj hc]
      decide

/-- Only the literal holds the mark. -/
theorem noMark_writtenArgs {ret : Char} :
    ∀ a ∈ writtenArgs ret, Token.IsPlain a → ¬ unfinishedMark <:+: a := by
  intro a ha hplain
  rcases List.mem_cons.1 ha with rfl | ha
  · exact absurd rfl hplain.noQuote
  · rw [List.mem_singleton.1 ha]
    decide

theorem ofLine_resumedLine_write :
    ofLine {}
        (resumedLine resumedHeading "write".toList (joinCommas (writtenArgs '3')) writtenCount) =
          .ok (some ⟨resumedHeading, "write".toList, writtenArgs '3',
            .resumed ⟨⟨.int 24, none⟩, none, none⟩⟩) ∧
      ∃ tokens, ofLine {}
        (resumedLine resumedHeading "write".toList (joinCommas (writtenArgs '?')) writtenCount) =
          .ok (some ⟨resumedHeading, "write".toList, tokens, .continued⟩) := by
  have hh : resumedHeading.IsPrinted {} :=
    ⟨⟨rfl, rfl⟩, fun _ ht => (nomatch ht), fun _ ht => (nomatch ht)⟩
  have hfree : ∀ a ∈ writtenArgs '3', ¬ InterruptsAgain a := by
    have hreturn : ∀ a ∈ writtenArgs '3', '?' ∉ a := by decide
    rintro a ha ⟨gap, gap', -, -, hmark⟩
    exact hreturn a ha (hmark.mem (by simp))
  have hagain : InterruptsAgain ('"' :: "<unfinished ...>) = ".toList ++ ['?', '"']) :=
    ⟨[' '], [' '], isBlankRun_blank, isBlankRun_blank, ['"'], ['"'], rfl⟩
  exact ⟨(ofLine_resumedLine hh isName_write (isArgument_writtenArgs (by decide) (by decide))
      (by decide) noMark_writtenArgs writtenCount).1 hfree,
    (ofLine_resumedLine hh isName_write (isArgument_writtenArgs (by decide) (by decide))
      (by decide) noMark_writtenArgs writtenCount).2 _ List.mem_cons_self hagain⟩

/-- A mark inside of a string literal changes how the line is read: its return value and all but a
piece of its first argument are lost. -/
theorem ofLine_resumedLine_quoted :
    resumedLine resumedHeading "write".toList (joinCommas (writtenArgs '?')) writtenCount =
        "9287 <... write resumed> \"<unfinished ...>) = ?\", 24) = 24".toList ∧
      (∀ a ∈ writtenArgs '?', Token.IsArgument a) ∧
      (∀ a ∈ writtenArgs '?', Token.IsPlain a → ¬ unfinishedMark <:+: a) ∧
      Token.split (joinCommas (writtenArgs '?')) = writtenArgs '?' ∧
      ofLine {} "9287 <... write resumed> \"<unfinished ...>) = ?\", 24) = 24".toList =
        .ok (some ⟨resumedHeading, "write".toList, [['"']], .continued⟩) :=
  ⟨by decide +kernel, isArgument_writtenArgs (by decide) (by decide), noMark_writtenArgs,
    by decide +kernel, toOption_eq_some_iff.1 (by decide +kernel)⟩

end Call

end SyscallTrace
