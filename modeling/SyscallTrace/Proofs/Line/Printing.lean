import SyscallTrace.Proofs.Line.Forms
import SyscallTrace.Proofs.Line.PrintedColumns
import SyscallTrace.Proofs.Line.PrintedOutcome

/-!
# Printed lines

The lines of calls, as the tracer prints them: the columns, the name, the text of the arguments and
the mark of the form that the call has. Reading a complete or an unfinished line gives back what was
printed, whatever the text of the arguments looks like (`Call.ofLine_printed`).
-/

namespace SyscallTrace

open Text

/-! ## Names -/

/-- What can stand in a name: the visible characters other than an opening parenthesis and signs. -/
def isNameChar (c : Char) : Bool :=
  !isBlank c && c != '(' && c != '+' && c != '-'

structure IsName (name : Text) : Prop where
  ne_nil : name ≠ []
  chars : ∀ c ∈ name, isNameChar c

theorem isNameChar_of_isAlphanum {c : Char} (h : c.isAlphanum || c == '_') : isNameChar c := by
  rw [Bool.or_eq_true, beq_iff_eq] at h
  rcases h with h | rfl
  · have hne : ∀ d : Char, d.isAlphanum = false → c ≠ d := by
      rintro d hd rfl
      rw [h] at hd
      cases hd
    simp [isNameChar, isBlank_eq_false_of_isAlphanum h, hne '(' rfl, hne '+' rfl, hne '-' rfl]
  · decide

namespace IsName

variable {name : Text} {c : Char}

theorem unblank (h : IsName name) (hc : c ∈ name) : isBlank c = false := by
  have hchar := h.chars c hc
  simp only [isNameChar, Bool.and_eq_true, Bool.not_eq_true'] at hchar
  exact hchar.1.1.1

theorem not_mem (h : IsName name) (hc : isNameChar c = false) : c ∉ name := fun hm => by
  rw [h.chars c hm] at hc
  cases hc

theorem trim (h : IsName name) : name.trim = name :=
  trim_eq_self h.ne_nil (fun _ hc => h.unblank (List.mem_of_mem_head? hc))
    fun _ hc => h.unblank (List.mem_of_getLast? hc)

/-- A name can follow the columns. -/
theorem follows (h : IsName name) (t : Text) : Heading.Follows (name ++ t) :=
  Heading.follows_append h.ne_nil
    (fun c hc => ⟨isGap_eq_false (h.unblank hc), fun heq => h.not_mem (by decide) (heq ▸ hc),
      fun heq => h.not_mem (by decide) (heq ▸ hc)⟩) t

end IsName

/-! ## Lines -/

namespace PrintedOutcome

variable {hasElapsed : Bool} (o : PrintedOutcome hasElapsed)

theorem text_ne_nil : o.text ≠ [] := by
  rw [o.text_eq]
  exact List.append_ne_nil_of_left_ne_nil o.isReturn.text_ne_nil _

theorem not_mem_text : '\n' ∉ o.text := by
  rw [o.text_eq]
  intro hm
  rcases List.mem_append.1 hm with hm | hm
  · exact absurd (o.isReturn.isReturnChar hm).1 (by decide)
  · exact o.isTail.isLine hm

/-- An outcome does not end in a blank. -/
theorem getLast?_text {c : Char} (hc : c ∈ o.text.getLast?) : isBlank c = false := by
  rw [o.text_eq] at hc
  have hrest := o.isSpaced_rest
  generalize o.rest = rest at hc hrest
  cases hrest with
  | nil =>
    rw [List.append_nil] at hc
    exact (o.isReturn.isReturnChar (List.mem_of_getLast? hc)).2
  | @cons t ht =>
    rw [← List.singleton_append, ← List.append_assoc,
      List.getLast?_append_of_ne_nil _ ht.ne_nil] at hc
    exact (ht.last c hc).1

end PrintedOutcome

namespace Call

variable {columns : Columns} {hasElapsed : Bool}

def completeLine (h : Heading) (name args : Text) (o : PrintedOutcome hasElapsed) : Text :=
  h.text ++ (name ++ '(' :: (args ++ (CallForm.equals [' '] [' '] ++ o.text)))

def unfinishedLine (h : Heading) (name args : Text) : Text :=
  h.text ++ CallForm.unfinishedText name args

def resumedLine (h : Heading) (name args : Text) (o : PrintedOutcome hasElapsed) : Text :=
  h.text ++ CallForm.resumedText name (' ' :: args) [' '] [' '] o.text

variable {h : Heading} {name args body : Text} {form : CallForm}

/-- What follows printed columns is read by its form. -/
theorem ofLine_text_append (hh : h.IsPrinted columns) (ht : Heading.Follows body) (hne : body ≠ [])
    (hlast : ∀ c ∈ body.getLast?, isBlank c = false) (hform : CallForm.ofText? body = some form) :
    ofLine columns (h.text ++ body) =
      ((ofForm columns.elapsed h form).map some).mapError (.format (h.text ++ body)) := by
  refine ofLine_eq_of_take (trim_eq_self (by simp [hne]) (fun c hc => ?_) fun c hc => ?_)
    (Heading.take_text hh ht) hform
  · have hpid : Decimal.ofNat h.pid.toNat ≠ [] := Nat.toDigits_ne_nil
    rw [Heading.text, List.append_assoc, List.head?_append_of_ne_nil _ hpid] at hc
    have hdigit := Decimal.isDigit_of_mem_ofNat (List.mem_of_mem_head? hc)
    exact isBlank_eq_false_of_isAlphanum (by simp [Char.isAlphanum, hdigit])
  · rw [List.getLast?_append_of_ne_nil _ hne] at hc
    exact hlast c hc

theorem ofText?_complete (hname : IsName name) (hargs : '\n' ∉ args)
    (o : PrintedOutcome hasElapsed) :
    CallForm.ofText? (name ++ '(' :: (args ++ (CallForm.equals [' '] [' '] ++ o.text))) =
      some (.complete name args o.ret.value.text o.rest) := by
  refine (CallForm.ofText?_eq_complete_iff (fun c hc => hname.unblank hc) fun hm => ?_).2
    ⟨hname.ne_nil, hname.not_mem (by decide), o.isTail, [' '], [' '], isBlankRun_blank,
      isBlankRun_blank, by rw [o.text_eq]⟩
  have hend : '\n' ∉ CallForm.equals [' '] [' '] := by decide
  simp [hname.not_mem (c := '\n') (by decide), hargs, o.not_mem_text, hend] at hm

theorem ofLine_completeLine (hh : h.IsPrinted columns) (hname : IsName name) (hargs : '\n' ∉ args)
    (o : PrintedOutcome columns.elapsed) :
    ofLine columns (completeLine h name args o) =
      .ok (some ⟨h, name, Token.split args, .complete o.outcome⟩) := by
  have hlast : ∀ c ∈ (name ++ '(' :: (args ++ (CallForm.equals [' '] [' '] ++ o.text))).getLast?,
      isBlank c = false := fun c hc => by
    refine o.getLast?_text ?_
    rwa [show name ++ '(' :: (args ++ (CallForm.equals [' '] [' '] ++ o.text)) =
      (name ++ '(' :: (args ++ CallForm.equals [' '] [' '])) ++ o.text by simp,
      List.getLast?_append_of_ne_nil _ o.text_ne_nil] at hc
  have hread : ofLine columns (completeLine h name args o) = _ :=
    ofLine_text_append hh (hname.follows _) (by simp) hlast (ofText?_complete hname hargs o)
  rw [hread, ofForm, o.read, ok_bind, hname.trim]
  rfl

theorem ofLine_unfinishedLine (hh : h.IsPrinted columns) (hname : IsName name)
    (hargs : '\n' ∉ args) :
    ofLine columns (unfinishedLine h name args) =
      .ok (some ⟨h, name, Token.split args, .unfinished⟩) := by
  have hlast : ∀ c ∈ (CallForm.unfinishedText name args).getLast?, isBlank c = false := by
    intro c hc
    rw [CallForm.unfinishedText, ← List.cons_append, ← List.append_assoc,
      List.getLast?_append_of_ne_nil _ (by decide)] at hc
    rw [← Option.some.inj hc]
    decide
  have hform := CallForm.ofText?_unfinishedText hname.ne_nil (hname.not_mem (by decide))
    (fun c hc => hname.unblank hc) hargs
  have hread : ofLine columns (unfinishedLine h name args) = _ :=
    ofLine_text_append hh (hname.follows _) (by simp [CallForm.unfinishedText]) hlast hform
  rw [hread, ofForm, hname.trim]
  rfl

/-- The lines of complete and unfinished calls are read as they were printed. -/
theorem ofLine_printed (hh : h.IsPrinted columns) (hname : IsName name) (hargs : '\n' ∉ args) :
    (∀ o : PrintedOutcome columns.elapsed,
      ofLine columns (completeLine h name args o) =
        .ok (some ⟨h, name, Token.split args, .complete o.outcome⟩)) ∧
    ∀ gap, IsBlanks gap → '\n' ∉ gap →
      ofLine columns (unfinishedLine h name (args ++ gap)) =
        .ok (some ⟨h, name, Token.split args, .unfinished⟩) := by
  refine ⟨ofLine_completeLine hh hname hargs, fun gap hgap hline => ?_⟩
  have hsplit : Token.split (args ++ gap) = Token.split args := by
    unfold Token.split
    rw [trim_append_blanks args hgap]
  rw [ofLine_unfinishedLine hh hname (by simp [hargs, hline]), hsplit]

/-! ### A failed call under all columns -/

theorem isName_write : IsName "write".toList :=
  ⟨by decide, List.all_eq_true.1 (by decide)⟩

def writeHeading : Heading := ⟨8168, some "1716214232.416217".toList, some "b7782424".toList⟩

/-- The text that is written looks like the end of a call. -/
def writeArgs : Text := "1, \"<unfinished ...>) = 3\", 24".toList

def writeFailed : PrintedOutcome true where
  ret := ⟨.int (-1), some "ENOSPC".toList⟩
  remark := some "(No space left (on device))".toList
  elapsed := some ⟨0, "000010".toList, List.all_eq_true.1 (by decide), by decide, by decide⟩
  isReturn := .failed ⟨"NOSPC".toList, rfl, List.all_eq_true.1 (by decide)⟩
  isRemark t ht := by
    obtain rfl := Option.some.inj ht
    refine ⟨⟨"No space left (on device)".toList, rfl⟩, by decide, fun gap _ h => ?_⟩
    exact absurd (h.mem (a := '=') (by simp)) (by decide)
  isSome_elapsed := by decide

theorem ofLine_printed_write :
    completeLine writeHeading "write".toList writeArgs writeFailed =
        ("8168 1716214232.416217 [b7782424] write(1, \"<unfinished ...>) = 3\", 24) = " ++
          "-1 ENOSPC (No space left (on device)) <0.000010>").toList ∧
      ofLine ⟨true, .epoch, true⟩
          (completeLine writeHeading "write".toList writeArgs writeFailed) =
        .ok (some ⟨writeHeading, "write".toList,
          ["1".toList, "\"<unfinished ...>) = 3\"".toList, "24".toList],
          .complete ⟨⟨.int (-1), some "ENOSPC".toList⟩, some ⟨0, 10000⟩,
            some "(No space left (on device))".toList⟩⟩) ∧
      ofLine ⟨true, .epoch, true⟩
          (unfinishedLine writeHeading "write".toList (writeArgs ++ [' '])) =
        .ok (some ⟨writeHeading, "write".toList,
          ["1".toList, "\"<unfinished ...>) = 3\"".toList, "24".toList], .unfinished⟩) := by
  have hh : writeHeading.IsPrinted ⟨true, .epoch, true⟩ := by
    refine ⟨⟨rfl, rfl⟩, fun t ht => ?_, fun t ht => ?_⟩
    · rw [← Option.some.inj ht]
      exact ⟨by decide, List.all_eq_true.1 (by decide)⟩
    · rw [← Option.some.inj ht]
      exact ⟨by decide, List.all_eq_true.1 (by decide)⟩
  have hargs : '\n' ∉ writeArgs := by decide
  have hprinted := ofLine_printed hh isName_write hargs
  have hsplit : Token.split writeArgs =
      ["1".toList, "\"<unfinished ...>) = 3\"".toList, "24".toList] := by decide +kernel
  rw [hsplit] at hprinted
  exact ⟨by decide +kernel, hprinted.1 writeFailed,
    hprinted.2 [' '] (isBlanks_cons rfl isBlanks_nil) (by decide)⟩

end Call

end SyscallTrace
