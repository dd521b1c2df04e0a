import SyscallTrace.Line.Detection
import SyscallTrace.Proofs.Line.Printing

/-!
# Lines with a whole call

The search for the columns of a trace passes over its lines up to one with a whole call. It looks
at them behind what may be columns, as it does not know yet which columns there are. The lines that
show no whole call are passed over (`isCallLine_of_isPassedOver`), and a line with a whole call is
not (`isCallLine_call`).
-/

namespace SyscallTrace

open Text

/-! ## Columns with blanks between them -/

/-- The words, each with a run of blanks after it. -/
inductive IsSpacedOut : List Text → Text → Prop where
  | nil : IsSpacedOut [] []
  | cons {word gap front : Text} {words : List Text} (hgap : IsBlankRun gap)
      (h : IsSpacedOut words front) : IsSpacedOut (word :: words) (word ++ (gap ++ front))

/-- The columns that an option asks for, as they are printed. -/
def Heading.optionalTexts (h : Heading) : List Text :=
  h.timestamp.toList ++ (h.instPointer.map fun p => '[' :: p ++ [']']).toList

/-- The columns in front of a call, as they are printed. -/
def Heading.columnTexts (h : Heading) : List Text :=
  Decimal.ofNat h.pid.toNat :: h.optionalTexts

/-- A word that can stand in front of a call. -/
structure IsColumn (word : Text) : Prop where
  ne_nil : word ≠ []
  unblank : ∀ c ∈ word, isBlank c = false
  noParen : '(' ∉ word
  isLeading : isLeadingColumn word

variable {words : List Text} {word front body t : Text} {c : Char} {n : Nat}

namespace Heading

variable {columns : Columns} {h : Heading}

theorem IsTimestamp.isColumn (h : IsTimestamp t) : IsColumn t where
  ne_nil := h.ne_nil
  unblank c hc := (h.plain hc).1
  noParen hm := absurd (h.chars _ hm) (by decide)
  isLeading := by
    unfold isLeadingColumn
    rw [List.all_eq_true.2 h.chars, Bool.true_or]

theorem isPointer_brackets (p : Text) : Columns.isPointer ('[' :: p ++ [']']) := by
  unfold Columns.isPointer startsWith endsWith
  rw [Bool.and_eq_true, List.isPrefixOf_iff_prefix, List.isSuffixOf_iff_suffix]
  exact ⟨⟨p ++ [']'], rfl⟩, ⟨'[' :: p, rfl⟩⟩

theorem IsPointer.unblank (h : IsPointer t) (hc : c ∈ t) : isBlank c = false := by
  have hchar := h.chars c hc
  rw [Bool.or_eq_true, beq_iff_eq] at hchar
  rcases hchar with hhex | rfl
  · unfold ReturnValue.isHexDigit at hhex
    rw [Bool.or_eq_true, Bool.or_eq_true, Bool.and_eq_true, Bool.and_eq_true] at hhex
    simp only [decide_eq_true_eq] at hhex
    rcases hhex with (hdigit | ⟨hlow, hhigh⟩) | ⟨hlow, hhigh⟩
    · exact isBlank_eq_false_of_isAlphanum (Bool.or_eq_true _ _ ▸ Or.inr hdigit)
    all_goals
      have hlow := UInt32.le_iff_toNat_le.1 hlow
      have hhigh := UInt32.le_iff_toNat_le.1 hhigh
      simp only [Char.reduceToNat, Char.toNat_val] at hlow hhigh
      exact isBlank_eq_false_of_visible (by omega) (by omega)
  · decide

theorem IsPointer.isColumn (h : IsPointer t) : IsColumn ('[' :: t ++ [']']) where
  ne_nil := List.cons_ne_nil _ _
  unblank c hc := by
    rcases List.mem_append.1 hc with hc | hc
    · rcases List.mem_cons.1 hc with rfl | hc
      · decide
      · exact h.unblank hc
    · rw [List.mem_singleton.1 hc]
      decide
  noParen hm := by
    rcases List.mem_append.1 hm with hm | hm
    · rcases List.mem_cons.1 hm with heq | hm
      · exact absurd heq (by decide)
      · exact absurd (h.chars _ hm) (by decide)
    · exact absurd hm (by decide)
  isLeading := by
    unfold isLeadingColumn
    rw [isPointer_brackets, Bool.or_true]

theorem isTimestamp_pid (pid : UInt32) : IsTimestamp (Decimal.ofNat pid.toNat) where
  ne_nil := Nat.toDigits_ne_nil
  chars c hc := by rw [Decimal.isDigit_of_mem_ofNat hc, Bool.true_or, Bool.true_or]

theorem IsPrinted.isColumn (hh : h.IsPrinted columns) : ∀ word ∈ h.columnTexts, IsColumn word := by
  intro word hword
  rcases List.mem_cons.1 hword with rfl | hword
  · exact (isTimestamp_pid h.pid).isColumn
  rcases List.mem_append.1 hword with hword | hword
  · exact (hh.isTimestamp word (Option.mem_toList.1 hword)).isColumn
  · obtain ⟨p, hp, rfl⟩ := Option.map_eq_some_iff.1 (Option.mem_toList.1 hword)
    exact (hh.isPointer p hp).isColumn

/-- Columns are printed with one blank after each. -/
theorem isSpacedOut_text (h : Heading) : IsSpacedOut h.columnTexts h.text := by
  have hpointer : IsSpacedOut (h.instPointer.map fun p => '[' :: p ++ [']']).toList
      (pointerText h.instPointer) := by
    cases h.instPointer with
    | none => exact .nil
    | some p =>
      have hword : IsSpacedOut ['[' :: p ++ [']']] ('[' :: p ++ [']'] ++ ([' '] ++ [])) :=
        .cons isBlankRun_blank .nil
      simpa [pointerText] using hword
  refine .cons isBlankRun_blank ?_
  unfold optionalTexts
  cases h.timestamp with
  | none => exact hpointer
  | some t =>
    have hword : IsSpacedOut (t :: _) (t ++ ([' '] ++ _)) := .cons isBlankRun_blank hpointer
    simpa [timestampText] using hword

theorem length_columnTexts (h : Heading) : h.columnTexts.length ≤ 3 := by
  unfold columnTexts optionalTexts
  cases h.timestamp <;> cases h.instPointer <;> simp

end Heading

namespace IsSpacedOut

theorem unblank_head? (h : IsSpacedOut words front) (hwords : ∀ word ∈ words, IsColumn word)
    (hbody : ∀ c ∈ body.head?, isBlank c = false) :
    ∀ c ∈ (front ++ body).head?, isBlank c = false := by
  cases h with
  | nil => exact hbody
  | @cons word gap front words hgap h =>
    have hword := hwords word List.mem_cons_self
    intro c hc
    rw [List.append_assoc, List.head?_append_of_ne_nil _ hword.ne_nil] at hc
    exact hword.unblank c (List.mem_of_mem_head? hc)

theorem noParen (h : IsSpacedOut words front) (hwords : ∀ word ∈ words, IsColumn word) :
    '(' ∉ front := by
  induction h with
  | nil => exact List.not_mem_nil
  | @cons word gap front words hgap h ih =>
    obtain ⟨hword, hwords⟩ := List.forall_mem_cons.1 hwords
    intro hm
    rcases List.mem_append.1 hm with hm | hm
    · exact hword.noParen hm
    rcases List.mem_append.1 hm with hm | hm
    · exact not_mem_of_isBlanks hgap.blanks (by decide) hm
    · exact ih hwords hm

theorem words_append (h : IsSpacedOut words front) (hwords : ∀ word ∈ words, IsColumn word)
    (t : Text) : Text.words (front ++ t) = words ++ Text.words t := by
  induction h with
  | nil => rfl
  | @cons word gap front words hgap h ih =>
    obtain ⟨hword, hwords⟩ := List.forall_mem_cons.1 hwords
    rw [List.append_assoc, List.append_assoc, Text.words_append hword.ne_nil hword.unblank hgap,
      ih hwords]
    rfl

/-- The columns in front are taken off, whatever the blanks between them are. -/
theorem dropLeadingColumns_append (h : IsSpacedOut words front)
    (hwords : ∀ word ∈ words, IsColumn word) (hbody : ∀ c ∈ body.head?, isBlank c = false)
    (hn : words.length ≤ n) :
    dropLeadingColumns n (front ++ body) = dropLeadingColumns (n - words.length) body := by
  induction h generalizing n with
  | nil => rfl
  | @cons word gap front words hgap h ih =>
    obtain ⟨hword, hwords⟩ := List.forall_mem_cons.1 hwords
    obtain ⟨n, rfl⟩ : ∃ m, n = m + 1 := ⟨n - 1, by rw [List.length_cons] at hn; omega⟩
    obtain ⟨c, gap, rfl⟩ := List.exists_cons_of_ne_nil hgap.ne_nil
    have hcut : cutFirst? isBlank (word ++ c :: (gap ++ (front ++ body))) =
        some (word, gap ++ (front ++ body)) :=
      cutFirst?_append hword.unblank (hgap.blanks c List.mem_cons_self)
    have htrim : trimStart (gap ++ (front ++ body)) = front ++ body :=
      dropWhile_append (fun d hd => hgap.blanks d (List.mem_cons_of_mem _ hd))
        (h.unblank_head? hwords hbody)
    have hline : word ++ (c :: gap ++ front) ++ body = word ++ c :: (gap ++ (front ++ body)) := by
      simp
    rw [hline, dropLeadingColumns, hcut]
    dsimp only
    rw [if_pos hword.isLeading, htrim, ih hwords (by simpa using hn), List.length_cons,
      Nat.add_sub_add_right]

end IsSpacedOut

/-! ## What is no column -/

/-- What starts like no column is left as it is. -/
theorem dropLeadingColumns_append_left {start : Text} (hstart : ∀ c ∈ start, isBlank c = false)
    (hnot : ∀ x, isLeadingColumn (start ++ x) = false) (n : Nat) (t : Text) :
    dropLeadingColumns n (start ++ t) = start ++ t := by
  cases n with
  | zero => rfl
  | succ n =>
    rw [dropLeadingColumns, cutFirst?_append_left hstart]
    cases cutFirst? isBlank t with
    | none => rfl
    | some x => exact if_neg (by simp [hnot])

/-- A character that no column starts with. -/
def startsNoColumn (c : Char) : Bool :=
  !isBlank c && !c.isDigit && c != '.' && c != ':' && c != '['

theorem dropLeadingColumns_cons (hc : startsNoColumn c) (n : Nat) (t : Text) :
    dropLeadingColumns n (c :: t) = c :: t := by
  unfold startsNoColumn at hc
  simp only [Bool.and_eq_true, Bool.not_eq_true', bne_iff_ne] at hc
  obtain ⟨⟨⟨⟨hblank, hdigit⟩, hpoint⟩, hcolon⟩, hbracket⟩ := hc
  refine dropLeadingColumns_append_left (List.forall_mem_singleton.2 hblank) (fun x => ?_) n t
  simp [isLeadingColumn, Columns.isPointer, startsWith, hdigit, hpoint, hcolon, Ne.symm hbracket]

/-- A name before a parenthesis, which no column has. -/
theorem dropLeadingColumns_called {name : Text} (hne : name ≠ [])
    (hname : ∀ c ∈ name, isBlank c = false) (hbracket : ∀ c ∈ name.head?, c ≠ '[') (n : Nat)
    (t : Text) : dropLeadingColumns n (name ++ '(' :: t) = name ++ '(' :: t := by
  have hstart : ∀ c ∈ name ++ ['('], isBlank c = false := by
    intro c hc
    rcases List.mem_append.1 hc with hc | hc
    · exact hname c hc
    · rw [List.mem_singleton.1 hc]
      rfl
  have hnot : ∀ x, isLeadingColumn (name ++ ['('] ++ x) = false := by
    intro x
    obtain ⟨c, name, rfl⟩ := List.exists_cons_of_ne_nil hne
    have hc : c ≠ '[' := hbracket c rfl
    have hparen : ('(' : Char).isDigit = false := rfl
    simp [isLeadingColumn, Columns.isPointer, startsWith, hparen, Ne.symm hc]
  have hdrop := dropLeadingColumns_append_left hstart hnot n t
  rwa [List.append_assoc] at hdrop

/-- The word at the start of the mark, with anything in front of it, is no column. -/
theorem isLeadingColumn_append_mark (s : Text) :
    isLeadingColumn (s ++ "<unfinished".toList) = false := by
  have hletter : ('u' : Char).isDigit = false := rfl
  have hend : Text.endsWith (s ++ "<unfinished".toList) [']'] = false := by
    unfold endsWith
    rw [← Bool.not_eq_true, List.isSuffixOf_iff_suffix]
    intro h
    rcases List.suffix_or_suffix_of_suffix h (List.suffix_append s _) with h | h
    · exact absurd h (by decide)
    · exact absurd h (by decide)
  unfold isLeadingColumn Columns.isPointer
  rw [hend, Bool.and_false, Bool.or_false, List.all_append]
  simp [hletter]

theorem cutFirst?_mark : cutFirst? isBlank CallForm.unfinishedMark =
    some ("<unfinished".toList, "...>".toList) := by decide

theorem unblank_mark : ∀ c ∈ CallForm.unfinishedMark.head?, isBlank c = false := by
  intro c hc
  rw [← Option.some.inj hc]
  rfl

/-- The mark at the end of a line stays when columns are taken off its front. -/
theorem mark_suffix_dropLeadingColumns (n : Nat) (s : Text) :
    CallForm.unfinishedMark <:+ dropLeadingColumns n (s ++ CallForm.unfinishedMark) := by
  induction n generalizing s with
  | zero => exact List.suffix_append _ _
  | succ n ih =>
    rw [dropLeadingColumns]
    cases hs : cutFirst? isBlank s with
    | none =>
      -- the first blank is that of the mark, and the word before it ends in the mark
      rw [cutFirst?_append_left (cutFirst?_eq_none_iff.1 hs), cutFirst?_mark, Option.map_some]
      dsimp only
      rw [isLeadingColumn_append_mark, if_neg (by simp)]
      exact List.suffix_append _ _
    | some x =>
      rw [cutFirst?_append_right hs]
      dsimp only
      split
      · rw [trimStart_append unblank_mark]
        exact ih _
      · exact List.suffix_append _ _

/-! ## The lines of a trace -/

/-- What a line has behind its columns if it shows no whole call: the report of a signal or of the
end of a process, or a call that goes on. -/
inductive IsPart : Text → Prop where
  | signal (t : Text) : IsPart ("---".toList ++ t)
  | exit (t : Text) : IsPart ("+++".toList ++ t)
  | unfinished (t : Text) : IsPart (t ++ CallForm.unfinishedMark)
  | resumed (t : Text) : IsPart ("<... ".toList ++ t)

/-- A blank line, or one that shows no whole call behind columns of the trace. -/
inductive IsPassedOver (columns : Columns) : Text → Prop where
  | blank : IsPassedOver columns []
  | part {h : Heading} {front body : Text} (hh : h.IsPrinted columns)
      (hfront : IsSpacedOut h.columnTexts front) (hbody : IsPart body) :
      IsPassedOver columns (front ++ body)

variable {columns : Columns} {line : Text}

theorem isCallLine_eq (hline : line.trim = line) (hbody : dropLeadingColumns 3 line = body) :
    isCallLine line = (!line.isEmpty && !Heading.isNotice body && !body.startsWith "<... ".toList &&
      !body.endsWith CallForm.unfinishedMark) := by
  unfold isCallLine
  rw [hline, hbody]

/-- The lines that show no whole call are passed over. -/
theorem isCallLine_of_isPassedOver (hline : line.trim = line) (h : IsPassedOver columns line) :
    isCallLine line = false := by
  cases h with
  | blank => rfl
  | @part h front body hh hfront hbody =>
    have hdrop : ∀ c t, body = c :: t → startsNoColumn c →
        dropLeadingColumns 3 (front ++ body) = body := by
      rintro c t rfl hc
      have hblank : isBlank c = false := by
        simp only [startsNoColumn, Bool.and_eq_true, Bool.not_eq_true'] at hc
        exact hc.1.1.1.1
      rw [hfront.dropLeadingColumns_append hh.isColumn (fun d hd => by rwa [← Option.some.inj hd])
        h.length_columnTexts, dropLeadingColumns_cons hc]
    cases hbody with
    | signal t =>
      rw [isCallLine_eq hline (hdrop '-' _ rfl (by decide))]
      simp [Heading.isNotice, startsWith]
    | exit t =>
      rw [isCallLine_eq hline (hdrop '+' _ rfl (by decide))]
      simp [Heading.isNotice, startsWith]
    | resumed t =>
      rw [isCallLine_eq hline (hdrop '<' _ rfl (by decide))]
      simp [startsWith]
    | unfinished t =>
      have hmark := mark_suffix_dropLeadingColumns 3 (front ++ t)
      rw [List.append_assoc] at hmark
      have hend : (dropLeadingColumns 3 (front ++ (t ++ CallForm.unfinishedMark))).endsWith
          CallForm.unfinishedMark := List.isSuffixOf_iff_suffix.2 hmark
      rw [isCallLine_eq hline rfl, hend, Bool.not_true, Bool.and_false]

/-- A name that is neither a column nor the mark of a resumed call. -/
structure IsCallName (name : Text) : Prop extends IsName name where
  start : ∀ c ∈ name.head?, c ≠ '[' ∧ c ≠ '<'

/-- Letters, digits and underscores make a name. -/
theorem isCallName_of_isAlphanum {name : Text} (hne : name ≠ [])
    (h : ∀ c ∈ name, c.isAlphanum || c == '_') : IsCallName name where
  ne_nil := hne
  chars c hc := isNameChar_of_isAlphanum (h c hc)
  start c hc := by
    have hchar := h c (List.mem_of_mem_head? hc)
    constructor <;> rintro rfl <;> exact absurd hchar (by decide)

variable {name args gap gap' : Text} {hasElapsed : Bool}

/-- A line that shows a whole call is not passed over. -/
theorem isCallLine_call {words : List Text} (hwords : ∀ word ∈ words, IsColumn word)
    (hlength : words.length ≤ 3) (hfront : IsSpacedOut words front) (hname : IsCallName name)
    (hgap : IsBlankRun gap) (hgap' : IsBlankRun gap') (o : PrintedOutcome hasElapsed)
    (htrim : (front ++ CallForm.completeText name args gap gap' o.text).trim =
      front ++ CallForm.completeText name args gap gap' o.text) :
    isCallLine (front ++ CallForm.completeText name args gap gap' o.text) := by
  generalize hbody : CallForm.completeText name args gap gap' o.text = body at htrim ⊢
  unfold CallForm.completeText at hbody
  have hhead : body.head? = name.head? := by
    rw [← hbody, List.head?_append_of_ne_nil _ hname.ne_nil]
  have hdrop : dropLeadingColumns 3 (front ++ body) = body := by
    have hblank : ∀ c ∈ body.head?, isBlank c = false := by
      rw [hhead]
      exact fun c hc => hname.unblank (List.mem_of_mem_head? hc)
    rw [hfront.dropLeadingColumns_append hwords hblank hlength, ← hbody]
    exact dropLeadingColumns_called hname.ne_nil (fun c hc => hname.unblank hc)
      (fun c hc => (hname.start c hc).1) _ _
  have hnotice : Heading.isNotice body = false := by
    rw [← hbody]
    exact (hname.follows _).noNotice
  have hresumed : body.startsWith "<... ".toList = false := by
    rw [← Bool.not_eq_true]
    intro h
    obtain ⟨t, ht⟩ := List.isPrefixOf_iff_prefix.1 h
    rw [← ht] at hhead
    exact (hname.start '<' hhead.symm).2 rfl
  have hunfinished : body.endsWith CallForm.unfinishedMark = false := by
    rw [← Bool.not_eq_true]
    intro h
    have htail : CallForm.equals gap gap' ++ (o.ret.value.text ++ o.rest) <:+ body := by
      rw [← hbody, ← o.text_eq]
      exact ⟨name ++ '(' :: args, by simp⟩
    have hnone := CallForm.interrupted?_eq_none_of_suffix o.isTail hgap hgap' htail
      (List.isSuffixOf_iff_suffix.1 h)
    cases hnone
  have hne : (front ++ body).isEmpty = false := by
    rw [← hbody]
    simp
  rw [isCallLine_eq htrim hdrop, hne, hnotice, hresumed, hunfinished]
  rfl

end SyscallTrace
