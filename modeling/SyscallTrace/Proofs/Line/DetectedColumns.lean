import SyscallTrace.Proofs.Line.CallLine
import SyscallTrace.Proofs.Line.ElapsedDetection

/-!
# Detected columns and the line that shows them

The columns of a trace are read off the words before the first parenthesis of a call. Its lines are
then read column by column, and the name is what is left. On the line that shows the columns both
find the same words (`Call.ofLine_detected`): the process, the columns that were detected and the
name, with nothing left over. The words are kept track of while the columns are taken off
(`HasFront.tail`).

A line that resumes a call shows its name behind a mark. Such a line is only taken for a whole call
if its timestamp is none that the search for a whole call knows, and the name that it shows starts
with a parenthesis.
-/

namespace SyscallTrace

open Text

/-- The words before the first parenthesis, and the text behind it. -/
def HasFront (words : List Text) (rest t : Text) : Prop :=
  ∃ front, t = front ++ '(' :: rest ∧ '(' ∉ front ∧ front.words = words

variable {config : Config} {columns : Columns} {h : Heading} {words : List Text}
  {word name front rest body t u x gap : Text} {p : Char → Bool}

/-! ## The words before the parenthesis -/

namespace HasFront

/-- A word at the start is taken off with the blanks behind it. Words stay, so no parenthesis is in
what is taken off. -/
theorem tail (hf : HasFront (word :: words) rest (x ++ (gap ++ t))) (hne : x ≠ [])
    (hx : ∀ c ∈ x, isBlank c = false) (hgap : IsBlankRun gap) (hwords : words ≠ []) :
    x = word ∧ HasFront words rest t := by
  obtain ⟨front, htext, hparen, hfront⟩ := hf
  rcases List.append_eq_append_iff.1 htext with ⟨y, rfl, hy⟩ | ⟨y, rfl, -⟩
  · rcases List.append_eq_append_iff.1 hy with ⟨z, rfl, hz⟩ | ⟨z, hgapz, hz⟩
    · rw [words_append hne hx hgap] at hfront
      obtain ⟨rfl, rfl⟩ := List.cons.inj hfront
      refine ⟨rfl, z, hz, fun hm => hparen ?_, rfl⟩
      exact List.mem_append_right _ (List.mem_append_right _ hm)
    · -- the parenthesis stands right behind the blanks, or is one
      rcases z with _ | ⟨c, z⟩
      · rw [List.append_nil] at hgapz
        rw [← hgapz, ← List.append_nil gap, words_append hne hx hgap] at hfront
        exact absurd (List.cons.inj hfront).2.symm hwords
      · obtain ⟨rfl, -⟩ := List.cons.inj hz
        have hblank := hgap.blanks '(' (by rw [hgapz]; simp)
        exact absurd hblank (by decide)
  · -- the parenthesis stands in the word
    have hunblank : ∀ c ∈ front, isBlank c = false := fun c hc => hx c (List.mem_append_left _ hc)
    by_cases hnil : front = []
    · rw [hnil] at hfront
      cases hfront
    · rw [words_eq_singleton hnil hunblank] at hfront
      exact absurd (List.cons.inj hfront).2.symm hwords

theorem exists_cutFirst? (hf : HasFront words rest t) :
    ∃ front, cutFirst? (· == '(') t = some (front, rest) ∧ front.words = words := by
  obtain ⟨front, rfl, hparen, hwords⟩ := hf
  refine ⟨front, cutFirst?_append (fun c hc => beq_eq_false_iff_ne.2 ?_) (by decide), hwords⟩
  rintro rfl
  exact hparen hc

/-- The first word stands at the start if no blank does. -/
theorem isPrefix (hf : HasFront (word :: words) rest t) (ht : ∀ c ∈ t.head?, isBlank c = false) :
    word <+: t := by
  obtain ⟨front, rfl, -, hfront⟩ := hf
  have hne : front ≠ [] := by
    rintro rfl
    cases hfront
  rw [List.head?_append_of_ne_nil _ hne] at ht
  obtain ⟨u, rfl, -⟩ := exists_of_words_eq_cons hfront ht
  rw [List.append_assoc]
  exact List.prefix_append _ _

theorem mem (hf : HasFront words rest t) (hword : word ∈ words) :
    word ≠ [] ∧ (∀ c ∈ word, isBlank c = false) ∧ '(' ∉ word := by
  obtain ⟨front, -, hparen, rfl⟩ := hf
  exact ⟨ne_nil_of_mem_words hword, fun c hc => (mem_of_mem_words hword hc).1,
    fun hm => hparen (mem_of_mem_words hword hm).2⟩

/-- The text in brackets at the start is the first word if that is in brackets. -/
theorem unblank_of_isPointer (hf : HasFront (word :: words) rest ('[' :: x ++ [']'] ++ t))
    (hword : Columns.isPointer word) (hx : ']' ∉ x) :
    ∀ c ∈ '[' :: x ++ [']'], isBlank c = false := by
  have hunblank := (hf.mem List.mem_cons_self).2.1
  unfold Columns.isPointer startsWith endsWith at hword
  rw [Bool.and_eq_true, List.isPrefixOf_iff_prefix, List.isSuffixOf_iff_suffix] at hword
  have hstart : word <+: '[' :: x ++ [']'] ++ t := by
    refine hf.isPrefix fun c hc => ?_
    rw [← Option.some.inj hc]
    rfl
  rcases List.prefix_or_prefix_of_prefix hstart (List.prefix_append _ t) with hle | hle
  · -- the first closing bracket is the end of the word
    obtain ⟨u, hu⟩ := hle
    obtain ⟨v, rfl⟩ := hword.2
    rw [List.append_assoc, List.singleton_append] at hu
    have hinner : ']' ∉ '[' :: x := by
      rw [List.mem_cons, not_or]
      exact ⟨by decide, hx⟩
    have hend : ']' :: u <:+ [']'] := suffix_of_suffix_append ⟨v, hu⟩ hinner
    have hlength := hend.length_le
    obtain rfl : u = [] := List.length_eq_zero_iff.1 (by simpa using hlength)
    rwa [← hu]
  · exact fun c hc => hunblank c (hle.mem hc)

/-- Blanks around the line do not count. -/
theorem of_trim (hf : HasFront words rest t.trim) : ∃ rest', HasFront words (rest ++ rest') t := by
  obtain ⟨lead, trail, ht, hlead, -⟩ := exists_append_trim_append t
  obtain ⟨front, hfront, hparen, hwords⟩ := hf
  refine ⟨trail, lead ++ front, ?_, ?_, ?_⟩
  · rw [ht, hfront]
    simp
  · rw [List.mem_append, not_or]
    exact ⟨not_mem_of_isBlanks hlead (by decide), hparen⟩
  · rw [words_append_blanks hlead, hwords]

end HasFront

/-! ## Columns that are taken off -/

namespace IsSpacedOut

theorem singleton (hgap : IsBlankRun gap) : IsSpacedOut [word] (word ++ gap) := by
  have hword : IsSpacedOut [word] (word ++ (gap ++ [])) := .cons hgap .nil
  rwa [List.append_nil] at hword

theorem append {words' : List Text} {front' : Text} (hw : IsSpacedOut words front)
    (hw' : IsSpacedOut words' front') : IsSpacedOut (words ++ words') (front ++ front') := by
  induction hw with
  | nil => exact hw'
  | cons hgap hw ih =>
    rw [List.append_assoc, List.append_assoc]
    exact .cons hgap ih

end IsSpacedOut

namespace Heading

variable {mode : TimestampMode} {pid : UInt32} {timestamp pointer column : Option Text}
  {present : Bool}

theorem IsPidColumn.hasFront (hpid : IsPidColumn pid front)
    (hf : HasFront (word :: words) rest (front ++ t)) (hwords : words ≠ []) :
    Decimal.isDigits word ∧ Decimal.valueOf word = pid.toNat ∧ HasFront words rest t ∧
      IsSpacedOut [word] front := by
  obtain ⟨hdigits, hvalue, hgap⟩ := hpid
  have hunblank : ∀ c ∈ _, isBlank c = false := fun c hc =>
    isBlank_eq_false_of_isAlphanum
      (Bool.or_eq_true _ _ ▸ Or.inr (Decimal.isDigit_of_isDigits hdigits hc))
  rw [List.append_assoc] at hf
  obtain ⟨rfl, hrest⟩ :=
    hf.tail (Decimal.isDigits_iff.1 hdigits).1 hunblank hgap.isBlankRun hwords
  exact ⟨hdigits, hvalue, hrest, .singleton hgap.isBlankRun⟩

/-- A timestamp stands in front where the line has one. -/
theorem IsTimestampColumn.hasFront (hx : IsTimestampColumn mode timestamp front)
    (hf : HasFront (column.toList ++ words) rest (front ++ t))
    (hcolumn : column.isSome = decide (mode ≠ .absent)) (hwords : words ≠ []) :
    timestamp = column ∧ HasFront words rest t ∧ IsSpacedOut column.toList front := by
  cases hx with
  | absent =>
    obtain rfl : column = none := by simpa using hcolumn
    exact ⟨rfl, hf, .nil⟩
  | present hmode hne hunblank _ hgap =>
    obtain ⟨word, rfl⟩ : ∃ word, column = some word :=
      Option.isSome_iff_exists.1 (hcolumn.trans (decide_eq_true hmode))
    rw [List.append_assoc] at hf
    obtain ⟨rfl, hrest⟩ := hf.tail hne hunblank hgap.isBlankRun hwords
    exact ⟨rfl, hrest, .singleton hgap.isBlankRun⟩

/-- An instruction pointer stands in front where the line has a word in brackets. -/
theorem IsPointerColumn.hasFront (hx : IsPointerColumn present pointer front)
    (hf : HasFront (column.toList ++ words) rest (front ++ t)) (hcolumn : column.isSome = present)
    (hpointer : ∀ x ∈ column, Columns.isPointer x) (hwords : words ≠ []) :
    (pointer.map fun p => '[' :: p ++ [']']) = column ∧ HasFront words rest t ∧
      IsSpacedOut column.toList front := by
  cases hx with
  | absent =>
    obtain rfl : column = none := by simpa using hcolumn
    exact ⟨rfl, hf, .nil⟩
  | present _ hinner hgap =>
    obtain ⟨word, rfl⟩ : ∃ word, column = some word := Option.isSome_iff_exists.1 hcolumn
    rw [List.append_assoc] at hf
    have hunblank := HasFront.unblank_of_isPointer hf (hpointer word rfl) hinner
    obtain ⟨rfl, hrest⟩ := hf.tail (List.cons_ne_nil _ _) hunblank hgap.isBlankRun hwords
    exact ⟨rfl, hrest, .singleton hgap.isBlankRun⟩

end Heading

/-! ## Columns that are detected -/

namespace Columns

variable {middle : List Text} {args r : Text} {mode : TimestampMode}

/-- The words between the process and the name are the columns of the trace. -/
def IsMiddle (columns : Columns) (middle : List Text) : Prop :=
  ∃ timestamp pointer : Option Text, middle = timestamp.toList ++ pointer.toList ∧
    timestamp.isSome = decide (columns.timestamp ≠ .absent) ∧
    pointer.isSome = columns.instPointer ∧ ∀ x ∈ pointer, isPointer x

theorem ne_absent_of_timestampMode (hm : timestampMode config x = .ok mode) : mode ≠ .absent := by
  rintro rfl
  unfold timestampMode at hm
  split at hm
  · have hmode := Except.ok.inj hm
    split at hmode <;> cases hmode
  · split at hm
    · cases hm
    · have hmode := Except.ok.inj hm
      split at hmode <;> cases hmode

theorem isMiddle_of_ofMiddle (hm : ofMiddle config middle = .ok columns) :
    columns.IsMiddle middle := by
  unfold ofMiddle at hm
  split at hm
  · obtain rfl := Except.ok.inj hm
    exact ⟨none, none, rfl, rfl, rfl, fun x hx => absurd hx (Option.not_mem_none x)⟩
  · next column =>
    split at hm
    · next hpointer =>
      obtain rfl := Except.ok.inj hm
      exact ⟨none, some column, rfl, rfl, rfl, fun x hx => by rwa [← Option.some.inj hx]⟩
    · obtain ⟨mode, hmode, rfl⟩ := map_eq_ok_iff.1 hm
      exact ⟨some column, none, rfl, (decide_eq_true (ne_absent_of_timestampMode hmode)).symm, rfl,
        fun x hx => absurd hx (Option.not_mem_none x)⟩
  · next first second others =>
    cases hfirst : isPointer first with
    | true =>
      rw [hfirst] at hm
      cases hm
    | false =>
    rw [hfirst] at hm
    obtain ⟨mode, hmode, hm⟩ := bind_eq_ok_iff.1 hm
    cases hsecond : isPointer second with
    | false =>
      rw [hsecond] at hm
      cases hm
    | true =>
    rw [hsecond] at hm
    rcases others with _ | ⟨other, others⟩
    · obtain rfl := pure_eq_ok_iff.1 hm
      exact ⟨some first, some second, rfl,
        (decide_eq_true (ne_absent_of_timestampMode hmode)).symm, rfl,
        fun x hx => by rwa [← Option.some.inj hx]⟩
    · cases hm

theorem exists_of_ofFront (hf : ofFront config front = .ok columns) :
    ∃ pid middle name, front.words = pid :: (middle ++ [name]) ∧ columns.IsMiddle middle := by
  unfold ofFront at hf
  split at hf
  · cases hf
  · cases hf
  next pid words hne hwords =>
  split at hf
  · cases hf
  split at hf
  · cases hf
  refine ⟨pid, words.dropLast, words.getLast hne, ?_, isMiddle_of_ofMiddle hf⟩
  rw [hwords, List.dropLast_append_getLast]

/-- The words before the parenthesis are the process, the columns and one more, and the call ends
behind its arguments. -/
theorem exists_words_of_ofCallLine (hc : ofCallLine config t = .ok columns) :
    ∃ pid middle name args r after, HasFront (pid :: (middle ++ [name])) (args ++ r) t ∧
      columns.IsMiddle middle ∧ '\n' ∉ args ∧ callEnd? r = some after := by
  obtain ⟨call, found, hcall, hfound, rfl⟩ := exists_of_ofCallLine hc
  obtain ⟨pid, middle, name, hwords, hmiddle⟩ := exists_of_ofFront hfound
  obtain ⟨r, ht, hparen, hargs, hr⟩ := exists_of_callStructure? hcall
  exact ⟨pid, middle, name, call.args, r, call.after, ⟨call.front, ht, hparen, hwords⟩, hmiddle,
    hargs, hr⟩

end Columns

/-- The columns that were detected are taken off, and the name is left. -/
theorem Heading.take_words {pid : Text} {middle : List Text}
    (ht : take columns t = .ok (some (h, body)))
    (hf : HasFront (pid :: (middle ++ [name])) rest t) (hmiddle : columns.IsMiddle middle) :
    middle = h.optionalTexts ∧ Decimal.isDigits pid ∧ Decimal.valueOf pid = h.pid.toNat ∧
      HasFront [name] rest body ∧
      ∃ front, IsSpacedOut (pid :: h.optionalTexts) front ∧ t = front ++ body := by
  obtain ⟨timestamp, pointer, rfl, htimestamp, hpointer, hisPointer⟩ := hmiddle
  obtain ⟨front, ⟨hpid, htime, hptr⟩, rfl, -⟩ := take_eq_ok_iff.1 ht
  simp only [List.append_assoc] at hf
  obtain ⟨hdigits, hvalue, hf₁, hfront₁⟩ := hpid.hasFront hf (by simp)
  obtain ⟨rfl, hf₂, hfront₂⟩ := htime.hasFront hf₁ htimestamp (by simp)
  obtain ⟨rfl, hf₃, hfront₃⟩ := hptr.hasFront hf₂ hpointer hisPointer (by simp)
  exact ⟨rfl, hdigits, hvalue, hf₃, _, hfront₁.append (hfront₂.append hfront₃), rfl⟩

/-! ## Forms behind detected columns -/

namespace CallForm

variable {args r after : Text} {form : CallForm}

/-- What ends a call for the search of its columns ends it for the reader of its form. -/
theorem exists_returned?_of_callEnd? (ht : Columns.callEnd? t = some after) :
    ∃ x, returned? t = some x := by
  obtain ⟨c, value, hv, hc, hline⟩ := Columns.exists_of_callEnd? ht
  generalize value ++ after = v at hv hline
  have hrest : '\n' ∉ v.dropWhile isReturnChar := fun hm =>
    hline ((List.dropWhile_suffix _).mem hm)
  unfold returned?
  rw [hv]
  refine ⟨((c :: v).takeWhile isReturnChar, (c :: v).dropWhile isReturnChar), ?_⟩
  show (if _ then _ else _) = _
  rw [List.takeWhile_cons_of_pos hc, List.dropWhile_cons_of_pos hc, if_neg]
  simpa [isLine] using hrest

/-- The mark of a resumed call is not the end of one. -/
theorem dropEquals?_resumed (hx : ∀ c ∈ x, isBlank c = false) (t : Text) :
    dropEquals? (')' :: (x ++ (" resumed>".toList ++ t))) = none := by
  rcases x with _ | ⟨c, x⟩
  · rfl
  · have hc : dropBlanks? (c :: (x ++ (" resumed>".toList ++ t))) = none := by
      unfold dropBlanks?
      exact if_neg (by simp [hx c List.mem_cons_self])
    show (dropBlanks? (c :: (x ++ (" resumed>".toList ++ t)))).bind _ = none
    rw [hc]
    rfl

/-- The end of a call stands behind the mark of a resumed one. -/
theorem suffix_of_dropEquals? {v w : Text} (hv : v <:+ x ++ (" resumed>".toList ++ t))
    (hx : ∀ c ∈ x, isBlank c = false) (hend : dropEquals? v = some w) : v <:+ t := by
  obtain ⟨g, g', -, -, rfl, -⟩ := dropEquals?_eq_some_iff.1 hend
  induction x with
  | nil => exact suffix_of_suffix_append hv (by decide)
  | cons c x ih =>
    rw [List.forall_mem_cons] at hx
    rcases List.suffix_cons_iff.1 hv with heq | hv
    · have hnone := dropEquals?_resumed hx.2 t
      obtain rfl : ')' = c := (List.cons.inj heq).1
      rw [heq] at hend
      cases hend.symm.trans hnone
    · exact ih hx.2 hv

/-- If the line of a resumed call shows one word before its first parenthesis, then the mark starts
with this word, and the parenthesis starts the name. -/
theorem exists_of_resumption?_of_hasFront (hresume : resumption? t = some (x, u))
    (hf : HasFront [word] rest t) :
    word = "<...".toList ∧ ∃ y, x = '(' :: y ∧ rest = y ++ (" resumed>".toList ++ u) := by
  obtain ⟨hne, hx, ht⟩ := exists_of_resumption? hresume
  obtain ⟨c, x, rfl⟩ := List.exists_cons_of_ne_nil hne
  have hplain : ∀ c ∈ "<... ".toList, (c == '(') = false := fun c hc => by
    rw [beq_eq_false_iff_ne]
    rintro rfl
    exact absurd hc (by decide)
  have hunblank : ∀ c ∈ "<...".toList, isBlank c = false := fun c hc => by
    have hall : "<...".toList.all (fun c => !isBlank c) := by decide
    simpa using List.all_eq_true.1 hall c hc
  obtain ⟨front, hcut, hwords⟩ := hf.exists_cutFirst?
  rw [ht, cutFirst?_append_left hplain] at hcut
  obtain ⟨⟨blanks, behind⟩, hbehind, heq⟩ := Option.map_eq_some_iff.1 hcut
  obtain ⟨rfl, rfl⟩ := Prod.mk.inj heq
  rw [show "<... ".toList ++ blanks = "<...".toList ++ ([' '] ++ blanks) from rfl,
    words_append (by decide) hunblank isBlankRun_blank] at hwords
  obtain ⟨rfl, hblanks⟩ := List.cons.inj hwords
  obtain ⟨d, hd, -, hbehind⟩ := eq_append_of_cutFirst? hbehind
  obtain rfl := beq_iff_eq.1 hd
  -- the name goes on where the mark stops, and does not start with a blank
  have hnil : blanks = [] := by
    rcases blanks with _ | ⟨d, blanks⟩
    · rfl
    · have hblank := isBlanks_of_words_eq_nil hblanks d List.mem_cons_self
      rw [← (List.cons.inj hbehind).1, hx c List.mem_cons_self] at hblank
      cases hblank
  rw [hnil] at hbehind
  obtain ⟨rfl, hrest⟩ := List.cons.inj hbehind
  exact ⟨rfl, x, rfl, hrest.symm⟩

/-- Such a resumed call ends where the search of its columns found the end of a call. -/
theorem exists_resumed? (hresume : resumption? t = some (x, u))
    (hf : HasFront [word] (args ++ r) t) (hargs : '\n' ∉ args)
    (hr : Columns.callEnd? r = some after) : ∃ form, resumed? t = some form := by
  obtain ⟨-, hx, -⟩ := exists_of_resumption? hresume
  obtain ⟨-, y, rfl, hrest⟩ := exists_of_resumption?_of_hasFront hresume hf
  rw [List.forall_mem_cons] at hx
  obtain ⟨c, value, hv, -⟩ := Columns.exists_of_callEnd? hr
  obtain ⟨w, rfl⟩ : r <:+ u :=
    suffix_of_dropEquals? (hrest ▸ List.suffix_append args r) hx.2 hv
  rw [← List.append_assoc, ← List.append_assoc, List.append_cancel_right_eq] at hrest
  have hw : '\n' ∉ w := fun hm => hargs (by rw [hrest]; exact List.mem_append_right _ hm)
  obtain ⟨z, hz⟩ := exists_returned?_of_callEnd? hr
  obtain ⟨cut, hcut⟩ := exists_latest?_append hw hz
  rw [resumed?_of_resumption? hresume, hcut]
  exact ⟨_, rfl⟩

theorem mark_suffix_of_unfinished? (hu : unfinished? t = some form) : unfinishedMark <:+ t := by
  obtain ⟨⟨n, v⟩, hcalled, hu⟩ := Option.bind_eq_some_iff.1 hu
  obtain ⟨⟨args, x⟩, hlatest, -⟩ := Option.bind_eq_some_iff.1 hu
  obtain ⟨w, rfl, hw, -⟩ := exists_of_latest? hlatest
  obtain ⟨-, -, rfl⟩ := called?_eq_some_iff.1 hcalled
  unfold interrupted? at hw
  split at hw
  · next hmark =>
    rw [← hmark]
    exact (List.suffix_append args w).trans
      ((List.suffix_cons '(' _).trans (List.suffix_append n _))
  · cases hw

theorem ofText?_of_noResumption (ht : resumption? t = none) :
    ofText? t = (unfinished? t).or (complete? t) := by
  have hcontinued : continued? t = none := by
    unfold continued?
    rw [ht]
    rfl
  have hresumed : resumed? t = none := by
    unfold resumed?
    rw [ht]
    rfl
  rw [ofText?_eq, hcontinued, hresumed, Option.none_or, Option.none_or]

end CallForm

namespace Call

variable {line : Text} {c : Call} {form : CallForm} {hasElapsed : Bool}

/-- A whole call behind the columns has the name that is left. -/
theorem kind_of_noResumption (hform : CallForm.ofText? body = some form)
    (hc : ofForm hasElapsed h form = .ok c) (hresume : CallForm.resumption? body = none)
    (hmark : ¬ CallForm.unfinishedMark <:+ body) (hf : HasFront [name] rest body) :
    c.kind = .complete ∧ c.name = name := by
  rw [CallForm.ofText?_of_noResumption hresume] at hform
  rcases Option.or_eq_some_iff.1 hform with hunfinished | ⟨-, hcomplete⟩
  · exact absurd (CallForm.mark_suffix_of_unfinished? hunfinished) hmark
  obtain ⟨⟨n, u⟩, hcalled, hcomplete⟩ := Option.bind_eq_some_iff.1 hcomplete
  obtain ⟨⟨args, ret, rest'⟩, -, hcomplete⟩ := Option.bind_eq_some_iff.1 hcomplete
  obtain rfl := Option.some.inj hcomplete
  obtain ⟨front, hcut, hwords⟩ := hf.exists_cutFirst?
  obtain ⟨hcut', -⟩ := Option.filter_eq_some_iff.1 hcalled
  obtain ⟨rfl, -⟩ := Prod.mk.inj (Option.some.inj (hcut.symm.trans hcut'))
  obtain ⟨outcome, -, hc⟩ := bind_eq_ok_iff.1 hc
  rw [← pure_eq_ok_iff.1 hc]
  exact ⟨rfl, trim_of_words_eq_singleton hwords⟩

/-- A resumed call is not read as a whole one. -/
theorem kind_ne_complete_of_resumed? {f : CallForm} (hform : CallForm.ofText? body = some form)
    (hc : ofForm hasElapsed h form = .ok c) (hresumed : CallForm.resumed? body = some f)
    (hmark : ¬ CallForm.unfinishedMark <:+ body) : c.kind ≠ .complete := by
  rw [CallForm.ofText?_eq, hresumed] at hform
  rcases Option.or_eq_some_iff.1 hform with hcontinued | ⟨-, hform⟩
  · obtain ⟨x, -, hcontinued⟩ := Option.bind_eq_some_iff.1 hcontinued
    obtain ⟨y, -, hcontinued⟩ := Option.bind_eq_some_iff.1 hcontinued
    obtain rfl := Option.some.inj hcontinued
    rw [← Except.ok.inj hc]
    intro hkind
    cases hkind
  rcases Option.or_eq_some_iff.1 hform with hunfinished | ⟨-, hform⟩
  · exact absurd (CallForm.mark_suffix_of_unfinished? hunfinished) hmark
  obtain rfl := Option.some.inj hform
  obtain ⟨x, -, hresumed⟩ := Option.bind_eq_some_iff.1 hresumed
  obtain ⟨y, -, hresumed⟩ := Option.bind_eq_some_iff.1 hresumed
  obtain rfl := Option.some.inj hresumed
  obtain ⟨outcome, -, hc⟩ := bind_eq_ok_iff.1 hc
  rw [← pure_eq_ok_iff.1 hc]
  intro hkind
  cases hkind

/-- A line that is looked at does not end in the mark of an unfinished call, and shows no mark of a
resumed one behind what may be its columns. -/
theorem noMark_of_isCallLine (hline : isCallLine line) :
    ¬ CallForm.unfinishedMark <:+ line.trim ∧
      ¬ "<... ".toList <+: dropLeadingColumns 3 line.trim := by
  unfold isCallLine startsWith endsWith at hline
  simp only [Bool.and_eq_true, Bool.not_eq_true', ← Bool.not_eq_true,
    List.isPrefixOf_iff_prefix, List.isSuffixOf_iff_suffix] at hline
  refine ⟨?_, hline.1.2⟩
  rintro ⟨s, hs⟩
  have hmark := mark_suffix_dropLeadingColumns 3 s
  rw [hs] at hmark
  exact hline.2 hmark

/-- The columns are passed over in the search if each of them can stand in front of a call. -/
theorem exists_not_isLeadingColumn {pid : Text} (hline : isCallLine line)
    (hfront : IsSpacedOut (pid :: h.optionalTexts) front) (htext : line.trim = front ++ body)
    (hwords : ∀ word ∈ pid :: h.optionalTexts,
      word ≠ [] ∧ (∀ c ∈ word, isBlank c = false) ∧ '(' ∉ word)
    (hpid : Decimal.isDigits pid) (hbody : "<... ".toList <+: body) :
    ∃ t ∈ h.timestamp, isLeadingColumn t = false := by
  by_contra hnot
  have hleading : ∀ word ∈ pid :: h.optionalTexts, isLeadingColumn word := by
    intro word hword
    rcases List.mem_cons.1 hword with rfl | hword
    · unfold isLeadingColumn
      rw [Bool.or_eq_true, List.all_eq_true]
      refine .inl fun c hc => ?_
      rw [Decimal.isDigit_of_isDigits hpid hc, Bool.true_or, Bool.true_or]
    · rcases List.mem_append.1 hword with hword | hword
      · rw [← Bool.not_eq_false]
        exact fun hfalse => hnot ⟨word, Option.mem_toList.1 hword, hfalse⟩
      · obtain ⟨p, -, rfl⟩ := Option.map_eq_some_iff.1 (Option.mem_toList.1 hword)
        unfold isLeadingColumn
        rw [Heading.isPointer_brackets, Bool.or_true]
  have hcolumns : ∀ word ∈ pid :: h.optionalTexts, IsColumn word := fun word hword =>
    ⟨(hwords word hword).1, (hwords word hword).2.1, (hwords word hword).2.2, hleading word hword⟩
  obtain ⟨u, rfl⟩ := hbody
  refine (noMark_of_isCallLine hline).2 ?_
  rw [htext, hfront.dropLeadingColumns_append hcolumns (fun c hc => ?_) h.length_columnTexts]
  · rw [show "<... ".toList ++ u = '<' :: ("... ".toList ++ u) from rfl,
      dropLeadingColumns_cons (by decide)]
    exact List.prefix_append "<... ".toList u
  · rw [← Option.some.inj hc]
    rfl

/-- On the line that the columns of a trace are read off, the words before the parenthesis are the
process, the columns that the call on it has, and one more. The call is whole and has this last word
for its name, unless the text behind the columns resumes a call; then the timestamp is none that the
search for a whole call knows, and the last word is the start of the mark. -/
theorem ofLine_detected (hline : isCallLine line)
    (hdetect : Columns.detect config line = .ok columns)
    (hcall : ofLine columns line = .ok (some c)) :
    ∃ pid name rest body,
      HasFront (pid :: (c.heading.optionalTexts ++ [name])) rest line ∧
      Decimal.isDigits pid ∧ Decimal.valueOf pid = c.pid.toNat ∧ c.heading.HasColumns columns ∧
      Heading.take columns line.trim = .ok (some (c.heading, body)) ∧
      (c.kind = .complete ↔ CallForm.resumption? body = none) ∧
      (c.kind = .complete → c.name = name) ∧
      (c.kind ≠ .complete →
        name = "<...".toList ∧ ∃ t ∈ c.heading.timestamp, isLeadingColumn t = false) := by
  obtain ⟨pid, middle, name, args, r, after, hf, hmiddle, hargs, hr⟩ :=
    Columns.exists_words_of_ofCallLine (mapError_eq_ok_iff.1 hdetect)
  obtain ⟨-, h, body, form, htake, hform, hc⟩ := ofLine_eq_ok_some_iff.1 hcall
  obtain rfl := heading_of_ofForm hc
  obtain ⟨rfl, hdigits, hvalue, hbody, front, hfront, htext⟩ :=
    Heading.take_words htake hf hmiddle
  have hmark : ¬ CallForm.unfinishedMark <:+ body := fun hsuffix =>
    (noMark_of_isCallLine hline).1 (hsuffix.trans (htext ▸ List.suffix_append front body))
  obtain ⟨rest', hf'⟩ := hf.of_trim
  refine ⟨pid, name, _, body, hf', hdigits, hvalue, hasColumns_of_ofLine hcall, htake, ?_⟩
  cases hresume : CallForm.resumption? body with
  | none =>
    obtain ⟨hkind, hname⟩ := kind_of_noResumption hform hc hresume hmark hbody
    exact ⟨⟨fun _ => rfl, fun _ => hkind⟩, fun _ => hname, fun hnot => absurd hkind hnot⟩
  | some x =>
    obtain ⟨hname, -⟩ := CallForm.exists_of_resumption?_of_hasFront hresume hbody
    obtain ⟨f, hresumed⟩ := CallForm.exists_resumed? hresume hbody hargs hr
    have hkind : c.kind ≠ .complete := kind_ne_complete_of_resumed? hform hc hresumed hmark
    have hstart : "<... ".toList <+: body := by
      rw [(CallForm.exists_of_resumption? hresume).2.2]
      exact List.prefix_append _ _
    refine ⟨⟨fun heq => absurd heq hkind, fun hnone => by cases hnone⟩,
      fun heq => absurd heq hkind, fun _ => ⟨hname, ?_⟩⟩
    refine exists_not_isLeadingColumn hline hfront htext (fun word hword => hf.mem ?_) hdigits
      hstart
    rw [← List.cons_append]
    exact List.mem_append_left _ hword

/-- A call behind all three columns. -/
def columnsLine : Text :=
  "8106 15:31:56.123456 [00007f2b] open(\"log\", O_RDONLY) = 3 <0.000040>".toList

theorem ofLine_detected_open :
    ∃ pid name rest,
      HasFront [pid, "15:31:56.123456".toList, "[00007f2b]".toList, name] rest columnsLine ∧
      Decimal.valueOf pid = 8106 ∧ name = "open".toList := by
  have hdetect : Columns.detect {} columnsLine = .ok ⟨true, .timeOfDayMicros, true⟩ := by
    decide +kernel
  have hcall : ofLine ⟨true, .timeOfDayMicros, true⟩ columnsLine =
      .ok (some ⟨⟨8106, some "15:31:56.123456".toList, some "00007f2b".toList⟩, "open".toList,
        ["\"log\"".toList, "O_RDONLY".toList],
        .complete ⟨⟨.int 3, none⟩, some ⟨0, 40000⟩, none⟩⟩) := by
    decide +kernel
  obtain ⟨pid, name, rest, body, hfront, -, hvalue, -, -, -, hname, -⟩ :=
    ofLine_detected (by decide +kernel) hdetect hcall
  exact ⟨pid, name, rest, hfront, hvalue, (hname rfl).symm⟩

/-- A resumed call whose name starts with a parenthesis, behind a time of day with its zone. -/
def resumedColumnsLine : Text := "8094 15:31:56Z <... (read resumed>) = 0".toList

/-- The zone keeps the line from being passed over, and it is not read as a whole call. -/
theorem ofLine_detected_resumed :
    isCallLine resumedColumnsLine ∧
      Columns.detect {} resumedColumnsLine = .ok { timestamp := .timeOfDay } ∧
      HasFront ["8094".toList, "15:31:56Z".toList, "<...".toList] "read resumed>) = 0".toList
        resumedColumnsLine ∧
      ∃ c, ofLine { timestamp := .timeOfDay } resumedColumnsLine = .ok (some c) ∧
        c.kind = .resumed ∧ c.name = "(read".toList := by
  have hcall : ofLine { timestamp := .timeOfDay } resumedColumnsLine =
      .ok (some ⟨⟨8094, some "15:31:56Z".toList, none⟩, "(read".toList, [],
        .resumed ⟨⟨.int 0, none⟩, none, none⟩⟩) := by
    decide +kernel
  have hwords : words "8094 15:31:56Z <... ".toList =
      ["8094".toList, "15:31:56Z".toList, "<...".toList] := by
    decide +kernel
  exact ⟨by decide +kernel, by decide +kernel, ⟨"8094 15:31:56Z <... ".toList, rfl, by decide,
    hwords⟩, _, hcall, rfl, rfl⟩

end Call

end SyscallTrace
