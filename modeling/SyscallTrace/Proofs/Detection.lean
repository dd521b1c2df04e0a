import SyscallTrace.Proofs.Line.CallLine
import SyscallTrace.Trace

/-!
# Detected columns

The columns of a trace are read off its first whole call, by other rules than those that its lines
are read by. They are the columns that the lines were printed with
(`Trace.detectColumns_of_showsCall`), whatever the arguments of the call look like and whichever
lines come before it.
-/

namespace SyscallTrace

open Text

/-! ## Timestamps -/

/-- What the timestamps of each kind look like. A time since the epoch and one since the previous
call are told apart by the number of seconds. -/
inductive IsTimestampOf (config : Config) : TimestampMode → Text → Prop where
  | timeOfDay {t : Text} (hcolon : ':' ∈ t) (hpoint : '.' ∉ t) : IsTimestampOf config .timeOfDay t
  | timeOfDayMicros {t : Text} (hcolon : ':' ∈ t) (hpoint : '.' ∈ t) :
      IsTimestampOf config .timeOfDayMicros t
  | relative {seconds places : Text} {s : Int64} (hseconds : Decimal.int64? seconds = some s)
      (hdigits : ∀ c ∈ seconds ++ places, c.isDigit) (hs : s.toInt ≤ config.epochThreshold) :
      IsTimestampOf config .relative (seconds ++ '.' :: places)
  | epoch {seconds places : Text} {s : Int64} (hseconds : Decimal.int64? seconds = some s)
      (hdigits : ∀ c ∈ seconds ++ places, c.isDigit) (hs : config.epochThreshold < s.toInt) :
      IsTimestampOf config .epoch (seconds ++ '.' :: places)

/-- The arguments do not show that structures were abbreviated. -/
structure IsUnabbreviated (args : Text) : Prop where
  noRemark : ¬ "[/*".toList <:+: args ∨ ¬ "*/]".toList <:+: args
  noEllipsis : ¬ ", ...\x7d".toList <:+: args

/-- The line shows a whole call behind columns of the trace, and tells which they are. -/
inductive ShowsCall (config : Config) (columns : Columns) : Text → Prop where
  | mk {h : Heading} {front name args gap gap' : Text} (hh : h.IsPrinted columns)
      (htime : ∀ t ∈ h.timestamp, IsTimestampOf config columns.timestamp t)
      (hfront : IsSpacedOut h.columnTexts front) (hname : IsCallName name)
      (hverbose : config.requireVerbose → IsUnabbreviated args) (hgap : IsBlankRun gap)
      (hgap' : IsBlankRun gap') (o : PrintedOutcome columns.elapsed)
      (hreturn : o.ret ≠ ⟨.noReturn, none⟩) (hremark : ∀ t ∈ o.remark, '<' ∉ t ∧ '>' ∉ t) :
      ShowsCall config columns (front ++ CallForm.completeText name args gap gap' o.text)

variable {config : Config} {columns : Columns} {mode : TimestampMode} {h : Heading}
  {t front name args gap gap' : Text} {hasElapsed : Bool}

namespace Columns

theorem timestampMode_point {seconds places : Text} {s : Int64}
    (hseconds : Decimal.int64? seconds = some s) (hdigits : ∀ c ∈ seconds ++ places, c.isDigit) :
    timestampMode config (seconds ++ '.' :: places) =
      .ok (if config.epochThreshold < s.toInt then .epoch else .relative) := by
  have hnot : ∀ c, c.isDigit = false → c ∉ seconds ++ places := fun c hc hm => by
    rw [hdigits c hm] at hc
    cases hc
  have hcolon : ':' ∉ seconds ++ '.' :: places := by
    have hcolon := hnot ':' rfl
    rw [List.mem_append] at hcolon ⊢
    rw [List.mem_cons]
    tauto
  have hcut : (seconds ++ '.' :: places).cutFirst? (· == '.') = some (seconds, places) := by
    refine cutFirst?_append (fun c hc => beq_eq_false_iff_ne.2 ?_) (by decide)
    rintro rfl
    exact hnot '.' rfl (List.mem_append_left _ hc)
  unfold timestampMode
  rw [if_neg (by simpa using hcolon), hcut, Option.bind_some, hseconds]

theorem timestampMode_of_isTimestampOf (h : IsTimestampOf config mode t) :
    timestampMode config t = .ok mode := by
  cases h with
  | timeOfDay hcolon hpoint =>
    unfold timestampMode
    rw [if_pos (by simpa using hcolon), if_neg (by simpa using hpoint)]
  | timeOfDayMicros hcolon hpoint =>
    unfold timestampMode
    rw [if_pos (by simpa using hcolon), if_pos (by simpa using hpoint)]
  | relative hseconds hdigits hs =>
    rw [timestampMode_point hseconds hdigits, if_neg (Int.not_lt.2 hs)]
  | epoch hseconds hdigits hs => rw [timestampMode_point hseconds hdigits, if_pos hs]

theorem isAbbreviated_eq_false (h : IsUnabbreviated args) : isAbbreviated args = false := by
  unfold isAbbreviated
  rw [Bool.or_eq_false_iff, Bool.and_eq_false_iff, ← Bool.not_eq_true, ← Bool.not_eq_true,
    ← Bool.not_eq_true, includes_iff, includes_iff, includes_iff]
  exact ⟨h.noRemark, h.noEllipsis⟩

/-! ## The columns in front of the call -/

theorem isPointer_eq_false (h : Heading.IsTimestamp t) : isPointer t = false := by
  obtain ⟨c, t, rfl⟩ := List.exists_cons_of_ne_nil h.ne_nil
  have hc : '[' ≠ c := by
    rintro rfl
    exact absurd (h.chars '[' List.mem_cons_self) (by decide)
  simp [isPointer, startsWith, hc]

/-- The columns between the process and the name are those of the trace. -/
theorem ofMiddle_printed (hh : h.IsPrinted columns)
    (htime : ∀ t ∈ h.timestamp, IsTimestampOf config columns.timestamp t) :
    ofMiddle config h.optionalTexts = .ok { columns with elapsed := false } := by
  obtain ⟨⟨htimestamp, hpointer⟩, hisTimestamp, -⟩ := hh
  obtain ⟨instPointer, mode, elapsed⟩ := columns
  dsimp only at htimestamp hpointer htime ⊢
  obtain ⟨pid, timestamp, pointer⟩ := h
  dsimp only at htimestamp hpointer htime hisTimestamp ⊢
  cases timestamp with
  | none =>
    obtain rfl : mode = .absent := by simpa using htimestamp.symm
    cases pointer with
    | none =>
      obtain rfl : false = instPointer := hpointer
      rfl
    | some p =>
      obtain rfl : true = instPointer := hpointer
      unfold ofMiddle
      exact if_pos (Heading.isPointer_brackets p)
  | some t =>
    have hnot := isPointer_eq_false (hisTimestamp t rfl)
    have hmode := timestampMode_of_isTimestampOf (htime t rfl)
    cases pointer with
    | none =>
      obtain rfl : false = instPointer := hpointer
      show (if isPointer t then _ else _) = _
      rw [hnot, hmode]
      rfl
    | some p =>
      obtain rfl : true = instPointer := hpointer
      have hbrackets : isPointer ('[' :: p ++ [']']) = true := Heading.isPointer_brackets p
      show ofMiddle config [t, '[' :: p ++ [']']] = _
      simp only [ofMiddle, hnot, hmode, hbrackets]
      rfl

theorem ofFront_printed (hh : h.IsPrinted columns) (hfront : IsSpacedOut h.columnTexts front)
    (htime : ∀ t ∈ h.timestamp, IsTimestampOf config columns.timestamp t) (hname : IsName name) :
    ofFront config (front ++ name) = .ok { columns with elapsed := false } := by
  have hwords : words (front ++ name) = h.columnTexts ++ [name] := by
    rw [hfront.words_append hh.isColumn,
      words_eq_singleton hname.ne_nil fun c hc => hname.unblank hc]
  have hpid : (Decimal.ofNat h.pid.toNat).all Char.isDigit :=
    List.all_eq_true.2 fun c hc => Decimal.isDigit_of_mem_ofNat hc
  have hlength := h.length_columnTexts
  unfold Heading.columnTexts at hwords hlength
  have hrest : h.optionalTexts ++ [name] ≠ [] := by simp
  have hlast : (h.optionalTexts ++ [name]).dropLast = h.optionalTexts := List.dropLast_concat
  have hlong : ¬ 3 < (h.optionalTexts ++ [name]).length := by
    rw [List.length_append, List.length_singleton]
    rw [List.length_cons] at hlength
    omega
  rw [← ofMiddle_printed hh htime]
  unfold ofFront
  rw [hwords, List.cons_append]
  generalize h.optionalTexts ++ [name] = rest at hrest hlast hlong
  obtain ⟨word, rest, rfl⟩ := List.exists_cons_of_ne_nil hrest
  dsimp only
  rw [if_neg hlong, hpid, if_neg (by simp), hlast]

/-! ## The end of the call -/

theorem callEnd?_question {rest : Text} (hgap : IsBlankRun gap) (hgap' : IsBlankRun gap')
    (hline : '\n' ∉ rest) :
    callEnd? (CallForm.equals gap gap' ++ '?' :: rest) = some rest := by
  have hdrop : CallForm.dropEquals? (CallForm.equals gap gap' ++ '?' :: rest) =
      some ('?' :: rest) := by
    refine CallForm.dropEquals?_equals hgap hgap' fun c hc => ?_
    rw [← Option.some.inj hc]
    rfl
  unfold callEnd?
  rw [hdrop]
  show (if CallForm.isLine rest then some rest else none) = some rest
  exact if_pos (by simpa [CallForm.isLine] using hline)

/-- The characters after the first digit of a return value. -/
def isValueChar (c : Char) : Bool :=
  c.isDigit || ('a' ≤ c && c ≤ 'f') || c == 'x'

/-- A return value with a digit goes on to the last character that belongs to it. -/
theorem callEnd?_of_digit {text u : Text} {d : Char} (ht : CallForm.dropEquals? t = some text)
    (hquestion : ∀ r, text ≠ '?' :: r) (hvalue : (text.dropPrefix? ['-']).getD text = d :: u)
    (hd : d.isDigit) (hline : '\n' ∉ u.dropWhile isValueChar) :
    callEnd? t = some (u.dropWhile isValueChar) := by
  unfold callEnd?
  rw [ht, Option.bind_eq_bind, Option.bind_some, hvalue]
  split
  · next r => exact absurd rfl (hquestion r)
  · dsimp only
    rw [if_pos hd]
    show ((some (u.dropWhile isValueChar)).bind fun after =>
      if CallForm.isLine after then some after else none) = _
    rw [Option.bind_some, if_pos]
    simpa [CallForm.isLine] using hline

theorem callEnd?_digits {digits rest : Text} {d : Char} (hgap : IsBlankRun gap)
    (hgap' : IsBlankRun gap') (hd : d.isDigit) (hdigits : ∀ c ∈ digits, isValueChar c)
    (hend : ∀ c ∈ rest.head?, c = ' ') (hline : '\n' ∉ rest) :
    callEnd? (CallForm.equals gap gap' ++ d :: (digits ++ rest)) = some rest ∧
      callEnd? (CallForm.equals gap gap' ++ '-' :: d :: (digits ++ rest)) = some rest := by
  have hstop : (digits ++ rest).dropWhile isValueChar = rest := by
    refine dropWhile_append hdigits fun c hc => ?_
    rw [hend c hc]
    rfl
  have hne : ∀ c, c.isDigit = false → d ≠ c := by
    rintro c hc rfl
    rw [hd] at hc
    cases hc
  rw [← hstop] at hline
  constructor
  · have hdrop := CallForm.dropEquals?_equals (u := d :: (digits ++ rest)) hgap hgap' fun c hc => by
      rw [← Option.some.inj hc]
      exact isBlank_eq_false_of_isAlphanum (Bool.or_eq_true _ _ ▸ Or.inr hd)
    rw [callEnd?_of_digit hdrop (fun r heq => hne '?' rfl (List.cons.inj heq).1) ?_ hd hline, hstop]
    simp [dropPrefix?, hne '-' rfl]
  · have hdrop := CallForm.dropEquals?_equals (u := '-' :: d :: (digits ++ rest)) hgap hgap'
      fun c hc => by
        rw [← Option.some.inj hc]
        rfl
    have hquestion : ∀ r, '-' :: d :: (digits ++ rest) ≠ '?' :: r := fun r heq =>
      absurd (List.cons.inj heq).1 (by decide)
    rw [callEnd?_of_digit hdrop hquestion rfl hd hline, hstop]

/-- The call ends behind its return value, whichever that is. -/
theorem callEnd?_printed {ret : Return} (hret : ret.IsPrinted) {rest : Text} (hgap : IsBlankRun gap)
    (hgap' : IsBlankRun gap') (hend : ∀ c ∈ rest.head?, c = ' ') (hline : '\n' ∉ rest) :
    callEnd? (CallForm.equals gap gap' ++ (ret.value.text ++ rest)) = some rest := by
  cases hret with
  | @number v hv =>
    rw [Int64.le_iff_toInt_le] at hv
    obtain ⟨n, hn⟩ := Int.eq_ofNat_of_zero_le hv
    have hdigits : ∀ c ∈ Decimal.ofNat n, c.isDigit := fun c hc => Decimal.isDigit_of_mem_ofNat hc
    have hne : Decimal.ofNat n ≠ [] := Nat.toDigits_ne_nil
    rw [show ReturnValue.text (.int v) = Decimal.ofNat n by rw [ReturnValue.text, hn]; rfl]
    obtain ⟨d, digits, heq⟩ := List.exists_cons_of_ne_nil hne
    rw [heq] at hdigits ⊢
    have hvalue : ∀ c ∈ digits, isValueChar c := by
      intro c hc
      unfold isValueChar
      rw [hdigits c (List.mem_cons_of_mem _ hc), Bool.true_or, Bool.true_or]
    exact (callEnd?_digits hgap hgap' (hdigits d List.mem_cons_self) hvalue hend hline).1
  | @address digits hne hdigits =>
    have hvalue : ∀ c ∈ 'x' :: digits, isValueChar c := by
      refine List.forall_mem_cons.2 ⟨by decide, fun c hc => ?_⟩
      unfold isValueChar
      rw [hdigits c hc, Bool.true_or]
    exact (callEnd?_digits hgap hgap' (d := '0') rfl hvalue hend hline).1
  | failed =>
    have hvalue : ∀ c ∈ ([] : Text), isValueChar c := fun c hc => absurd hc List.not_mem_nil
    exact (callEnd?_digits hgap hgap' (d := '1') rfl hvalue hend hline).2
  | noReturn | interrupted => exact callEnd?_question hgap hgap' hline

/-- No text behind the return value is the end of a call. -/
theorem callEnd?_eq_none_of_suffix (hgap : IsBlankRun gap) (hgap' : IsBlankRun gap')
    (o : PrintedOutcome hasElapsed) {v : Text} (hv : v <:+ CallForm.equals gap gap' ++ o.text)
    (hne : v ≠ CallForm.equals gap gap' ++ o.text) : callEnd? v = none := by
  unfold callEnd?
  rw [Option.bind_eq_bind, Option.bind_eq_none_iff]
  intro u hu
  obtain ⟨g, g', hg, -, rfl, -⟩ := CallForm.dropEquals?_eq_some_iff.1 hu
  have hsuffix := (List.suffix_cons_iff.1 hv).resolve_left hne
  rw [o.text_eq, show CallForm.equals g g' ++ u = ')' :: (g ++ '=' :: (g' ++ u)) by
    simp [CallForm.equals]] at hsuffix
  refine absurd ?_ (o.notEquals (v := g' ++ u) hg)
  exact CallForm.suffix_of_suffix_equals o.isTail hgap hgap' hsuffix (by decide) (by decide)
    (by decide)

theorem callStructure?_printed (hfront : '(' ∉ front) (hname : IsName name) (hargs : '\n' ∉ args)
    (hgap : IsBlankRun gap) (hgap' : IsBlankRun gap') (o : PrintedOutcome hasElapsed) :
    callStructure? (front ++ CallForm.completeText name args gap gap' o.text) =
      some ⟨front ++ name, args, o.rest⟩ := by
  have hcalled : CallForm.called? (front ++ CallForm.completeText name args gap gap' o.text) =
      some (front ++ name, args ++ (CallForm.equals gap gap' ++ o.text)) := by
    refine CallForm.called?_eq_some_iff.2 ⟨by simp [hname.ne_nil], ?_, ?_⟩
    · rw [List.mem_append, not_or]
      exact ⟨hfront, hname.not_mem (by decide)⟩
    · rw [CallForm.completeText, List.append_assoc]
  have hend : callEnd? (CallForm.equals gap gap' ++ o.text) = some o.rest := by
    rw [o.text_eq]
    exact callEnd?_printed o.isReturn hgap hgap' (fun c hc => o.isSpaced_rest.eq_of_mem_head? hc)
      o.isTail.isLine
  have hlatest : (args ++ (CallForm.equals gap gap' ++ o.text)).latest? callEnd? =
      some (args, o.rest) :=
    latest?_append hargs hend fun v hv hne => callEnd?_eq_none_of_suffix hgap hgap' o hv hne
  unfold callStructure?
  rw [hcalled]
  show ((args ++ (CallForm.equals gap gap' ++ o.text)).latest? callEnd?).bind _ = _
  rw [hlatest]
  rfl

/-- Angle brackets stand behind the return value exactly if the elapsed time does. -/
theorem contains_rest (o : PrintedOutcome hasElapsed)
    (hremark : ∀ t ∈ o.remark, '<' ∉ t ∧ '>' ∉ t) :
    (o.rest.contains '<' && o.rest.contains '>') = o.elapsed.isSome := by
  unfold PrintedOutcome.rest PrintedOutcome.ending
  cases he : o.elapsed with
  | none =>
    have hlabel := o.not_mem_label (c := '<') (by decide) rfl
    have hremark := not_mem_spaced (c := '<') (by decide) fun t ht => (hremark t ht).1
    have hopen : (spaced o.ret.label ++ spaced o.remark).contains '<' = false := by
      simp [hlabel, hremark]
    rw [Option.map_none, show spaced none = [] from rfl, List.append_nil, hopen]
    rfl
  | some e => simp [spaced, Elapsed.text]

/-! ## The whole line -/

variable {line : Text}

theorem ofCallLine_of_showsCall (hline : '\n' ∉ line) (h : ShowsCall config columns line) :
    ofCallLine config line = .ok columns := by
  obtain ⟨hh, htime, hfront, hname, hverbose, hgap, hgap', o, hreturn, hremark⟩ := h
  next h front name args gap gap' =>
  have hargs : '\n' ∉ args := fun hm => hline (by simp [CallForm.completeText, hm])
  have hstructure := callStructure?_printed (hfront.noParen hh.isColumn)
    hname.toIsName hargs hgap hgap' o
  have hcolumns := ofFront_printed hh hfront htime hname.toIsName
  have habbreviated : (config.requireVerbose && isAbbreviated args) = false := by
    cases hv : config.requireVerbose with
    | false => rfl
    | true => rw [isAbbreviated_eq_false (hverbose hv), Bool.and_false]
  have helapsed : (o.rest.contains '<' && o.rest.contains '>') = columns.elapsed := by
    rw [contains_rest o hremark, o.isSome_elapsed, decide_eq_true hreturn, Bool.and_true]
  have hshape : ∀ c ∈ "()=".toList,
      (front ++ CallForm.completeText name args gap gap' o.text).contains c := by
    simp [CallForm.completeText, CallForm.equals]
  unfold ofCallLine
  rw [hshape '(' (by decide), hshape ')' (by decide), hshape '=' (by decide), if_neg (by decide)]
  refine bind_eq_ok_iff.2 ⟨_, by rw [hstructure]; rfl, ?_⟩
  refine bind_eq_ok_iff.2 ⟨_, hcolumns, ?_⟩
  dsimp only
  rw [habbreviated, if_neg (by decide), helapsed]
  rfl

theorem isCallLine_of_showsCall (htrim : line.trim = line) (h : ShowsCall config columns line) :
    isCallLine line := by
  obtain ⟨hh, htime, hfront, hname, hverbose, hgap, hgap', o, hreturn, hremark⟩ := h
  exact isCallLine_call hh.isColumn (Heading.length_columnTexts _) hfront hname hgap hgap' o htrim

end Columns

/-- The search for a whole call stops at the first one, and tells the columns of the trace. -/
theorem Trace.detectColumns_of_showsCall {contents line : Text} {skipped rest : List Text}
    (hlines : contents.lines = skipped ++ line :: rest)
    (hskipped : ∀ l ∈ skipped, IsPassedOver columns l) (hline : ShowsCall config columns line) :
    contents.lines.find? isCallLine = some line ∧ detectColumns config contents = .ok columns := by
  have hmem : ∀ l ∈ skipped ++ line :: rest, l.trim = l ∧ '\n' ∉ l := by
    rw [← hlines]
    exact fun l hl => ⟨trim_of_mem_lines hl, not_mem_of_mem_lines hl⟩
  obtain ⟨htrim, hfeed⟩ := hmem line (by simp)
  have hfind : contents.lines.find? isCallLine = some line := by
    have hnone : skipped.find? isCallLine = none := by
      rw [List.find?_eq_none]
      intro l hl
      rw [isCallLine_of_isPassedOver (hmem l (List.mem_append_left _ hl)).1 (hskipped l hl)]
      decide
    rw [hlines, List.find?_append, hnone, Option.none_or,
      List.find?_cons_of_pos (Columns.isCallLine_of_showsCall htrim hline)]
  refine ⟨hfind, ?_⟩
  unfold detectColumns
  rw [hfind]
  show Columns.detect config line = .ok columns
  unfold Columns.detect
  rw [htrim, Columns.ofCallLine_of_showsCall hfeed hline]
  rfl

/-! ### A trace that starts with parts of calls -/

/-- A blank line, a signal, the end of a process, and a call in three parts. -/
def partLines : List Text :=
  [[], Call.writeHeading.text ++ ("---".toList ++ " SIGCHLD \x7bsi_signo=SIGCHLD\x7d ---".toList),
    Call.writeHeading.text ++ ("+++".toList ++ " exited with 0 +++".toList),
    Call.writeHeading.text ++ ("read(3, ".toList ++ CallForm.unfinishedMark),
    Call.writeHeading.text ++ ("<... read resumed>\"a\", ".toList ++ CallForm.unfinishedMark),
    Call.writeHeading.text ++ ("<... ".toList ++ "read resumed>1) = 1".toList)]

def writeLine : Text :=
  Call.completeLine Call.writeHeading "write".toList Call.writeArgs Call.writeFailed

/-- The whole call after the parts is followed by a line that cannot be read. -/
def partsFirst : Text :=
  ['\n'].intercalate (partLines ++ [writeLine, "garbage".toList])

theorem isPrinted_writeHeading : Call.writeHeading.IsPrinted ⟨true, .epoch, true⟩ := by
  refine ⟨⟨rfl, rfl⟩, fun t ht => ?_, fun t ht => ?_⟩
  · rw [← Option.some.inj ht]
    exact ⟨by decide, List.all_eq_true.1 (by decide)⟩
  · rw [← Option.some.inj ht]
    exact ⟨by decide, List.all_eq_true.1 (by decide)⟩

theorem isPassedOver_partLines : ∀ l ∈ partLines, IsPassedOver ⟨true, .epoch, true⟩ l := by
  have hpart : ∀ body, IsPart body →
      IsPassedOver ⟨true, .epoch, true⟩ (Call.writeHeading.text ++ body) :=
    fun body hbody => .part isPrinted_writeHeading Call.writeHeading.isSpacedOut_text hbody
  unfold partLines
  rw [List.forall_mem_cons, List.forall_mem_cons, List.forall_mem_cons, List.forall_mem_cons,
    List.forall_mem_cons, List.forall_mem_singleton]
  exact ⟨.blank, hpart _ (.signal _), hpart _ (.exit _), hpart _ (.unfinished _),
    hpart _ (.unfinished _), hpart _ (.resumed _)⟩

theorem showsCall_writeLine : ShowsCall {} ⟨true, .epoch, true⟩ writeLine := by
  have htime : ∀ t ∈ Call.writeHeading.timestamp, IsTimestampOf {} .epoch t := by
    intro t ht
    obtain rfl := Option.some.inj ht
    have hseconds : Decimal.int64? "1716214232".toList = some 1716214232 := by decide +kernel
    have hdigits : ∀ c ∈ "1716214232".toList ++ "416217".toList, c.isDigit :=
      List.all_eq_true.1 (by decide)
    exact .epoch hseconds hdigits (by decide +kernel)
  have hname : IsCallName "write".toList := by
    have hword : "write".toList.all fun c => c.isAlphanum || c == '_' := by decide
    exact isCallName_of_isAlphanum (by decide) (List.all_eq_true.1 hword)
  have hargs : IsUnabbreviated Call.writeArgs := by
    constructor
    · rw [← includes_iff, ← includes_iff]
      decide
    · rw [← includes_iff]
      decide
  have hremark : ∀ t ∈ Call.writeFailed.remark, '<' ∉ t ∧ '>' ∉ t := by
    intro t ht
    obtain rfl := Option.some.inj ht
    exact ⟨by decide, by decide⟩
  have hreturn : Call.writeFailed.ret ≠ ⟨.noReturn, none⟩ := by
    intro h
    cases h
  exact .mk isPrinted_writeHeading htime Call.writeHeading.isSpacedOut_text hname (fun _ => hargs)
    isBlankRun_blank isBlankRun_blank Call.writeFailed hreturn hremark

theorem Trace.detectColumns_of_showsCall_partsFirst :
    partsFirst.lines = partLines ++ writeLine :: ["garbage".toList] ∧
      partsFirst.lines.find? isCallLine = some writeLine ∧
      detectColumns {} partsFirst = .ok ⟨true, .epoch, true⟩ := by
  have hlines : partsFirst.lines = partLines ++ writeLine :: ["garbage".toList] := by
    decide +kernel
  exact ⟨hlines, detectColumns_of_showsCall hlines isPassedOver_partLines showsCall_writeLine⟩

end SyscallTrace
