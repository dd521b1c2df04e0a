import SyscallTrace.Line.Detection
import SyscallTrace.Proofs.Line.Interruption
import SyscallTrace.Proofs.Line.ReadOutcome

/-!
# Detected elapsed times

Elapsed times are detected by a pair of angle brackets behind the return value of the first call.
An elapsed time at the end of the line is never missed, but other brackets are taken for one, and
then the line that was looked at can itself be refused for its elapsed time.

* `Call.not_endsInElapsed_of_ofLine`: a line is refused so only if elapsed times are expected and it
  does not end in one. An elapsed time at its end is still there behind the return value, wherever
  that is read (`EndsInElapsed.of_returned?`), and behind the label (`EndsInElapsed.of_takeLabel`).
* `Columns.detect_elapsed`: what is detected, and when the line is refused.
-/

namespace SyscallTrace

open Text

/-- The text ends in an elapsed time: seconds in angle brackets. -/
def EndsInElapsed (t : Text) : Prop :=
  ∃ seconds d, Duration.ofText? seconds = some d ∧ '<' :: (seconds ++ ['>']) <:+ t

/-- The line has no elapsed time, or none that can be read. -/
def LineFault.isElapsed : LineFault → Bool
  | noElapsed | invalidElapsed _ => true
  | _ => false

variable {columns : Columns} {t u rest : Text} {f : LineFault}

/-! ## Texts that end in an elapsed time -/

namespace EndsInElapsed

variable {s : Text}

theorem of_isSuffix (h : EndsInElapsed u) (hu : u <:+ t) : EndsInElapsed t := by
  obtain ⟨seconds, d, hseconds, hsuffix⟩ := h
  exact ⟨seconds, d, hseconds, hsuffix.trans hu⟩

/-- What has no angle bracket stands before the elapsed time. -/
theorem of_append (h : EndsInElapsed (s ++ t)) (hs : '<' ∉ s) : EndsInElapsed t := by
  obtain ⟨seconds, d, hseconds, hsuffix⟩ := h
  exact ⟨seconds, d, hseconds, suffix_of_suffix_append hsuffix hs⟩

/-- A parenthesis stands before the elapsed time. -/
theorem of_append_paren (h : EndsInElapsed (s ++ ')' :: t)) : EndsInElapsed t := by
  obtain ⟨seconds, d, hseconds, hsuffix⟩ := h
  refine ⟨seconds, d, hseconds, suffix_of_suffix_append_cons hsuffix ?_⟩
  rw [List.mem_cons, List.mem_append, not_or, not_or]
  exact ⟨by decide, Duration.not_mem_of_ofText? hseconds rfl (by decide), by decide⟩

theorem mem (h : EndsInElapsed t) : '<' ∈ t ∧ '>' ∈ t := by
  obtain ⟨seconds, d, -, hsuffix⟩ := h
  exact ⟨hsuffix.mem List.mem_cons_self, hsuffix.mem (by simp)⟩

theorem isBlank_eq_false {c : Char} (h : EndsInElapsed t) (hc : c ∈ t.getLast?) :
    isBlank c = false := by
  obtain ⟨seconds, d, -, p, rfl⟩ := h
  rw [← List.cons_append, ← List.append_assoc, List.getLast?_concat] at hc
  rw [← Option.some.inj hc]
  rfl

theorem trimStart (h : EndsInElapsed t) : EndsInElapsed t.trimStart := by
  rw [← List.takeWhile_append_dropWhile (p := isBlank) (l := t)] at h
  exact h.of_append fun hm => absurd (List.mem_takeWhile_imp hm) (by decide)

theorem trim (h : EndsInElapsed t) : EndsInElapsed t.trim := by
  rw [trim_eq_trimStart fun c hc => h.isBlank_eq_false hc]
  exact h.trimStart

/-- The end of a line without blanks around it is trimmed at its start only. -/
theorem of_trim_of_isSuffix (h : EndsInElapsed u.trim) (hu : u <:+ t.trim) :
    EndsInElapsed t.trim := by
  have hlast : ∀ c ∈ u.getLast?, isBlank c = false := fun c hc =>
    of_mem_getLast?_of_suffix hu (fun c hc => of_mem_getLast?_trim hc) hc
  rw [trim_eq_trimStart hlast] at h
  exact h.of_isSuffix ((List.dropWhile_suffix isBlank).trans hu)

/-- The elapsed time at the end of a line stands behind what is read as the return value. -/
theorem of_returned? {ret : Text} (h : EndsInElapsed t) (hu : u <:+ t)
    (hret : CallForm.returned? u = some (ret, rest)) : EndsInElapsed rest := by
  obtain ⟨gap, gap', hgap, hgap', rfl, hout⟩ := CallForm.returned?_eq_some_iff.1 hret
  obtain ⟨p, rfl⟩ := hu
  have hbehind : '<' ∉ gap ++ '=' :: gap' ++ ret := by
    rw [List.mem_append, List.mem_append, List.mem_cons, not_or, not_or, not_or]
    refine ⟨⟨not_mem_of_isBlanks hgap.blanks rfl, by decide,
      not_mem_of_isBlanks hgap'.blanks rfl⟩, fun hm => ?_⟩
    exact absurd (hout.isReturnChar _ hm) (by decide)
  rw [show p ++ (CallForm.equals gap gap' ++ (ret ++ rest)) =
    p ++ ')' :: (gap ++ '=' :: gap' ++ ret ++ rest) by simp [CallForm.equals]] at h
  exact h.of_append_paren.of_append hbehind

/-- The elapsed time stays when the label is taken off the front. -/
theorem of_takeLabel {value : ReturnValue} {label : Option Text} (h : EndsInElapsed t)
    (hhead : ∀ c ∈ t.head?, isBlank c = false)
    (htake : Outcome.takeLabel value t = .ok (label, rest)) : EndsInElapsed rest := by
  rcases Outcome.takeLabel_eq_ok_iff.1 htake with ⟨-, hname, -, rfl⟩ | ⟨-, -, rfl⟩
  · have hprefix : firstWord t <+: t := by
      rw [firstWord_eq hhead]
      exact List.takeWhile_prefix _
    clear htake
    generalize firstWord t = word at hname hprefix ⊢
    obtain ⟨u, rfl⟩ := hprefix
    rw [List.drop_left]
    exact (h.of_append (hname.not_mem rfl (by decide))).trimStart
  · exact h

end EndsInElapsed

/-! ## The outcome -/

namespace Outcome

variable {value : ReturnValue} {hasElapsed : Bool} {ret : Text}

theorem not_isElapsed_of_readValue (h : readValue t = .error f) : ¬ f.isElapsed := by
  unfold readValue at h
  split at h
  · obtain rfl := Except.error.inj h
    exact Bool.false_ne_true
  · split at h
    · obtain rfl := Except.error.inj h
      exact Bool.false_ne_true
    · cases h
  · cases h

theorem not_isElapsed_of_takeLabel (h : takeLabel value t = .error f) : ¬ f.isElapsed := by
  unfold takeLabel at h
  dsimp only at h
  split at h
  · split at h
    · cases h
    · obtain rfl := Except.error.inj h
      exact Bool.false_ne_true
  · cases h

/-- An outcome is refused for its elapsed time only if it should have one and does not end in
one. -/
theorem not_endsInElapsed_of_read (h : read hasElapsed ret rest = .error f)
    (hf : f.isElapsed) : hasElapsed = true ∧ ¬ EndsInElapsed rest.trim := by
  rcases bind_eq_error_iff.1 h with hvalue | ⟨value, -, h⟩
  · exact absurd hf (not_isElapsed_of_readValue hvalue)
  rcases bind_eq_error_iff.1 h with hlabel | ⟨⟨label, rest'⟩, hlabel, h⟩
  · exact absurd hf (not_isElapsed_of_takeLabel hlabel)
  dsimp only at h
  split at h
  · next hhas =>
    refine ⟨(Bool.and_eq_true _ _ ▸ hhas).1, fun hends => ?_⟩
    obtain ⟨seconds, d, hseconds, front, rfl⟩ :=
      hends.of_takeLabel (fun c hc => of_mem_head?_trim hc) hlabel
    rw [takeElapsed_of_ofText? hseconds] at h
    cases h
  · cases h

end Outcome

/-! ## The line -/

namespace Heading

variable {mode : TimestampMode}

theorem not_isElapsed_of_takePid (h : takePid t = .error f) : ¬ f.isElapsed := by
  unfold takePid at h
  split at h
  · obtain rfl := Except.error.inj h
    exact Bool.false_ne_true
  · rcases elim_eq_error_iff.1 h with ⟨-, rfl⟩ | ⟨pid, -, h⟩
    · exact Bool.false_ne_true
    · cases h

theorem not_isElapsed_of_takeTimestamp (h : takeTimestamp mode t = .error f) :
    ¬ f.isElapsed := by
  unfold takeTimestamp at h
  split at h
  · cases h
  · rcases elim_eq_error_iff.1 h with ⟨-, rfl⟩ | ⟨x, -, h⟩
    · exact Bool.false_ne_true
    · cases h

theorem not_isElapsed_of_takeInstPointer {present : Bool}
    (h : takeInstPointer present t = .error f) : ¬ f.isElapsed := by
  unfold takeInstPointer at h
  split at h
  · rcases elim_eq_error_iff.1 h with ⟨-, rfl⟩ | ⟨x, -, h⟩
    · exact Bool.false_ne_true
    · cases h
  · cases h

theorem not_isElapsed_of_take (h : take columns t = .error f) : ¬ f.isElapsed := by
  unfold take at h
  rcases bind_eq_error_iff.1 h with h | ⟨⟨pid, t₁⟩, -, h⟩
  · exact not_isElapsed_of_takePid h
  dsimp only at h
  split at h
  · cases h
  rcases bind_eq_error_iff.1 h with h | ⟨⟨timestamp, t₂⟩, -, h⟩
  · exact not_isElapsed_of_takeTimestamp h
  dsimp only at h
  split at h
  · cases h
  rcases bind_eq_error_iff.1 h with h | ⟨⟨pointer, t₃⟩, -, h⟩
  · exact not_isElapsed_of_takeInstPointer h
  dsimp only at h
  split at h <;> cases h

end Heading

namespace CallForm

variable {form : CallForm} {name ret : Text}

/-- The return value of a form and the text after it, if the call finished. -/
def tail? : CallForm → Option (Text × Text)
  | complete _ _ ret rest | resumed _ _ ret rest => some (ret, rest)
  | unfinished _ _ | continued _ _ => none

theorem suffix_of_resumption? (h : resumption? t = some (name, u)) : u <:+ t := by
  obtain ⟨-, -, rfl⟩ := exists_of_resumption? h
  exact ((List.suffix_append _ u).trans (List.suffix_append name _)).trans (List.suffix_append _ _)

/-- The return value of a form was read from an end of the text. -/
theorem exists_returned?_of_ofText? (h : ofText? t = some form)
    (hform : form.tail? = some (ret, rest)) : ∃ v, v <:+ t ∧ returned? v = some (ret, rest) := by
  rw [ofText?_eq] at h
  rcases Option.or_eq_some_iff.1 h with h | ⟨-, h⟩
  · obtain ⟨x, -, h⟩ := Option.bind_eq_some_iff.1 h
    obtain ⟨y, -, h⟩ := Option.bind_eq_some_iff.1 h
    rw [← Option.some.inj h] at hform
    cases hform
  rcases Option.or_eq_some_iff.1 h with h | ⟨-, h⟩
  · obtain ⟨x, -, h⟩ := Option.bind_eq_some_iff.1 h
    obtain ⟨y, -, h⟩ := Option.bind_eq_some_iff.1 h
    rw [← Option.some.inj h] at hform
    cases hform
  rcases Option.or_eq_some_iff.1 h with h | ⟨-, h⟩
  · obtain ⟨⟨name, u⟩, hu, h⟩ := Option.bind_eq_some_iff.1 h
    obtain ⟨⟨args, ret', rest'⟩, hx, h⟩ := Option.bind_eq_some_iff.1 h
    rw [← Option.some.inj h] at hform
    obtain ⟨rfl, rfl⟩ := Prod.mk.inj (Option.some.inj hform)
    obtain ⟨v, rfl, hv, -⟩ := exists_of_latest? hx
    exact ⟨v, (List.suffix_append args v).trans (suffix_of_resumption? hu), hv⟩
  · obtain ⟨⟨name, u⟩, hu, h⟩ := Option.bind_eq_some_iff.1 h
    obtain ⟨⟨args, ret', rest'⟩, hx, h⟩ := Option.bind_eq_some_iff.1 h
    rw [← Option.some.inj h] at hform
    obtain ⟨rfl, rfl⟩ := Prod.mk.inj (Option.some.inj hform)
    obtain ⟨v, rfl, hv, -⟩ := exists_of_latest? hx
    obtain ⟨-, -, rfl⟩ := called?_eq_some_iff.1 hu
    refine ⟨v, ?_, hv⟩
    exact (List.suffix_append args v).trans ((List.suffix_cons _ _).trans (List.suffix_append _ _))

end CallForm

namespace Call

variable {line l : Text}

/-- A line is refused for its elapsed time only if elapsed times are expected and it does not end in
one. -/
theorem not_endsInElapsed_of_ofLine (h : ofLine columns line = .error (.format l f))
    (hf : f.isElapsed) : columns.elapsed = true ∧ ¬ EndsInElapsed line.trim := by
  unfold ofLine at h
  split at h
  · cases h
  obtain ⟨f', hread, heq⟩ := mapError_eq_error_iff.1 h
  obtain ⟨-, rfl⟩ := TraceError.format.inj heq
  unfold read at hread
  rcases bind_eq_error_iff.1 hread with hheading | ⟨x, htake, h⟩
  · exact absurd hf (Heading.not_isElapsed_of_take hheading)
  split at h
  · cases h
  next heading body =>
  split at h
  · obtain rfl := Except.error.inj h
    exact absurd hf Bool.false_ne_true
  next form hform =>
  rcases bind_eq_error_iff.1 h with h | ⟨c, -, h⟩
  · obtain ⟨ret, rest, htail, hread⟩ : ∃ ret rest, form.tail? = some (ret, rest) ∧
        Outcome.read columns.elapsed ret rest = .error f' := by
      cases form with
      | complete name args ret rest | resumed name args ret rest =>
        rcases bind_eq_error_iff.1 h with h | ⟨o, -, h⟩
        · exact ⟨ret, rest, rfl, h⟩
        · cases h
      | unfinished name args | continued name args => cases h
    obtain ⟨hexpected, hnot⟩ := Outcome.not_endsInElapsed_of_read hread hf
    obtain ⟨v, hv, hreturned⟩ := CallForm.exists_returned?_of_ofText? hform htail
    refine ⟨hexpected, fun hends => hnot ?_⟩
    exact (hends.of_returned? (hv.trans (Heading.suffix_of_take htake)) hreturned).trim
  · cases h

end Call

/-! ## What is detected -/

namespace Columns

variable {config : Config} {line : Text} {call : CallStructure}

/-- The end of a call starts with a return value, and its line ends behind it. -/
theorem exists_of_callEnd? (h : callEnd? t = some rest) :
    ∃ c value, CallForm.dropEquals? t = some (c :: (value ++ rest)) ∧
      CallForm.isReturnChar c ∧ '\n' ∉ value ++ rest := by
  obtain ⟨u, hu, hend⟩ := Option.bind_eq_some_iff.1 h
  have hline : ∀ after : Text, (if CallForm.isLine after then some after else none) = some rest →
      after = rest ∧ '\n' ∉ rest := by
    intro after hafter
    split at hafter
    · next hnot =>
      obtain rfl := Option.some.inj hafter
      exact ⟨rfl, by simpa [CallForm.isLine] using hnot⟩
    · cases hafter
  split at hend
  · next after =>
    obtain ⟨rfl, hnot⟩ := hline after hend
    exact ⟨'?', [], hu, by decide, hnot⟩
  split at hend
  · next d digits hvalue =>
    split at hend
    · next hd =>
      obtain ⟨hrest, hnot⟩ := hline _ hend
      obtain ⟨value, rfl, hchars⟩ := exists_append_of_dropWhile hrest
      have hline : '\n' ∉ value ++ rest := by
        rw [List.mem_append, not_or]
        exact ⟨fun hm => absurd (hchars _ hm) (by decide), hnot⟩
      cases hsign : u.dropPrefix? ['-'] with
      | none =>
        rw [hsign] at hvalue
        obtain rfl : u = d :: (value ++ rest) := hvalue
        have hreturn : CallForm.isReturnChar d := by
          unfold CallForm.isReturnChar
          rw [isDecimalDigit_of_isDigit hd]
          simp
        exact ⟨d, value, hu, hreturn, hline⟩
      | some w =>
        rw [hsign] at hvalue
        obtain rfl : w = d :: (value ++ rest) := hvalue
        rw [dropPrefix?_eq_some_iff.1 hsign] at hu
        refine ⟨'-', d :: value, hu, by decide, ?_⟩
        rw [List.cons_append, List.mem_cons, not_or]
        refine ⟨?_, hline⟩
        rintro rfl
        exact absurd hd (by decide)
    · cases hend
  · cases hend

theorem suffix_of_callEnd? (h : callEnd? t = some rest) : rest <:+ t := by
  obtain ⟨c, value, hvalue, -⟩ := exists_of_callEnd? h
  obtain ⟨gap, gap', -, -, rfl, -⟩ := CallForm.dropEquals?_eq_some_iff.1 hvalue
  exact ((List.suffix_append value rest).trans (List.suffix_cons c _)).trans
    (List.suffix_append _ _)

/-- A call structure is the text before the first parenthesis, the arguments and the end of a
call. -/
theorem exists_of_callStructure? (h : callStructure? t = some call) :
    ∃ r, t = call.front ++ '(' :: (call.args ++ r) ∧ '(' ∉ call.front ∧ '\n' ∉ call.args ∧
      callEnd? r = some call.after := by
  obtain ⟨⟨front, u⟩, hu, h⟩ := Option.bind_eq_some_iff.1 h
  obtain ⟨⟨args, after⟩, hafter, h⟩ := Option.bind_eq_some_iff.1 h
  obtain rfl := Option.some.inj h
  obtain ⟨r, rfl, hr, hargs⟩ := exists_of_latest? hafter
  obtain ⟨-, hparen, rfl⟩ := CallForm.called?_eq_some_iff.1 hu
  exact ⟨r, rfl, hparen, hargs, hr⟩

theorem suffix_of_callStructure? (h : callStructure? t = some call) : call.after <:+ t := by
  obtain ⟨r, ht, -, -, hr⟩ := exists_of_callStructure? h
  rw [ht]
  exact (suffix_of_callEnd? hr).trans
    ((List.suffix_append _ r).trans ((List.suffix_cons _ _).trans (List.suffix_append _ _)))

/-- The columns are those before the arguments, and the elapsed time behind the return value. -/
theorem exists_of_ofCallLine (h : ofCallLine config t = .ok columns) :
    ∃ call found, callStructure? t = some call ∧ ofFront config call.front = .ok found ∧
      columns =
        { found with elapsed := call.after.contains '<' && call.after.contains '>' } := by
  unfold ofCallLine at h
  split at h
  · cases h
  obtain ⟨call, hcall, h⟩ := bind_eq_ok_iff.1 h
  obtain ⟨found, hfound, h⟩ := bind_eq_ok_iff.1 h
  dsimp only at h
  split at h
  · cases h
  · exact ⟨call, found, elim_ok_eq_ok_iff.1 hcall, hfound, (pure_eq_ok_iff.1 h).symm⟩

theorem elapsed_of_ofCallLine (h : ofCallLine config t = .ok columns) :
    ∃ call, callStructure? t = some call ∧
      columns.elapsed = (call.after.contains '<' && call.after.contains '>') := by
  obtain ⟨call, found, hcall, -, rfl⟩ := exists_of_ofCallLine h
  exact ⟨call, hcall, rfl⟩

/-- Elapsed times are detected by two angle brackets behind the return value. An elapsed time at
the end is never missed, so they are detected wrongly only where there are such brackets and the
text does not end in one; only there the line itself may be refused for its elapsed time. -/
theorem detect_elapsed (h : detect config line = .ok columns) :
    ∃ call, callStructure? line.trim = some call ∧
      (columns.elapsed = true ↔ '<' ∈ call.after ∧ '>' ∈ call.after) ∧
      ((columns.elapsed = true ↔ EndsInElapsed call.after.trim) ↔
        ('<' ∈ call.after → '>' ∈ call.after → EndsInElapsed call.after.trim)) ∧
      ∀ l f, Call.ofLine columns line = .error (.format l f) → f.isElapsed →
        columns.elapsed = true ∧ ¬ EndsInElapsed call.after.trim := by
  obtain ⟨call, hcall, helapsed⟩ := elapsed_of_ofCallLine (mapError_eq_ok_iff.1 h)
  have hiff : columns.elapsed = true ↔ '<' ∈ call.after ∧ '>' ∈ call.after := by
    rw [helapsed, Bool.and_eq_true, List.contains_iff_mem, List.contains_iff_mem]
  have hnever : EndsInElapsed call.after.trim → columns.elapsed = true := fun hends =>
    hiff.2 ⟨mem_of_mem_trim hends.mem.1, mem_of_mem_trim hends.mem.2⟩
  refine ⟨call, hcall, hiff,
    ⟨fun hexact hopen hclose => ?_, fun hends => ⟨fun htrue => ?_, hnever⟩⟩, fun l f hline hf => ?_⟩
  · exact hexact.1 (hiff.2 ⟨hopen, hclose⟩)
  · exact hends (hiff.1 htrue).1 (hiff.1 htrue).2
  · obtain ⟨hexpected, hnot⟩ := Call.not_endsInElapsed_of_ofLine hline hf
    exact ⟨hexpected, fun hends =>
      hnot (hends.of_trim_of_isSuffix (suffix_of_callStructure? hcall))⟩

/-- A call with its elapsed time. -/
theorem detect_elapsed_open :
    ∃ call, callStructure? "8106  open(\"log\", O_RDONLY) = 3 <0.000040>".toList = some call ∧
      EndsInElapsed call.after.trim ∧
      (∀ l f, Call.ofLine { elapsed := true }
        "8106  open(\"log\", O_RDONLY) = 3 <0.000040>".toList = .error (.format l f) →
          ¬ f.isElapsed) := by
  have hdetect : detect {} "8106  open(\"log\", O_RDONLY) = 3 <0.000040>".toList =
      .ok { elapsed := true } := by decide +kernel
  have hafter : (callStructure? "8106  open(\"log\", O_RDONLY) = 3 <0.000040>".toList).map
      CallStructure.after = some " <0.000040>".toList := by decide +kernel
  have hends : EndsInElapsed (trim " <0.000040>".toList) :=
    ⟨"0.000040".toList, ⟨0, 40000⟩, by decide, [], by decide⟩
  obtain ⟨call, hcall, -, -, hrefused⟩ := detect_elapsed hdetect
  obtain ⟨call', hcall', hafter⟩ := Option.map_eq_some_iff.1 hafter
  obtain rfl := Option.some.inj (hcall'.symm.trans hcall)
  rw [← hafter] at hends
  exact ⟨_, hcall, hends, fun l f hline hf => (hrefused l f hline hf).2 hends⟩

/-- A returned descriptor with its path. -/
def pathLine : Text := "14037 openat(AT_FDCWD, \"/etc/passwd\", O_RDONLY) = 3</etc/passwd>".toList

/-- The path of a descriptor is taken for an elapsed time that then cannot be read. -/
theorem detect_path_as_elapsed :
    detect {} pathLine = .ok { elapsed := true } ∧
      (∃ call, callStructure? pathLine.trim = some call ∧ ¬ EndsInElapsed call.after.trim) ∧
      Call.ofLine { elapsed := true } pathLine =
        .error (.format pathLine (.invalidElapsed "/etc/passwd".toList)) := by
  have hafter : (callStructure? pathLine.trim).map CallStructure.after =
      some "</etc/passwd>".toList := by
    decide +kernel
  have hread : Outcome.read true ['3'] "</etc/passwd>".toList =
      .error (.invalidElapsed "/etc/passwd".toList) := by
    decide +kernel
  obtain ⟨call, hcall, hafter⟩ := Option.map_eq_some_iff.1 hafter
  refine ⟨by decide +kernel, ⟨call, hcall, ?_⟩, by decide +kernel⟩
  rw [hafter]
  exact (Outcome.not_endsInElapsed_of_read hread rfl).2

end Columns

end SyscallTrace
