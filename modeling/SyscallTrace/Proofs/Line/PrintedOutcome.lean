import SyscallTrace.Line.Outcome
import SyscallTrace.Proofs.Decimal
import SyscallTrace.Proofs.Line.Forms
import SyscallTrace.Proofs.Success

/-!
# Printed outcomes

The end of a finished call, as the tracer prints it (`PrintedOutcome.text`): a return value, the
name of an error, a remark in parentheses and the elapsed time, with a blank before each but the
first. Reading it gives the same outcome back (`PrintedOutcome.read`), and no later place of it
looks like the end of a call (`PrintedOutcome.isTail`).
-/

namespace SyscallTrace

open Text

/-! ## Return values -/

/-- The name of an error: an E, then capitals, digits and underscores. -/
def IsErrorName (t : Text) : Prop :=
  ∃ u, t = 'E' :: u ∧ ∀ c ∈ u, c.isUpper || c.isDigit || c == '_'

/-- What the tracer prints after the equals sign: a number that is not negative, an address, -1 and
the name of the error, or a question mark with or without such a name. -/
inductive Return.IsPrinted : Return → Prop where
  | number {v : Int64} (hv : 0 ≤ v) : IsPrinted ⟨.int v, none⟩
  | address {digits : Text} (hne : digits ≠ [])
      (hdigits : ∀ c ∈ digits, c.isDigit || ('a' ≤ c && c ≤ 'f')) :
      IsPrinted ⟨.pointer ("0x".toList ++ digits), none⟩
  | failed {label : Text} (hlabel : IsErrorName label) : IsPrinted ⟨.int (-1), some label⟩
  | noReturn : IsPrinted ⟨.noReturn, none⟩
  | interrupted {label : Text} (hlabel : IsErrorName label) : IsPrinted ⟨.noReturn, some label⟩

namespace Decimal

theorem ofInt_ne_nil (v : Int) : ofInt v ≠ [] := by
  cases v with
  | ofNat n => exact Nat.toDigits_ne_nil
  | negSucc n => exact List.cons_ne_nil _ _

end Decimal

namespace ReturnValue

theorem ofText?_int (v : Int64) : ofText? (Decimal.ofInt v.toInt) = some (.int v) := by
  have hmark : 'x' ∉ Decimal.ofInt v.toInt := Decimal.not_mem_ofInt rfl (by decide)
  have hquestion : '?' ∉ Decimal.ofInt v.toInt := Decimal.not_mem_ofInt rfl (by decide)
  have hnone : (Decimal.ofInt v.toInt).dropPrefix? "0x".toList = none :=
    dropPrefix?_eq_none_iff.2 fun h => hmark (h.mem (by decide))
  unfold ofText? canonicalInt64?
  rw [if_neg fun h => hquestion (by rw [h]; decide), hnone]
  dsimp only
  rw [Decimal.int64?_ofInt, Option.filter_some, if_pos (by simp), Option.map_some]

theorem ofText?_pointer {digits : Text} (hne : digits ≠ []) (hdigits : ∀ c ∈ digits, isHexDigit c) :
    ofText? ("0x".toList ++ digits) = some (.pointer ("0x".toList ++ digits)) := by
  unfold ofText?
  rw [if_neg (by rintro ⟨⟩), dropPrefix?_append]
  dsimp only
  rw [if_pos]
  rw [Bool.and_eq_true, Bool.not_eq_true', List.isEmpty_eq_false_iff, List.all_eq_true]
  exact ⟨hne, hdigits⟩

end ReturnValue

namespace Return.IsPrinted

variable {r : Return} {c : Char}

theorem readValue (h : r.IsPrinted) : Outcome.readValue r.value.text = .ok r.value := by
  unfold Outcome.readValue
  cases h with
  | @number v hv =>
    have hnot : ¬ v < -1 := by
      rw [Int64.lt_iff_toInt_lt]
      rw [Int64.le_iff_toInt_le] at hv
      have hzero : (0 : Int64).toInt = 0 := rfl
      have hone : (-1 : Int64).toInt = -1 := rfl
      omega
    rw [ReturnValue.text, ReturnValue.ofText?_int]
    exact if_neg hnot
  | address hne hdigits =>
    rw [ReturnValue.text, ReturnValue.ofText?_pointer hne fun c hc => ?_]
    unfold ReturnValue.isHexDigit
    rw [hdigits c hc, Bool.true_or]
  | failed hlabel => rfl
  | noReturn | interrupted => rfl

theorem text_ne_nil (h : r.IsPrinted) : r.value.text ≠ [] := by
  cases h with
  | number hv => exact Decimal.ofInt_ne_nil _
  | address | failed | noReturn | interrupted => exact List.cons_ne_nil _ _

/-- The characters of a return value, all of them visible. -/
theorem isReturnChar (h : r.IsPrinted) (hc : c ∈ r.value.text) :
    CallForm.isReturnChar c ∧ isBlank c = false := by
  have hdigit : ∀ d : Char, d.isDigit → CallForm.isReturnChar d ∧ isBlank d = false := by
    intro d hd
    unfold CallForm.isReturnChar
    rw [isDecimalDigit_of_isDigit hd]
    exact ⟨by simp, isBlank_eq_false_of_isAlphanum (by simp [Char.isAlphanum, hd])⟩
  have hletter : ∀ d : Char, 'a' ≤ d → d ≤ 'f' → CallForm.isReturnChar d ∧ isBlank d = false := by
    intro d ha hf
    have hlow : 97 ≤ d.toNat := UInt32.le_iff_toNat_le.1 ha
    have hhigh : d.toNat ≤ 102 := UInt32.le_iff_toNat_le.1 hf
    exact ⟨by simp [CallForm.isReturnChar, ha, hf],
      isBlank_eq_false_of_visible (by omega) (by omega)⟩
  have hsign : ∀ d ∈ "0x-1?".toList, CallForm.isReturnChar d ∧ isBlank d = false := by
    have hall : "0x-1?".toList.all fun d => CallForm.isReturnChar d && !isBlank d := by decide
    intro d hd
    have hchar := List.all_eq_true.1 hall d hd
    rwa [Bool.and_eq_true, Bool.not_eq_true'] at hchar
  cases h with
  | number hv =>
    rcases Decimal.mem_ofInt hc with hd | rfl
    · exact hdigit c hd
    · exact hsign '-' (by decide)
  | address hne hdigits =>
    rcases List.mem_append.1 hc with hc | hc
    · exact hsign c (List.mem_append_left _ hc)
    · have hchar := hdigits c hc
      rw [Bool.or_eq_true, Bool.and_eq_true, decide_eq_true_eq, decide_eq_true_eq] at hchar
      exact hchar.elim (hdigit c) fun h => hletter c h.1 h.2
  | failed hlabel =>
    exact hsign c (List.mem_append_left ['?'] (List.mem_append_right ['0', 'x'] hc))
  | noReturn | interrupted => exact hsign c (List.mem_append_right ['0', 'x', '-', '1'] hc)

end Return.IsPrinted

/-! ## Words with a blank before each -/

/-- A word with a blank before it, or nothing. -/
def spaced (word : Option Text) : Text := word.elim [] (' ' :: ·)

/-- Nothing, or a blank and a text that has none at its ends. -/
inductive IsSpaced : Text → Prop where
  | nil : IsSpaced []
  | cons {t : Text} (ht : t.Tight) : IsSpaced (' ' :: t)

section

variable {s t : Text} {word : Option Text}

theorem isSpaced_spaced (h : ∀ t ∈ word, t.Tight) : IsSpaced (spaced word) := by
  cases word with
  | none => exact .nil
  | some t => exact .cons (h t rfl)

theorem not_mem_spaced {c : Char} (hc : c ≠ ' ') (h : ∀ t ∈ word, c ∉ t) : c ∉ spaced word := by
  cases word with
  | none => exact List.not_mem_nil
  | some t => exact fun hm => (List.mem_cons.1 hm).elim hc (h t rfl)

theorem IsSpaced.append (hs : IsSpaced s) (ht : IsSpaced t) : IsSpaced (s ++ t) := by
  cases hs with
  | nil => exact ht
  | @cons u hu =>
    cases ht with
    | nil =>
      rw [List.append_nil]
      exact .cons hu
    | @cons v hv =>
      have htight := hu.append_of_tight [' '] hv
      rw [List.append_assoc] at htight
      exact .cons htight

theorem IsSpaced.eq_of_mem_head? (h : IsSpaced t) {c : Char} (hc : c ∈ t.head?) : c = ' ' := by
  cases h with
  | nil => cases hc
  | cons => exact (Option.some.inj hc).symm

theorem IsSpaced.trimStart (h : IsSpaced t) : t.trimStart = t.tail := by
  cases h with
  | nil => rfl
  | @cons u hu =>
    exact dropWhile_append (List.forall_mem_singleton.2 rfl) fun c hc => (hu.head c hc).1

theorem IsSpaced.trim (h : IsSpaced t) : t.trim = t.tail := by
  cases h with
  | nil => rfl
  | @cons u hu =>
    have htrim := trim_append isBlankRun_blank.blanks hu.ne_nil (fun c hc => (hu.head c hc).1)
      (fun c hc => (hu.last c hc).1) isBlanks_nil
    simpa using htrim

theorem tail_spaced : (spaced word).tail = word.getD [] := by cases word <;> rfl

end

/-! ## Error names -/

namespace IsErrorName

variable {label t : Text}

theorem isErrorLabel (h : IsErrorName label) : Outcome.isErrorLabel label := by
  obtain ⟨u, rfl, hu⟩ := h
  unfold Outcome.isErrorLabel
  rw [Bool.and_eq_true, List.all_cons, Bool.and_eq_true, List.all_eq_true]
  exact ⟨rfl, rfl, hu⟩

theorem isAlphanum_or (h : IsErrorName label) {c : Char} (hc : c ∈ label) :
    c.isAlphanum ∨ c = '_' := by
  obtain ⟨u, rfl, hu⟩ := h
  rcases List.mem_cons.1 hc with rfl | hc
  · exact .inl rfl
  · have hchar := hu c hc
    rw [Bool.or_eq_true, Bool.or_eq_true, beq_iff_eq] at hchar
    rcases hchar with (hupper | hdigit) | hc
    · refine .inl ?_
      unfold Char.isAlphanum Char.isAlpha
      rw [hupper, Bool.true_or, Bool.true_or]
    · exact .inl (by simp [Char.isAlphanum, hdigit])
    · exact .inr hc

theorem unblank (h : IsErrorName label) {c : Char} (hc : c ∈ label) : isBlank c = false := by
  rcases h.isAlphanum_or hc with halpha | rfl
  · exact isBlank_eq_false_of_isAlphanum halpha
  · decide

theorem not_mem (h : IsErrorName label) {c : Char} (hc : c.isAlphanum = false) (hc' : c ≠ '_') :
    c ∉ label := fun hm => by
  rcases h.isAlphanum_or hm with halpha | heq
  · rw [halpha] at hc
    cases hc
  · exact hc' heq

theorem tight (h : IsErrorName label) : label.Tight := by
  have hne : label ≠ [] := by
    obtain ⟨u, rfl, -⟩ := h
    exact List.cons_ne_nil _ _
  have hcomma : ',' ∉ label := h.not_mem rfl (by decide)
  refine ⟨hne, fun c hc => ?_, fun c hc => ?_⟩
  · have hm := List.mem_of_mem_head? hc
    exact ⟨h.unblank hm, fun heq => hcomma (heq ▸ hm)⟩
  · have hm := List.mem_of_getLast? hc
    exact ⟨h.unblank hm, fun heq => hcomma (heq ▸ hm)⟩

end IsErrorName

namespace Return.IsPrinted

variable {r : Return} {label : Text}

theorem isErrorName (h : r.IsPrinted) (hl : label ∈ r.label) : IsErrorName label := by
  cases h with
  | failed hlabel | interrupted hlabel => rwa [← Option.some.inj hl]
  | number | address | noReturn => cases hl

theorem hasLabel_of_some (h : r.IsPrinted) (hl : r.label = some label) :
    Outcome.hasLabel r.value label := by
  obtain ⟨u, rfl, -⟩ := h.isErrorName hl
  cases h with
  | failed | interrupted => rfl
  | number | address | noReturn => cases hl

/-- A return value without an error is followed by no word that could be the name of one. -/
theorem hasLabel_of_none (h : r.IsPrinted) (hl : r.label = none) {word : Text}
    (hword : word.head?.any Char.isUpper = false) : Outcome.hasLabel r.value word = false := by
  cases h with
  | @number v hv =>
    refine beq_eq_false_iff_ne.2 fun heq => ?_
    rw [heq] at hv
    exact absurd hv (by decide)
  | address => rfl
  | noReturn => exact hword
  | failed | interrupted => cases hl

end Return.IsPrinted

/-! ## Remarks -/

/-- A remark is in parentheses and does not hold what looks like the end of a call. -/
structure IsRemark (t : Text) : Prop where
  parenthesized : ∃ u, t = '(' :: u ++ [')']
  isLine : '\n' ∉ t
  noEquals : ∀ gap, IsBlankRun gap → ¬ ')' :: gap ++ ['='] <:+: t

theorem IsRemark.tight {t : Text} (h : IsRemark t) : t.Tight := by
  obtain ⟨u, rfl⟩ := h.parenthesized
  refine ⟨by simp, fun c hc => ?_, fun c hc => ?_⟩
  · rw [← Option.some.inj hc]
    decide
  · rw [List.getLast?_concat] at hc
    rw [← Option.some.inj hc]
    decide

/-! ## Elapsed times -/

/-- Seconds in angle brackets are taken off the end, with the blanks before them. -/
theorem Outcome.takeElapsed_of_ofText? {seconds : Text} {d : Duration}
    (h : Duration.ofText? seconds = some d) (front : Text) :
    takeElapsed (front ++ '<' :: (seconds ++ ['>'])) = .ok (d, front.trimEnd) := by
  have hlast : (front ++ '<' :: (seconds ++ ['>'])).cutLast? (· == '<') =
      some (front, seconds ++ ['>']) := by
    refine cutLast?_append rfl fun c hc => beq_eq_false_iff_ne.2 ?_
    rintro rfl
    rcases List.mem_append.1 hc with hc | hc
    · exact Duration.not_mem_of_ofText? h rfl (by decide) hc
    · exact absurd hc (by decide)
  have hfirst : (seconds ++ ['>']).cutFirst? (· == '>') = some (seconds, []) := by
    refine cutFirst?_append (fun c hc => beq_eq_false_iff_ne.2 ?_) rfl
    rintro rfl
    exact Duration.not_mem_of_ofText? h rfl (by decide) hc
  unfold takeElapsed
  rw [hlast]
  dsimp only
  rw [hfirst]
  dsimp only
  rw [h]
  rfl

/-- An elapsed time: whole seconds, and one to nine places. -/
structure Elapsed where
  seconds : UInt64
  places : Text
  isDigit : ∀ c ∈ places, c.isDigit
  ne_nil : places ≠ []
  length_le : places.length ≤ 9

namespace Elapsed

variable (e : Elapsed)

/-- The time between the angle brackets. -/
def number : Text := Decimal.ofNat e.seconds.toNat ++ '.' :: e.places

def text : Text := '<' :: e.number ++ ['>']

/-- The seconds, and the nanoseconds that the places write. -/
def duration : Duration :=
  ⟨e.seconds.toNat, Decimal.valueOf e.places * 10 ^ (9 - e.places.length)⟩

theorem mem_number {c : Char} (hc : c ∈ e.number) : c.isDigit ∨ c = '.' := by
  rcases List.mem_append.1 hc with hc | hc
  · exact .inl (Decimal.isDigit_of_mem_ofNat hc)
  · exact (List.mem_cons.1 hc).elim .inr fun hc => .inl (e.isDigit c hc)

theorem not_mem_number {c : Char} (hdigit : c.isDigit = false) (hpoint : c ≠ '.') :
    c ∉ e.number := fun hm => by
  rcases e.mem_number hm with hd | heq
  · rw [hd] at hdigit
    cases hdigit
  · exact hpoint heq

theorem not_mem_text {c : Char} (hdigit : c.isDigit = false) (hsign : c ∉ "<.>".toList) :
    c ∉ e.text := fun hm => by
  rcases List.mem_append.1 hm with hm | hm
  · rcases List.mem_cons.1 hm with rfl | hm
    · exact hsign (by decide)
    · exact e.not_mem_number hdigit (fun heq => hsign (by rw [heq]; decide)) hm
  · exact hsign (by rw [List.mem_singleton.1 hm]; decide)

theorem ofText?_number : Duration.ofText? e.number = some e.duration := by
  have hvalue : Decimal.valueOf (Decimal.ofNat e.seconds.toNat) = e.seconds.toNat :=
    Nat.ofDigitChars_ten_toDigits
  have hbound : Decimal.valueOf (Decimal.ofNat e.seconds.toNat) < 2 ^ 64 := by
    rw [hvalue]
    exact e.seconds.toNat_lt
  have hread := Duration.ofText?_point (Decimal.isDigits_ofNat _) hbound e.isDigit e.length_le
  rwa [hvalue] at hread

theorem tight : e.text.Tight := by
  refine ⟨List.cons_ne_nil _ _, fun c hc => ?_, fun c hc => ?_⟩
  · rw [← Option.some.inj hc]
    decide
  · rw [text, List.getLast?_concat] at hc
    rw [← Option.some.inj hc]
    decide

/-- The elapsed time is taken off the end, with the blanks before it. -/
theorem takeElapsed_append (front : Text) :
    Outcome.takeElapsed (front ++ e.text) = .ok (e.duration, front.trimEnd) :=
  Outcome.takeElapsed_of_ofText? e.ofText?_number front

end Elapsed

/-! ## Outcomes -/

/-- A call returns unless there is neither a value nor an error. -/
theorem Outcome.returns_eq (r : Return) : returns r = decide (r ≠ ⟨.noReturn, none⟩) := by
  unfold returns
  obtain ⟨value, label⟩ := r
  cases label with
  | none => by_cases hv : value = .noReturn <;> simp [hv]
  | some label => simp

/-- The end of a finished call. The elapsed time is printed if the trace has that column, unless the
call does not return. -/
structure PrintedOutcome (hasElapsed : Bool) where
  ret : Return
  remark : Option Text
  elapsed : Option Elapsed
  isReturn : ret.IsPrinted
  isRemark : ∀ t ∈ remark, IsRemark t
  isSome_elapsed : elapsed.isSome = (hasElapsed && decide (ret ≠ ⟨.noReturn, none⟩))

namespace PrintedOutcome

variable {hasElapsed : Bool} (o : PrintedOutcome hasElapsed)

/-- What is printed after the return value and the name of the error. -/
def ending : Text := spaced o.remark ++ spaced (o.elapsed.map Elapsed.text)

/-- What is printed after the return value. -/
def rest : Text := spaced o.ret.label ++ o.ending

def text : Text := o.ret.text ++ o.ending

def outcome : Outcome := ⟨o.ret, o.elapsed.map Elapsed.duration, o.remark⟩

theorem text_eq : o.text = o.ret.value.text ++ o.rest := List.append_assoc _ _ _

theorem isSpaced_ending : IsSpaced o.ending := by
  refine (isSpaced_spaced fun t ht => (o.isRemark t ht).tight).append (isSpaced_spaced ?_)
  intro t ht
  obtain ⟨e, -, rfl⟩ := Option.map_eq_some_iff.1 ht
  exact e.tight

theorem isSpaced_rest : IsSpaced o.rest :=
  (isSpaced_spaced fun _ hl => (o.isReturn.isErrorName hl).tight).append o.isSpaced_ending

/-- The ending starts with a parenthesis or an angle bracket. -/
theorem head?_ending {c : Char} (hc : c ∈ o.ending.tail.head?) : c = '(' ∨ c = '<' := by
  unfold ending at hc
  cases hr : o.remark with
  | some t =>
    obtain ⟨u, rfl⟩ := (o.isRemark t hr).parenthesized
    rw [hr] at hc
    exact .inl (Option.some.inj hc).symm
  | none =>
    rw [hr] at hc
    cases he : o.elapsed with
    | some e =>
      rw [he] at hc
      exact .inr (Option.some.inj hc).symm
    | none =>
      rw [he] at hc
      cases hc

/-- The name of the error is cut off, with the blank after it. -/
theorem takeLabel_rest :
    Outcome.takeLabel o.ret.value o.rest.tail = .ok (o.ret.label, o.ending.tail) := by
  unfold Outcome.takeLabel rest
  dsimp only
  cases hl : o.ret.label with
  | none =>
    have hhead : ∀ c ∈ o.ending.tail.head?, isBlank c = false ∧ c.isUpper = false := by
      intro c hc
      rcases o.head?_ending hc with rfl | rfl <;> decide
    have hword : (firstWord o.ending.tail).head?.any Char.isUpper = false := by
      rw [firstWord_eq fun c hc => (hhead c hc).1, List.head?_takeWhile, ← Bool.not_eq_true,
        Option.any_eq_true]
      rintro ⟨c, hc, hupper⟩
      rw [(hhead c (Option.filter_eq_some_iff.1 hc).1).2] at hupper
      cases hupper
    rw [show spaced none ++ o.ending = o.ending from rfl, o.isReturn.hasLabel_of_none hl hword]
    rfl
  | some label =>
    have hname := o.isReturn.isErrorName hl
    have hstop : ∀ c ∈ o.ending.head?, (!isBlank c) = false := by
      intro c hc
      rw [o.isSpaced_ending.eq_of_mem_head? hc]
      rfl
    have hword : firstWord (label ++ o.ending) = label := by
      rw [firstWord_eq, takeWhile_append (fun c hc => by rw [hname.unblank hc]; rfl) hstop]
      rw [List.head?_append_of_ne_nil _ hname.tight.ne_nil]
      exact fun c hc => (hname.tight.head c hc).1
    rw [show (spaced (some label) ++ o.ending).tail = label ++ o.ending from rfl, hword,
      if_pos (o.isReturn.hasLabel_of_some hl), if_pos hname.isErrorLabel, List.drop_left,
      o.isSpaced_ending.trimStart]

/-- The elapsed time is cut off, and the remark is left. -/
theorem takeElapsed_ending {e : Elapsed} (he : o.elapsed = some e) :
    Outcome.takeElapsed o.ending.tail = .ok (e.duration, o.remark.getD []) := by
  unfold ending
  rw [he]
  cases hr : o.remark with
  | none => exact e.takeElapsed_append []
  | some t =>
    have htight := (o.isRemark t hr).tight
    have htrim : trimEnd (t ++ [' ']) = t :=
      dropEndWhile_append (fun c hc => (htight.last c hc).1) (isBlanks_cons rfl isBlanks_nil)
    have htake := e.takeElapsed_append (t ++ [' '])
    rw [htrim, List.append_assoc] at htake
    exact htake

/-- An outcome is read as it was printed. -/
theorem read : Outcome.read hasElapsed o.ret.value.text o.rest = .ok o.outcome := by
  have hremark : (if (o.remark.getD []).isEmpty then none else some (o.remark.getD [])) =
      o.remark := by
    cases hr : o.remark with
    | none => rfl
    | some t => exact if_neg (by simpa using (o.isRemark t hr).tight.ne_nil)
  unfold Outcome.read
  rw [o.isReturn.readValue, ok_bind, o.isSpaced_rest.trim, o.takeLabel_rest, ok_bind]
  dsimp only
  rw [Outcome.returns_eq, ← o.isSome_elapsed]
  unfold outcome
  cases he : o.elapsed with
  | none =>
    have htail : o.ending.tail = o.remark.getD [] := by
      rw [ending, he, Option.map_none, show spaced none = [] from rfl, List.append_nil, tail_spaced]
    rw [htail]
    show Except.ok (Outcome.mk o.ret none (if _ then _ else _)) = _
    rw [hremark]
    rfl
  | some e =>
    show ((Outcome.takeElapsed o.ending.tail).map _ >>= _) = _
    rw [o.takeElapsed_ending he]
    show Except.ok (Outcome.mk o.ret (some e.duration) (if _ then _ else _)) = _
    rw [hremark]
    rfl

/-! ## The end of a call -/

theorem not_mem_label {c : Char} (hc : c ∉ " _".toList) (halpha : c.isAlphanum = false) :
    c ∉ spaced o.ret.label :=
  not_mem_spaced (fun heq => hc (by rw [heq]; decide)) fun _ hl =>
    (o.isReturn.isErrorName hl).not_mem halpha fun heq => hc (by rw [heq]; decide)

theorem not_mem_elapsed {c : Char} (hc : c ∉ " <.>".toList) (hdigit : c.isDigit = false) :
    c ∉ spaced (o.elapsed.map Elapsed.text) := by
  refine not_mem_spaced (fun heq => hc (by rw [heq]; decide)) fun t ht => ?_
  obtain ⟨e, -, rfl⟩ := Option.map_eq_some_iff.1 ht
  exact e.not_mem_text hdigit fun hm => hc (List.mem_cons_of_mem _ hm)

/-- No closing parenthesis after the return value is followed by an equals sign. -/
theorem notEquals {gap v : Text} (hgap : IsBlankRun gap) :
    ¬ ')' :: (gap ++ '=' :: v) <:+ o.rest := by
  intro h
  obtain ⟨p, hp⟩ := suffix_of_suffix_append h (o.not_mem_label (by decide) rfl)
  have hprefix : p ++ ')' :: gap ++ ['='] <+: spaced o.remark := by
    refine prefix_of_append_eq_append (b := v) ?_ (o.not_mem_elapsed (by decide) rfl)
    rw [← ending, ← hp]
    simp
  obtain ⟨q, hq⟩ := hprefix
  cases hr : o.remark with
  | none =>
    rw [hr] at hq
    simp [spaced] at hq
  | some t =>
    rw [hr] at hq
    rcases p with _ | ⟨c, p⟩
    · exact absurd (List.cons.inj hq).1 (by decide)
    · refine (o.isRemark t hr).noEquals gap hgap ⟨p, q, ?_⟩
      rw [← (List.cons.inj hq).2]
      simp

/-- The line does not end with the mark of an unfinished call. -/
theorem notInterrupted : ¬ CallForm.unfinishedMark <:+ o.rest := by
  intro h
  unfold rest ending at h
  cases he : o.elapsed with
  | some e =>
    rw [he] at h
    have helapsed : e.text <:+ spaced o.ret.label ++ (spaced o.remark ++ spaced (some e.text)) :=
      ((List.suffix_cons ' ' e.text).trans (List.suffix_append _ _)).trans (List.suffix_append _ _)
    rcases List.suffix_or_suffix_of_suffix h helapsed with h | h
    · exact e.not_mem_text (c := 'u') rfl (by decide) (h.mem (by decide))
    · obtain ⟨c, hc⟩ := List.exists_mem_of_ne_nil e.places e.ne_nil
      have hmem : c ∈ e.text :=
        List.mem_append_left _ (List.mem_cons_of_mem _ (List.mem_append_right _
          (List.mem_cons_of_mem _ hc)))
      have hmark : CallForm.unfinishedMark.all fun d => !d.isDigit := by decide
      have hnot := List.all_eq_true.1 hmark c (h.mem hmem)
      rw [e.isDigit c hc] at hnot
      cases hnot
  | none =>
    rw [he, Option.map_none, show spaced none = [] from rfl, List.append_nil] at h
    cases hr : o.remark with
    | some t =>
      obtain ⟨u, rfl⟩ := (o.isRemark t hr).parenthesized
      rw [hr] at h
      have hparen : [')'] <:+ spaced o.ret.label ++ spaced (some ('(' :: u ++ [')'])) :=
        (List.suffix_append (' ' :: '(' :: u) _).trans (List.suffix_append _ _)
      rcases List.suffix_or_suffix_of_suffix h hparen with h | h
      · exact absurd h (by decide)
      · exact absurd h (by decide)
    | none =>
      rw [hr, show spaced none = [] from rfl, List.append_nil] at h
      exact o.not_mem_label (c := '<') (by decide) rfl (h.mem (by decide))

/-- Nothing that is printed after the return value looks like the end of a call. -/
theorem isTail : CallForm.IsTail o.ret.value.text o.rest where
  ret_ne_nil := o.isReturn.text_ne_nil
  isReturnChar c hc := (o.isReturn.isReturnChar hc).1
  unblank c hc := (o.isReturn.isReturnChar (List.mem_of_mem_head? hc)).2
  ends c hc := by
    rw [o.isSpaced_rest.eq_of_mem_head? hc]
    decide
  isLine hm := by
    rcases List.mem_append.1 hm with hm | hm
    · exact o.not_mem_label (by decide) rfl hm
    rcases List.mem_append.1 hm with hm | hm
    · exact not_mem_spaced (by decide) (fun t ht => (o.isRemark t ht).isLine) hm
    · exact o.not_mem_elapsed (by decide) rfl hm
  notReturned v hv := CallForm.returned?_eq_none_of_noEquals (fun _ _ hgap => o.notEquals hgap) hv
  notInterrupted := o.notInterrupted

end PrintedOutcome

end SyscallTrace
