import SyscallTrace.Proofs.Line.PrintedOutcome
import SyscallTrace.Proofs.Line.Reading

/-!
# What reading guarantees

Whatever the text of a line is, an outcome that can be read is in order (`Outcome.isRead_of_read`):
no number is below -1, an error has a name, and only -1 and a question mark have an error. The
elapsed time is there if the trace has that column, unless the call does not return. The calls of a
trace have such outcomes, and the columns of the trace (`Call.isRead_of_ofLine`).
-/

namespace SyscallTrace

/-- A return value that can be read, with the name of the error that belongs to it. -/
structure Return.IsRead (r : Return) : Prop where
  bounded : ∀ v, r.value = .int v → -1 ≤ v
  isSome_label : r.value = .int (-1) → r.label.isSome
  value_of_label : ∀ label ∈ r.label, r.value = .int (-1) ∨ r.value = .noReturn
  isErrorName : ∀ label ∈ r.label, IsErrorName label

/-- An outcome that can be read in a trace with or without elapsed times. -/
structure Outcome.IsRead (hasElapsed : Bool) (o : Outcome) : Prop extends o.ret.IsRead where
  isSome_elapsed : o.elapsed.isSome = (hasElapsed && decide (o.ret ≠ ⟨.noReturn, none⟩))

/-- A call that can be read in a trace with these columns. -/
structure Call.IsRead (columns : Columns) (c : Call) : Prop extends
    c.heading.HasColumns columns where
  outcome : ∀ o ∈ c.stage.outcome?, o.IsRead columns.elapsed

namespace Outcome

variable {t word ret rest rest' : Text} {value : ReturnValue} {label : Option Text}
  {hasElapsed : Bool} {o : Outcome}

theorem bounded_of_readValue (h : readValue t = .ok value) : ∀ v, value = .int v → -1 ≤ v := by
  rintro v rfl
  unfold readValue at h
  split at h
  · cases h
  · split at h
    · cases h
    · next hlt =>
      obtain rfl := ReturnValue.int.inj (Except.ok.inj h)
      exact Int64.not_lt.1 hlt
  · next hnot _ =>
    obtain rfl := Except.ok.inj h
    exact (hnot v rfl).elim

theorem isErrorLabel_iff : isErrorLabel word ↔ IsErrorName word := by
  refine ⟨fun h => ?_, IsErrorName.isErrorLabel⟩
  unfold isErrorLabel at h
  rw [Bool.and_eq_true, List.all_eq_true] at h
  obtain ⟨u, rfl⟩ := List.isPrefixOf_iff_prefix.1 h.1
  exact ⟨u, rfl, fun c hc => h.2 c (List.mem_cons_of_mem _ hc)⟩

theorem hasLabel_neg_one (word : Text) : hasLabel (.int (-1)) word := rfl

theorem value_of_hasLabel (h : hasLabel value word) : value = .int (-1) ∨ value = .noReturn := by
  cases value with
  | int v =>
    obtain rfl := beq_iff_eq.1 h
    exact .inl rfl
  | pointer address => cases h
  | noReturn => exact .inr rfl

/-- A label is taken exactly if one belongs there, and only if it is the name of an error. -/
theorem takeLabel_eq_ok_iff :
    takeLabel value t = .ok (label, rest) ↔
      (hasLabel value (Text.firstWord t) ∧ IsErrorName (Text.firstWord t) ∧
        label = some (Text.firstWord t) ∧
        rest = Text.trimStart (t.drop (Text.firstWord t).length)) ∨
      hasLabel value (Text.firstWord t) = false ∧ label = none ∧ rest = t := by
  unfold takeLabel
  dsimp only
  cases hlabel : hasLabel value (Text.firstWord t) with
  | false => simp [eq_comm]
  | true =>
    rw [if_pos rfl, ← isErrorLabel_iff]
    cases hname : isErrorLabel (Text.firstWord t) <;> simp [eq_comm]

theorem isRead_of_takeLabel (hvalue : ∀ v, value = .int v → -1 ≤ v)
    (h : takeLabel value t = .ok (label, rest)) : Return.IsRead ⟨value, label⟩ := by
  rcases takeLabel_eq_ok_iff.1 h with ⟨hlabel, hname, rfl, -⟩ | ⟨hlabel, rfl, -⟩
  · refine ⟨hvalue, fun _ => rfl, fun _ _ => value_of_hasLabel hlabel, fun label hl => ?_⟩
    rwa [← Option.some.inj hl]
  · refine ⟨hvalue, ?_, fun label hl => (by cases hl), fun label hl => (by cases hl)⟩
    rintro rfl
    rw [hasLabel_neg_one] at hlabel
    cases hlabel

theorem isRead_of_read (h : read hasElapsed ret rest = .ok o) : o.IsRead hasElapsed := by
  obtain ⟨value, hvalue, h⟩ := bind_eq_ok_iff.1 h
  obtain ⟨⟨label, rest₁⟩, hlabel, h⟩ := bind_eq_ok_iff.1 h
  have hread := isRead_of_takeLabel (bounded_of_readValue hvalue) hlabel
  dsimp only at h
  -- the elapsed time is taken only off the text of a call that returns
  cases hret : hasElapsed && returns ⟨value, label⟩ with
  | false =>
    rw [hret] at h
    rw [returns_eq] at hret
    obtain ⟨⟨elapsed, rest₂⟩, helapsed, h⟩ := bind_eq_ok_iff.1 h
    obtain ⟨rfl, -⟩ := Prod.mk.inj (Except.ok.inj helapsed)
    obtain rfl := pure_eq_ok_iff.1 h
    exact ⟨hread, hret.symm⟩
  | true =>
    rw [hret] at h
    rw [returns_eq] at hret
    obtain ⟨⟨elapsed, rest₂⟩, helapsed, h⟩ := bind_eq_ok_iff.1 h
    obtain ⟨x, -, hx⟩ := map_eq_ok_iff.1 helapsed
    obtain ⟨rfl, -⟩ := Prod.mk.inj hx
    obtain rfl := pure_eq_ok_iff.1 h
    exact ⟨hread, hret.symm⟩

end Outcome

namespace Call

variable {columns : Columns} {hasElapsed : Bool} {h : Heading} {form : CallForm} {c : Call}
  {line : Text}

theorem isRead_of_ofForm (hc : ofForm hasElapsed h form = .ok c) :
    ∀ o ∈ c.stage.outcome?, o.IsRead hasElapsed := by
  intro o ho
  cases form with
  | complete name args ret rest | resumed name args ret rest =>
    obtain ⟨outcome, hread, hc⟩ := bind_eq_ok_iff.1 hc
    obtain rfl := pure_eq_ok_iff.1 hc
    obtain rfl := Option.some.inj ho
    exact Outcome.isRead_of_read hread
  | unfinished name args | continued name args =>
    obtain rfl := Except.ok.inj hc
    cases ho

/-- The calls on the lines of a trace are in order. -/
theorem isRead_of_ofLine (hc : ofLine columns line = .ok (some c)) : c.IsRead columns := by
  obtain ⟨-, h, body, form, -, -, hform⟩ := ofLine_eq_ok_some_iff.1 hc
  exact ⟨hasColumns_of_ofLine hc, isRead_of_ofForm hform⟩

end Call

end SyscallTrace
