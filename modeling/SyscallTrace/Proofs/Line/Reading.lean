import SyscallTrace.Line.Call
import SyscallTrace.Proofs.Success

/-!
# Reading a line

What it takes to read a call off a line: `Heading.take_eq_ok_some_iff` for the columns in front of
it and `Call.ofLine_eq_ok_some_iff` for the whole line. The columns that a heading has are those of
its trace (`Call.hasColumns_of_ofLine`).
-/

namespace SyscallTrace

variable {columns : Columns} {t body : Text} {h : Heading} {c : Call}

namespace Heading

theorem take_eq_ok_some_iff :
    take columns t = .ok (some (h, body)) ↔ ∃ t₁ t₂,
      takePid t = .ok (h.pid, t₁) ∧ isNotice t₁ = false ∧
      takeTimestamp columns.timestamp t₁ = .ok (h.timestamp, t₂) ∧ isNotice t₂ = false ∧
      takeInstPointer columns.instPointer t₂ = .ok (h.instPointer, body) ∧
      isNotice body = false := by
  unfold take
  rw [bind_eq_ok_iff]
  constructor
  · rintro ⟨⟨pid, t₁⟩, hpid, ht⟩
    dsimp only at ht
    cases h₁ : isNotice t₁ with
    | true =>
      rw [h₁] at ht
      cases ht
    | false =>
      rw [h₁] at ht
      obtain ⟨⟨timestamp, t₂⟩, htime, ht⟩ := bind_eq_ok_iff.1 ht
      dsimp only at ht
      cases h₂ : isNotice t₂ with
      | true =>
        rw [h₂] at ht
        cases ht
      | false =>
        rw [h₂] at ht
        obtain ⟨⟨pointer, t₃⟩, hptr, ht⟩ := bind_eq_ok_iff.1 ht
        dsimp only at ht
        cases h₃ : isNotice t₃ with
        | true =>
          rw [h₃] at ht
          cases ht
        | false =>
          rw [h₃] at ht
          obtain ⟨rfl, rfl⟩ := Prod.mk.inj (Option.some.inj (pure_eq_ok_iff.1 ht))
          exact ⟨t₁, t₂, hpid, h₁, htime, h₂, hptr, h₃⟩
  · rintro ⟨t₁, t₂, hpid, h₁, htime, h₂, hptr, h₃⟩
    refine ⟨(h.pid, t₁), hpid, ?_⟩
    dsimp only
    rw [h₁]
    refine bind_eq_ok_iff.2 ⟨(h.timestamp, t₂), htime, ?_⟩
    dsimp only
    rw [h₂]
    refine bind_eq_ok_iff.2 ⟨(h.instPointer, body), hptr, ?_⟩
    dsimp only
    rw [h₃]
    rfl

theorem isSome_of_takeTimestamp {mode : TimestampMode} {timestamp : Option Text} {rest : Text}
    (ht : takeTimestamp mode t = .ok (timestamp, rest)) :
    timestamp.isSome = decide (mode ≠ .absent) := by
  unfold takeTimestamp at ht
  split at ht
  · next hm =>
    obtain ⟨rfl, -⟩ := Prod.mk.inj (Except.ok.inj ht)
    simp [hm]
  · next hm =>
    obtain ⟨x, -, hx⟩ := elim_eq_ok_iff.1 ht
    obtain ⟨rfl, -⟩ := Prod.mk.inj (Except.ok.inj hx)
    simp [hm]

theorem isSome_of_takeInstPointer {present : Bool} {pointer : Option Text} {rest : Text}
    (ht : takeInstPointer present t = .ok (pointer, rest)) : pointer.isSome = present := by
  unfold takeInstPointer at ht
  cases present with
  | false =>
    obtain ⟨rfl, -⟩ := Prod.mk.inj (Except.ok.inj ht)
    rfl
  | true =>
    obtain ⟨x, -, hx⟩ := elim_eq_ok_iff.1 ht
    obtain ⟨rfl, -⟩ := Prod.mk.inj (Except.ok.inj hx)
    rfl

/-- The heading has the optional columns of its trace. -/
structure HasColumns (columns : Columns) (h : Heading) : Prop where
  timestamp : h.timestamp.isSome = decide (columns.timestamp ≠ .absent)
  instPointer : h.instPointer.isSome = columns.instPointer

/-- Of two columns that are both there or both missing, the first one counts. -/
theorem or_eq_left {a b : Option Text} (hab : a.isSome = b.isSome) : a.or b = a := by
  cases a with
  | some x => rfl
  | none =>
    cases b with
    | none => rfl
    | some y => cases hab

namespace HasColumns

variable {h' : Heading}

theorem timestamp_or (hh : h.HasColumns columns) (hh' : h'.HasColumns columns) :
    h.timestamp.or h'.timestamp = h.timestamp :=
  or_eq_left (hh.timestamp.trans hh'.timestamp.symm)

theorem instPointer_or (hh : h.HasColumns columns) (hh' : h'.HasColumns columns) :
    h.instPointer.or h'.instPointer = h.instPointer :=
  or_eq_left (hh.instPointer.trans hh'.instPointer.symm)

end HasColumns

end Heading

namespace Call

variable {line : Text}

theorem heading_of_ofForm {hasElapsed : Bool} {form : CallForm}
    (hc : ofForm hasElapsed h form = .ok c) : c.heading = h := by
  cases form with
  | complete name args ret rest | resumed name args ret rest =>
    obtain ⟨outcome, -, hc⟩ := bind_eq_ok_iff.1 hc
    rw [← pure_eq_ok_iff.1 hc]
  | unfinished name args | continued name args => rw [← Except.ok.inj hc]

/-- A line shows a call if it has the columns of its trace and, after them, a call in one of the
four forms. -/
theorem ofLine_eq_ok_some_iff :
    ofLine columns line = .ok (some c) ↔ line.trim ≠ [] ∧ ∃ h body form,
      Heading.take columns line.trim = .ok (some (h, body)) ∧
      CallForm.ofText? body = some form ∧ ofForm columns.elapsed h form = .ok c := by
  unfold ofLine
  cases hb : line.trim.isEmpty with
  | true =>
    rw [List.isEmpty_iff] at hb
    simp [hb]
  | false =>
    have hne : line.trim ≠ [] := List.isEmpty_eq_false_iff.1 hb
    rw [if_neg (by simp), mapError_eq_ok_iff]
    unfold read
    rw [bind_eq_ok_iff]
    constructor
    · rintro ⟨x?, hx, hc⟩
      cases x? with
      | none => cases hc
      | some x =>
        obtain ⟨h, body⟩ := x
        dsimp only at hc
        cases hf : CallForm.ofText? body with
        | none =>
          rw [hf] at hc
          cases hc
        | some form =>
          rw [hf] at hc
          obtain ⟨c', hc', hc⟩ := bind_eq_ok_iff.1 hc
          obtain rfl := Option.some.inj (pure_eq_ok_iff.1 hc)
          exact ⟨hne, h, body, form, hx, hf, hc'⟩
    · rintro ⟨-, h, body, form, hx, hf, hc⟩
      refine ⟨some (h, body), hx, ?_⟩
      dsimp only
      rw [hf]
      exact bind_eq_ok_iff.2 ⟨c, hc, rfl⟩

/-- A line with columns and a form has a call if the form has an outcome. -/
theorem ofLine_eq_of_take {form : CallForm} (hl : line.trim = line)
    (htake : Heading.take columns line = .ok (some (h, body)))
    (hform : CallForm.ofText? body = some form) :
    ofLine columns line = ((ofForm columns.elapsed h form).map some).mapError (.format line) := by
  have hne : line.isEmpty = false := by
    rw [List.isEmpty_eq_false_iff]
    rintro rfl
    cases htake
  have hread : read columns line = (ofForm columns.elapsed h form).map some := by
    unfold read
    rw [htake, ok_bind]
    dsimp only
    rw [hform]
    dsimp only
    cases ofForm columns.elapsed h form <;> rfl
  unfold ofLine
  rw [hl, hne, if_neg (by simp), hread]

/-- The calls of a trace have the columns of the trace. -/
theorem hasColumns_of_ofLine (hc : ofLine columns line = .ok (some c)) :
    c.heading.HasColumns columns := by
  obtain ⟨-, h, body, form, ht, -, hc⟩ := ofLine_eq_ok_some_iff.1 hc
  obtain ⟨t₁, t₂, -, -, htime, -, hptr, -⟩ := Heading.take_eq_ok_some_iff.1 ht
  rw [heading_of_ofForm hc]
  exact ⟨Heading.isSome_of_takeTimestamp htime, Heading.isSome_of_takeInstPointer hptr⟩

end Call

end SyscallTrace
