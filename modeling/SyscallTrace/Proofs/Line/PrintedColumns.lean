import SyscallTrace.Line.Outcome
import SyscallTrace.Proofs.Line.Columns

/-!
# Printed columns

The columns in front of a call, as the tracer prints them (`Heading.text`): each of them with a
blank after it. Reading them under the options that print them gives them back, with the text that
follows (`Heading.take_text`).
-/

namespace SyscallTrace

open Text

namespace Heading

/-! ## Columns and their text -/

/-- A timestamp is made of digits, points and colons. -/
structure IsTimestamp (t : Text) : Prop where
  ne_nil : t ≠ []
  chars : ∀ c ∈ t, c.isDigit || c == '.' || c == ':'

/-- An instruction pointer is made of hexadecimal digits, or of question marks where it is not
known. -/
structure IsPointer (t : Text) : Prop where
  ne_nil : t ≠ []
  chars : ∀ c ∈ t, ReturnValue.isHexDigit c || c == '?'

/-- The columns are those that the options ask for, and each of them is well formed. -/
structure IsPrinted (columns : Columns) (h : Heading) : Prop extends h.HasColumns columns where
  isTimestamp : ∀ t ∈ h.timestamp, IsTimestamp t
  isPointer : ∀ t ∈ h.instPointer, IsPointer t

def timestampText (timestamp : Option Text) : Text := timestamp.elim [] (· ++ [' '])

def pointerText (pointer : Option Text) : Text := pointer.elim [] fun p => '[' :: p ++ [']', ' ']

/-- The columns in front of a call. -/
def text (h : Heading) : Text :=
  Decimal.ofNat h.pid.toNat ++ ' ' :: (timestampText h.timestamp ++ pointerText h.instPointer)

/-! ## Reading the columns -/

variable {columns : Columns} {h : Heading} {t x : Text} {c : Char}

theorem IsTimestamp.plain (hx : IsTimestamp x) (hc : c ∈ x) :
    isBlank c = false ∧ isGap c = false ∧ c ≠ '+' ∧ c ≠ '-' := by
  have hchar := hx.chars c hc
  rw [Bool.or_eq_true, Bool.or_eq_true, beq_iff_eq, beq_iff_eq] at hchar
  rcases hchar with (hd | rfl) | rfl
  · have hblank := isBlank_eq_false_of_isAlphanum (Bool.or_eq_true _ _ ▸ Or.inr hd)
    refine ⟨hblank, isGap_eq_false hblank, ?_, ?_⟩ <;> rintro rfl <;> exact absurd hd (by decide)
  · decide
  · decide

theorem isTimestampColumn_text {mode : TimestampMode} {timestamp : Option Text}
    (hmode : timestamp.isSome = decide (mode ≠ .absent)) (hx : ∀ x ∈ timestamp, IsTimestamp x) :
    IsTimestampColumn mode timestamp (timestampText timestamp) := by
  cases timestamp with
  | none =>
    obtain rfl : mode = .absent := by simpa using hmode.symm
    exact .absent
  | some x =>
    have hx := hx x rfl
    have hnotice := (follows_append hx.ne_nil (fun c hc => (hx.plain hc).2) []).noNotice
    rw [List.append_nil] at hnotice
    exact .present (by simpa using hmode.symm) hx.ne_nil (fun c hc => (hx.plain hc).1) hnotice
      isGapRun_blank

theorem isPointerColumn_text {present : Bool} {pointer : Option Text}
    (hpresent : pointer.isSome = present) (hx : ∀ x ∈ pointer, IsPointer x) :
    IsPointerColumn present pointer (pointerText pointer) := by
  subst hpresent
  cases pointer with
  | none => exact .absent
  | some x =>
    have hx := hx x rfl
    have hfront : IsPointerColumn true (some x) ('[' :: x ++ [']'] ++ [' ']) :=
      .present hx.ne_nil (fun hm => absurd (hx.chars _ hm) (by decide)) isGapRun_blank
    rwa [List.append_assoc] at hfront

/-- Printed columns are columns in front of a call. -/
theorem IsPrinted.isFront (hh : h.IsPrinted columns) : IsFront columns h h.text := by
  have hvalue : Decimal.valueOf (Decimal.ofNat h.pid.toNat) = h.pid.toNat :=
    Nat.ofDigitChars_ten_toDigits
  have hfront : IsFront columns h (Decimal.ofNat h.pid.toNat ++ [' '] ++
      (timestampText h.timestamp ++ pointerText h.instPointer)) :=
    .mk (.mk (Decimal.isDigits_ofNat _) hvalue isGapRun_blank)
      (isTimestampColumn_text hh.timestamp hh.isTimestamp)
      (isPointerColumn_text hh.instPointer hh.isPointer)
  rwa [List.append_assoc] at hfront

/-- The columns are read as they were printed. -/
theorem take_text (hh : h.IsPrinted columns) (ht : Follows t) :
    take columns (h.text ++ t) = .ok (some (h, t)) :=
  take_eq_ok_iff.2 ⟨h.text, hh.isFront, rfl, ht⟩

end Heading

end SyscallTrace
