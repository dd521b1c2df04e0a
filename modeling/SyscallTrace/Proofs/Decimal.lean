import Mathlib.Data.Nat.Digits.Defs
import SyscallTrace.Duration

/-!
# Printed numbers

A number that is printed in decimal is read back: `Decimal.uint32?_ofNat` for processes,
`Decimal.int64?_ofInt` for return values. Seconds that are printed with places are read as the
duration that they write (`Duration.ofText?_point`).
-/

namespace SyscallTrace

namespace Decimal

variable {t : Text} {n : Nat} {c : Char}

/-! ## Digits -/

theorem isDigit_of_mem_ofNat (h : c ∈ ofNat n) : c.isDigit :=
  Nat.isDigit_of_mem_toDigits (by omega) (by omega) h

theorem isDigits_iff : isDigits t ↔ t ≠ [] ∧ ∀ c ∈ t, c.isDigit := by
  unfold isDigits
  rw [Bool.and_eq_true, List.all_eq_true, Bool.not_eq_true', List.isEmpty_eq_false_iff]

theorem isDigits_ofNat (n : Nat) : isDigits (ofNat n) :=
  isDigits_iff.2 ⟨Nat.toDigits_ne_nil, fun _ hc => isDigit_of_mem_ofNat hc⟩

theorem digits?_of_isDigits (h : isDigits t) : digits? t = some (valueOf t) := if_pos h

theorem digits?_ofNat (n : Nat) : digits? (ofNat n) = some n := by
  rw [digits?_of_isDigits (isDigits_ofNat n)]
  exact congrArg some Nat.ofDigitChars_ten_toDigits

theorem isDigits_of_digits? (h : digits? t ≠ none) : isDigits t := by
  by_contra hnot
  exact h (if_neg hnot)

theorem isDigit_of_isDigits (h : isDigits t) (hc : c ∈ t) : c.isDigit :=
  (isDigits_iff.1 h).2 c hc

/-! ## Signs -/

/-- Digits are read as they are, since neither sign is one. -/
theorem unsigned?_of_isDigits (h : isDigits t) : unsigned? t = some (valueOf t) := by
  unfold unsigned?
  split
  · exact absurd (isDigit_of_isDigits h List.mem_cons_self) (by decide)
  · exact digits?_of_isDigits h

theorem signed?_of_isDigits (h : isDigits t) : signed? t = some (valueOf t : Int) := by
  unfold signed?
  split
  · exact absurd (isDigit_of_isDigits h List.mem_cons_self) (by decide)
  · exact absurd (isDigit_of_isDigits h List.mem_cons_self) (by decide)
  · rw [digits?_of_isDigits h]
    rfl

theorem signed?_ofInt (v : Int) : signed? (ofInt v) = some v := by
  cases v with
  | ofNat n =>
    rw [ofInt, signed?_of_isDigits (isDigits_ofNat n)]
    exact congrArg (fun m : Nat => some (m : Int)) Nat.ofDigitChars_ten_toDigits
  | negSucc n =>
    rw [ofInt, signed?, digits?_ofNat]
    rfl

/-- What is read as a number is made of digits, after a sign or with none. -/
theorem mem_of_signed? {v : Int} (h : signed? t = some v) (hc : c ∈ t) :
    c.isDigit ∨ c = '-' ∨ c = '+' := by
  unfold signed? at h
  split at h
  · next u =>
    have hu : isDigits u := isDigits_of_digits? fun hnone => by rw [hnone] at h; cases h
    exact (List.mem_cons.1 hc).symm.imp (isDigit_of_isDigits hu) .inl
  · next u =>
    have hu : isDigits u := isDigits_of_digits? fun hnone => by rw [hnone] at h; cases h
    exact (List.mem_cons.1 hc).symm.imp (isDigit_of_isDigits hu) .inr
  · have ht : isDigits t := isDigits_of_digits? fun hnone => by rw [hnone] at h; cases h
    exact .inl (isDigit_of_isDigits ht hc)

theorem mem_ofInt {v : Int} (hc : c ∈ ofInt v) : c.isDigit ∨ c = '-' := by
  cases v with
  | ofNat n => exact .inl (isDigit_of_mem_ofNat hc)
  | negSucc n =>
    rcases List.mem_cons.1 hc with rfl | hc
    · exact .inr rfl
    · exact .inl (isDigit_of_mem_ofNat hc)

theorem not_mem_ofInt {v : Int} (hdigit : c.isDigit = false) (hminus : c ≠ '-') :
    c ∉ ofInt v := fun hc => by
  rcases mem_ofInt hc with hd | hd
  · rw [hd] at hdigit
    cases hdigit
  · exact hminus hd

/-! ## Words -/

theorem below?_ofNat {bound : Nat} (h : n < bound) : below? bound (ofNat n) = some n := by
  unfold below?
  rw [unsigned?_of_isDigits (isDigits_ofNat _),
    show valueOf (ofNat n) = n from Nat.ofDigitChars_ten_toDigits, Option.filter_some,
    if_pos (by simpa using h)]

theorem uint16?_ofNat (v : UInt16) : uint16? (ofNat v.toNat) = some v := by
  unfold uint16?
  rw [below?_ofNat v.toNat_lt, Option.map_some, UInt16.ofNat_toNat]

theorem uint32?_ofNat (v : UInt32) : uint32? (ofNat v.toNat) = some v := by
  unfold uint32?
  rw [below?_ofNat v.toNat_lt, Option.map_some, UInt32.ofNat_toNat]

/-- Digits are read as the word whose number they write. -/
theorem uint32?_eq_some_iff {v : UInt32} (h : isDigits t) :
    uint32? t = some v ↔ valueOf t = v.toNat := by
  unfold uint32? below?
  rw [unsigned?_of_isDigits h]
  constructor
  · intro hv
    obtain ⟨n, hn, rfl⟩ := Option.map_eq_some_iff.1 hv
    obtain ⟨hn, hlt⟩ := Option.filter_eq_some_iff.1 hn
    rw [Option.some.inj hn]
    exact (UInt32.toNat_ofNat_of_lt' (by simpa using hlt)).symm
  · intro hv
    rw [hv, Option.filter_some, if_pos (decide_eq_true v.toNat_lt), Option.map_some,
      UInt32.ofNat_toNat]

theorem int64?_ofInt (v : Int64) : int64? (ofInt v.toInt) = some v := by
  have hlow : -Int.pow 2 63 ≤ v.toInt := v.le_toInt
  have hhigh : v.toInt < Int.pow 2 63 := v.toInt_lt
  have hfits : fitsInt64 v.toInt = true := by
    unfold fitsInt64
    rw [Bool.and_eq_true]
    exact ⟨decide_eq_true hlow, decide_eq_true hhigh⟩
  unfold int64?
  rw [signed?_ofInt, Option.filter_some, if_pos hfits, Option.map_some, Int64.ofInt_toInt]

/-- Digits are read exactly if the number that they write fits the word. -/
theorem int64?_of_isDigits (h : isDigits t) :
    int64? t = if valueOf t < 2 ^ 63 then some (Int64.ofInt (valueOf t)) else none := by
  have hfits : fitsInt64 (valueOf t : Int) = decide (valueOf t < 2 ^ 63) := by
    rw [Bool.eq_iff_iff, decide_eq_true_iff]
    unfold fitsInt64
    rw [Bool.and_eq_true, decide_eq_true_iff, decide_eq_true_iff,
      show (Int.pow 2 63 : Int) = 9223372036854775808 from rfl]
    omega
  unfold int64?
  rw [signed?_of_isDigits h, Option.filter_some, hfits]
  by_cases hvalue : valueOf t < 2 ^ 63
  · rw [if_pos hvalue, if_pos (decide_eq_true hvalue)]
    rfl
  · rw [if_neg hvalue, if_neg (by simpa using hvalue)]
    rfl

end Decimal

namespace Duration

variable {whole part : Text}

/-- Digits that stand for the first of some places count as if zeros followed. -/
theorem fraction_eq (places : Nat) (digits : Text) :
    fraction places digits = Decimal.valueOf digits * 10 ^ (places - digits.length) := by
  unfold fraction Decimal.valueOf
  rw [Nat.ofDigitChars_append, Nat.ofDigitChars_replicate_zero, Nat.mul_comm]

/-- Seconds with one to nine places are read as they are written. -/
theorem ofText?_point (hwhole : Decimal.isDigits whole) (hbound : Decimal.valueOf whole < 2 ^ 64)
    (hpart : ∀ c ∈ part, c.isDigit) (hlen : part.length ≤ 9) :
    ofText? (whole ++ '.' :: part) =
      some ⟨Decimal.valueOf whole, Decimal.valueOf part * 10 ^ (9 - part.length)⟩ := by
  have hcut : (whole ++ '.' :: part).cutFirst? (· == '.') = some (whole, part) := by
    refine Text.cutFirst?_append (fun c hc => beq_eq_false_iff_ne.2 ?_) (by decide)
    rintro rfl
    exact absurd (Decimal.isDigit_of_isDigits hwhole hc) (by decide)
  unfold ofText?
  rw [hcut, Option.getD_some]
  dsimp only
  rw [if_pos, fraction_eq]
  rw [Bool.and_eq_true, Bool.and_eq_true, Bool.and_eq_true]
  exact ⟨⟨⟨hwhole, List.all_eq_true.2 hpart⟩, decide_eq_true hlen⟩, decide_eq_true hbound⟩

/-- Seconds are written with digits and a point. -/
theorem isDigit_or_of_ofText? {t : Text} {d : Duration} {c : Char} (h : ofText? t = some d)
    (hc : c ∈ t) : c.isDigit ∨ c = '.' := by
  unfold ofText? at h
  split at h
  next whole part hcut =>
  split at h
  · next hdigits =>
    rw [Bool.and_eq_true, Bool.and_eq_true, Bool.and_eq_true, List.all_eq_true] at hdigits
    obtain ⟨⟨⟨hwhole, hpart⟩, -⟩, -⟩ := hdigits
    cases hpoint : t.cutFirst? (· == '.') with
    | none =>
      rw [hpoint] at hcut
      obtain ⟨rfl, -⟩ := Prod.mk.inj hcut
      exact .inl (Decimal.isDigit_of_isDigits hwhole hc)
    | some x =>
      rw [hpoint] at hcut
      obtain rfl : x = (whole, part) := hcut
      obtain ⟨point, hp, -, rfl⟩ := Text.eq_append_of_cutFirst? hpoint
      rcases List.mem_append.1 hc with hc | hc
      · exact .inl (Decimal.isDigit_of_isDigits hwhole hc)
      · rcases List.mem_cons.1 hc with rfl | hc
        · exact .inr (beq_iff_eq.1 hp)
        · exact .inl (hpart c hc)
  · cases h

theorem not_mem_of_ofText? {t : Text} {d : Duration} {c : Char} (h : ofText? t = some d)
    (hdigit : c.isDigit = false) (hpoint : c ≠ '.') : c ∉ t := fun hc => by
  rcases isDigit_or_of_ofText? h hc with hd | heq
  · rw [hd] at hdigit
    cases hdigit
  · exact hpoint heq

end Duration

end SyscallTrace
