import Mathlib.Algebra.Order.Field.Rat
import Mathlib.Data.List.Induction
import Mathlib.Data.Rat.Cast.Order
import Mathlib.Tactic.FieldSimp
import Mathlib.Tactic.NormNum
import SyscallTrace.Proofs.Decimal
import SyscallTrace.Timestamp

/-!
# Seconds

Seconds are read as the number that they write, to the last nanosecond. `WritesSeconds` says which
texts write seconds, and which number each of them writes. Such a text is read, and no other one is
(`Duration.exists_ofText?`, `Duration.exists_writesSeconds`). What is read orders the texts by their
numbers, as a duration and as a time since the epoch (`Timestamp.ofText?_seconds`).
-/

namespace SyscallTrace

/-- The text writes a number of seconds: digits, and up to nine places after a point, if there is
one. The whole seconds fit a word of 64 bits. -/
inductive WritesSeconds : Text → ℚ → Prop where
  | whole {digits : Text} (hdigits : Decimal.isDigits digits)
      (hbound : Decimal.valueOf digits < 2 ^ 64) :
      WritesSeconds digits (Decimal.valueOf digits)
  | point {digits places : Text} (hdigits : Decimal.isDigits digits)
      (hbound : Decimal.valueOf digits < 2 ^ 64) (hplaces : ∀ c ∈ places, c.isDigit)
      (hlength : places.length ≤ 9) :
      WritesSeconds (digits ++ '.' :: places)
        (Decimal.valueOf digits + Decimal.valueOf places / 10 ^ places.length)

/-! ## Digits -/

namespace Decimal

variable {t : Text} {c : Char}

theorem toNat_of_isDigit (h : c.isDigit) : 48 ≤ c.toNat ∧ c.toNat ≤ 57 := by
  rw [Char.isDigit, Bool.and_eq_true, decide_eq_true_iff, decide_eq_true_iff] at h
  exact ⟨UInt32.le_iff_toNat_le.1 h.1, UInt32.le_iff_toNat_le.1 h.2⟩

/-- A number has no more than its digits. -/
theorem valueOf_lt (h : ∀ c ∈ t, c.isDigit) : valueOf t < 10 ^ t.length := by
  induction t using List.reverseRecOn with
  | nil => exact Nat.one_pos
  | append_singleton t c ih =>
    have ht := ih fun d hd => h d (List.mem_append_left _ hd)
    have hc := toNat_of_isDigit (h c (List.mem_append_right _ List.mem_cons_self))
    have hvalue : valueOf (t ++ [c]) = 10 * valueOf t + (c.toNat - 48) := by
      unfold valueOf
      rw [Nat.ofDigitChars_append]
      rfl
    rw [hvalue, List.length_append, List.length_singleton, Nat.pow_succ]
    omega

end Decimal

/-! ## Reading -/

namespace Duration

variable {t u digits places : Text} {q r : ℚ} {d e : Duration}

theorem totalNanos_eq (d : Duration) : d.totalNanos = d.seconds * 10 ^ 9 + d.nanos := rfl

theorem ofText?_of_isDigits (hdigits : Decimal.isDigits digits)
    (hbound : Decimal.valueOf digits < 2 ^ 64) :
    ofText? digits = some ⟨Decimal.valueOf digits, 0⟩ := by
  have hcut : Text.cutFirst? (· == '.') digits = none := by
    refine Text.cutFirst?_eq_none_iff.2 fun c hc => beq_eq_false_iff_ne.2 ?_
    rintro rfl
    exact absurd (Decimal.isDigit_of_isDigits hdigits hc) (by decide)
  unfold ofText?
  rw [hcut, Option.getD_none]
  dsimp only
  rw [hdigits, if_pos, fraction_eq]
  · rfl
  · rw [Bool.and_eq_true, decide_eq_true_iff]
    exact ⟨rfl, hbound⟩

/-- The places of a second are nanoseconds. -/
theorem nanos_lt (hplaces : ∀ c ∈ places, c.isDigit) (hlength : places.length ≤ 9) :
    Decimal.valueOf places * 10 ^ (9 - places.length) < 10 ^ 9 := by
  calc Decimal.valueOf places * 10 ^ (9 - places.length)
      < 10 ^ places.length * 10 ^ (9 - places.length) :=
        Nat.mul_lt_mul_of_pos_right (Decimal.valueOf_lt hplaces) (Nat.pow_pos (by omega))
    _ = 10 ^ 9 := by rw [← Nat.pow_add, Nat.add_sub_cancel' hlength]

/-- What writes seconds is read, as the number that it writes. -/
theorem exists_ofText? (h : WritesSeconds t q) :
    ∃ d, ofText? t = some d ∧ d.nanos < 10 ^ 9 ∧ (d.totalNanos : ℚ) = 10 ^ 9 * q := by
  cases h with
  | whole hdigits hbound =>
    refine ⟨_, ofText?_of_isDigits hdigits hbound, Nat.pow_pos (by omega), ?_⟩
    rw [totalNanos_eq]
    push_cast
    ring
  | @point digits places hdigits hbound hplaces hlength =>
    refine ⟨_, ofText?_point hdigits hbound hplaces hlength, nanos_lt hplaces hlength, ?_⟩
    have hpow : (10 : ℚ) ^ 9 = 10 ^ places.length * 10 ^ (9 - places.length) := by
      rw [← pow_add, Nat.add_sub_cancel' hlength]
    rw [totalNanos_eq, Nat.cast_add, Nat.cast_mul, Nat.cast_mul, Nat.cast_pow, Nat.cast_pow,
      Nat.cast_ofNat, mul_add, mul_comm (_ : ℚ) (10 ^ 9), hpow]
    field_simp

/-- Nothing else is read. -/
theorem exists_writesSeconds (h : ofText? t = some d) : ∃ q, WritesSeconds t q := by
  unfold ofText? at h
  split at h
  next whole part hcut =>
  split at h
  · next hread =>
    rw [Bool.and_eq_true, Bool.and_eq_true, Bool.and_eq_true, List.all_eq_true,
      decide_eq_true_iff, decide_eq_true_iff] at hread
    obtain ⟨⟨⟨hwhole, hpart⟩, hlength⟩, hbound⟩ := hread
    cases hpoint : t.cutFirst? (· == '.') with
    | none =>
      rw [hpoint] at hcut
      obtain ⟨rfl, -⟩ := Prod.mk.inj hcut
      exact ⟨_, .whole hwhole hbound⟩
    | some x =>
      rw [hpoint] at hcut
      obtain rfl : x = (whole, part) := hcut
      obtain ⟨c, hc, -, rfl⟩ := Text.eq_append_of_cutFirst? hpoint
      rw [beq_iff_eq.1 hc]
      exact ⟨_, .point hwhole hbound hpart hlength⟩
  · cases h

theorem isSome_ofText?_iff : (ofText? t).isSome ↔ ∃ q, WritesSeconds t q := by
  rw [Option.isSome_iff_exists]
  constructor
  · rintro ⟨d, hd⟩
    exact exists_writesSeconds hd
  · rintro ⟨q, hq⟩
    obtain ⟨d, hd, -⟩ := exists_ofText? hq
    exact ⟨d, hd⟩

/-! ## Order -/

/-- The nanoseconds below a second never outweigh the seconds. -/
theorem compare_eq_compare_totalNanos (hd : d.nanos < 10 ^ 9) (he : e.nanos < 10 ^ 9) :
    compare d e = compare d.totalNanos e.totalNanos := by
  show (compare d.seconds e.seconds).then (compare d.nanos e.nanos) = _
  rw [totalNanos_eq, totalNanos_eq]
  rcases Nat.lt_trichotomy d.seconds e.seconds with hlt | heq | hgt
  · have htotal : d.seconds * 10 ^ 9 + d.nanos < e.seconds * 10 ^ 9 + e.nanos := by omega
    rw [Nat.compare_eq_lt.2 hlt, Nat.compare_eq_lt.2 htotal]
    rfl
  · rw [heq, Nat.compare_eq_eq.2 rfl]
    show compare d.nanos e.nanos = _
    rcases Nat.lt_trichotomy d.nanos e.nanos with hlt | heq | hgt
    · rw [Nat.compare_eq_lt.2 hlt, Nat.compare_eq_lt.2 (Nat.add_lt_add_left hlt _)]
    · rw [heq, Nat.compare_eq_eq.2 rfl, Nat.compare_eq_eq.2 rfl]
    · rw [Nat.compare_eq_gt.2 hgt, Nat.compare_eq_gt.2 (Nat.add_lt_add_left hgt _)]
  · have htotal : e.seconds * 10 ^ 9 + e.nanos < d.seconds * 10 ^ 9 + d.nanos := by omega
    rw [Nat.compare_eq_gt.2 hgt, Nat.compare_eq_gt.2 htotal]
    rfl

/-- Nanoseconds are ordered as the seconds that they make. -/
theorem compare_totalNanos_eq (hd : (d.totalNanos : ℚ) = 10 ^ 9 * q)
    (he : (e.totalNanos : ℚ) = 10 ^ 9 * r) : compare d.totalNanos e.totalNanos = compare q r := by
  calc compare d.totalNanos e.totalNanos = cmp d.totalNanos e.totalNanos :=
        (cmp_eq_compare _ _).symm
    _ = cmp (d.totalNanos : ℚ) e.totalNanos := (Nat.strictMono_cast.cmp_map_eq _ _).symm
    _ = cmp q r := by rw [hd, he, cmp_mul_pos_left (by positivity)]
    _ = compare q r := cmp_eq_compare q r

end Duration

/-! ## Timestamps in seconds -/

namespace Timestamp

variable {t : Text}

/-- A text is read as seconds exactly if it writes them, and then as the number that it writes: as
that duration under relative timestamps and, up to the last moment that has a date, as that time
since the epoch. What is read is ordered as the numbers are. -/
theorem ofText?_seconds :
    ((Duration.ofText? t).isSome ↔ ∃ q, WritesSeconds t q) ∧
      ∀ q, WritesSeconds t q → ∃ d, Duration.ofText? t = some d ∧ d.nanos < 10 ^ 9 ∧
        d.totalNanos = d.seconds * 10 ^ 9 + d.nanos ∧ (d.totalNanos : ℚ) = 10 ^ 9 * q ∧
        ofText? .relative t = some ⟨t, .relative d⟩ ∧
        (d.totalNanos ≤ lastNanos → ofText? .epoch t = some ⟨t, .epoch d.totalNanos⟩) ∧
        ∀ u r e, WritesSeconds u r → Duration.ofText? u = some e →
          compare d e = compare q r ∧ compare d.totalNanos e.totalNanos = compare q r := by
  refine ⟨Duration.isSome_ofText?_iff, fun q hq => ?_⟩
  obtain ⟨d, hd, hnanos, htotal⟩ := Duration.exists_ofText? hq
  refine ⟨d, hd, hnanos, d.totalNanos_eq, htotal, ?_, fun hlast => ?_, fun u r e hr he => ?_⟩
  · unfold ofText?
    rw [hd]
    rfl
  · unfold ofText?
    rw [hd, Option.filter_some, if_pos (decide_eq_true hlast)]
    rfl
  · obtain ⟨e', he', hnanos', htotal'⟩ := Duration.exists_ofText? hr
    obtain rfl := Option.some.inj (he.symm.trans he')
    have horder := Duration.compare_totalNanos_eq htotal htotal'
    exact ⟨(Duration.compare_eq_compare_totalNanos hnanos hnanos').trans horder, horder⟩

/-- The last digit of nine counts, and zeros in front or at the end do not. -/
theorem ofText?_seconds_places :
    WritesSeconds "0001.5".toList (3 / 2) ∧ WritesSeconds "1.500000001".toList (1500000001 / 10 ^ 9) ∧
      ofText? .relative "0001.5".toList = some ⟨"0001.5".toList, .relative ⟨1, 500000000⟩⟩ ∧
      ofText? .epoch "0001.5".toList = some ⟨"0001.5".toList, .epoch 1500000000⟩ ∧
      compare (⟨1, 500000000⟩ : Duration) ⟨1, 500000001⟩ =
        compare (3 / 2 : ℚ) (1500000001 / 10 ^ 9) := by
  have hdigits : ∀ t : Text, t.all Char.isDigit → ∀ c ∈ t, c.isDigit := fun t ht =>
    List.all_eq_true.1 ht
  have hshort : WritesSeconds "0001.5".toList (3 / 2) := by
    have h : WritesSeconds ("0001".toList ++ '.' :: "5".toList) _ :=
      .point (by decide) (by decide) (hdigits _ (by decide)) (by decide)
    rw [show Decimal.valueOf "0001".toList = 1 by decide, show Decimal.valueOf "5".toList = 5 by decide,
      show "5".toList.length = 1 from rfl] at h
    rwa [show (3 / 2 : ℚ) = (1 : ℕ) + (5 : ℕ) / 10 ^ 1 by norm_num]
  have hlong : WritesSeconds "1.500000001".toList (1500000001 / 10 ^ 9) := by
    have h : WritesSeconds ("1".toList ++ '.' :: "500000001".toList) _ :=
      .point (by decide) (by decide) (hdigits _ (by decide)) (by decide)
    rw [show Decimal.valueOf "1".toList = 1 by decide,
      show Decimal.valueOf "500000001".toList = 500000001 by decide,
      show "500000001".toList.length = 9 from rfl] at h
    rwa [show (1500000001 / 10 ^ 9 : ℚ) = (1 : ℕ) + (500000001 : ℕ) / 10 ^ 9 by norm_num]
  obtain ⟨d, hd, -, -, -, hrelative, hepoch, horder⟩ := ofText?_seconds.2 _ hshort
  have hread : Duration.ofText? "0001.5".toList = some ⟨1, 500000000⟩ := by decide
  obtain rfl := Option.some.inj (hd.symm.trans hread)
  have hread' : Duration.ofText? "1.500000001".toList = some ⟨1, 500000001⟩ := by decide
  exact ⟨hshort, hlong, hrelative, hepoch (by decide), (horder _ _ _ hlong hread').1⟩

end Timestamp

end SyscallTrace
