import SyscallTrace.Proofs.Argument.Rendering
import SyscallTrace.Proofs.Decimal

/-!
# What flags stand for

A piece of a flags token that writes an octal mode is replaced by permissions that share out the
bits of the mode; other pieces are kept (`Flags.Expands`). The text of the flags is read as the same
flags again, so a second reading expands nothing.

* `Permission.pairwise_ofMode`, `Permission.union_ofMode`: no bit of a mode is given twice, and
  none is left out. The digits of a mode are about different users, whose bits do not meet.
* `Flags.expands_ofPiece`: one piece.
* `Flags.text_ofToken_text`: reading the text of flags that are no modes themselves.
* `Flags.ofToken_expands`: a whole token.
-/

namespace SyscallTrace

/-! ## The bits of a mode -/

namespace Permission

/-- The permissions have no bit in common. -/
def Apart (p q : Permission) : Prop := p.bits &&& q.bits = 0

instance : DecidableRel Apart := fun _ _ => instDecidableEqNat _ _

/-- The bits of all permissions together. -/
def union (ps : List Permission) : Nat :=
  ps.foldl (fun n p => n ||| p.bits) 0

variable {p q : Permission} {ps qs : List Permission} {users users' : UserClass}
  {digit digit' mode : Nat}

theorem foldl_or_bits (n : Nat) (ps : List Permission) :
    ps.foldl (fun n p => n ||| p.bits) n = n ||| union ps := by
  unfold union
  induction ps generalizing n with
  | nil => rw [List.foldl_nil, List.foldl_nil, Nat.or_zero]
  | cons p ps ih =>
    rw [List.foldl_cons, List.foldl_cons, ih, ih (0 ||| _), Nat.zero_or, Nat.or_assoc]

theorem union_append (ps qs : List Permission) : union (ps ++ qs) = union ps ||| union qs := by
  conv_lhs => rw [union, List.foldl_append, foldl_or_bits, foldl_or_bits, Nat.zero_or]

theorem digit_cases (h : digit < 8) : digit = 0 ∨ digit = 1 ∨ digit = 2 ∨ digit = 3 ∨ digit = 4 ∨
    digit = 5 ∨ digit = 6 ∨ digit = 7 := by
  omega

theorem pairwise_ofDigit (users : UserClass) (h : digit < 8) :
    (ofDigit users digit).Pairwise Apart := by
  cases users <;> rcases digit_cases h with rfl | rfl | rfl | rfl | rfl | rfl | rfl | rfl <;> decide

theorem union_ofDigit (users : UserClass) (h : digit < 8) :
    union (ofDigit users digit) = digit * users.weight := by
  cases users <;> rcases digit_cases h with rfl | rfl | rfl | rfl | rfl | rfl | rfl | rfl <;> decide

theorem of_mem_ofDigit (h : p ∈ ofDigit users digit) :
    p = full users ∨ ∃ right, p = one users right := by
  unfold ofDigit at h
  split at h
  · exact .inl (List.mem_singleton.1 h)
  · obtain ⟨right, -, hright⟩ := List.mem_filterMap.1 h
    split at hright
    · exact .inr ⟨right, (Option.some.inj hright).symm⟩
    · cases hright

theorem bits_and_full (h : p ∈ ofDigit users digit) : p.bits &&& (full users).bits = p.bits := by
  rcases of_mem_ofDigit h with rfl | ⟨right, rfl⟩
  · exact Nat.and_self _
  · cases users <;> cases right <;> decide

theorem full_apart (h : users ≠ users') : Apart (full users) (full users') := by
  cases users <;> cases users' <;> revert h <;> decide

/-- The bits of different users do not meet. -/
theorem apart_of_ne (h : users ≠ users') (hp : p ∈ ofDigit users digit)
    (hq : q ∈ ofDigit users' digit') : Apart p q := by
  have hfull := full_apart h
  unfold Apart at hfull ⊢
  calc p.bits &&& q.bits
      = p.bits &&& (full users).bits &&& ((full users').bits &&& q.bits) := by
        rw [bits_and_full hp, Nat.and_comm (full users').bits, bits_and_full hq]
    _ = p.bits &&& ((full users).bits &&& (full users').bits &&& q.bits) := by
        rw [Nat.and_assoc, Nat.and_assoc]
    _ = 0 := by rw [hfull, Nat.zero_and, Nat.and_zero]

theorem pairwise_ofMode (mode : Nat) : (ofMode mode).Pairwise Apart := by
  unfold ofMode
  split
  · exact List.pairwise_singleton _ _
  · have hdigit : ∀ n, n % 8 < 8 := fun n => Nat.mod_lt n (by decide)
    rw [List.pairwise_append, List.pairwise_append]
    refine ⟨⟨pairwise_ofDigit _ (hdigit _), pairwise_ofDigit _ (hdigit _), fun p hp q hq => ?_⟩,
      pairwise_ofDigit _ (hdigit _), fun p hp q hq => ?_⟩
    · exact apart_of_ne (by decide) hp hq
    · rcases List.mem_append.1 hp with hp | hp
      · exact apart_of_ne (by decide) hp hq
      · exact apart_of_ne (by decide) hp hq

theorem union_ofMode (h : mode < 512) : union (ofMode mode) = mode := by
  unfold ofMode
  split
  · next hall => rw [hall]; decide
  · have hdigit : ∀ n, n % 8 < 8 := fun n => Nat.mod_lt n (by decide)
    rw [union_append, union_append, union_ofDigit _ (hdigit _), union_ofDigit _ (hdigit _),
      union_ofDigit _ (hdigit _)]
    -- the digits stand in places of three bits each
    have hinner : 8 * (mode / 8 % 8) + mode % 8 = 8 * (mode / 8 % 8) ||| mode % 8 :=
      Nat.two_pow_add_eq_or_of_lt (i := 3) (hdigit mode) _
    have houter : 64 * (mode / 64 % 8) + (8 * (mode / 8 % 8) + mode % 8) =
        64 * (mode / 64 % 8) ||| (8 * (mode / 8 % 8) + mode % 8) :=
      Nat.two_pow_add_eq_or_of_lt (i := 6) (by omega) _
    calc mode / 64 % 8 * 64 ||| mode / 8 % 8 * 8 ||| mode % 8 * 1
        = 64 * (mode / 64 % 8) ||| (8 * (mode / 8 % 8) ||| mode % 8) := by
          rw [Nat.or_assoc, Nat.mul_comm _ 64, Nat.mul_comm _ 8, Nat.mul_one]
      _ = 64 * (mode / 64 % 8) + (8 * (mode / 8 % 8) + mode % 8) := by rw [← hinner, houter]
      _ = mode := by omega

/-! ## Modes as they are written -/

/-- The number that octal digits write. -/
def octalValue (t : Text) : Nat :=
  Nat.ofDigitChars 8 t 0

/-- An octal mode of at most three digits after its leading zeros. -/
def IsMode (t : Text) : Prop :=
  Decimal.isDigits t ∧ '8' ∉ t ∧ '9' ∉ t ∧ (t.dropWhile (· == '0')).length ≤ 3

instance : DecidablePred IsMode := fun _ => instDecidableAnd

variable {t : Text} {c : Char}

theorem isOctalDigit_iff_toNat : isOctalDigit c ↔ 48 ≤ c.toNat ∧ c.toNat ≤ 55 := by
  unfold isOctalDigit
  rw [Bool.and_eq_true, decide_eq_true_iff, decide_eq_true_iff, Char.le_def, Char.le_def,
    UInt32.le_iff_toNat_le, UInt32.le_iff_toNat_le]
  exact Iff.rfl

theorem isOctalDigit_iff (h : c.isDigit) : isOctalDigit c ↔ c ≠ '8' ∧ c ≠ '9' := by
  have hne : ∀ d : Char, c ≠ d ↔ c.toNat ≠ d.toNat := fun d => not_congr Char.toNat_inj.symm
  have hdigit : 48 ≤ c.toNat ∧ c.toNat ≤ 57 := by
    unfold Char.isDigit at h
    rw [Bool.and_eq_true, decide_eq_true_iff, decide_eq_true_iff] at h
    exact ⟨UInt32.le_iff_toNat_le.1 h.1, UInt32.le_iff_toNat_le.1 h.2⟩
  rw [isOctalDigit_iff_toNat, hne, hne, show '8'.toNat = 56 from rfl, show '9'.toNat = 57 from rfl]
  omega

theorem all_isOctalDigit_iff (h : Decimal.isDigits t) :
    t.all isOctalDigit ↔ '8' ∉ t ∧ '9' ∉ t := by
  rw [List.all_eq_true]
  refine ⟨fun hall => ⟨fun hmem => ?_, fun hmem => ?_⟩, fun hnot c hc => ?_⟩
  · exact absurd (hall _ hmem) (by decide)
  · exact absurd (hall _ hmem) (by decide)
  · rw [isOctalDigit_iff (Decimal.isDigit_of_isDigits h hc)]
    exact ⟨fun heq => hnot.1 (heq ▸ hc), fun heq => hnot.2 (heq ▸ hc)⟩

/-- Leading zeros do not count. -/
theorem octalValue_dropWhile (t : Text) : octalValue (t.dropWhile (· == '0')) = octalValue t := by
  unfold octalValue
  induction t with
  | nil => rfl
  | cons c t ih =>
    rw [List.dropWhile_cons]
    split
    · next hzero =>
      rw [ih, Nat.ofDigitChars_cons, beq_iff_eq.1 hzero]
      rfl
    · rfl

theorem ofDigitChars_lt (h : t.all isOctalDigit) (n : Nat) :
    Nat.ofDigitChars 8 t n < (n + 1) * 8 ^ t.length := by
  induction t generalizing n with
  | nil =>
    rw [List.length_nil, Nat.pow_zero, Nat.mul_one]
    exact Nat.lt_succ_self n
  | cons c t ih =>
    rw [List.all_cons, Bool.and_eq_true] at h
    have hc := isOctalDigit_iff_toNat.1 h.1
    rw [Nat.ofDigitChars_cons, List.length_cons, Nat.pow_succ, Nat.mul_comm (8 ^ t.length),
      ← Nat.mul_assoc]
    refine Nat.lt_of_lt_of_le (ih h.2 _) (Nat.mul_le_mul_right _ ?_)
    rw [show '0'.toNat = 48 from rfl]
    omega

theorem octalValue_lt (h : IsMode t) : octalValue t < 512 := by
  obtain ⟨hdigits, height, hnine, hlen⟩ := h
  have hall : (t.dropWhile (· == '0')).all isOctalDigit := List.all_eq_true.2 fun c hc =>
    List.all_eq_true.1 ((all_isOctalDigit_iff hdigits).2 ⟨height, hnine⟩) c
      ((List.dropWhile_suffix _).mem hc)
  rw [← octalValue_dropWhile]
  calc octalValue (t.dropWhile (· == '0')) < (0 + 1) * 8 ^ (t.dropWhile (· == '0')).length :=
        ofDigitChars_lt hall 0
    _ ≤ (0 + 1) * 8 ^ 3 := Nat.mul_le_mul_left _ (Nat.pow_le_pow_right (by decide) hlen)

/-- Exactly the modes are read as such. -/
theorem ofOctal?_of_isDigits (h : Decimal.isDigits t) :
    ofOctal? t = if IsMode t then .ok (ofMode (octalValue t)) else .error ⟨t⟩ := by
  have hmode : (t.all isOctalDigit && (t.dropWhile (· == '0')).length ≤ 3) = true ↔ IsMode t := by
    rw [Bool.and_eq_true, all_isOctalDigit_iff h, decide_eq_true_iff, and_assoc]
    exact (and_iff_right h).symm
  unfold ofOctal?
  dsimp only
  by_cases ht : IsMode t
  · rw [if_pos ht, if_pos (hmode.2 ht), ← octalValue_dropWhile t]
    rfl
  · rw [if_neg ht, if_neg (mt hmode.1 ht)]

/-- Only the mode 0 gives nobody anything. -/
theorem ofMode_eq_nil_iff (h : mode < 512) : ofMode mode = [] ↔ mode = 0 := by
  refine ⟨fun hnil => ?_, fun hzero => ?_⟩
  · rw [← union_ofMode h, hnil]
    rfl
  · rw [hzero]
    decide

end Permission

/-! ## The flags of a piece -/

namespace Flags

open Permission

variable {t f : Text} {flags : List Text}

/-- The flags that a piece between bars stands for: the piece itself, or permissions that share out
the bits of the mode that it writes. -/
inductive Expands (t : Text) : List Text → Prop where
  | verbatim (h : ¬ IsMode t) : Expands t [t]
  | mode {ps : List Permission} (h : IsMode t) (apart : ps.Pairwise Apart)
      (union : union ps = octalValue t) : Expands t (ps.map symbol)

theorem ofPiece_of_isMode (h : IsMode t) : ofPiece t = (ofMode (octalValue t)).map symbol := by
  unfold ofPiece
  rw [if_pos h.1, ofOctal?_of_isDigits h.1, if_pos h]

theorem ofPiece_of_not_isMode (h : ¬ IsMode t) : ofPiece t = [t] := by
  by_cases hdigits : Decimal.isDigits t
  · unfold ofPiece
    rw [if_pos hdigits, ofOctal?_of_isDigits hdigits, if_neg h]
  · exact ofPiece_of_not_isDigits (Bool.eq_false_iff.2 hdigits)

theorem expands_ofPiece (t : Text) : Expands t (ofPiece t) := by
  by_cases h : IsMode t
  · rw [ofPiece_of_isMode h]
    exact .mode h (pairwise_ofMode _) (union_ofMode (octalValue_lt h))
  · rw [ofPiece_of_not_isMode h]
    exact .verbatim h

theorem isEmpty_ofPiece_iff : (ofPiece t).isEmpty ↔ IsMode t ∧ octalValue t = 0 := by
  by_cases h : IsMode t
  · rw [ofPiece_of_isMode h, List.isEmpty_iff, List.map_eq_nil_iff,
      ofMode_eq_nil_iff (octalValue_lt h), and_iff_right h]
  · rw [ofPiece_of_not_isMode h]
    exact iff_of_false Bool.false_ne_true fun hmode => h hmode.1

/-! ## Reading the text of flags -/

/-- A flag that is read as itself wherever it stands between bars. -/
def IsPlain (f : Text) : Prop := '|' ∉ f ∧ ¬ IsMode f

theorem isPlain_symbol (p : Permission) : IsPlain p.symbol := by
  have hplain : '|' ∉ p.symbol ∧ Decimal.isDigits p.symbol = false := by
    cases p with
    | one users right => cases users <;> cases right <;> decide
    | full users => cases users <;> decide
    | everything => decide
  exact ⟨hplain.1, fun hmode => by rw [hmode.1] at hplain; cases hplain.2⟩

theorem isPlain_of_mem_ofPiece (hbar : '|' ∉ t) (hf : f ∈ ofPiece t) : IsPlain f := by
  by_cases h : IsMode t
  · rw [ofPiece_of_isMode h] at hf
    obtain ⟨p, -, rfl⟩ := List.mem_map.1 hf
    exact isPlain_symbol p
  · rw [ofPiece_of_not_isMode h] at hf
    obtain rfl := List.mem_singleton.1 hf
    exact ⟨hbar, h⟩

theorem text_singleton (t : Text) : text [t] = t := by
  unfold text
  simp

/-- The text of plain flags writes the same flags again. -/
theorem text_ofToken_text (h : ∀ f ∈ flags, IsPlain f) :
    text (ofToken (text flags)) = text flags := by
  by_cases hnil : flags = []
  · subst hnil
    decide
  · have hne : ¬ flags.isEmpty = true := mt List.isEmpty_iff.1 hnil
    have hpieces : (text flags).splitOn '|' = flags := by
      unfold text
      rw [if_neg hne]
      exact List.splitOn_intercalate '|' (fun f hf => (h f hf).1) hnil
    conv_lhs => unfold ofToken
    split
    · exact text_singleton _
    · rw [hpieces, List.flatMap_congr fun f hf => ofPiece_of_not_isMode (h f hf).2,
        List.flatMap_singleton']

/-! ## The flags of a token -/

theorem ofToken_of_not_isDigits (h : ¬ Decimal.isDigits t) :
    ofToken t = (t.splitOn '|').flatMap ofPiece := by
  unfold ofToken
  rw [Bool.eq_false_iff.2 h, Bool.false_and, if_neg Bool.false_ne_true]

theorem ofToken_of_isDigits (h : Decimal.isDigits t) :
    ofToken t = if IsMode t ∧ octalValue t = 0 then [t] else ofPiece t := by
  have hbar : '|' ∉ t := fun hmem =>
    absurd (Decimal.isDigit_of_isDigits h hmem) (by decide)
  unfold ofToken
  rw [h, Bool.true_and, List.splitOn_eq_singleton hbar, List.flatMap_singleton]
  by_cases hzero : IsMode t ∧ octalValue t = 0
  · rw [if_pos hzero, if_pos (isEmpty_ofPiece_iff.2 hzero)]
  · rw [if_neg hzero, if_neg (mt isEmpty_ofPiece_iff.1 hzero)]

/-- Nothing is expanded at a second reading. -/
theorem text_ofToken_text_ofToken (t : Text) :
    text (ofToken (text (ofToken t))) = text (ofToken t) := by
  have hkept : ofToken t = [t] → text (ofToken (text (ofToken t))) = text (ofToken t) :=
    fun heq => by rw [heq, text_singleton, heq, text_singleton]
  by_cases h : Decimal.isDigits t
  · by_cases hzero : IsMode t ∧ octalValue t = 0
    · exact hkept (by rw [ofToken_of_isDigits h, if_pos hzero])
    · refine text_ofToken_text fun f hf => ?_
      rw [ofToken_of_isDigits h, if_neg hzero] at hf
      refine isPlain_of_mem_ofPiece (fun hmem => ?_) hf
      exact absurd (Decimal.isDigit_of_isDigits h hmem) (by decide)
  · refine text_ofToken_text fun f hf => ?_
    rw [ofToken_of_not_isDigits h] at hf
    obtain ⟨piece, hpiece, hf⟩ := List.mem_flatMap.1 hf
    exact isPlain_of_mem_ofPiece (Text.not_mem_of_mem_splitOn hpiece) hf

/-- The flags of a token are those of its pieces in order. A token that is the mode 0 is kept, since
it would have no flags. The text of the flags is read as flags with the same text. -/
theorem ofToken_expands (t : Text) :
    (¬ Decimal.isDigits t → ∃ expansions, List.Forall₂ Expands (t.splitOn '|') expansions ∧
      ofToken t = expansions.flatten) ∧
    (Decimal.isDigits t →
      if octalValue t = 0 then ofToken t = [t] else Expands t (ofToken t)) ∧
    (ArgumentValue.flags (ofToken (ArgumentValue.flags (ofToken t)).text)).text =
      (ArgumentValue.flags (ofToken t)).text := by
  refine ⟨fun h => ⟨(t.splitOn '|').map ofPiece, ?_, ?_⟩, fun h => ?_, ?_⟩
  · exact List.forall₂_map_right_iff.2 (List.forall₂_same.2 fun piece _ => expands_ofPiece piece)
  · rw [ofToken_of_not_isDigits h, List.flatMap_def]
  · rw [ofToken_of_isDigits h]
    by_cases hzero : octalValue t = 0
    · rw [if_pos hzero]
      split
      · rfl
      · next hkept => exact ofPiece_of_not_isMode fun hmode => hkept ⟨hmode, hzero⟩
    · rw [if_neg hzero, if_neg fun hkept => hzero hkept.2]
      exact expands_ofPiece t
  · exact text_ofToken_text_ofToken t

/-- A file type with a mode, and the mode alone. -/
theorem ofToken_expands_mknod :
    (∃ expansions, List.Forall₂ Expands ("S_IFREG|0640".toList.splitOn '|') expansions ∧
      ["S_IFREG".toList, "S_IRUSR".toList, "S_IWUSR".toList, "S_IRGRP".toList] =
        expansions.flatten) ∧
    Expands "0640".toList ["S_IRUSR".toList, "S_IWUSR".toList, "S_IRGRP".toList] := by
  have hnode : ofToken "S_IFREG|0640".toList =
      ["S_IFREG".toList, "S_IRUSR".toList, "S_IWUSR".toList, "S_IRGRP".toList] := by decide
  have hmode : ofToken "0640".toList =
      ["S_IRUSR".toList, "S_IWUSR".toList, "S_IRGRP".toList] := by decide
  have hpieces := (ofToken_expands "S_IFREG|0640".toList).1 (by decide)
  have hwhole := (ofToken_expands "0640".toList).2.1 (by decide)
  rw [if_neg (by decide)] at hwhole
  exact ⟨hnode ▸ hpieces, hmode ▸ hwhole⟩

end Flags

end SyscallTrace
