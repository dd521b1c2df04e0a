import SyscallTrace.Proofs.Decimal
import SyscallTrace.Proofs.Text.Cuts
import SyscallTrace.Timestamp

/-!
# Clock times

The texts that are read as a time of day, and the time that each of them stands for
(`TimeOfDay.ofText?_eq_some_iff`): hours, minutes and seconds in digits, within their bounds, and
one to six places after a point. Each of the three fields may carry a plus sign, since it is read as
a number is, and only texts with such a sign are read besides those that write a time without one
(`Timestamp.ofText?_clock`).
-/

namespace SyscallTrace

open Text

/-- The text writes a number below the bound in digits, with a plus sign in front of them only if
signs are allowed. -/
inductive WritesField (signs : Bool) (bound : Nat) : Text → Nat → Prop where
  | digits {t : Text} (hdigits : Decimal.isDigits t) (hbound : Decimal.valueOf t < bound) :
      WritesField signs bound t (Decimal.valueOf t)
  | plus {t : Text} (hsigns : signs = true) (hdigits : Decimal.isDigits t)
      (hbound : Decimal.valueOf t < bound) : WritesField signs bound ('+' :: t) (Decimal.valueOf t)

/-- The text writes hours, minutes and seconds between colons. -/
inductive WritesFields (signs : Bool) : Text → Nat → Nat → Nat → Prop where
  | mk {a b c : Text} {hour minute second : Nat} (ha : WritesField signs 24 a hour)
      (hb : WritesField signs 60 b minute) (hc : WritesField signs 60 c second) :
      WritesFields signs (a ++ ':' :: b ++ ':' :: c) hour minute second

/-- The text writes a time of day: its three fields, and one to six places of a second after a
point, if there is one. -/
inductive WritesClock (signs : Bool) : Text → TimeOfDay → Prop where
  | whole {fields : Text} {hour minute second : Nat}
      (hfields : WritesFields signs fields hour minute second) :
      WritesClock signs fields ⟨hour, minute, second, 0⟩
  | point {fields places : Text} {hour minute second : Nat}
      (hfields : WritesFields signs fields hour minute second)
      (hplaces : Decimal.isDigits places) (hlength : places.length ≤ 6) :
      WritesClock signs (fields ++ '.' :: places)
        ⟨hour, minute, second, Decimal.valueOf places * 10 ^ (6 - places.length)⟩

variable {signs : Bool} {bound n hour minute second micros : Nat} {t : Text} {time : TimeOfDay}

/-! ## Fields -/

namespace WritesField

theorem isDigit_or (h : WritesField signs bound t n) {c : Char} (hc : c ∈ t) :
    c.isDigit ∨ (signs = true ∧ c = '+') := by
  cases h with
  | digits hdigits _ => exact .inl (Decimal.isDigit_of_isDigits hdigits hc)
  | plus hsigns hdigits _ =>
    rcases List.mem_cons.1 hc with rfl | hc
    · exact .inr ⟨hsigns, rfl⟩
    · exact .inl (Decimal.isDigit_of_isDigits hdigits hc)

theorem not_mem (h : WritesField signs bound t n) {c : Char} (hdigit : c.isDigit = false)
    (hplus : c ≠ '+') : c ∉ t := by
  intro hc
  rcases h.isDigit_or hc with hd | ⟨-, rfl⟩
  · rw [hd] at hdigit
    cases hdigit
  · exact hplus rfl

/-- A field without a plus sign is one that allows none. -/
theorem false_iff :
    WritesField false bound t n ↔ WritesField true bound t n ∧ '+' ∉ t := by
  constructor
  · intro h
    cases h with
    | digits hdigits hbound =>
      refine ⟨.digits hdigits hbound, fun hplus => ?_⟩
      exact absurd (Decimal.isDigit_of_isDigits hdigits hplus) (by decide)
    | plus hsigns => cases hsigns
  · rintro ⟨h, hplus⟩
    cases h with
    | digits hdigits hbound => exact .digits hdigits hbound
    | plus => exact absurd List.mem_cons_self hplus

end WritesField

namespace WritesFields

/-- No point stands among the fields of a clock. -/
theorem noPoint (h : WritesFields signs t hour minute second) : '.' ∉ t := by
  obtain ⟨ha, hb, hc⟩ := h
  intro hm
  rcases List.mem_append.1 hm with hm | hm
  · rcases List.mem_append.1 hm with hm | hm
    · exact ha.not_mem rfl (by decide) hm
    · exact hb.not_mem rfl (by decide) ((List.mem_cons.1 hm).resolve_left (by decide))
  · exact hc.not_mem rfl (by decide) ((List.mem_cons.1 hm).resolve_left (by decide))

theorem false_iff : WritesFields false t hour minute second ↔
    WritesFields true t hour minute second ∧ '+' ∉ t := by
  constructor
  · rintro ⟨ha, hb, hc⟩
    obtain ⟨ha, ha'⟩ := WritesField.false_iff.1 ha
    obtain ⟨hb, hb'⟩ := WritesField.false_iff.1 hb
    obtain ⟨hc, hc'⟩ := WritesField.false_iff.1 hc
    exact ⟨.mk ha hb hc, by simp [ha', hb', hc']⟩
  · rintro ⟨⟨ha, hb, hc⟩, hplus⟩
    simp only [List.mem_append, List.mem_cons, not_or] at hplus
    obtain ⟨⟨ha', -, hb'⟩, -, hc'⟩ := hplus
    exact .mk (WritesField.false_iff.2 ⟨ha, ha'⟩) (WritesField.false_iff.2 ⟨hb, hb'⟩)
      (WritesField.false_iff.2 ⟨hc, hc'⟩)

end WritesFields

/-- A time of day without plus signs is one that allows none. -/
theorem WritesClock.false_iff : WritesClock false t time ↔ WritesClock true t time ∧ '+' ∉ t := by
  constructor
  · intro h
    cases h with
    | whole hfields =>
      obtain ⟨hfields, hplus⟩ := WritesFields.false_iff.1 hfields
      exact ⟨.whole hfields, hplus⟩
    | point hfields hplaces hlength =>
      obtain ⟨hfields, hplus⟩ := WritesFields.false_iff.1 hfields
      refine ⟨.point hfields hplaces hlength, fun hm => ?_⟩
      rcases List.mem_append.1 hm with hm | hm
      · exact hplus hm
      · have hplace := (List.mem_cons.1 hm).resolve_left (by decide)
        exact absurd (Decimal.isDigit_of_isDigits hplaces hplace) (by decide)
  · rintro ⟨h, hplus⟩
    cases h with
    | whole hfields => exact .whole (WritesFields.false_iff.2 ⟨hfields, hplus⟩)
    | point hfields hplaces hlength =>
      rw [List.mem_append, not_or] at hplus
      exact .point (WritesFields.false_iff.2 ⟨hfields, hplus.1⟩) hplaces hlength

/-- A number is read as a field that allows a sign. -/
theorem Decimal.below?_eq_some_iff :
    Decimal.below? bound t = some n ↔ WritesField true bound t n := by
  have hread : ∀ u, (Decimal.digits? u).filter (fun n => n < bound) = some n ↔
      Decimal.isDigits u ∧ Decimal.valueOf u < bound ∧ Decimal.valueOf u = n := by
    intro u
    rw [Option.filter_eq_some_iff, decide_eq_true_iff]
    unfold Decimal.digits?
    split
    · next hdigits =>
      rw [Option.some.injEq]
      constructor
      · rintro ⟨rfl, hbound⟩
        exact ⟨hdigits, hbound, rfl⟩
      · rintro ⟨-, hbound, rfl⟩
        exact ⟨rfl, hbound⟩
    · next hdigits =>
      constructor
      · rintro ⟨h, -⟩
        cases h
      · rintro ⟨h, -⟩
        exact absurd h hdigits
  unfold Decimal.below? Decimal.unsigned?
  constructor
  · intro h
    split at h
    · next u =>
      obtain ⟨hdigits, hbound, rfl⟩ := (hread u).1 h
      exact .plus rfl hdigits hbound
    · obtain ⟨hdigits, hbound, rfl⟩ := (hread t).1 h
      exact .digits hdigits hbound
  · intro h
    cases h with
    | digits hdigits hbound =>
      split
      · exact absurd (Decimal.isDigit_of_isDigits hdigits List.mem_cons_self) (by decide)
      · exact (hread t).2 ⟨hdigits, hbound, rfl⟩
    | plus _ hdigits hbound => exact (hread _).2 ⟨hdigits, hbound, rfl⟩

/-! ## Clocks -/

namespace TimeOfDay

theorem splitOn_colon_eq_iff {a b c : Text} :
    t.splitOn ':' = [a, b, c] ↔
      t = a ++ ':' :: b ++ ':' :: c ∧ ':' ∉ a ∧ ':' ∉ b ∧ ':' ∉ c := by
  have hjoin : [':'].intercalate [a, b, c] = a ++ ':' :: b ++ ':' :: c := by
    simp [List.intercalate, List.intersperse]
  constructor
  · intro h
    have hnot : ∀ u ∈ [a, b, c], ':' ∉ u := fun u hu => not_mem_of_mem_splitOn (h ▸ hu)
    rw [← hjoin, ← h, List.intercalate_splitOn]
    exact ⟨rfl, hnot a (by simp), hnot b (by simp), hnot c (by simp)⟩
  · rintro ⟨rfl, ha, hb, hc⟩
    rw [← hjoin]
    refine List.splitOn_intercalate ':' (fun u hu => ?_) (by simp)
    rw [List.mem_cons, List.mem_cons, List.mem_singleton] at hu
    rcases hu with rfl | rfl | rfl
    · exact ha
    · exact hb
    · exact hc

theorem clock?_eq_some_iff :
    clock? t = some (hour, minute, second) ↔ WritesFields true t hour minute second := by
  constructor
  · intro h
    unfold clock? at h
    split at h
    · next a b c hsplit =>
      obtain ⟨x, hx, h⟩ := Option.bind_eq_some_iff.1 h
      obtain ⟨y, hy, h⟩ := Option.bind_eq_some_iff.1 h
      obtain ⟨z, hz, h⟩ := Option.bind_eq_some_iff.1 h
      obtain ⟨rfl, heq⟩ := Prod.mk.inj (Option.some.inj h)
      obtain ⟨rfl, rfl⟩ := Prod.mk.inj heq
      rw [(splitOn_colon_eq_iff.1 hsplit).1]
      exact .mk (Decimal.below?_eq_some_iff.1 hx) (Decimal.below?_eq_some_iff.1 hy)
        (Decimal.below?_eq_some_iff.1 hz)
    · cases h
  · rintro ⟨ha, hb, hc⟩
    next a b c =>
    have hsplit : (a ++ ':' :: b ++ ':' :: c).splitOn ':' = [a, b, c] :=
      splitOn_colon_eq_iff.2 ⟨rfl, ha.not_mem rfl (by decide), hb.not_mem rfl (by decide),
        hc.not_mem rfl (by decide)⟩
    unfold clock?
    rw [hsplit]
    dsimp only
    rw [Decimal.below?_eq_some_iff.2 ha, Decimal.below?_eq_some_iff.2 hb,
      Decimal.below?_eq_some_iff.2 hc]
    rfl

theorem micros?_eq_some_iff :
    micros? t = some micros ↔ Decimal.isDigits t ∧ t.length ≤ 6 ∧
      Decimal.valueOf t * 10 ^ (6 - t.length) = micros := by
  unfold micros?
  rw [Duration.fraction_eq]
  split
  · next h =>
    rw [Bool.and_eq_true, decide_eq_true_iff] at h
    rw [Option.some.injEq]
    exact ⟨fun heq => ⟨h.1, h.2, heq⟩, fun heq => heq.2.2⟩
  · next h =>
    rw [Bool.and_eq_true, decide_eq_true_iff] at h
    constructor
    · intro hnone
      cases hnone
    · rintro ⟨hdigits, hlength, -⟩
      exact absurd ⟨hdigits, hlength⟩ h

/-- A time of day is read exactly if it is written, with signs or without. -/
theorem ofText?_eq_some_iff : ofText? t = some time ↔ WritesClock true t time := by
  constructor
  · intro h
    unfold ofText? at h
    split at h
    · obtain ⟨⟨hour, minute, second⟩, hclock, rfl⟩ := Option.map_eq_some_iff.1 h
      exact .whole (clock?_eq_some_iff.1 hclock)
    · next clock part hcut =>
      obtain ⟨⟨hour, minute, second⟩, hclock, h⟩ := Option.bind_eq_some_iff.1 h
      obtain ⟨micros, hmicros, h⟩ := Option.bind_eq_some_iff.1 h
      obtain rfl := Option.some.inj h
      obtain ⟨hplaces, hlength, rfl⟩ := micros?_eq_some_iff.1 hmicros
      obtain ⟨point, hpoint, -, rfl⟩ := eq_append_of_cutFirst? hcut
      rw [beq_iff_eq.1 hpoint]
      exact .point (clock?_eq_some_iff.1 hclock) hplaces hlength
  · intro h
    cases h with
    | @whole fields hour minute second hfields =>
      have hcut : cutFirst? (· == '.') t = none := by
        refine cutFirst?_eq_none_iff.2 fun c hc => beq_eq_false_iff_ne.2 ?_
        rintro rfl
        exact hfields.noPoint hc
      unfold ofText?
      rw [hcut]
      dsimp only
      rw [clock?_eq_some_iff.2 hfields]
      rfl
    | @point fields places hour minute second hfields hplaces hlength =>
      have hcut : cutFirst? (· == '.') (fields ++ '.' :: places) = some (fields, places) := by
        refine cutFirst?_append (fun c hc => beq_eq_false_iff_ne.2 ?_) (by decide)
        rintro rfl
        exact hfields.noPoint hc
      unfold ofText?
      rw [hcut]
      dsimp only
      rw [clock?_eq_some_iff.2 hfields, micros?_eq_some_iff.2 ⟨hplaces, hlength, rfl⟩]
      rfl

end TimeOfDay

/-! ## Timestamps -/

namespace Timestamp

/-- A text is read as a clock time exactly if it writes one, where a field may carry a plus sign,
and the text is kept. That no field may carry one is true exactly of the texts that have no plus
sign or are not read. -/
theorem ofText?_clock {mode : TimestampMode} (hmode : mode = .timeOfDay ∨ mode = .timeOfDayMicros)
    (t : Text) :
    (∀ ts, ofText? mode t = some ts ↔
      ∃ time, WritesClock true t time ∧ ts = ⟨t, .timeOfDay time⟩) ∧
    ((∀ ts, ofText? mode t = some ts ↔
        ∃ time, WritesClock false t time ∧ ts = ⟨t, .timeOfDay time⟩) ↔
      ('+' ∈ t → ofText? mode t = none)) := by
  have hread : ofText? mode t = (TimeOfDay.ofText? t).map fun time => ⟨t, .timeOfDay time⟩ := by
    rcases hmode with rfl | rfl <;> rfl
  have hiff : ∀ ts, ofText? mode t = some ts ↔
      ∃ time, WritesClock true t time ∧ ts = ⟨t, .timeOfDay time⟩ := by
    intro ts
    rw [hread, Option.map_eq_some_iff]
    refine exists_congr fun time => and_congr TimeOfDay.ofText?_eq_some_iff ?_
    exact eq_comm
  refine ⟨hiff, fun h hplus => ?_, fun h ts => ?_⟩
  · rw [Option.eq_none_iff_forall_ne_some]
    intro ts hts
    obtain ⟨time, htime, -⟩ := (h ts).1 hts
    exact (WritesClock.false_iff.1 htime).2 hplus
  · by_cases hplus : '+' ∈ t
    · rw [h hplus]
      constructor
      · intro hnone
        cases hnone
      · rintro ⟨time, htime, -⟩
        exact absurd hplus (WritesClock.false_iff.1 htime).2
    · rw [hiff]
      refine exists_congr fun time => and_congr_left fun _ => ?_
      rw [WritesClock.false_iff]
      exact ⟨fun htime => ⟨htime, hplus⟩, fun htime => htime.1⟩

theorem ofText?_clock_micros :
    ofText? .timeOfDayMicros "15:32:16.19".toList =
        some ⟨"15:32:16.19".toList, .timeOfDay ⟨15, 32, 16, 190000⟩⟩ ∧
      WritesClock false "15:32:16.19".toList ⟨15, 32, 16, 190000⟩ := by
  have hfields : WritesFields false ("15".toList ++ ':' :: "32".toList ++ ':' :: "16".toList)
      15 32 16 :=
    .mk (.digits (by decide) (by decide)) (.digits (by decide) (by decide))
      (.digits (by decide) (by decide))
  have hplaces : Decimal.isDigits "19".toList := by decide
  have hwritten : WritesClock false "15:32:16.19".toList ⟨15, 32, 16, 190000⟩ :=
    .point hfields hplaces (by decide)
  exact ⟨((ofText?_clock (.inr rfl) _).2.2 (by decide) _).2 ⟨_, hwritten, rfl⟩, hwritten⟩

/-- A plus sign is read over. -/
theorem ofText?_clock_signed :
    ofText? .timeOfDay "+15:31:56".toList =
        some ⟨"+15:31:56".toList, .timeOfDay ⟨15, 31, 56, 0⟩⟩ ∧
      ¬ ∃ time, WritesClock false "+15:31:56".toList time := by
  refine ⟨by decide, ?_⟩
  rintro ⟨time, htime⟩
  exact (WritesClock.false_iff.1 htime).2 (by decide)

end Timestamp

end SyscallTrace
