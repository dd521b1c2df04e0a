import SyscallTrace.Proofs.Decimal
import SyscallTrace.Proofs.Line.Reading
import SyscallTrace.Proofs.Text.Cuts

/-!
# Columns in front of a line

The columns that are taken off the front of a line are those that are printed there
(`Heading.take_eq_ok_iff`): the process, and the timestamp and the instruction pointer where the
trace has them, each with a gap after it (`Heading.IsFront`). There is one such statement for each
of the three columns, and each says when a text can follow the column.
-/

namespace SyscallTrace

open Text

namespace Heading

/-! ## Gaps -/

/-- The blanks between a column and what follows it. -/
structure IsGapRun (gap : Text) : Prop where
  ne_nil : gap ≠ []
  gaps : ∀ c ∈ gap, isGap c

/-- The text can follow the gap after a column: it does not go on with the gap, and is no report of
a signal or of the end of a process. -/
structure Follows (t : Text) : Prop where
  noGap : ∀ c ∈ t.head?, isGap c = false
  noNotice : isNotice t = false

variable {columns : Columns} {mode : TimestampMode} {h : Heading} {p : Char → Bool} {c : Char}
  {t u x gap front body : Text} {column : Option Text}

theorem isGapRun_blank : IsGapRun [' '] :=
  ⟨List.cons_ne_nil _ _, List.forall_mem_singleton.2 rfl⟩

theorem IsGapRun.isBlankRun (h : IsGapRun gap) : IsBlankRun gap :=
  ⟨h.ne_nil, fun c hc => isBlank_of_isGap (h.gaps c hc)⟩

theorem dropGap?_eq_some_iff :
    dropGap? t = some u ↔ ∃ gap, IsGapRun gap ∧ t = gap ++ u ∧ ∀ c ∈ u.head?, isGap c = false := by
  unfold dropGap?
  constructor
  · intro ht
    split at ht
    · next hhead =>
      obtain rfl := Option.some.inj ht
      refine ⟨t.takeWhile isGap, ⟨?_, fun c hc => List.mem_takeWhile_imp hc⟩,
        List.takeWhile_append_dropWhile.symm, fun c hc => of_mem_head?_dropWhile hc⟩
      rcases t with _ | ⟨c, t⟩
      · cases hhead
      · rw [List.takeWhile_cons_of_pos (by simpa using hhead)]
        exact List.cons_ne_nil _ _
    · cases ht
  · rintro ⟨gap, hgap, rfl, hu⟩
    rw [dropWhile_append hgap.gaps hu]
    obtain ⟨c, gap, rfl⟩ := List.exists_cons_of_ne_nil hgap.ne_nil
    exact if_pos (hgap.gaps c List.mem_cons_self)

/-- A column is a run of characters that no gap is made of. -/
theorem takeColumn?_eq_some_iff (hp : ∀ c, isGap c → p c = false) :
    takeColumn? p t = some (x, u) ↔ x ≠ [] ∧ (∀ c ∈ x, p c) ∧
      ∃ gap, IsGapRun gap ∧ t = x ++ (gap ++ u) ∧ ∀ c ∈ u.head?, isGap c = false := by
  unfold takeColumn?
  constructor
  · intro ht
    split at ht
    · cases ht
    · next hne =>
      obtain ⟨v, hv, heq⟩ := Option.map_eq_some_iff.1 ht
      obtain ⟨rfl, rfl⟩ := Prod.mk.inj heq
      obtain ⟨gap, hgap, hdrop, hu⟩ := dropGap?_eq_some_iff.1 hv
      refine ⟨by simpa using hne, fun c hc => List.mem_takeWhile_imp hc, gap, hgap, ?_, hu⟩
      rw [← hdrop, List.takeWhile_append_dropWhile]
  · rintro ⟨hne, hx, gap, hgap, rfl, hu⟩
    have hstop : ∀ c ∈ (gap ++ u).head?, p c = false := by
      rw [List.head?_append_of_ne_nil _ hgap.ne_nil]
      exact fun c hc => hp c (hgap.gaps c (List.mem_of_mem_head? hc))
    rw [takeWhile_append hx hstop, dropWhile_append hx hstop, if_neg (by simpa using hne),
      dropGap?_eq_some_iff.2 ⟨gap, hgap, rfl, hu⟩, Option.map_some]

theorem bracketed?_eq_some_iff :
    bracketed? t = some (x, u) ↔ x ≠ [] ∧ ']' ∉ x ∧ ∃ gap, IsGapRun gap ∧
      t = '[' :: x ++ [']'] ++ (gap ++ u) ∧ ∀ c ∈ u.head?, isGap c = false := by
  constructor
  · intro ht
    obtain ⟨inner, hinner, ht⟩ := Option.bind_eq_some_iff.1 ht
    obtain ⟨⟨y, v⟩, hcut, ht⟩ := Option.bind_eq_some_iff.1 ht
    dsimp only at ht
    split at ht
    · cases ht
    · next hne =>
      obtain ⟨w, hw, heq⟩ := Option.map_eq_some_iff.1 ht
      obtain ⟨rfl, rfl⟩ := Prod.mk.inj heq
      obtain ⟨gap, hgap, rfl, hu⟩ := dropGap?_eq_some_iff.1 hw
      obtain ⟨c, hc, hy, rfl⟩ := eq_append_of_cutFirst? hcut
      obtain rfl := beq_iff_eq.1 hc
      refine ⟨by simpa using hne, fun hm => absurd (hy _ hm) (by decide), gap, hgap, ?_, hu⟩
      rw [dropPrefix?_eq_some_iff.1 hinner]
      simp
  · rintro ⟨hne, hx, gap, hgap, rfl, hu⟩
    have hcut : cutFirst? (· == ']') (x ++ ']' :: (gap ++ u)) = some (x, gap ++ u) :=
      cutFirst?_append (fun c hc => beq_eq_false_iff_ne.2 fun heq => hx (heq ▸ hc)) (by decide)
    have hbrackets : '[' :: x ++ [']'] ++ (gap ++ u) = ['['] ++ (x ++ ']' :: (gap ++ u)) := by
      simp
    unfold bracketed?
    rw [hbrackets, dropPrefix?_append]
    show (cutFirst? (· == ']') (x ++ ']' :: (gap ++ u))).bind _ = _
    rw [hcut, Option.bind_some]
    dsimp only
    rw [if_neg (by simpa using hne), dropGap?_eq_some_iff.2 ⟨gap, hgap, rfl, hu⟩, Option.map_some]

/-! ## What follows a column -/

/-- No report reaches into a gap. -/
theorem isNotice_append (hgap : IsGapRun gap) : isNotice (x ++ (gap ++ t)) = isNotice x := by
  have hstart : ∀ s : Text, s.all (fun c => !isGap c) →
      startsWith (x ++ (gap ++ t)) s = startsWith x s := by
    intro s hs
    unfold startsWith
    rw [Bool.eq_iff_iff, List.isPrefixOf_iff_prefix, List.isPrefixOf_iff_prefix]
    refine ⟨fun h => ?_, fun h => h.trans (List.prefix_append _ _)⟩
    rcases List.prefix_or_prefix_of_prefix h (List.prefix_append x (gap ++ t)) with h | ⟨y, rfl⟩
    · exact h
    · obtain ⟨c, gap, rfl⟩ := List.exists_cons_of_ne_nil hgap.ne_nil
      rw [List.prefix_append_right_inj] at h
      rcases y with _ | ⟨d, y⟩
      · simp
      · have hd := List.all_eq_true.1 hs d (List.mem_append_right _ List.mem_cons_self)
        rw [(List.cons_prefix_cons.1 h).1, hgap.gaps c List.mem_cons_self] at hd
        cases hd
  unfold isNotice
  rw [hstart _ (by decide), hstart _ (by decide)]

theorem follows_cons (hgap : isGap c = false) (hplus : c ≠ '+') (hminus : c ≠ '-') (t : Text) :
    Follows (c :: t) := by
  refine ⟨fun d hd => by rwa [← Option.some.inj hd], ?_⟩
  have hstart : ∀ d s, c ≠ d → startsWith (c :: t) (d :: s) = false := fun d s hd => by
    rw [startsWith, List.isPrefixOf_cons_cons, beq_false_of_ne (Ne.symm hd), Bool.false_and]
  unfold isNotice
  rw [show "+++".toList = ['+', '+', '+'] from rfl, show "---".toList = ['-', '-', '-'] from rfl,
    hstart _ _ hplus, hstart _ _ hminus]
  rfl

/-- A text follows a column if its first character is none that starts a gap or a report. -/
theorem follows_append (hne : x ≠ []) (hx : ∀ c ∈ x, isGap c = false ∧ c ≠ '+' ∧ c ≠ '-')
    (t : Text) : Follows (x ++ t) := by
  obtain ⟨c, x, rfl⟩ := List.exists_cons_of_ne_nil hne
  obtain ⟨hgap, hplus, hminus⟩ := hx c List.mem_cons_self
  exact follows_cons hgap hplus hminus (x ++ t)

/-! ## The three columns -/

/-- The digits of a process. -/
inductive IsPidColumn (pid : UInt32) : Text → Prop where
  | mk {digits gap : Text} (hdigits : Decimal.isDigits digits)
      (hvalue : Decimal.valueOf digits = pid.toNat) (hgap : IsGapRun gap) :
      IsPidColumn pid (digits ++ gap)

/-- A timestamp without blanks, if the trace has timestamps. -/
inductive IsTimestampColumn : TimestampMode → Option Text → Text → Prop where
  | absent : IsTimestampColumn .absent none []
  | present {mode : TimestampMode} {x gap : Text} (hmode : mode ≠ .absent) (hne : x ≠ [])
      (hx : ∀ c ∈ x, isBlank c = false) (hnotice : isNotice x = false) (hgap : IsGapRun gap) :
      IsTimestampColumn mode (some x) (x ++ gap)

/-- An instruction pointer in brackets, if the trace has instruction pointers. -/
inductive IsPointerColumn : Bool → Option Text → Text → Prop where
  | absent : IsPointerColumn false none []
  | present {x gap : Text} (hne : x ≠ []) (hx : ']' ∉ x) (hgap : IsGapRun gap) :
      IsPointerColumn true (some x) ('[' :: x ++ [']'] ++ gap)

theorem IsTimestampColumn.follows (hfront : IsTimestampColumn mode column front) (ht : Follows t) :
    Follows (front ++ t) := by
  cases hfront with
  | absent => exact ht
  | present hmode hne hx hnotice hgap =>
    rw [List.append_assoc]
    refine ⟨fun c hc => ?_, by rwa [isNotice_append hgap]⟩
    rw [List.head?_append_of_ne_nil _ hne] at hc
    exact isGap_eq_false (hx c (List.mem_of_mem_head? hc))

theorem IsPointerColumn.follows {present : Bool} (hfront : IsPointerColumn present column front)
    (ht : Follows t) : Follows (front ++ t) := by
  cases hfront with
  | absent => exact ht
  | present => exact follows_cons (by decide) (by decide) (by decide) _

theorem takePid_eq_ok_iff {pid : UInt32} :
    takePid t = .ok (pid, u) ↔
      ∃ front, IsPidColumn pid front ∧ t = front ++ u ∧ ∀ c ∈ u.head?, isGap c = false := by
  have hstop : ∀ c, isGap c → c.isDigit = false := fun c hc => by
    rw [isGap, Bool.or_eq_true, Bool.or_eq_true, Bool.or_eq_true] at hc
    simp only [beq_iff_eq] at hc
    rcases hc with ((rfl | rfl) | rfl) | rfl <;> rfl
  unfold takePid
  constructor
  · intro ht
    split at ht
    · cases ht
    · next digits rest hcolumn =>
      obtain ⟨v, hv, heq⟩ := elim_eq_ok_iff.1 ht
      obtain ⟨rfl, rfl⟩ := Prod.mk.inj (Except.ok.inj heq)
      obtain ⟨hne, hx, gap, hgap, rfl, hu⟩ := (takeColumn?_eq_some_iff hstop).1 hcolumn
      have hdigits := Decimal.isDigits_iff.2 ⟨hne, hx⟩
      exact ⟨_, .mk hdigits ((Decimal.uint32?_eq_some_iff hdigits).1 hv) hgap,
        (List.append_assoc _ _ _).symm, hu⟩
  · rintro ⟨front, ⟨hdigits, hvalue, hgap⟩, rfl, hu⟩
    obtain ⟨hne, hx⟩ := Decimal.isDigits_iff.1 hdigits
    rw [(takeColumn?_eq_some_iff hstop).2 ⟨hne, hx, _, hgap, List.append_assoc _ _ _, hu⟩]
    dsimp only
    rw [(Decimal.uint32?_eq_some_iff hdigits).2 hvalue]
    rfl

theorem takeTimestamp_eq_ok_iff (ht : Follows t) :
    takeTimestamp mode t = .ok (column, u) ↔ ∃ front, IsTimestampColumn mode column front ∧
      t = front ++ u ∧ ∀ c ∈ u.head?, isGap c = false := by
  have hstop : ∀ c, isGap c → (!isBlank c) = false := fun c hc => by rw [isBlank_of_isGap hc]; rfl
  unfold takeTimestamp
  constructor
  · intro htake
    split at htake
    · next hmode =>
      obtain ⟨rfl, rfl⟩ := Prod.mk.inj (Except.ok.inj htake)
      subst hmode
      exact ⟨[], .absent, rfl, ht.noGap⟩
    · next hmode =>
      obtain ⟨⟨x, v⟩, hcolumn, heq⟩ := elim_eq_ok_iff.1 htake
      obtain ⟨rfl, rfl⟩ := Prod.mk.inj (Except.ok.inj heq)
      obtain ⟨hne, hx, gap, hgap, rfl, hu⟩ := (takeColumn?_eq_some_iff hstop).1 hcolumn
      have hnotice := ht.noNotice
      rw [isNotice_append hgap] at hnotice
      exact ⟨_, .present hmode hne (fun c hc => by simpa using hx c hc) hnotice hgap,
        (List.append_assoc _ _ _).symm, hu⟩
  · rintro ⟨front, hfront, rfl, hu⟩
    cases hfront with
    | absent => exact if_pos rfl
    | @present _ x gap hmode hne hx hnotice hgap =>
      have hcolumn : takeColumn? (fun c => !isBlank c) (x ++ gap ++ u) = some (x, u) :=
        (takeColumn?_eq_some_iff hstop).2 ⟨hne, fun c hc => by rw [hx c hc]; rfl, gap, hgap,
          List.append_assoc _ _ _, hu⟩
      rw [if_neg hmode, hcolumn]
      rfl

theorem takeInstPointer_eq_ok_iff {present : Bool} (ht : Follows t) :
    takeInstPointer present t = .ok (column, u) ↔ ∃ front, IsPointerColumn present column front ∧
      t = front ++ u ∧ ∀ c ∈ u.head?, isGap c = false := by
  unfold takeInstPointer
  constructor
  · intro htake
    cases present with
    | false =>
      obtain ⟨rfl, rfl⟩ := Prod.mk.inj (Except.ok.inj htake)
      exact ⟨[], .absent, rfl, ht.noGap⟩
    | true =>
      obtain ⟨⟨x, v⟩, hpointer, heq⟩ := elim_eq_ok_iff.1 htake
      obtain ⟨rfl, rfl⟩ := Prod.mk.inj (Except.ok.inj heq)
      obtain ⟨hne, hx, gap, hgap, rfl, hu⟩ := bracketed?_eq_some_iff.1 hpointer
      exact ⟨_, .present hne hx hgap, (List.append_assoc _ _ _).symm, hu⟩
  · rintro ⟨front, hfront, rfl, hu⟩
    cases hfront with
    | absent => rfl
    | present hne hx hgap =>
      rw [bracketed?_eq_some_iff.2 ⟨hne, hx, _, hgap, List.append_assoc _ _ _, hu⟩]
      rfl

/-! ## All columns -/

/-- The columns of a heading, as they stand in front of a call. -/
inductive IsFront (columns : Columns) (h : Heading) : Text → Prop where
  | mk {pid timestamp pointer : Text} (hpid : IsPidColumn h.pid pid)
      (htimestamp : IsTimestampColumn columns.timestamp h.timestamp timestamp)
      (hpointer : IsPointerColumn columns.instPointer h.instPointer pointer) :
      IsFront columns h (pid ++ (timestamp ++ pointer))

/-- The columns that are taken off a line are those that stand in front of it. -/
theorem take_eq_ok_iff : take columns t = .ok (some (h, body)) ↔
    ∃ front, IsFront columns h front ∧ t = front ++ body ∧ Follows body := by
  rw [take_eq_ok_some_iff]
  constructor
  · rintro ⟨t₁, t₂, ht₁, h₁, ht₂, h₂, ht₃, h₃⟩
    obtain ⟨pid, hpid, rfl, hgap₁⟩ := takePid_eq_ok_iff.1 ht₁
    obtain ⟨timestamp, htime, rfl, hgap₂⟩ := (takeTimestamp_eq_ok_iff ⟨hgap₁, h₁⟩).1 ht₂
    obtain ⟨pointer, hptr, rfl, hgap₃⟩ := (takeInstPointer_eq_ok_iff ⟨hgap₂, h₂⟩).1 ht₃
    exact ⟨_, .mk hpid htime hptr, by simp, hgap₃, h₃⟩
  · rintro ⟨front, ⟨hpid, htime, hptr⟩, rfl, ht⟩
    have h₂ := hptr.follows ht
    have h₁ := htime.follows h₂
    exact ⟨_, _, takePid_eq_ok_iff.2 ⟨_, hpid, by simp, h₁.noGap⟩, h₁.noNotice,
      (takeTimestamp_eq_ok_iff h₁).2 ⟨_, htime, rfl, h₂.noGap⟩, h₂.noNotice,
      (takeInstPointer_eq_ok_iff h₂).2 ⟨_, hptr, rfl, ht.noGap⟩, ht.noNotice⟩

/-- The text after the columns ends the line. -/
theorem suffix_of_take (ht : take columns t = .ok (some (h, body))) : body <:+ t := by
  obtain ⟨front, -, rfl, -⟩ := take_eq_ok_iff.1 ht
  exact List.suffix_append front body

end Heading

end SyscallTrace
