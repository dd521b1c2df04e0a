import Mathlib.Data.List.TakeWhile
import SyscallTrace.Line.Form
import SyscallTrace.Proofs.Argument.Splitting

/-!
# Interrupted forms

A line is read as a complete call exactly if it is printed so (`CallForm.ofText?_eq_complete_iff`).
Such a call can be cut into an unfinished line and a resumed line at any place of its argument list.
Both lines are read as what they are, with the arguments on each side of the cut, the return value
and the rest: `CallForm.ofText?_unfinishedText` and `CallForm.ofText?_resumedText`.

What keeps the readers from cutting elsewhere is taken from the whole call (`IsTail`): the text
after its equals sign holds no later end of a call, and no mark of an unfinished one at its end. A
resumed line is cut elsewhere if its arguments hold the mark and the end of a call that does not
return (`CallForm.ofText?_of_interruptsAgain`).
-/

namespace SyscallTrace.CallForm

open Text

/-! ## The end of a finished call -/

/-- The closing parenthesis and the equals sign, with the blanks around it. -/
def equals (gap gap' : Text) : Text := ')' :: gap ++ '=' :: gap'

theorem dropBlanks?_eq_some_iff {t u : Text} :
    dropBlanks? t = some u ↔
      ∃ gap, IsBlankRun gap ∧ t = gap ++ u ∧ ∀ c ∈ u.head?, isBlank c = false := by
  unfold dropBlanks? trimStart
  constructor
  · intro h
    cases t with
    | nil => cases h
    | cons c t =>
      by_cases hc : isBlank c
      · rw [if_pos (by simpa using hc)] at h
        obtain rfl := Option.some.inj h
        refine ⟨(c :: t).takeWhile isBlank, ⟨?_, fun d hd => List.mem_takeWhile_imp hd⟩,
          List.takeWhile_append_dropWhile.symm, fun d hd => of_mem_head?_dropWhile hd⟩
        rw [List.takeWhile_cons_of_pos hc]
        exact List.cons_ne_nil _ _
      · rw [if_neg (by simpa using hc)] at h
        cases h
  · rintro ⟨gap, hgap, rfl, hu⟩
    rw [dropWhile_append hgap.blanks hu]
    obtain ⟨c, gap, rfl⟩ := List.exists_cons_of_ne_nil hgap.ne_nil
    rw [if_pos]
    exact hgap.blanks c List.mem_cons_self

theorem dropEquals?_eq_some_iff {t u : Text} :
    dropEquals? t = some u ↔ ∃ gap gap', IsBlankRun gap ∧ IsBlankRun gap' ∧
      t = equals gap gap' ++ u ∧ ∀ c ∈ u.head?, isBlank c = false := by
  unfold dropEquals? equals
  constructor
  · intro h
    obtain ⟨t₁, h₁, h⟩ := Option.bind_eq_some_iff.1 h
    obtain ⟨t₂, h₂, h⟩ := Option.bind_eq_some_iff.1 h
    obtain ⟨t₃, h₃, h₄⟩ := Option.bind_eq_some_iff.1 h
    rw [dropPrefix?_eq_some_iff] at h₁ h₃
    obtain ⟨gap, hgap, rfl, -⟩ := dropBlanks?_eq_some_iff.1 h₂
    obtain ⟨gap', hgap', rfl, hu⟩ := dropBlanks?_eq_some_iff.1 h₄
    refine ⟨gap, gap', hgap, hgap', ?_, hu⟩
    rw [h₁, h₃]
    simp
  · rintro ⟨gap, gap', hgap, hgap', rfl, hu⟩
    refine Option.bind_eq_some_iff.2 ⟨gap ++ '=' :: (gap' ++ u), ?_, ?_⟩
    · rw [dropPrefix?_eq_some_iff]
      simp
    refine Option.bind_eq_some_iff.2 ⟨'=' :: (gap' ++ u), ?_, ?_⟩
    · refine dropBlanks?_eq_some_iff.2 ⟨gap, hgap, rfl, fun c hc => ?_⟩
      rw [← Option.some.inj hc]
      decide
    refine Option.bind_eq_some_iff.2 ⟨gap' ++ u, dropPrefix?_eq_some_iff.2 rfl, ?_⟩
    exact dropBlanks?_eq_some_iff.2 ⟨gap', hgap', rfl, hu⟩

theorem dropEquals?_equals {gap gap' u : Text} (hgap : IsBlankRun gap) (hgap' : IsBlankRun gap')
    (hu : ∀ c ∈ u.head?, isBlank c = false) : dropEquals? (equals gap gap' ++ u) = some u :=
  dropEquals?_eq_some_iff.2 ⟨gap, gap', hgap, hgap', rfl, hu⟩

/-- A return value, and the rest of its line. -/
structure IsOutcome (ret rest : Text) : Prop where
  ret_ne_nil : ret ≠ []
  isReturnChar : ∀ c ∈ ret, isReturnChar c
  unblank : ∀ c ∈ ret.head?, isBlank c = false
  ends : ∀ c ∈ rest.head?, CallForm.isReturnChar c = false
  isLine : '\n' ∉ rest

theorem returned?_eq_some_iff {t ret rest : Text} :
    returned? t = some (ret, rest) ↔ ∃ gap gap', IsBlankRun gap ∧ IsBlankRun gap' ∧
      t = equals gap gap' ++ (ret ++ rest) ∧ IsOutcome ret rest := by
  unfold returned?
  refine Option.bind_eq_some_iff.trans ⟨?_, ?_⟩
  · rintro ⟨u, hu, h⟩
    obtain ⟨gap, gap', hgap, hgap', rfl, hblank⟩ := dropEquals?_eq_some_iff.1 hu
    dsimp only at h
    split at h
    · cases h
    next hne =>
      obtain ⟨rfl, rfl⟩ := Prod.mk.inj (Option.some.inj h)
      rw [Bool.or_eq_true, not_or] at hne
      have hret : u.takeWhile isReturnChar ≠ [] := by simpa using hne.1
      refine ⟨gap, gap', hgap, hgap', by rw [List.takeWhile_append_dropWhile], hret,
        fun c hc => List.mem_takeWhile_imp hc, fun c hc => hblank c ?_, fun c hc => ?_, ?_⟩
      · rwa [← List.takeWhile_append_dropWhile (p := isReturnChar) (l := u),
          List.head?_append_of_ne_nil _ hret]
      · exact of_mem_head?_dropWhile hc
      · simpa [isLine] using hne.2
  · rintro ⟨gap, gap', hgap, hgap', rfl, h⟩
    refine ⟨ret ++ rest, dropEquals?_equals hgap hgap' fun c hc => ?_, ?_⟩
    · rw [List.head?_append_of_ne_nil _ h.ret_ne_nil] at hc
      exact h.unblank c hc
    · dsimp only
      rw [takeWhile_append h.isReturnChar h.ends, dropWhile_append h.isReturnChar h.ends, if_neg]
      rw [Bool.or_eq_true, not_or]
      exact ⟨by simpa using h.ret_ne_nil, by simpa [isLine] using h.isLine⟩

/-- A call that does not return ends all the same. -/
theorem returned?_of_noReturn {t r : Text} (ht : dropEquals? t = some ('?' :: r))
    (hr : isLine r) : returned? t =
      some (('?' :: r).takeWhile isReturnChar, ('?' :: r).dropWhile isReturnChar) := by
  have hline : isLine (r.dropWhile isReturnChar) := by
    have hr : '\n' ∉ r := by simpa [isLine] using hr
    have hdrop : '\n' ∉ r.dropWhile isReturnChar := fun hm =>
      hr ((List.dropWhile_suffix _).mem hm)
    simpa [isLine] using hdrop
  unfold returned?
  rw [ht]
  show (if _ then _ else _) = _
  rw [List.takeWhile_cons_of_pos (by decide), List.dropWhile_cons_of_pos (by decide), hline, if_neg]
  simp

/-- What follows the equals sign of a call that is printed whole: its return value, and a rest that
holds no other end of a call. -/
structure IsTail (ret rest : Text) : Prop extends IsOutcome ret rest where
  notReturned : ∀ v, v <:+ rest → returned? v = none
  notInterrupted : ¬ unfinishedMark <:+ rest

variable {name args ret rest tail gap gap' t u v : Text}

theorem returned?_eq_none_of_noEquals
    (h : ∀ gap w, IsBlankRun gap → ¬ ')' :: (gap ++ '=' :: w) <:+ t) (hv : v <:+ t) :
    returned? v = none := by
  rw [Option.eq_none_iff_forall_ne_some]
  rintro ⟨ret, rest⟩ hret
  obtain ⟨gap, gap', hgap, -, rfl, -⟩ := returned?_eq_some_iff.1 hret
  refine h gap (gap' ++ (ret ++ rest)) hgap ?_
  rwa [equals, List.append_assoc, List.cons_append, List.cons_append] at hv

/-- What stands behind the equals sign of a whole call, told by its text alone: no closing
parenthesis in it is followed by an equals sign, and it does not end with the mark of an unfinished
call. -/
structure IsEnding (tail : Text) : Prop where
  noEquals : ∀ gap, IsBlankRun gap → ¬ ')' :: gap ++ ['='] <:+: tail
  notInterrupted : ¬ unfinishedMark <:+ tail

/-- No blank is a decimal digit of any script. -/
theorem isDecimalDigit_eq_false_of_isBlank {c : Char} (h : isBlank c) :
    isDecimalDigit c = false := by
  have hall : (List.range' 0x9 5 ++ List.range' 0x2000 11 ++
      [0x20, 0x85, 0xA0, 0x1680, 0x2028, 0x2029, 0x202F, 0x205F, 0x3000]).all
        (fun n => !decimalDigits.holds n) := by
    decide +kernel
  unfold isDecimalDigit
  rw [← Bool.not_eq_true']
  refine List.all_eq_true.1 hall c.toNat ?_
  simp only [isBlank, Bool.or_eq_true, Bool.and_eq_true, decide_eq_true_eq, beq_iff_eq] at h
  simp only [List.mem_append, List.mem_range'_1, List.mem_cons, List.not_mem_nil]
  omega

theorem isBlank_eq_false_of_isReturnChar {c : Char} (h : isReturnChar c) : isBlank c = false := by
  rw [← Bool.not_eq_true]
  intro hblank
  unfold isReturnChar at h
  rw [isDecimalDigit_eq_false_of_isBlank hblank, Bool.or_false] at h
  simp only [Bool.or_eq_true, Bool.and_eq_true, decide_eq_true_eq, beq_iff_eq] at h
  rcases h with ((⟨hlow, hhigh⟩ | rfl) | rfl) | rfl
  · have hlow : 0x61 ≤ c.toNat := UInt32.le_iff_toNat_le.1 hlow
    have hhigh : c.toNat ≤ 0x66 := UInt32.le_iff_toNat_le.1 hhigh
    rw [isBlank_eq_false_of_visible (by omega) (by omega)] at hblank
    cases hblank
  all_goals exact absurd hblank (by decide)

/-- If a return value starts the text behind the equals sign, the call ends there and nowhere
later. -/
theorem IsEnding.isTail (h : IsEnding tail) (hret : tail.head?.any isReturnChar)
    (hline : '\n' ∉ tail) :
    IsTail (tail.takeWhile isReturnChar) (tail.dropWhile isReturnChar) where
  ret_ne_nil := by
    rcases tail with _ | ⟨c, tail⟩
    · cases hret
    · rw [List.takeWhile_cons_of_pos (by simpa using hret)]
      exact List.cons_ne_nil _ _
  isReturnChar c hc := List.mem_takeWhile_imp hc
  unblank c hc :=
    isBlank_eq_false_of_isReturnChar (List.mem_takeWhile_imp (List.mem_of_mem_head? hc))
  ends c hc := of_mem_head?_dropWhile hc
  isLine hm := hline ((List.dropWhile_suffix _).mem hm)
  notReturned v hv := by
    refine returned?_eq_none_of_noEquals (fun gap w hgap hequals => ?_) hv
    obtain ⟨p, hp⟩ := hequals.trans (List.dropWhile_suffix _)
    exact h.noEquals gap hgap ⟨p, w, by simpa using hp⟩
  notInterrupted hmark := h.notInterrupted (hmark.trans (List.dropWhile_suffix _))

/-- A whole call. -/
def completeText (name args gap gap' tail : Text) : Text :=
  name ++ '(' :: (args ++ (equals gap gap' ++ tail))

/-- A call is printed with these parts. -/
structure IsPrinted (body name args ret rest : Text) : Prop where
  name_ne_nil : name ≠ []
  noParen : '(' ∉ name
  tail : IsTail ret rest
  text : ∃ gap gap', IsBlankRun gap ∧ IsBlankRun gap' ∧
    body = name ++ '(' :: (args ++ (equals gap gap' ++ (ret ++ rest)))

/-- A whole call is printed with its name, its arguments, its return value and what follows. -/
theorem isPrinted_completeText (hne : name ≠ []) (hparen : '(' ∉ name) (h : IsEnding tail)
    (hret : tail.head?.any isReturnChar) (hline : '\n' ∉ tail) (hgap : IsBlankRun gap)
    (hgap' : IsBlankRun gap') :
    IsPrinted (completeText name args gap gap' tail) name args (tail.takeWhile isReturnChar)
      (tail.dropWhile isReturnChar) where
  name_ne_nil := hne
  noParen := hparen
  tail := h.isTail hret hline
  text := ⟨gap, gap', hgap, hgap', by rw [List.takeWhile_append_dropWhile, completeText]⟩

theorem called?_eq_some_iff :
    called? t = some (name, u) ↔ name ≠ [] ∧ '(' ∉ name ∧ t = name ++ '(' :: u := by
  unfold called?
  rw [Option.filter_eq_some_iff]
  constructor
  · rintro ⟨h, hne⟩
    obtain ⟨c, hc, hname, rfl⟩ := eq_append_of_cutFirst? h
    rw [beq_iff_eq] at hc
    rw [hc]
    exact ⟨by simpa using hne, fun hm => by simpa using hname _ hm, rfl⟩
  · rintro ⟨hne, hname, rfl⟩
    refine ⟨cutFirst?_append (fun c hc => ?_) (by decide), by simpa using hne⟩
    exact beq_eq_false_iff_ne.2 fun h => hname (h ▸ hc)

theorem ofText?_eq (t : Text) :
    ofText? t = (continued? t).or ((unfinished? t).or ((resumed? t).or (complete? t))) := by
  unfold ofText?
  simp only [Option.orElse_eq_orElse, Option.orElse_eq_or]

theorem complete?_of_called? (h : called? t = some (name, u)) :
    complete? t = (latest? returned? u).map fun x => .complete name x.1 x.2.1 x.2.2 := by
  unfold complete?
  rw [h]
  show (latest? returned? u).bind _ = _
  cases latest? returned? u <;> rfl

theorem unfinished?_of_called? (h : called? t = some (name, u)) :
    unfinished? t = (latest? interrupted? u).map fun x => .unfinished name x.1 := by
  unfold unfinished?
  rw [h]
  show (latest? interrupted? u).bind _ = _
  cases latest? interrupted? u <;> rfl

theorem continued?_of_resumption? (h : resumption? t = some (name, u)) :
    continued? t = (latest? interruptedAgain? u).map fun x => .continued name (resumedArgs x.1) := by
  unfold continued?
  rw [h]
  show (latest? interruptedAgain? u).bind _ = _
  cases latest? interruptedAgain? u <;> rfl

theorem resumed?_of_resumption? (h : resumption? t = some (name, u)) :
    resumed? t =
      (latest? returned? u).map fun x => .resumed name (resumedArgs x.1) x.2.1 x.2.2 := by
  unfold resumed?
  rw [h]
  show (latest? returned? u).bind _ = _
  cases latest? returned? u <;> rfl

/-- A line is read as complete only if no other form fits. -/
theorem of_ofText?_complete (h : ofText? t = some (.complete name args ret rest)) :
    unfinished? t = none ∧ complete? t = some (.complete name args ret rest) := by
  rw [ofText?_eq] at h
  rcases Option.or_eq_some_iff.1 h with h | ⟨-, h⟩
  · obtain ⟨x, -, h⟩ := Option.bind_eq_some_iff.1 h
    obtain ⟨y, -, h⟩ := Option.bind_eq_some_iff.1 h
    cases h
  rcases Option.or_eq_some_iff.1 h with h | ⟨hunfinished, h⟩
  · obtain ⟨x, -, h⟩ := Option.bind_eq_some_iff.1 h
    obtain ⟨y, -, h⟩ := Option.bind_eq_some_iff.1 h
    cases h
  rcases Option.or_eq_some_iff.1 h with h | ⟨-, h⟩
  · obtain ⟨x, -, h⟩ := Option.bind_eq_some_iff.1 h
    obtain ⟨y, -, h⟩ := Option.bind_eq_some_iff.1 h
    cases h
  exact ⟨hunfinished, h⟩

/-- A complete call is printed whole. -/
theorem isPrinted_of_ofText? (ht : '\n' ∉ t)
    (h : ofText? t = some (.complete name args ret rest)) : IsPrinted t name args ret rest := by
  obtain ⟨hunfinished, h⟩ := of_ofText?_complete h
  obtain ⟨⟨name', u⟩, hcalled, h⟩ := Option.bind_eq_some_iff.1 h
  obtain ⟨⟨args', ret', rest'⟩, hlatest, h⟩ := Option.bind_eq_some_iff.1 h
  obtain ⟨rfl, rfl, rfl, rfl⟩ := CallForm.complete.inj (Option.some.inj h)
  obtain ⟨hne, hparen, rfl⟩ := called?_eq_some_iff.1 hcalled
  have hu : '\n' ∉ u := fun hm => ht (List.mem_append_right _ (List.mem_cons_of_mem _ hm))
  obtain ⟨r, rfl, hr, hlast⟩ := exists_last_of_latest? hu hlatest
  obtain ⟨gap, gap', hgap, hgap', rfl, hout⟩ := returned?_eq_some_iff.1 hr
  have hrest : rest' <:+ equals gap gap' ++ (ret' ++ rest') :=
    (List.suffix_append ret' rest').trans (List.suffix_append _ _)
  refine ⟨hne, hparen, ⟨hout, fun v hv => ?_, fun hmark => ?_⟩, gap, gap', hgap, hgap', rfl⟩
  · refine hlast v (hv.trans hrest) fun heq => ?_
    have hlen := hv.length_le
    rw [heq] at hlen
    simp [equals] at hlen
    omega
  · have hmark := hmark.trans (hrest.trans (List.suffix_append args' _))
    rw [unfinished?_of_called? hcalled, Option.map_eq_none_iff] at hunfinished
    have hinterrupted := eq_none_of_latest?_eq_none hu hunfinished hmark
    unfold interrupted? at hinterrupted
    rw [if_pos rfl] at hinterrupted
    cases hinterrupted

/-! ## Unfinished lines -/

/-- A call that is interrupted after these arguments. -/
def unfinishedText (name args : Text) : Text := name ++ '(' :: (args ++ unfinishedMark)

/-- A call that goes on with these arguments. -/
def resumedText (name args gap gap' tail : Text) : Text :=
  "<... ".toList ++ (name ++ (" resumed>".toList ++ (args ++ (equals gap gap' ++ tail))))

/-- What resumes a call starts with the name between the parts of its mark. -/
theorem exists_of_resumption? (hr : resumption? t = some (name, u)) :
    name ≠ [] ∧ (∀ c ∈ name, isBlank c = false) ∧
      t = "<... ".toList ++ (name ++ (" resumed>".toList ++ u)) := by
  obtain ⟨v, hv, hr⟩ := Option.bind_eq_some_iff.1 hr
  obtain ⟨w, hw, hr⟩ := Option.bind_eq_some_iff.1 hr
  rw [dropPrefix?_eq_some_iff] at hv hw
  split at hr
  · cases hr
  · next hne =>
    obtain ⟨rfl, rfl⟩ := Prod.mk.inj (Option.some.inj hr)
    refine ⟨by simpa using hne, fun c hc => by simpa using List.mem_takeWhile_imp hc, ?_⟩
    rw [hv, ← hw, List.takeWhile_append_dropWhile]

/-- A line that starts with a name and a parenthesis does not resume a call. -/
theorem resumption?_called (hname : ∀ c ∈ name, isBlank c = false) (t : Text) :
    resumption? (name ++ '(' :: t) = none := by
  have hnot : dropPrefix? (name ++ '(' :: t) "<... ".toList = none := by
    rw [Option.eq_none_iff_forall_ne_some]
    intro r hr
    rw [dropPrefix?_eq_some_iff] at hr
    rcases List.append_eq_append_iff.1 hr with ⟨x, hx, hr⟩ | ⟨x, rfl, -⟩
    · rcases x with _ | ⟨c, x⟩
      · rw [List.append_nil] at hx
        exact absurd (hname ' ' (by rw [← hx]; decide)) (by decide)
      · obtain ⟨rfl, -⟩ := List.cons.inj hr
        have hmem : '(' ∈ "<... ".toList := by rw [hx]; simp
        exact absurd hmem (by decide)
    · exact absurd (hname ' ' (List.mem_append_left _ (by decide))) (by decide)
  unfold resumption?
  rw [hnot]
  rfl

theorem continued?_called (hname : ∀ c ∈ name, isBlank c = false) (t : Text) :
    continued? (name ++ '(' :: t) = none := by
  unfold continued?
  rw [resumption?_called hname]
  rfl

theorem resumed?_called (hname : ∀ c ∈ name, isBlank c = false) (t : Text) :
    resumed? (name ++ '(' :: t) = none := by
  unfold resumed?
  rw [resumption?_called hname]
  rfl

theorem ofText?_unfinishedText (hne : name ≠ []) (hparen : '(' ∉ name)
    (hname : ∀ c ∈ name, isBlank c = false) (hargs : '\n' ∉ args) :
    ofText? (unfinishedText name args) = some (.unfinished name args) := by
  have hcontinued : continued? (unfinishedText name args) = none := continued?_called hname _
  have hlatest : latest? interrupted? (args ++ unfinishedMark) = some (args, ()) := by
    refine latest?_append hargs (if_pos rfl) fun v hv hne => ?_
    unfold interrupted?
    rw [if_neg hne]
  have hunfinished : unfinished? (unfinishedText name args) = some (.unfinished name args) := by
    have hcalled : called? (unfinishedText name args) = some (name, args ++ unfinishedMark) :=
      called?_eq_some_iff.2 ⟨hne, hparen, rfl⟩
    rw [unfinished?_of_called? hcalled, hlatest]
    rfl
  rw [ofText?_eq, hcontinued, hunfinished]
  rfl

/-! ## Resumed lines -/

/-- The text holds the mark of an unfinished call and, after it, the end of a call that does not
return. On a resumed line the mark then counts as one that interrupts the call again, wherever it
stands. -/
def InterruptsAgain (t : Text) : Prop :=
  ∃ gap gap', IsBlankRun gap ∧ IsBlankRun gap' ∧
    unfinishedMark ++ (equals gap gap' ++ ['?']) <:+: t

theorem not_interruptsAgain (h : ¬ unfinishedMark <:+: t) : ¬ InterruptsAgain t := by
  rintro ⟨gap, gap', -, -, hmark⟩
  exact h ((List.prefix_append _ _).isInfix.trans hmark)

theorem interruptedAgain?_eq_some_iff {x : Unit} :
    interruptedAgain? t = some x ↔ ∃ w, t = unfinishedMark ++ w ∧
      (w = [] ∨ ∃ gap gap' r, IsBlankRun gap ∧ IsBlankRun gap' ∧
        w = equals gap gap' ++ '?' :: r ∧ '\n' ∉ r) := by
  unfold interruptedAgain?
  refine Option.bind_eq_some_iff.trans (exists_congr fun w => ?_)
  rw [dropPrefix?_eq_some_iff]
  refine and_congr_right fun _ => ?_
  cases w with
  | nil => simp
  | cons c w =>
    rw [List.isEmpty_cons, if_neg (by simp)]
    refine Option.bind_eq_some_iff.trans ⟨?_, ?_⟩
    · rintro ⟨u, hu, h⟩
      obtain ⟨gap, gap', hgap, hgap', hw, -⟩ := dropEquals?_eq_some_iff.1 hu
      split at h
      · next r =>
        split at h
        · next hr => exact .inr ⟨gap, gap', r, hgap, hgap', hw, by simpa [isLine] using hr⟩
        · cases h
      · cases h
    · rintro (h | ⟨gap, gap', r, hgap, hgap', hw, hr⟩)
      · cases h
      · refine ⟨'?' :: r, dropEquals?_eq_some_iff.2 ⟨gap, gap', hgap, hgap', hw, fun c hc => ?_⟩, ?_⟩
        · rw [← Option.some.inj hc]
          decide
        · exact if_pos (by simpa [isLine] using hr)

/-- The end of a call that does not return, at the front of a text that goes on with the end of a
call, is in front of that one, or is that one. -/
theorem again_or_eq_nil {g g' r x s : Text} (hg : IsBlankRun g) (hg' : IsBlankRun g')
    (h : x ++ (equals gap gap' ++ s) = equals g g' ++ '?' :: r) :
    x = [] ∨ equals g g' ++ ['?'] <+: x := by
  rcases x with _ | ⟨d, x⟩
  · exact .inl rfl
  have htail : x ++ ')' :: (gap ++ '=' :: gap' ++ s) = (g ++ '=' :: g' ++ ['?']) ++ r := by
    simpa [equals] using (List.cons.inj h).2
  have hparen : ')' ∉ g ++ '=' :: g' ++ ['?'] := by
    simp [not_mem_of_isBlanks hg.blanks (c := ')') (by decide),
      not_mem_of_isBlanks hg'.blanks (c := ')') (by decide)]
  refine .inr ?_
  rw [equals, (List.cons.inj h).1]
  rcases List.append_eq_append_iff.1 htail with ⟨y, hy, hr⟩ | ⟨y, rfl, -⟩
  · rcases y with _ | ⟨c, y⟩
    · exact ⟨[], by simp [hy]⟩
    · rw [hy, (List.cons.inj hr).1] at hparen
      exact absurd (List.mem_append_right _ List.mem_cons_self) hparen
  · exact ⟨y, by simp⟩

theorem resumption?_resumedText (hne : name ≠ []) (hname : ∀ c ∈ name, isBlank c = false)
    (tail : Text) :
    resumption? (resumedText name args gap gap' tail) =
      some (name, args ++ (equals gap gap' ++ tail)) := by
  have hnot : ∀ c ∈ name, (!isBlank c) = true := fun c hc => by rw [hname c hc]; rfl
  have hstop : ∀ c ∈ (" resumed>".toList ++ (args ++ (equals gap gap' ++ tail))).head?,
      (!isBlank c) = false := by
    intro c hc
    rw [← Option.some.inj hc]
    decide
  unfold resumption? resumedText
  rw [dropPrefix?_append]
  show (dropPrefix? ((name ++ (" resumed>".toList ++ (args ++ (equals gap gap' ++ tail)))).dropWhile
    _) _).bind _ = _
  rw [dropWhile_append hnot hstop, dropPrefix?_append, Option.bind_some,
    takeWhile_append hnot hstop, if_neg (by simpa using hne)]

section

variable (htail : IsTail ret rest) (hgap : IsBlankRun gap) (hgap' : IsBlankRun gap')

include htail hgap hgap'

/-- A suffix that starts with another character than the end of the call has comes after it. -/
theorem suffix_of_suffix_equals {c : Char} (h : c :: v <:+ gap ++ '=' :: gap' ++ (ret ++ rest))
    (hblank : isBlank c = false) (hret : isReturnChar c = false) (he : c ≠ '=') :
    c :: v <:+ rest := by
  rw [← List.append_assoc] at h
  refine suffix_of_suffix_append h fun hm => ?_
  rcases List.mem_append.1 hm with hm | hm
  · rcases List.mem_append.1 hm with hm | hm
    · exact not_mem_of_isBlanks hgap.blanks hblank hm
    · exact (List.mem_cons.1 hm).elim he (not_mem_of_isBlanks hgap'.blanks hblank)
  · rw [htail.isReturnChar c hm] at hret
    cases hret

/-- The call ends once in its tail. -/
theorem returned?_eq_none_of_suffix (h : v <:+ equals gap gap' ++ (ret ++ rest))
    (hne : v ≠ equals gap gap' ++ (ret ++ rest)) : returned? v = none := by
  rw [Option.eq_none_iff_forall_ne_some]
  rintro ⟨ret', rest'⟩ hv
  obtain ⟨g, g', -, -, rfl, -⟩ := returned?_eq_some_iff.1 hv
  have h : ')' :: (g ++ '=' :: g' ++ (ret' ++ rest')) <:+ gap ++ '=' :: gap' ++ (ret ++ rest) :=
    (List.suffix_cons_iff.1 h).resolve_left hne
  have hrest := suffix_of_suffix_equals htail hgap hgap' h (by decide) (by decide) (by decide)
  rw [show ')' :: (g ++ '=' :: g' ++ (ret' ++ rest')) = equals g g' ++ (ret' ++ rest') from rfl]
    at hrest
  rw [htail.notReturned _ hrest] at hv
  cases hv

/-- A suffix that starts with the mark of an unfinished call comes after the end of the call. -/
theorem mark_suffix_rest (h : unfinishedMark ++ t <:+ equals gap gap' ++ (ret ++ rest)) :
    unfinishedMark ++ t <:+ rest := by
  have h := (List.suffix_cons_iff.1 h).resolve_left fun heq =>
    absurd (List.cons.inj heq).1 (by decide)
  exact suffix_of_suffix_equals htail hgap hgap' h (by decide) (by decide) (by decide)

/-- The line of a call that ends is not interrupted. -/
theorem interrupted?_eq_none_of_suffix (ht : equals gap gap' ++ (ret ++ rest) <:+ t)
    (hv : v <:+ t) : interrupted? v = none := by
  unfold interrupted?
  rw [if_neg]
  rintro rfl
  rcases List.suffix_or_suffix_of_suffix ht hv with h | h
  · have hmem : ')' ∈ unfinishedMark := h.mem List.mem_cons_self
    exact absurd hmem (by decide)
  · have hrest := mark_suffix_rest htail hgap hgap' (t := []) (by rwa [List.append_nil])
    rw [List.append_nil] at hrest
    exact htail.notInterrupted hrest

/-- The only mark that interrupts the line again would stand among the arguments. -/
theorem interruptedAgain?_eq_none_of_suffix (hagain : ¬ InterruptsAgain args)
    (hend : ¬ unfinishedMark <:+ args) (hv : v <:+ args ++ (equals gap gap' ++ (ret ++ rest))) :
    interruptedAgain? v = none := by
  rw [Option.eq_none_iff_forall_ne_some]
  intro x hx
  obtain ⟨w, rfl, hw⟩ := interruptedAgain?_eq_some_iff.1 hx
  have hmark : unfinishedMark ++ w <:+ equals gap gap' ++ (ret ++ rest) := by
    obtain ⟨p, hp⟩ := hv
    rcases List.append_eq_append_iff.1 hp with ⟨s, rfl, hs⟩ | ⟨s, -, hs⟩
    · -- the mark starts among the arguments, and would go on in the parenthesis
      rcases List.append_eq_append_iff.1 hs with ⟨x, rfl, rfl⟩ | ⟨x, hmark, he⟩
      · rcases hw with hw | ⟨g, g', r, hg, hg', hw, -⟩
        · exact absurd (List.append_eq_nil_iff.1 hw).2 (by simp [equals])
        · rcases again_or_eq_nil hg hg' hw with rfl | hx
          · exact absurd ⟨p, by simp⟩ hend
          · obtain ⟨q, rfl⟩ := hx
            exact absurd ⟨g, g', hg, hg', p, q, by simp⟩ hagain
      · rcases x with _ | ⟨c, x⟩
        · rw [List.append_nil] at hmark
          exact absurd ⟨p, by rw [hmark]⟩ hend
        · obtain ⟨rfl, -⟩ := List.cons.inj he
          have hmem : ')' ∈ unfinishedMark := by rw [hmark]; simp
          exact absurd hmem (by decide)
    · exact ⟨s, hs.symm⟩
  have hrest := mark_suffix_rest htail hgap hgap' hmark
  rcases hw with rfl | ⟨g, g', r, hg, hg', rfl, hr⟩
  · rw [List.append_nil] at hrest
    exact htail.notInterrupted hrest
  · have hnone := htail.notReturned _ ((List.suffix_append _ _).trans hrest)
    have hequals : dropEquals? (equals g g' ++ '?' :: r) = some ('?' :: r) := by
      refine dropEquals?_equals hg hg' fun c hc => ?_
      rw [← Option.some.inj hc]
      decide
    rw [returned?_of_noReturn hequals (by simpa [isLine] using hr)] at hnone
    cases hnone

theorem ofText?_resumedText (hne : name ≠ []) (hname : ∀ c ∈ name, isBlank c = false)
    (hline : '\n' ∉ args) (hagain : ¬ InterruptsAgain args) (hend : ¬ unfinishedMark <:+ args) :
    ofText? (resumedText name args gap gap' (ret ++ rest)) =
      some (.resumed name (resumedArgs args) ret rest) := by
  have hresumption : resumption? (resumedText name args gap gap' (ret ++ rest)) =
      some (name, args ++ (equals gap gap' ++ (ret ++ rest))) :=
    resumption?_resumedText hne hname (ret ++ rest)
  have hcontinued : continued? (resumedText name args gap gap' (ret ++ rest)) = none := by
    rw [continued?_of_resumption? hresumption, latest?_eq_none_of_suffix fun v hv =>
      interruptedAgain?_eq_none_of_suffix htail hgap hgap' hagain hend hv]
    rfl
  have hunfinished : unfinished? (resumedText name args gap gap' (ret ++ rest)) = none := by
    cases hcalled : called? (resumedText name args gap gap' (ret ++ rest)) with
    | none =>
      unfold unfinished?
      rw [hcalled]
      rfl
    | some x =>
      obtain ⟨n, t⟩ := x
      obtain ⟨-, -, htext⟩ := called?_eq_some_iff.1 hcalled
      have hend : equals gap gap' ++ (ret ++ rest) <:+
          resumedText name args gap gap' (ret ++ rest) :=
        (((List.suffix_append args _).trans (List.suffix_append " resumed>".toList _)).trans
          (List.suffix_append name _)).trans (List.suffix_append _ _)
      have ht : t <:+ resumedText name args gap gap' (ret ++ rest) := by
        rw [htext]
        exact (List.suffix_cons '(' t).trans (List.suffix_append n _)
      rw [unfinished?_of_called? hcalled, latest?_eq_none_of_suffix fun v hv =>
        interrupted?_eq_none_of_suffix htail hgap hgap' hend (hv.trans ht)]
      rfl
  have hresumed : resumed? (resumedText name args gap gap' (ret ++ rest)) =
      some (.resumed name (resumedArgs args) ret rest) := by
    have hreturned : returned? (equals gap gap' ++ (ret ++ rest)) = some (ret, rest) :=
      returned?_eq_some_iff.2 ⟨gap, gap', hgap, hgap', rfl, htail.toIsOutcome⟩
    rw [resumed?_of_resumption? hresumption, latest?_append hline hreturned fun v hv hne =>
      returned?_eq_none_of_suffix htail hgap hgap' hv hne]
    rfl
  rw [ofText?_eq, hcontinued, hunfinished, hresumed]
  rfl

end

/-- A call whose arguments hold the mark and the end of a call that does not return is read as
interrupted again. -/
theorem ofText?_of_interruptsAgain (hne : name ≠ []) (hname : ∀ c ∈ name, isBlank c = false)
    (hline : '\n' ∉ args ++ (equals gap gap' ++ t)) (h : InterruptsAgain args) :
    ∃ args', ofText? (resumedText name args gap gap' t) = some (.continued name args') := by
  obtain ⟨g, g', hg, hg', p, q, rfl⟩ := h
  obtain ⟨x, hx⟩ : ∃ x, latest? interruptedAgain?
      (p ++ (unfinishedMark ++ (equals g g' ++ ['?'])) ++ q ++ (equals gap gap' ++ t)) = some x := by
    rw [← Option.ne_none_iff_exists']
    intro hnone
    have hagain : interruptedAgain?
        (unfinishedMark ++ (equals g g' ++ '?' :: (q ++ (equals gap gap' ++ t)))) = some () := by
      refine interruptedAgain?_eq_some_iff.2 ⟨_, rfl, .inr ⟨g, g', _, hg, hg', rfl, fun hm => ?_⟩⟩
      refine hline ?_
      rw [List.append_assoc]
      exact List.mem_append_right _ hm
    rw [eq_none_of_latest?_eq_none hline hnone ⟨p, by simp⟩] at hagain
    cases hagain
  refine ⟨resumedArgs x.1, ?_⟩
  rw [ofText?_eq, continued?_of_resumption? (resumption?_resumedText hne hname t), hx]
  rfl

/-! ## Whole lines -/

/-- A line is read as a complete call exactly if it is printed so. -/
theorem ofText?_eq_complete_iff (hname : ∀ c ∈ name, isBlank c = false) (ht : '\n' ∉ t) :
    ofText? t = some (.complete name args ret rest) ↔ IsPrinted t name args ret rest := by
  refine ⟨isPrinted_of_ofText? ht, ?_⟩
  rintro ⟨hne, hparen, htail, gap, gap', hgap, hgap', rfl⟩
  have hcalled : called? (name ++ '(' :: (args ++ (equals gap gap' ++ (ret ++ rest)))) =
      some (name, args ++ (equals gap gap' ++ (ret ++ rest))) :=
    called?_eq_some_iff.2 ⟨hne, hparen, rfl⟩
  have hunfinished : latest? interrupted? (args ++ (equals gap gap' ++ (ret ++ rest))) = none :=
    latest?_eq_none_of_suffix fun v hv =>
      interrupted?_eq_none_of_suffix htail hgap hgap' (List.suffix_append args _) hv
  have hargs : '\n' ∉ args := fun hm =>
    ht (List.mem_append_right _ (List.mem_cons_of_mem _ (List.mem_append_left _ hm)))
  have hreturned : returned? (equals gap gap' ++ (ret ++ rest)) = some (ret, rest) :=
    returned?_eq_some_iff.2 ⟨gap, gap', hgap, hgap', rfl, htail.toIsOutcome⟩
  have hcomplete : latest? returned? (args ++ (equals gap gap' ++ (ret ++ rest))) =
      some (args, ret, rest) :=
    latest?_append hargs hreturned fun v hv hv' =>
      returned?_eq_none_of_suffix htail hgap hgap' hv hv'
  rw [ofText?_eq, continued?_called hname, unfinished?_of_called? hcalled, hunfinished,
    resumed?_called hname, complete?_of_called? hcalled, hcomplete]
  rfl

/-! ## Arguments of resumed lines -/

/-- What may stand before the arguments of a resumed line: blanks, and a comma among them. -/
inductive IsLeader : Text → Prop where
  | blanks {b : Text} (hb : IsBlanks b) : IsLeader b
  | comma {a b : Text} (ha : IsBlanks a) (hb : IsBlanks b) : IsLeader (a ++ ',' :: b)

theorem resumedArgs_of_trim {s : Text} (ht : t.trim = s) (hs : ∀ c ∈ s.head?, c ≠ ',') :
    resumedArgs t = s := by
  have hnone : s.dropPrefix? [','] = none := by
    rw [Option.eq_none_iff_forall_ne_some]
    intro r hr
    rw [dropPrefix?_eq_some_iff] at hr
    exact hs ',' (by rw [hr]; rfl) rfl
  unfold resumedArgs
  rw [ht, hnone]
  rfl

theorem resumedArgs_of_trim_comma {s : Text} (ht : t.trim = ',' :: s) : resumedArgs t = s := by
  have hs : dropPrefix? (',' :: s) [','] = some s := dropPrefix?_eq_some_iff.2 rfl
  unfold resumedArgs
  rw [ht, hs]
  rfl

/-- The text of a resumed line splits into the arguments that were still to be printed. -/
theorem split_resumedArgs {lead : Text} {items : List Text}
    (h : ∀ a ∈ items, Token.IsArgument a) (hlead : IsLeader lead) :
    Token.split (resumedArgs (lead ++ joinCommas items)) = items := by
  have hsplit : ∀ b, IsBlanks b → Token.split (b ++ joinCommas items) = items := fun b hb => by
    simpa using Token.split_joinCommas h hb (Token.IsTrailer.blanks isBlanks_nil)
  rcases items with _ | ⟨a, as⟩
  · rw [show joinCommas [] = [] from rfl, List.append_nil]
    have hempty : resumedArgs lead = [] := by
      cases hlead with
      | blanks hb => exact resumedArgs_of_trim (trim_of_isBlanks hb) (by simp)
      | comma ha hb => exact resumedArgs_of_trim_comma (trim_append_cons ha (by decide) hb)
    rw [hempty]
    exact hsplit [] isBlanks_nil
  · have htight := Token.tight_joinCommas (List.cons_ne_nil a as) h
    generalize joinCommas (a :: as) = j at htight hsplit ⊢
    have hlast : ∀ c ∈ j.getLast?, isBlank c = false := fun c hc => (htight.last c hc).1
    cases hlead with
    | blanks hb =>
      have htrim : trim (lead ++ j) = j := by
        simpa using trim_append hb htight.ne_nil (fun c hc => (htight.head c hc).1) hlast isBlanks_nil
      rw [resumedArgs_of_trim htrim fun c hc => (htight.head c hc).2]
      exact hsplit [] isBlanks_nil
    | @comma a b ha hb =>
      have htrim : trim (a ++ ',' :: b ++ j) = ',' :: (b ++ j) := by
        have htrim := trim_append (t := ',' :: (b ++ j)) ha (by simp) (fun c hc => ?_) ?_ isBlanks_nil
        · simpa using htrim
        · rw [← Option.some.inj hc]
          decide
        · rw [← List.cons_append]
          rwa [List.getLast?_append_of_ne_nil _ htight.ne_nil]
      rw [resumedArgs_of_trim_comma htrim]
      exact hsplit b hb

theorem not_mem_of_isLeader {lead : Text} {c : Char} (h : IsLeader lead) (hc : isBlank c = false)
    (hcomma : c ≠ ',') : c ∉ lead := by
  cases h with
  | blanks hb => exact not_mem_of_isBlanks hb hc
  | comma ha hb =>
    simp [not_mem_of_isBlanks ha hc, not_mem_of_isBlanks hb hc, hcomma]

/-- The mark of an unfinished call does not start in the leader of a resumed line. -/
theorem noMark_of_isLeader {lead : Text} (h : IsLeader lead) (ht : ¬ unfinishedMark <:+: t) :
    ¬ unfinishedMark <:+: lead ++ t := by
  rintro ⟨p, s, hps⟩
  have hsuffix : unfinishedMark ++ s <:+ lead ++ t := ⟨p, by rw [← hps, List.append_assoc]⟩
  have hmark : unfinishedMark ++ s <:+ t :=
    suffix_of_suffix_append hsuffix (not_mem_of_isLeader h (by decide) (by decide))
  obtain ⟨q, hq⟩ := hmark
  exact ht ⟨q, s, by rw [List.append_assoc, hq]⟩

end SyscallTrace.CallForm
