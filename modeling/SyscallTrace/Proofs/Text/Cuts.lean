import Mathlib.Data.List.Basic
import Mathlib.Data.List.Induction
import Mathlib.Data.List.TakeWhile
import SyscallTrace.Text.Basic

/-!
# Cuts of texts

What the cuts that readers are made of do to a text that is put together from pieces: the runs of
characters taken off its ends, the blanks that trimming removes (`trim_append`), and the last place
where a reader succeeds (`latest?_append`, `exists_last_of_latest?`). Lines are trimmed and hold no
line feed (`trim_of_mem_lines`, `not_mem_of_mem_lines`).
-/

namespace SyscallTrace.Text

variable {p : Char → Bool} {a b s t : Text}

/-! ## Ends -/

theorem dropPrefix?_eq_none_iff : dropPrefix? t s = none ↔ ¬ s <+: t := by
  rw [Option.eq_none_iff_forall_ne_some]
  constructor
  · rintro h ⟨r, rfl⟩
    exact h r (dropPrefix?_append s r)
  · rintro h r hr
    exact h ⟨r, (dropPrefix?_eq_some_iff.1 hr).symm⟩

theorem dropWhile_append (hs : ∀ c ∈ s, p c) (ht : ∀ c ∈ t.head?, p c = false) :
    (s ++ t).dropWhile p = t := by
  rw [List.dropWhile_append_of_pos hs]
  cases t with
  | nil => rfl
  | cons c t => rw [List.dropWhile_cons_of_neg (by simp [ht c rfl])]

theorem takeWhile_append (hs : ∀ c ∈ s, p c)
    (ht : ∀ c ∈ t.head?, p c = false) : (s ++ t).takeWhile p = s := by
  rw [List.takeWhile_append_of_pos hs]
  cases t with
  | nil => exact List.append_nil s
  | cons c t => rw [List.takeWhile_cons_of_neg (by simp [ht c rfl]), List.append_nil]

theorem of_mem_head?_dropWhile {c : Char}
    (h : c ∈ (t.dropWhile p).head?) : p c = false := by
  have hnot := List.head?_dropWhile_not p t
  rw [Option.mem_def.1 h] at hnot
  exact hnot

theorem exists_append_of_dropWhile (h : t.dropWhile p = s) :
    ∃ a, t = a ++ s ∧ ∀ c ∈ a, p c := by
  refine ⟨t.takeWhile p, ?_, fun c hc => List.mem_takeWhile_imp hc⟩
  rw [← h, List.takeWhile_append_dropWhile]

theorem dropEndWhile_append (ht : ∀ c ∈ t.getLast?, p c = false) (hs : ∀ c ∈ s, p c) :
    dropEndWhile p (t ++ s) = t := by
  unfold dropEndWhile
  rw [List.reverse_append, dropWhile_append (fun c hc => hs c (List.mem_reverse.1 hc)),
    List.reverse_reverse]
  rwa [List.head?_reverse]

theorem dropEndWhile_isPrefix (p : Char → Bool) (t : Text) : dropEndWhile p t <+: t := by
  rw [← List.reverse_suffix]
  unfold dropEndWhile
  rw [List.reverse_reverse]
  exact List.dropWhile_suffix p

theorem exists_dropEndWhile_append (p : Char → Bool) (t : Text) :
    ∃ s, t = dropEndWhile p t ++ s ∧ ∀ c ∈ s, p c := by
  refine ⟨(t.reverse.takeWhile p).reverse, ?_, ?_⟩
  · unfold dropEndWhile
    rw [← List.reverse_append, List.takeWhile_append_dropWhile, List.reverse_reverse]
  · intro c hc
    exact List.mem_takeWhile_imp (List.mem_reverse.1 hc)

theorem of_mem_getLast?_dropEndWhile {c : Char} (h : c ∈ (dropEndWhile p t).getLast?) :
    p c = false := by
  unfold dropEndWhile at h
  rw [List.getLast?_reverse] at h
  exact of_mem_head?_dropWhile h

/-- A cut passes over a part without such characters. -/
theorem cutFirst?_append_left (ha : ∀ c ∈ a, p c = false) (t : Text) :
    cutFirst? p (a ++ t) = (cutFirst? p t).map fun x => (a ++ x.1, x.2) := by
  induction a with
  | nil => exact Option.map_id'.symm
  | cons c a ih =>
    obtain ⟨hc, ha⟩ := List.forall_mem_cons.1 ha
    rw [List.cons_append, cutFirst?, hc, ih ha, Option.map_map]
    rfl

theorem cutFirst?_append_right (h : cutFirst? p s = some (a, b)) (t : Text) :
    cutFirst? p (s ++ t) = some (a, b ++ t) := by
  obtain ⟨c, hc, ha, rfl⟩ := eq_append_of_cutFirst? h
  rw [List.append_assoc, List.cons_append]
  exact cutFirst?_append ha hc

theorem cutLast?_append {c : Char} (hc : p c) (hb : ∀ d ∈ b, p d = false) :
    cutLast? p (a ++ c :: b) = some (a, b) := by
  have hcut : cutFirst? p (b.reverse ++ c :: a.reverse) = some (b.reverse, a.reverse) :=
    cutFirst?_append (fun d hd => hb d (List.mem_reverse.1 hd)) hc
  unfold cutLast?
  rw [show (a ++ c :: b).reverse = b.reverse ++ c :: a.reverse by simp, hcut]
  simp

/-! ## Blanks -/

/-- Every character of the text is blank. -/
def IsBlanks (t : Text) : Prop := ∀ c ∈ t, isBlank c

theorem isBlanks_nil : IsBlanks [] := fun _ hc => absurd hc List.not_mem_nil

theorem isBlanks_cons {c : Char} (hc : isBlank c) (ht : IsBlanks t) : IsBlanks (c :: t) :=
  List.forall_mem_cons.2 ⟨hc, ht⟩

/-- A non-empty run of blanks. -/
structure IsBlankRun (t : Text) : Prop where
  ne_nil : t ≠ []
  blanks : IsBlanks t

theorem isBlankRun_blank : IsBlankRun [' '] :=
  ⟨List.cons_ne_nil _ _, isBlanks_cons rfl isBlanks_nil⟩

theorem not_mem_of_isBlanks {c : Char} (h : IsBlanks t) (hc : isBlank c = false) :
    c ∉ t := fun hm => by
  rw [h c hm] at hc
  cases hc

/-- Blanks at the start end where the text that is added starts. -/
theorem trimStart_append (ht : ∀ c ∈ t.head?, isBlank c = false) (s : Text) :
    trimStart (s ++ t) = trimStart s ++ t := by
  unfold trimStart
  rw [List.dropWhile_append]
  split
  · next hs =>
    rw [List.isEmpty_iff.1 hs]
    exact dropWhile_append isBlanks_nil ht
  · rfl

theorem trim_append (hs : IsBlanks s) (hne : t ≠ []) (hhead : ∀ c ∈ t.head?, isBlank c = false)
    (hlast : ∀ c ∈ t.getLast?, isBlank c = false) (hb : IsBlanks b) : trim (s ++ t ++ b) = t := by
  unfold trim trimStart trimEnd
  rw [List.append_assoc, dropWhile_append hs, dropEndWhile_append hlast hb]
  rwa [List.head?_append_of_ne_nil _ hne]

theorem trim_append_cons {c : Char} (hs : IsBlanks s) (hc : isBlank c = false) (hb : IsBlanks b) :
    trim (s ++ c :: b) = [c] := by
  have hend : ∀ d ∈ some c, isBlank d = false := fun d hd => by rwa [← Option.some.inj hd]
  have htrim := trim_append (t := [c]) hs (List.cons_ne_nil c []) hend hend hb
  rwa [List.append_assoc] at htrim

theorem trim_of_isBlanks (hs : IsBlanks s) : trim s = [] := by
  have h : trimStart s = [] := by
    have h := dropWhile_append (p := isBlank) (t := []) hs (by simp)
    rwa [List.append_nil] at h
  unfold trim
  rw [h]
  rfl

theorem trim_eq_self (hne : t ≠ []) (hhead : ∀ c ∈ t.head?, isBlank c = false)
    (hlast : ∀ c ∈ t.getLast?, isBlank c = false) : trim t = t := by
  simpa using trim_append isBlanks_nil hne hhead hlast isBlanks_nil

/-- Blanks at the end do not count. -/
theorem trim_append_blanks (t : Text) (hb : IsBlanks b) : trim (t ++ b) = trim t := by
  have hend : ∀ u : Text, trimEnd (u ++ b) = trimEnd u := fun u => by
    unfold trimEnd dropEndWhile
    rw [List.reverse_append, List.dropWhile_append_of_pos fun c hc => hb c (List.mem_reverse.1 hc)]
  unfold trim trimStart
  rw [List.dropWhile_append]
  split
  · next h =>
    rw [List.isEmpty_iff.1 h, ← List.append_nil b, dropWhile_append hb (by simp)]
  · exact hend _

theorem mem_of_mem_trim {c : Char} (h : c ∈ t.trim) : c ∈ t :=
  (List.dropWhile_suffix isBlank).mem ((dropEndWhile_isPrefix isBlank t.trimStart).mem h)

theorem of_mem_getLast?_trim {c : Char} (h : c ∈ t.trim.getLast?) : isBlank c = false :=
  of_mem_getLast?_dropEndWhile h

theorem of_mem_head?_trim {c : Char} (h : c ∈ t.trim.head?) : isBlank c = false := by
  obtain ⟨u, hu⟩ := dropEndWhile_isPrefix isBlank t.trimStart
  have hne : t.trim ≠ [] := fun hnil => by
    rw [hnil] at h
    cases h
  refine of_mem_head?_dropWhile (p := isBlank) (t := t) ?_
  rw [← List.head?_append_of_ne_nil _ hne] at h
  rwa [show t.trim ++ u = t.dropWhile isBlank from hu] at h

theorem trim_trim (t : Text) : t.trim.trim = t.trim := by
  by_cases hne : t.trim = []
  · rw [hne]
    rfl
  · exact trim_eq_self hne (fun c hc => of_mem_head?_trim hc) fun c hc => of_mem_getLast?_trim hc

theorem of_mem_getLast?_of_suffix {c : Char} (h : s <:+ t)
    (ht : ∀ c ∈ t.getLast?, isBlank c = false) (hc : c ∈ s.getLast?) : isBlank c = false := by
  obtain ⟨u, rfl⟩ := h
  refine ht c ?_
  rw [List.getLast?_append, Option.mem_def.1 hc]
  rfl

theorem exists_append_trim_append (t : Text) :
    ∃ lead trail, t = lead ++ trim t ++ trail ∧ IsBlanks lead ∧ IsBlanks trail := by
  obtain ⟨trail, htrail, hblank⟩ := exists_dropEndWhile_append isBlank t.trimStart
  refine ⟨t.takeWhile isBlank, trail, ?_, fun c hc => List.mem_takeWhile_imp hc, hblank⟩
  rw [List.append_assoc, show trim t ++ trail = t.dropWhile isBlank from htrail.symm,
    List.takeWhile_append_dropWhile]

/-- Without blanks at the end there are only those at the start to be taken off. -/
theorem trim_eq_trimStart (h : ∀ c ∈ t.getLast?, isBlank c = false) : t.trim = t.trimStart := by
  have hend := dropEndWhile_append (s := [])
    (fun c hc => of_mem_getLast?_of_suffix (List.dropWhile_suffix isBlank) h hc) isBlanks_nil
  rwa [List.append_nil] at hend

/-! ## Words -/

theorem head?_splitOnP (p : Char → Bool) (t : Text) :
    (t.splitOnP p).head? = some (t.takeWhile fun c => !p c) := by
  induction t with
  | nil => rw [List.splitOnP_nil, List.head?_cons, List.takeWhile_nil]
  | cons c t ih =>
    rw [List.splitOnP_cons_eq_if_modifyHead]
    by_cases hc : p c
    · rw [if_pos hc, List.head?_cons, List.takeWhile_cons_of_neg (by simpa using hc)]
    · rw [if_neg hc, List.head?_modifyHead, ih, Option.map_some,
        List.takeWhile_cons_of_pos (by simpa using hc)]

/-- The first word of a text that starts with a word is what comes before the first blank. -/
theorem firstWord_eq (h : ∀ c ∈ t.head?, isBlank c = false) :
    firstWord t = t.takeWhile fun c => !isBlank c := by
  unfold firstWord words
  cases t with
  | nil => rfl
  | cons c t =>
    have hc : isBlank c = false := h c rfl
    obtain ⟨w, ws, hws⟩ := List.exists_cons_of_ne_nil (List.splitOnP_ne_nil isBlank (c :: t))
    have hw := head?_splitOnP isBlank (c :: t)
    rw [hws, List.head?_cons, Option.some.injEq] at hw
    rw [hws, hw, List.takeWhile_cons_of_pos (by simpa using hc)]
    rfl

theorem words_append_blanks (hs : IsBlanks s) (t : Text) : words (s ++ t) = words t := by
  induction s with
  | nil => rfl
  | cons c s ih =>
    rw [← ih fun d hd => hs d (List.mem_cons_of_mem _ hd)]
    unfold words
    rw [List.cons_append, List.splitOnP_cons_eq_if_modifyHead, if_pos (hs c List.mem_cons_self),
      List.filter_cons_of_neg (by simp)]

/-- A text without blanks is one word. -/
theorem words_eq_singleton (hne : t ≠ []) (ht : ∀ c ∈ t, isBlank c = false) : words t = [t] := by
  unfold words
  rw [List.splitOnP_eq_singleton ht, List.filter_cons_of_pos (by simpa using hne), List.filter_nil]

theorem words_append {gap : Text} (hne : s ≠ []) (hs : ∀ c ∈ s, isBlank c = false)
    (hgap : IsBlankRun gap) (t : Text) : words (s ++ (gap ++ t)) = s :: words t := by
  obtain ⟨c, gap, rfl⟩ := List.exists_cons_of_ne_nil hgap.ne_nil
  rw [← words_append_blanks (fun d hd => hgap.blanks d (List.mem_cons_of_mem _ hd)) t]
  unfold words
  rw [List.cons_append, List.splitOnP_append_cons_of_forall_mem hs _
    (hgap.blanks c List.mem_cons_self), List.filter_cons_of_pos (by simpa using hne)]

theorem mem_of_mem_splitOnP {c : Char} (h : s ∈ t.splitOnP p) (hc : c ∈ s) :
    p c = false ∧ c ∈ t := by
  induction t generalizing s with
  | nil =>
    rw [List.splitOnP_nil, List.mem_singleton] at h
    rw [h] at hc
    exact absurd hc List.not_mem_nil
  | cons d t ih =>
    rw [List.splitOnP_cons_eq_if_modifyHead] at h
    obtain ⟨u, us, hus⟩ := List.exists_cons_of_ne_nil (List.splitOnP_ne_nil p t)
    by_cases hd : p d
    · rw [if_pos hd] at h
      rcases List.mem_cons.1 h with rfl | h
      · exact absurd hc List.not_mem_nil
      · exact (ih h hc).imp_right (List.mem_cons_of_mem d)
    · rw [if_neg hd, hus, List.modifyHead_cons] at h
      rcases List.mem_cons.1 h with rfl | h
      · rcases List.mem_cons.1 hc with rfl | hc
        · exact ⟨by simpa using hd, List.mem_cons_self⟩
        · exact (ih (hus ▸ List.mem_cons_self) hc).imp_right (List.mem_cons_of_mem d)
      · exact (ih (hus ▸ List.mem_cons_of_mem u h) hc).imp_right (List.mem_cons_of_mem d)

/-- A word is a piece of its text without blanks. -/
theorem mem_of_mem_words {c : Char} (h : s ∈ words t) (hc : c ∈ s) : isBlank c = false ∧ c ∈ t :=
  mem_of_mem_splitOnP (List.mem_filter.1 h).1 hc

theorem ne_nil_of_mem_words (h : s ∈ words t) : s ≠ [] := by
  simpa using (List.mem_filter.1 h).2

theorem words_trimStart (t : Text) : words t.trimStart = words t := by
  conv_rhs => rw [← List.takeWhile_append_dropWhile (p := isBlank) (l := t)]
  exact (words_append_blanks (fun c hc => List.mem_takeWhile_imp hc) _).symm

theorem isBlanks_of_words_eq_nil (h : words t = []) : IsBlanks t := by
  rw [← words_trimStart] at h
  have hword := firstWord_eq (t := t.trimStart) fun c hc => of_mem_head?_dropWhile hc
  rw [firstWord, h, List.headD_nil] at hword
  have hnil : t.trimStart = [] := by
    rcases ht : t.trimStart with _ | ⟨c, u⟩
    · rfl
    · have hc : isBlank c = false := of_mem_head?_dropWhile (p := isBlank) (t := t) (by
        rw [show t.dropWhile isBlank = c :: u from ht]
        rfl)
      rw [ht, List.takeWhile_cons_of_pos (by simpa using hc)] at hword
      cases hword
  exact fun c hc => List.dropWhile_eq_nil_iff.1 hnil c hc

theorem words_append_of_head {word : Text} (hne : word ≠ [])
    (hword : ∀ c ∈ word, isBlank c = false) (ht : ∀ c ∈ t.head?, isBlank c) :
    words (word ++ t) = word :: words t := by
  rcases t with _ | ⟨c, t⟩
  · rw [List.append_nil]
    exact words_eq_singleton hne hword
  · have hc : IsBlankRun [c] :=
      ⟨List.cons_ne_nil c [], isBlanks_cons (ht c rfl) isBlanks_nil⟩
    rw [← List.singleton_append, words_append hne hword hc, words_append_blanks hc.blanks]

/-- The first word starts a text that starts with no blank. -/
theorem exists_of_words_eq_cons {word : Text} {ws : List Text} (h : words t = word :: ws)
    (ht : ∀ c ∈ t.head?, isBlank c = false) :
    ∃ u, t = word ++ u ∧ words u = ws := by
  have hmem : word ∈ words t := h ▸ List.mem_cons_self
  have hfirst := firstWord_eq ht
  rw [firstWord, h, List.headD_cons] at hfirst
  have htext : t = word ++ t.dropWhile fun c => !isBlank c := by
    rw [hfirst, List.takeWhile_append_dropWhile]
  have hhead : ∀ c ∈ (t.dropWhile fun c => !isBlank c).head?, isBlank c := fun c hc => by
    simpa using of_mem_head?_dropWhile hc
  refine ⟨_, htext, ?_⟩
  have hwords := words_append_of_head (ne_nil_of_mem_words hmem)
    (fun c hc => (mem_of_mem_words hmem hc).1) hhead
  rw [← htext, h] at hwords
  exact (List.cons.inj hwords).2.symm

/-- A text with one word is this word, with blanks around it. -/
theorem trim_of_words_eq_singleton {word : Text} (h : words t = [word]) : t.trim = word := by
  have hmem : word ∈ words t := h ▸ List.mem_cons_self
  have hword : ∀ c ∈ word, isBlank c = false := fun c hc => (mem_of_mem_words hmem hc).1
  rw [← words_trimStart] at h
  obtain ⟨u, hu, hnone⟩ := exists_of_words_eq_cons h fun c hc => of_mem_head?_dropWhile hc
  rw [← List.takeWhile_append_dropWhile (p := isBlank) (l := t),
    show t.dropWhile isBlank = word ++ u from hu, ← List.append_assoc]
  exact trim_append (fun c hc => List.mem_takeWhile_imp hc) (ne_nil_of_mem_words hmem)
    (fun c hc => hword c (List.mem_of_mem_head? hc)) (fun c hc => hword c (List.mem_of_getLast? hc))
    (isBlanks_of_words_eq_nil hnone)

/-! ## Parts -/

theorem includes_iff : includes t s ↔ s <:+: t := by
  induction t with
  | nil => rw [includes, List.isEmpty_iff, List.infix_nil]
  | cons c t ih => rw [includes, Bool.or_eq_true, ih, List.isPrefixOf_iff_prefix, List.infix_cons_iff]

/-! ## Lines -/

theorem trim_of_mem_lines {line : Text} (h : line ∈ t.lines) : line.trim = line := by
  obtain ⟨u, -, rfl⟩ := List.mem_map.1 h
  exact trim_trim u

theorem not_mem_of_mem_splitOn {c : Char} {u : Text} (h : u ∈ t.splitOn c) : c ∉ u := by
  induction t generalizing u with
  | nil =>
    rw [List.splitOn_nil, List.mem_singleton] at h
    rw [h]
    exact List.not_mem_nil
  | cons d t ih =>
    rw [List.splitOn_cons_eq_if_modifyHead] at h
    split at h
    · rcases List.mem_cons.1 h with rfl | h
      · exact List.not_mem_nil
      · exact ih h
    · next hd =>
      obtain ⟨v, vs, hvs⟩ := List.exists_cons_of_ne_nil (List.splitOn_ne_nil c t)
      rw [hvs, List.modifyHead_cons] at h
      rcases List.mem_cons.1 h with rfl | h
      · rw [List.mem_cons, not_or]
        exact ⟨fun heq => hd (by simp [heq]), ih (hvs ▸ List.mem_cons_self)⟩
      · exact ih (hvs ▸ List.mem_cons_of_mem v h)

theorem not_mem_of_mem_lines {line : Text} (h : line ∈ t.lines) : '\n' ∉ line := by
  obtain ⟨u, hu, rfl⟩ := List.mem_map.1 h
  exact fun hm => not_mem_of_mem_splitOn hu (mem_of_mem_trim hm)

/-- Lines without line feeds are found again between the line feeds. The last piece is empty. -/
theorem splitOn_unlines {ls : List Text} (h : ∀ l ∈ ls, '\n' ∉ l) :
    (unlines ls).splitOn '\n' = ls ++ [[]] := by
  induction ls with
  | nil => rfl
  | cons l ls ih =>
    obtain ⟨hl, hls⟩ := List.forall_mem_cons.1 h
    have hcut : (l ++ '\n' :: unlines ls).splitOn '\n' =
        l.splitOn '\n' ++ (unlines ls).splitOn '\n' := List.splitOnP_append_cons l _ rfl
    rw [show unlines (l :: ls) = l ++ '\n' :: unlines ls by simp [unlines], hcut, ih hls,
      List.splitOn_eq_singleton hl]
    rfl

/-! ## The last place where a reader succeeds -/

section

variable {α : Type} {f : Text → Option α} {a r t : Text} {x : α}

theorem latest?_eq_none_of_suffix (h : ∀ v, v <:+ t → f v = none) : latest? f t = none := by
  induction t with
  | nil => rw [latest?, h [] List.suffix_rfl, Option.map_none]
  | cons c t ih =>
    have hrest : (if c = '\n' then none else latest? f t) = none := by
      rw [ih fun v hv => h v (hv.trans (List.suffix_cons c t)), ite_self]
    rw [latest?, hrest, h _ List.suffix_rfl]
    rfl

theorem eq_none_of_latest?_eq_none (ht : '\n' ∉ t) (h : latest? f t = none) {v : Text}
    (hv : v <:+ t) : f v = none := by
  induction t with
  | nil =>
    rw [List.suffix_nil.1 hv]
    exact Option.map_eq_none_iff.1 h
  | cons c t ih =>
    rw [List.mem_cons, not_or] at ht
    rw [latest?, if_neg (Ne.symm ht.1)] at h
    cases hrest : latest? f t with
    | some y =>
      rw [hrest] at h
      cases h
    | none =>
      rw [hrest] at h
      rcases List.suffix_cons_iff.1 hv with rfl | hv
      · exact Option.map_eq_none_iff.1 h
      · exact ih ht.2 hrest hv

/-- A reader that succeeds at a place and at no later one cuts there. -/
theorem latest?_append (ha : '\n' ∉ a) (hr : f r = some x)
    (h : ∀ v, v <:+ r → v ≠ r → f v = none) : latest? f (a ++ r) = some (a, x) := by
  induction a with
  | nil =>
    cases r with
    | nil => rw [List.append_nil, latest?, hr, Option.map_some]
    | cons c r =>
      have hrest : latest? f r = none := latest?_eq_none_of_suffix fun v hv =>
        h v (hv.trans (List.suffix_cons c r)) fun heq => by
          have hlen := hv.length_le
          rw [heq, List.length_cons] at hlen
          omega
      rw [List.nil_append, latest?, hrest, ite_self, hr]
      rfl
  | cons c a ih =>
    rw [List.mem_cons, not_or] at ha
    rw [List.cons_append, latest?, if_neg (Ne.symm ha.1), ih ha.2]

/-- A reader that succeeds at a place behind no line feed cuts there or later. -/
theorem exists_latest?_append (ha : '\n' ∉ a) (hr : f r = some x) :
    ∃ y, latest? f (a ++ r) = some y := by
  induction a with
  | nil =>
    cases r with
    | nil => exact ⟨([], x), by rw [List.append_nil, latest?, hr, Option.map_some]⟩
    | cons c r =>
      rw [List.nil_append, latest?, hr]
      split
      · exact ⟨_, rfl⟩
      · exact ⟨_, rfl⟩
  | cons c a ih =>
    rw [List.mem_cons, not_or] at ha
    obtain ⟨y, hy⟩ := ih ha.2
    rw [List.cons_append, latest?, if_neg (Ne.symm ha.1), hy]
    exact ⟨_, rfl⟩

theorem exists_last_of_latest? (ht : '\n' ∉ t) (h : latest? f t = some (a, x)) :
    ∃ r, t = a ++ r ∧ f r = some x ∧ ∀ v, v <:+ r → v ≠ r → f v = none := by
  induction t generalizing a with
  | nil =>
    obtain ⟨r, hr, hx, -⟩ := exists_of_latest? h
    refine ⟨r, hr, hx, fun v hv hne => absurd ?_ hne⟩
    obtain ⟨-, rfl⟩ := List.append_eq_nil_iff.1 hr.symm
    exact List.suffix_nil.1 hv
  | cons c t ih =>
    rw [List.mem_cons, not_or] at ht
    rw [latest?, if_neg (Ne.symm ht.1)] at h
    cases hrest : latest? f t with
    | some y =>
      rw [hrest] at h
      obtain ⟨rfl, rfl⟩ := Prod.mk.inj (Option.some.inj h)
      obtain ⟨r, rfl, hr, hlast⟩ := ih ht.2 hrest
      exact ⟨r, rfl, hr, hlast⟩
    | none =>
      rw [hrest] at h
      obtain ⟨y, hy, hax⟩ := Option.map_eq_some_iff.1 h
      obtain ⟨rfl, rfl⟩ := Prod.mk.inj hax
      refine ⟨c :: t, rfl, hy, fun v hv hne => ?_⟩
      rcases List.suffix_cons_iff.1 hv with rfl | hv
      · exact absurd rfl hne
      · exact eq_none_of_latest?_eq_none ht.2 hrest hv

/-- A suffix starts behind the part of the text that its first character does not occur in. -/
theorem suffix_of_suffix_append {c : Char} {v p s : Text} (h : c :: v <:+ p ++ s) (hc : c ∉ p) :
    c :: v <:+ s := by
  induction p with
  | nil => exact h
  | cons d p ih =>
    rw [List.mem_cons, not_or] at hc
    rcases List.suffix_cons_iff.1 h with heq | h
    · exact absurd (List.cons.inj heq).1 hc.1
    · exact ih h hc.2

/-- A character that does not occur in the last part of a text stands in the part before it. -/
theorem prefix_of_append_eq_append {c : Char} {a b p s : Text} (h : a ++ c :: b = p ++ s)
    (hc : c ∉ s) : a ++ [c] <+: p := by
  rcases List.append_eq_append_iff.1 h with ⟨x, rfl, hx⟩ | ⟨x, -, rfl⟩
  · rcases x with _ | ⟨d, x⟩
    · rw [List.nil_append] at hx
      exact absurd (hx ▸ List.mem_cons_self) hc
    · obtain ⟨rfl, -⟩ := List.cons.inj hx
      exact ⟨x, by simp⟩
  · exact absurd (List.mem_append_right _ List.mem_cons_self) hc

/-- A suffix without the character starts after it. -/
theorem suffix_of_suffix_append_cons {c : Char} {p s w : Text} (h : w <:+ p ++ c :: s)
    (hc : c ∉ w) : w <:+ s := by
  obtain ⟨q, hq⟩ := h
  obtain ⟨q, rfl⟩ := prefix_of_append_eq_append hq.symm hc
  rw [List.append_assoc, List.append_assoc, List.append_cancel_left_eq] at hq
  exact ⟨q, (List.cons.inj hq).2⟩

/-- A part of the text without the character stands on one side of it. -/
theorem infix_append_cons {c : Char} {p s w : Text} (h : w <:+: p ++ c :: s) (hc : c ∉ w) :
    w <:+: p ∨ w <:+: s := by
  obtain ⟨a, b, hab⟩ := h
  rcases List.append_eq_append_iff.1 hab with ⟨x, rfl, -⟩ | ⟨x, hx, hs⟩
  · exact .inl ⟨a, x, rfl⟩
  · rcases x with _ | ⟨d, x⟩
    · rw [List.append_nil] at hx
      exact .inl ⟨a, [], by rw [hx, List.append_nil]⟩
    · obtain ⟨rfl, rfl⟩ := List.cons.inj hs
      have hsuffix : w <:+ p ++ c :: x := ⟨a, hx⟩
      exact .inr ((suffix_of_suffix_append_cons hsuffix hc).isInfix.trans
        (List.prefix_append x b).isInfix)

end

end SyscallTrace.Text
