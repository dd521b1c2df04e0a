import SyscallTrace.Proofs.Argument.Splitting

/-!
# Where tokens end

Merging reads the pieces of an argument text from the left, and a piece hands nothing to the next
one but the literal that is still open (`Token.openAfter`). So arguments that follow a text come
out as they are exactly if the text leaves no literal open (`Token.suffix_split_iff`).

* `mergeLiterals_append_of_openAfter`: after a text that leaves nothing open, merging starts anew.
* `IsMerged`: the lists that merging makes (`isMerged_split`); it makes them again from their text
  (`IsMerged.mergeLiterals_joinCommas`).
* `openAfter_quote_iff`: a quote opens a literal right after a comma or at the front.
* `split_joinCommas_append_comma`: tokens that no quote opens, with plain arguments after them.
-/

namespace SyscallTrace

namespace Text

variable {a b p s t : Text} {c : Char} {ps qs : List Text}

/-! ## Where commas stand -/

theorem noComma_of_not_mem (h : ',' ∉ t) : ¬ comma <:+: t := fun hin =>
  h (hin.mem (show ',' ∈ comma from List.mem_cons_self))

theorem comma_infix_append_iff (ha : ',' ∉ a) : comma <:+: a ++ b ↔ comma <:+: b := by
  constructor
  · rintro ⟨u, v, huv⟩
    have hsuffix : ',' :: ' ' :: v <:+ a ++ b := ⟨u, by rw [← huv]; simp [comma]⟩
    have hb := suffix_of_suffix_append hsuffix ha
    exact List.IsInfix.trans ⟨[], v, rfl⟩ hb.isInfix
  · exact fun h => h.trans (List.suffix_append a b).isInfix

theorem append_comma_of_concat (h : s ++ [c] = a ++ comma ++ b) (hc : c ≠ ' ') :
    ∃ u, s = a ++ comma ++ u := by
  rcases List.eq_nil_or_concat' b with rfl | ⟨u, d, rfl⟩
  · have hlast := congrArg List.getLast? h
    rw [List.append_nil, List.getLast?_concat, List.getLast?_append_of_ne_nil a (by decide)] at hlast
    exact absurd (Option.some.inj hlast) hc
  · rw [← List.append_assoc] at h
    exact ⟨u, (List.append_inj' h rfl).1⟩

theorem comma_infix_concat_iff (hc : c ≠ ' ') : comma <:+: t ++ [c] ↔ comma <:+: t := by
  constructor
  · rintro ⟨u, v, huv⟩
    obtain ⟨w, hw⟩ := append_comma_of_concat huv.symm hc
    exact ⟨u, w, hw.symm⟩
  · exact fun h => h.trans (List.prefix_append t [c]).isInfix

theorem comma_suffix_append_iff : comma <:+ a ++ comma ++ b ↔ b = [] ∨ comma <:+ b := by
  constructor
  · intro hend
    rcases b with _ | ⟨d, _ | ⟨e, b⟩⟩
    · exact .inl rfl
    · obtain ⟨u, hu⟩ := hend
      have hlast := congrArg List.reverse hu
      simp [comma] at hlast
    · exact .inr (List.suffix_of_suffix_length_le hend (List.suffix_append _ _) (by simp [comma]))
  · rintro (rfl | hend)
    · exact ⟨a, by rw [List.append_nil]⟩
    · exact hend.trans (List.suffix_append _ _)

theorem comma_suffix_append_quote_iff : comma <:+ a ++ '"' :: b ↔ comma <:+ b :=
  ⟨fun h => suffix_of_suffix_append_cons h (by decide), fun h =>
    (h.trans (List.suffix_cons '"' b)).trans (List.suffix_append a _)⟩

/-- A quote that stands right after a comma, in a text that is told apart at one of its quotes. -/
theorem commaQuote_infix_append_iff : comma ++ ['"'] <:+: a ++ '"' :: b ↔
    comma ++ ['"'] <:+: a ∨ comma <:+ a ∨ comma ++ ['"'] <:+: b := by
  constructor
  · rintro ⟨u, v, huv⟩
    have hcut : (u ++ comma) ++ '"' :: v = a ++ '"' :: b := by rw [← huv]; simp
    rcases List.append_eq_append_iff.1 hcut with ⟨x, rfl, hx⟩ | ⟨x, hx, hv⟩
    · rcases x with _ | ⟨d, x⟩
      · exact .inr (.inl ⟨u, by simp⟩)
      · obtain ⟨rfl, -⟩ := List.cons.inj hx
        exact .inl ⟨u, x, by simp⟩
    · rcases x with _ | ⟨d, x⟩
      · exact .inr (.inl ⟨u, by simpa using hx⟩)
      · obtain ⟨rfl, rfl⟩ := List.cons.inj hv
        obtain ⟨w, rfl⟩ := comma_suffix_append_quote_iff.1 (hx ▸ List.suffix_append u comma)
        exact .inr (.inr ⟨w, v, by simp⟩)
  · rintro (h | ⟨u, rfl⟩ | h)
    · exact h.trans (List.prefix_append a _).isInfix
    · exact ⟨u, b, by simp⟩
    · exact h.trans ((List.suffix_cons '"' b).trans (List.suffix_append a _)).isInfix

/-! ## Pieces -/

theorem joinCommas_of_splitCommas (h : splitCommas t = ps ++ qs) (hp : ps ≠ []) (hq : qs ≠ []) :
    t = joinCommas ps ++ comma ++ joinCommas qs := by
  rw [← joinCommas_append hp hq, ← h, joinCommas_splitCommas]

theorem noComma_of_mem_splitCommas (h : p ∈ splitCommas t) : ¬ comma <:+: p := by
  fun_induction splitCommas t generalizing p with
  | case1 =>
    rw [List.mem_singleton.1 h]
    decide
  | case2 t ih =>
    rcases List.mem_cons.1 h with rfl | h
    · decide
    · exact ih h
  | case3 c t hcut ih =>
    obtain ⟨u, us, hus⟩ := List.exists_cons_of_ne_nil (splitCommas_ne_nil t)
    rw [hus] at h ih
    rcases List.mem_cons.1 h with rfl | h
    · rw [List.infix_cons_iff, not_or]
      refine ⟨fun hpre => ?_, ih List.mem_cons_self⟩
      -- the first piece of `t` starts as `t` does
      obtain ⟨v, hv⟩ : u <+: t := by
        have hjoin := joinCommas_splitCommas t
        rw [hus] at hjoin
        rcases us with _ | ⟨w, us⟩
        · exact ⟨[], by simpa using hjoin⟩
        · rw [Token.joinCommas_cons u (by simp), List.append_assoc] at hjoin
          exact ⟨_, hjoin⟩
      obtain ⟨rfl, hu⟩ := List.cons_prefix_cons.1 hpre
      obtain ⟨x, rfl⟩ := hu
      exact hcut (x ++ v) rfl (by rw [← hv]; rfl)
    · exact ih (List.mem_cons_of_mem _ h)

theorem splitCommas_eq_singleton (h : ¬ comma <:+: t) : splitCommas t = [t] := by
  obtain ⟨u, us, hus⟩ := List.exists_cons_of_ne_nil (splitCommas_ne_nil t)
  rcases us with _ | ⟨v, us⟩
  · have hjoin := joinCommas_splitCommas t
    rw [hus, joinCommas_singleton] at hjoin
    rw [hus, hjoin]
  · have hcut : splitCommas t = [u] ++ v :: us := hus
    exact absurd ⟨_, _, (joinCommas_of_splitCommas hcut (by simp) (by simp)).symm⟩ h

/-- No piece starts with a quote if the text does not and no comma in it stands before a quote. -/
theorem head?_ne_quote_of_mem_splitCommas (hhead : t.head? ≠ some '"')
    (hquote : ¬ comma ++ ['"'] <:+: t) (hp : p ∈ splitCommas t) : p.head? ≠ some '"' := by
  intro h
  obtain ⟨ps, qs, hsplit⟩ := List.mem_iff_append.1 hp
  obtain ⟨v, rfl⟩ := List.head?_eq_some_iff.1 h
  have hstart : ['"'] <+: joinCommas (('"' :: v) :: qs) := by
    rcases qs with _ | ⟨q, qs⟩
    · exact ⟨v, by simp⟩
    · exact ⟨v ++ comma ++ joinCommas (q :: qs), by
        rw [Token.joinCommas_cons ('"' :: v) (List.cons_ne_nil q qs)]; rfl⟩
  obtain ⟨w, hw⟩ := hstart
  rcases ps with _ | ⟨q, ps⟩
  · have hjoin := joinCommas_splitCommas t
    rw [hsplit, List.nil_append, ← hw] at hjoin
    exact hhead (by rw [← hjoin]; rfl)
  · have ht := joinCommas_of_splitCommas hsplit (by simp) (by simp)
    rw [← hw] at ht
    exact hquote ⟨joinCommas (q :: ps), w, by rw [ht]; simp⟩

end Text

namespace Token

open Text

/-! ## The open literal -/

/-- The literal that a text leaves open, after an open literal. -/
def openAfter (held : Option Text) (t : Text) : Option Text := (mergeRun held (splitCommas t)).2

variable {held : Option Text} {a b p t : Text} {args ps qs ts : List Text}

theorem openAfter_append_comma (held : Option Text) (a b : Text) :
    openAfter held (a ++ comma ++ b) = openAfter (openAfter held a) b := by
  unfold openAfter
  rw [splitCommas_append_comma, mergeRun_append]

theorem openAfter_of_noComma (ht : ¬ comma <:+: t) :
    openAfter held t = (mergeRun held [t]).2 := by
  unfold openAfter
  rw [splitCommas_eq_singleton ht]

/-- A text that is open at each of its commas is held as one piece. -/
theorem openAfter_of_open
    (hopen : ∀ a b, t = a ++ comma ++ b → isOpenLiteral (continued held a) = true) :
    openAfter held t = (mergeRun held [t]).2 := by
  unfold openAfter
  rw [mergeRun_of_open (splitCommas_ne_nil t) fun qs rs hsplit hq hr =>
    hopen _ _ (joinCommas_of_splitCommas hsplit hq hr), joinCommas_splitCommas]

theorem mergeRun_singleton (held : Option Text) (t : Text) : (mergeRun held [t]).2 =
    if isOpenLiteral (continued held t) then some (continued held t) else none := by
  unfold mergeRun
  split <;> rfl

theorem isOpenLiteral_of_mergeRun (hheld : ∀ h ∈ held, isOpenLiteral h = true)
    (ht : t ∈ (mergeRun held ps).2) : isOpenLiteral t = true := by
  induction ps generalizing held with
  | nil => exact hheld t ht
  | cons p ps ih =>
    rw [mergeRun] at ht
    split at ht
    · next hopen =>
      refine ih (fun u hu => ?_) ht
      rwa [← Option.some.inj hu]
    · exact ih (by simp) ht

/-- After a text that leaves nothing open, merging starts anew. -/
theorem mergeLiterals_append_of_openAfter (ha : openAfter none a = none) (qs : List Text) :
    mergeLiterals (splitCommas a ++ qs) = mergeLiterals (splitCommas a) ++ mergeLiterals qs := by
  have ha : (mergeRun none (splitCommas a)).2 = none := ha
  unfold mergeLiterals
  simp only [mergeOpen_eq, mergeRun_append, ha, Option.toList_none, List.append_nil,
    List.append_assoc]

theorem openAfter_of_isToken (ht : IsToken t) (hclosed : isOpenLiteral t = false) :
    openAfter none t = none := by
  have hopen : ∀ a b, t = a ++ comma ++ b → isOpenLiteral (continued none a) = true := ht
  rw [openAfter_of_open hopen, mergeRun_singleton, show continued none t = t from rfl, hclosed]
  rfl

/-! ## Quotes that open a literal -/

theorem mergeRun_of_noQuote (h : ∀ p ∈ ps, p.head? ≠ some '"') : mergeRun none ps = (ps, none) := by
  induction ps with
  | nil => rfl
  | cons p ps ih =>
    have hp : isOpenLiteral (continued none p) = false :=
      isOpenLiteral_eq_false_of_head? (h p List.mem_cons_self)
    rw [mergeRun, hp, ih fun q hq => h q (List.mem_cons_of_mem p hq)]
    rfl

section

variable (hhead : t.head? ≠ some '"') (hquote : ¬ comma ++ ['"'] <:+: t)

include hhead hquote

theorem openAfter_of_noQuote : openAfter none t = none :=
  congrArg Prod.snd
    (mergeRun_of_noQuote fun _ hp => head?_ne_quote_of_mem_splitCommas hhead hquote hp)

theorem mergeLiterals_of_noQuote : mergeLiterals (splitCommas t) = splitCommas t := by
  unfold mergeLiterals
  rw [mergeOpen_eq,
    mergeRun_of_noQuote fun _ hp => head?_ne_quote_of_mem_splitCommas hhead hquote hp]
  exact List.append_nil _

end

/-- A quote with no quote after it opens a literal. -/
theorem isOpenLiteral_quote (ht : '"' ∉ t) : isOpenLiteral ('"' :: t) = true := by
  unfold isOpenLiteral
  rw [Bool.and_eq_true, Bool.not_eq_true', ← Bool.not_eq_true]
  refine ⟨by simp [startsWith], fun hend => ?_⟩
  obtain ⟨u, hu, heq, -⟩ := endsInQuote_eq_true_iff.1 hend
  obtain ⟨c, u, rfl⟩ := List.exists_cons_of_ne_nil hu
  have hpre := dropEndWhile_isPrefix (· == '.') ('"' :: t)
  rw [heq, List.cons_append, List.cons_prefix_cons] at hpre
  exact ht (hpre.2.mem (by simp))

/-- The last quote of a text opens a literal exactly if it stands at the front or right after a
comma, where no other quote stands so. -/
theorem openAfter_quote_iff (hhead : a.head? ≠ some '"') (hquote : ¬ comma ++ ['"'] <:+: a)
    (hb : '"' ∉ b) (hcomma : ',' ∉ b) :
    openAfter none (a ++ '"' :: b) = none ↔ a ≠ [] ∧ ¬ comma <:+ a := by
  have hpiece : openAfter none ('"' :: b) ≠ none := by
    have hsingle : ¬ comma <:+: '"' :: b := noComma_of_not_mem (by simpa using hcomma)
    have hopen : isOpenLiteral (continued none ('"' :: b)) = true := isOpenLiteral_quote hb
    rw [openAfter_of_noComma hsingle, mergeRun_singleton, hopen]
    simp
  constructor
  · refine fun h => ⟨?_, ?_⟩
    · rintro rfl
      exact hpiece h
    · rintro ⟨u, rfl⟩
      have hu : openAfter none u = none := by
        refine openAfter_of_noQuote (fun hu => hhead ?_) fun hu => hquote (hu.trans ?_)
        · rw [List.head?_append, hu]
          rfl
        · exact (List.prefix_append u comma).isInfix
      rw [openAfter_append_comma, hu] at h
      exact hpiece h
  · rintro ⟨hne, hend⟩
    refine openAfter_of_noQuote (by rwa [List.head?_append_of_ne_nil _ hne]) ?_
    rw [commaQuote_infix_append_iff, not_or, not_or]
    exact ⟨hquote, hend, fun hin => hb (hin.mem (by simp))⟩

/-! ## Lists of tokens -/

theorem isMerged_of_noComma (h : ∀ t ∈ ts, ¬ comma <:+: t ∧ t.head? ≠ some '"') : IsMerged ts := by
  induction ts with
  | nil => trivial
  | cons t ts ih =>
    obtain ⟨⟨hcomma, hhead⟩, hts⟩ := List.forall_mem_cons.1 h
    exact ⟨isToken_of_noComma hcomma, fun _ => isOpenLiteral_eq_false_of_head? hhead, ih hts⟩

theorem IsToken.noComma (h : IsToken t) (hhead : t.head? ≠ some '"') : ¬ comma <:+: t := by
  rintro ⟨a, b, rfl⟩
  have hopen := h a b rfl
  rw [isOpenLiteral_eq_false_of_head?] at hopen
  · cases hopen
  · rcases a with _ | ⟨c, a⟩
    · simp
    · exact hhead

namespace IsMerged

theorem of_append_right (h : IsMerged (ts ++ qs)) : IsMerged qs := by
  induction ts with
  | nil => exact h
  | cons t ts ih => exact ih h.2.2

theorem of_append_left (h : IsMerged (ts ++ qs)) : IsMerged ts := by
  induction ts with
  | nil => trivial
  | cons t ts ih =>
    obtain ⟨ht, hclosed, hts⟩ := h
    exact ⟨ht, fun hne => hclosed (by simp [hne]), ih hts⟩

theorem mergeLiterals_joinCommas (h : IsMerged ts) (hne : ts ≠ []) :
    mergeLiterals (splitCommas (joinCommas ts)) = ts := by
  rw [splitCommas_joinCommas hne, h.mergeLiterals_flatMap]

/-- Tokens with a token after them leave nothing open. -/
theorem openAfter_joinCommas (h : IsMerged (ts ++ qs)) (hts : ts ≠ []) (hqs : qs ≠ []) :
    openAfter none (joinCommas ts) = none := by
  induction ts with
  | nil => exact absurd rfl hts
  | cons t ts ih =>
    obtain ⟨ht, hclosed, hrest⟩ := h
    have hopen := openAfter_of_isToken ht (hclosed (by simp [hqs]))
    rcases ts with _ | ⟨u, us⟩
    · rwa [joinCommas_singleton]
    · rw [joinCommas_cons t (by simp), openAfter_append_comma, hopen]
      exact ih hrest (by simp)

end IsMerged

/-- A piece that is put to an open literal makes a token again. -/
theorem isToken_continued (hheld : ∀ t ∈ held, IsToken t ∧ isOpenLiteral t = true)
    (hp : ¬ comma <:+: p) : IsToken (continued held p) := by
  rcases held with _ | t
  · exact isToken_of_noComma hp
  obtain ⟨ht, hopen⟩ := hheld t rfl
  intro a b hcut
  have hpieces := congrArg splitCommas (show t ++ comma ++ p = a ++ comma ++ b from hcut)
  rw [splitCommas_append_comma, splitCommas_append_comma, splitCommas_eq_singleton hp] at hpieces
  obtain ⟨us, u, hu⟩ := (List.eq_nil_or_concat' (splitCommas b)).resolve_left (splitCommas_ne_nil b)
  rw [hu, ← List.append_assoc] at hpieces
  obtain ⟨hpieces, -⟩ := List.append_inj' hpieces rfl
  -- the cut is at the end of the open literal, or inside of it
  by_cases hus : us = []
  · rw [hus, List.append_nil] at hpieces
    rw [← joinCommas_splitCommas a, ← hpieces, joinCommas_splitCommas]
    exact hopen
  · refine ht a (joinCommas us) ?_
    rw [joinCommas_of_splitCommas hpieces (splitCommas_ne_nil a) hus, joinCommas_splitCommas]

theorem isMerged_mergeOpen (hheld : ∀ t ∈ held, IsToken t ∧ isOpenLiteral t = true)
    (hps : ∀ p ∈ ps, ¬ comma <:+: p) : IsMerged (mergeOpen held ps) := by
  induction ps generalizing held with
  | nil =>
    rcases held with _ | t
    · trivial
    · exact ⟨(hheld t rfl).1, fun hne => absurd rfl hne, trivial⟩
  | cons p ps ih =>
    have htoken := isToken_continued hheld (hps p List.mem_cons_self)
    have hrest := fun q hq => hps q (List.mem_cons_of_mem p hq)
    rw [mergeOpen]
    split
    · next hopen =>
      refine ih (fun t ht => ?_) hrest
      obtain rfl := Option.some.inj ht
      exact ⟨htoken, hopen⟩
    · next hclosed =>
      exact ⟨htoken, fun _ => by simpa using hclosed, ih (by simp) hrest⟩

theorem isMerged_split (t : Text) : IsMerged (split t) := by
  unfold split
  dsimp only
  split
  · trivial
  · exact isMerged_mergeOpen (by simp) fun p hp => noComma_of_mem_splitCommas hp

theorem joinCommas_split (ht : t.Tight) : joinCommas (split t) = t := by
  rw [split_of_tight ht, joinCommas_mergeLiterals, joinCommas_splitCommas]

/-! ## Texts of tokens -/

theorem split_joinCommas_of_isMerged (hne : ts ≠ []) (htight : (joinCommas ts).Tight)
    (h : IsMerged ts) : split (joinCommas ts) = ts := by
  rw [split_of_tight htight, h.mergeLiterals_joinCommas hne]

theorem split_append_comma_nil (ht : t.Tight) : split (t ++ comma) = split t := by
  have hblank : IsBlanks [' '] := isBlanks_cons rfl isBlanks_nil
  have hbody := dropEndWhile_comma_trim isBlanks_nil ht (.comma hblank)
  rw [List.nil_append] at hbody
  rw [split_of_tight ht]
  unfold split
  rw [show t ++ comma = t ++ [',', ' '] from rfl, hbody]
  exact if_neg (by simpa using ht.ne_nil)

/-- Tokens that no quote opens come out as they are, and so do the plain arguments after them, if
there are any. -/
theorem split_joinCommas_append_comma (hne : ts ≠ []) (htight : (joinCommas ts).Tight)
    (hts : ∀ t ∈ ts, ¬ comma <:+: t ∧ t.head? ≠ some '"') (hargs : ∀ a ∈ args, IsPlain a) :
    split (joinCommas ts ++ comma ++ joinCommas args) = ts ++ args := by
  by_cases hnil : args = []
  · subst hnil
    rw [show joinCommas [] = [] from rfl, List.append_nil, List.append_nil,
      split_append_comma_nil htight, split_joinCommas_of_isMerged hne htight
        (isMerged_of_noComma hts)]
  · have hall : ∀ t ∈ ts ++ args, ¬ comma <:+: t ∧ t.head? ≠ some '"' := fun t ht =>
      (List.mem_append.1 ht).elim (hts t) fun ht => ⟨(hargs t ht).noComma, (hargs t ht).noQuote⟩
    have hjoin := joinCommas_append hne hnil
    have htight := htight.append_of_tight comma
      (Tight.joinCommas hnil fun a ha => (hargs a ha).toTight)
    rw [← hjoin] at htight ⊢
    exact split_joinCommas_of_isMerged (by simp [hne]) htight (isMerged_of_noComma hall)

/-! ## Arguments after a text -/

section

variable (ha : a.Tight) (hne : args ≠ []) (hargs : ∀ b ∈ args, IsArgument b)

include ha hne hargs

theorem split_append_comma : split (a ++ comma ++ joinCommas args) =
    mergeLiterals (splitCommas a ++ args.flatMap splitCommas) := by
  rw [split_of_tight (ha.append_of_tight comma (tight_joinCommas hne hargs)),
    splitCommas_append_comma, splitCommas_joinCommas hne]

/-- Arguments after a text that leaves nothing open are split from it. -/
theorem split_append_of_openAfter (hopen : openAfter none a = none) :
    split (a ++ comma ++ joinCommas args) = split a ++ args := by
  rw [split_append_comma ha hne hargs, mergeLiterals_append_of_openAfter hopen,
    (isMerged_of_isArgument hargs).mergeLiterals_flatMap, split_of_tight ha]

/-- The arguments after a text come out as they are exactly if the text leaves nothing open. -/
theorem suffix_split_iff :
    args <:+ split (a ++ comma ++ joinCommas args) ↔ openAfter none a = none := by
  refine ⟨fun h => ?_, fun h => ⟨split a, (split_append_of_openAfter ha hne hargs h).symm⟩⟩
  obtain ⟨ts, hts⟩ := h
  have hjoin := joinCommas_split (ha.append_of_tight comma (tight_joinCommas hne hargs))
  have hmerged := isMerged_split (a ++ comma ++ joinCommas args)
  rw [← hts] at hjoin hmerged
  have htokens : ts ≠ [] := by
    rintro rfl
    exact ha.ne_nil (List.append_eq_nil_iff.1 (List.self_eq_append_left.1 hjoin)).1
  rw [joinCommas_append htokens hne, List.append_cancel_right_eq,
    List.append_cancel_right_eq] at hjoin
  rw [← hjoin]
  exact hmerged.openAfter_joinCommas htokens hne

end

end Token

end SyscallTrace
