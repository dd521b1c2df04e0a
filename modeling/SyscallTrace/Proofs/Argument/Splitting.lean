import SyscallTrace.Argument.Token
import SyscallTrace.Proofs.Text.Cuts

/-!
# Splitting argument lists

A printed list of arguments splits into its arguments again (`Token.split_joinCommas`), wherever
the commas and quotes inside of its string literals stand.

* `IsLiteral`, `IsPlain`: the two shapes of an argument.
* `mergeRun_of_open`: pieces that stay an open literal up to the last one are merged as one.
* `isOpenLiteral_of_append_comma`: a literal that is cut at one of its commas is open.
-/

namespace SyscallTrace

namespace Text

variable {a b t : Text}

/-! ## Tight texts -/

/-- The text is not empty, and has no blank and no comma at either end. -/
structure Tight (t : Text) : Prop where
  ne_nil : t ≠ []
  head : ∀ c ∈ t.head?, isBlank c = false ∧ c ≠ ','
  last : ∀ c ∈ t.getLast?, isBlank c = false ∧ c ≠ ','

/-- Checks the two ends of a text. -/
def isTight (t : Text) : Bool :=
  !t.isEmpty && t.head?.all (fun c => !isBlank c && c != ',') &&
    t.getLast?.all fun c => !isBlank c && c != ','

theorem isTight_iff : isTight t = true ↔ t.Tight := by
  unfold isTight
  simp only [Bool.and_eq_true, Bool.not_eq_true', List.isEmpty_eq_false_iff, Option.all_eq_true,
    bne_iff_ne]
  exact ⟨fun h => ⟨h.1.1, h.1.2, h.2⟩, fun h => ⟨⟨h.ne_nil, h.head⟩, h.last⟩⟩

instance : DecidablePred Tight := fun _ => decidable_of_iff _ isTight_iff

namespace Tight

theorem append_of_tight (ha : a.Tight) (t : Text) (hb : b.Tight) : Tight (a ++ t ++ b) := by
  refine ⟨by simp [ha.ne_nil], fun c hc => ?_, fun c hc => ?_⟩
  · rw [List.append_assoc, List.head?_append_of_ne_nil _ ha.ne_nil] at hc
    exact ha.head c hc
  · rw [List.getLast?_append_of_ne_nil _ hb.ne_nil] at hc
    exact hb.last c hc

theorem joinCommas {ts : List Text} (hne : ts ≠ []) (h : ∀ t ∈ ts, t.Tight) :
    Tight (joinCommas ts) := by
  induction ts with
  | nil => exact absurd rfl hne
  | cons t ts ih =>
    have ht := h t List.mem_cons_self
    rcases ts with _ | ⟨u, us⟩
    · simpa [Text.joinCommas] using ht
    · rw [Token.joinCommas_cons t (by simp)]
      exact ht.append_of_tight comma (ih (by simp) fun t ht => h t (List.mem_cons_of_mem _ ht))

end Tight

/-! ## Cutting at commas -/

@[simp] theorem joinCommas_singleton (t : Text) : joinCommas [t] = t := by
  simp [joinCommas]

theorem splitCommas_ne_nil (t : Text) : splitCommas t ≠ [] := by
  fun_induction splitCommas t with
  | case1 => simp
  | case2 => simp
  | case3 c t _ ih => simpa using ih

theorem splitCommas_cons {c : Char} (h : ¬ [',', ' '] <+: c :: t) :
    splitCommas (c :: t) = (splitCommas t).modifyHead (c :: ·) := by
  refine splitCommas.eq_3 c t fun u hc ht => h ?_
  subst hc ht
  exact ⟨u, rfl⟩

theorem splitCommas_append_comma (a b : Text) :
    splitCommas (a ++ comma ++ b) = splitCommas a ++ splitCommas b := by
  fun_induction splitCommas a with
  | case1 => rfl
  | case2 t ih => exact congrArg ([] :: ·) ih
  | case3 c t h ih =>
    have hcut : ¬ [',', ' '] <+: c :: (t ++ comma ++ b) := by
      rintro ⟨u, hu⟩
      obtain ⟨hc, hu⟩ := List.cons.inj hu
      rcases t with _ | ⟨d, t⟩
      · exact absurd (List.cons.inj hu).1 (by decide)
      · exact h t hc.symm (congrArg (· :: t) (List.cons.inj hu).1.symm)
    show splitCommas (c :: (t ++ comma ++ b)) = _
    rw [splitCommas_cons hcut, ih]
    obtain ⟨u, us, hus⟩ := List.exists_cons_of_ne_nil (splitCommas_ne_nil t)
    rw [hus]
    rfl

theorem joinCommas_splitCommas (t : Text) : joinCommas (splitCommas t) = t := by
  fun_induction splitCommas t with
  | case1 => rfl
  | case2 t ih =>
    rw [Token.joinCommas_cons _ (splitCommas_ne_nil t), ih]
    rfl
  | case3 c t _ ih =>
    obtain ⟨u, us, hus⟩ := List.exists_cons_of_ne_nil (splitCommas_ne_nil t)
    rw [hus] at ih ⊢
    rcases us with _ | ⟨v, us⟩
    · simpa [joinCommas] using ih
    · rw [List.modifyHead_cons, Token.joinCommas_cons _ (by simp)]
      rw [Token.joinCommas_cons _ (by simp)] at ih
      exact congrArg (c :: ·) ih

theorem splitCommas_joinCommas {ts : List Text} (h : ts ≠ []) :
    splitCommas (joinCommas ts) = ts.flatMap splitCommas := by
  induction ts with
  | nil => exact absurd rfl h
  | cons t ts ih =>
    rw [List.flatMap_cons]
    rcases ts with _ | ⟨u, us⟩
    · simp [joinCommas]
    · rw [Token.joinCommas_cons t (by simp), splitCommas_append_comma, ih (by simp)]

theorem joinCommas_append {ts us : List Text} (ht : ts ≠ []) (hu : us ≠ []) :
    joinCommas (ts ++ us) = joinCommas ts ++ comma ++ joinCommas us := by
  induction ts with
  | nil => exact absurd rfl ht
  | cons t ts ih =>
    rw [List.cons_append, Token.joinCommas_cons t (by simp [hu])]
    rcases ts with _ | ⟨v, ts⟩
    · simp [joinCommas]
    · rw [ih (by simp), Token.joinCommas_cons t (by simp)]
      simp only [List.append_assoc]

/-! ## Parts of lists -/

section

variable {args : List Text} {w : Text} {c : Char}

/-- What holds no comma and starts with no blank ends the list if it ends one of the items. -/
theorem exists_suffix_of_suffix_joinCommas (hcomma : ',' ∉ c :: w) (hblank : c ≠ ' ')
    (h : c :: w <:+ joinCommas args) : ∃ a ∈ args, c :: w <:+ a := by
  induction args with
  | nil => cases List.suffix_nil.1 h
  | cons a args ih =>
    rcases args with _ | ⟨b, args⟩
    · exact ⟨a, List.mem_cons_self, by simpa [joinCommas] using h⟩
    · rw [Token.joinCommas_cons a (List.cons_ne_nil b args), List.append_assoc] at h
      have hrest := suffix_of_suffix_append_cons (c := ',') h hcomma
      rcases List.suffix_cons_iff.1 hrest with heq | hrest
      · exact absurd (List.cons.inj heq).1 hblank
      · obtain ⟨d, hd, hsuffix⟩ := ih hrest
        exact ⟨d, List.mem_cons_of_mem a hd, hsuffix⟩

/-- What holds no comma and starts with no blank stands in the list if it stands in one of the
items. -/
theorem exists_infix_of_infix_joinCommas (hcomma : ',' ∉ c :: w) (hblank : c ≠ ' ')
    (h : c :: w <:+: joinCommas args) : ∃ a ∈ args, c :: w <:+: a := by
  induction args with
  | nil => cases List.infix_nil.1 h
  | cons a args ih =>
    rcases args with _ | ⟨b, args⟩
    · exact ⟨a, List.mem_cons_self, by simpa [joinCommas] using h⟩
    · rw [Token.joinCommas_cons a (List.cons_ne_nil b args), List.append_assoc] at h
      rcases infix_append_cons (c := ',') h hcomma with ha | hrest
      · exact ⟨a, List.mem_cons_self, ha⟩
      rcases List.infix_cons_iff.1 hrest with heq | hrest
      · obtain ⟨t, ht⟩ := heq
        exact absurd (List.cons.inj ht).1 hblank
      · obtain ⟨d, hd, hinfix⟩ := ih hrest
        exact ⟨d, List.mem_cons_of_mem a hd, hinfix⟩

theorem not_mem_joinCommas (hcomma : c ≠ ',') (hblank : c ≠ ' ') (h : ∀ a ∈ args, c ∉ a) :
    c ∉ joinCommas args := fun hmem => by
  obtain ⟨s, t, hst⟩ := List.append_of_mem hmem
  have hword : [c] <:+: joinCommas args := ⟨s, t, by rw [hst]; simp⟩
  obtain ⟨a, ha, hin⟩ :=
    exists_infix_of_infix_joinCommas (by simpa using Ne.symm hcomma) hblank hword
  exact h a ha (hin.mem List.mem_cons_self)

theorem infix_joinCommas {a : Text} (ha : a ∈ args) : a <:+: joinCommas args := by
  induction args with
  | nil => cases ha
  | cons b args ih =>
    rcases args with _ | ⟨d, args⟩
    · rw [List.mem_singleton.1 ha]
      exact ⟨[], [], by simp [joinCommas]⟩
    · rw [Token.joinCommas_cons b (List.cons_ne_nil d args)]
      rcases List.mem_cons.1 ha with rfl | ha
      · exact ⟨[], comma ++ joinCommas (d :: args), by simp⟩
      · exact (ih ha).trans (List.suffix_append _ _).isInfix

end

end Text

namespace Token

open Text

/-! ## Arguments -/

/-- The inside of a string literal: characters other than backslashes and quotes, and pairs of a
backslash and any character. -/
inductive LiteralBody : Text → Prop where
  | nil : LiteralBody []
  | plain {c : Char} {t : Text} (hs : c ≠ '\\') (hq : c ≠ '"') (ht : LiteralBody t) :
      LiteralBody (c :: t)
  | escaped {c : Char} {t : Text} (ht : LiteralBody t) : LiteralBody ('\\' :: c :: t)

theorem literalBody_of_not_mem {t : Text} (hs : '\\' ∉ t) (hq : '"' ∉ t) : LiteralBody t := by
  induction t with
  | nil => exact .nil
  | cons c t ih =>
    rw [List.mem_cons, not_or] at hs hq
    exact .plain (Ne.symm hs.1) (Ne.symm hq.1) (ih hs.2 hq.2)

/-- Checks a text for being the inside of a literal. -/
def isLiteralBody : Text → Bool
  | [] => true
  | '\\' :: _ :: t => isLiteralBody t
  | c :: t => c != '\\' && c != '"' && isLiteralBody t

theorem isLiteralBody_iff {t : Text} : isLiteralBody t = true ↔ LiteralBody t := by
  constructor
  · intro h
    fun_induction isLiteralBody t with
    | case1 => exact .nil
    | case2 c t ih => exact .escaped (ih h)
    | case3 c t _ ih =>
      rw [Bool.and_eq_true, Bool.and_eq_true, bne_iff_ne, bne_iff_ne] at h
      exact .plain h.1.1 h.1.2 (ih h.2)
  · intro h
    induction h with
    | nil => rfl
    | @plain c t hs hq _ ih =>
      rw [isLiteralBody.eq_3 c t fun d u hc => absurd hc hs, ih]
      simp [hs, hq]
    | escaped _ ih => exact ih

instance : DecidablePred LiteralBody := fun _ => decidable_of_iff _ isLiteralBody_iff

/-- A string literal, and the dots that mark a shortened one. -/
def IsLiteral (t : Text) : Prop :=
  ∃ body n, LiteralBody body ∧ t = '"' :: body ++ '"' :: List.replicate n '.'

/-- A token that is no string literal and has no comma of the list in it. -/
structure IsPlain (t : Text) : Prop extends Tight t where
  noQuote : t.head? ≠ some '"'
  noComma : ¬ comma <:+: t

/-- A printed argument. -/
def IsArgument (t : Text) : Prop := IsLiteral t ∨ IsPlain t

theorem IsLiteral.tight {t : Text} (h : IsLiteral t) : t.Tight := by
  obtain ⟨body, n, -, rfl⟩ := h
  refine ⟨by simp, fun c hc => ?_, fun c hc => ?_⟩
  · obtain rfl : '"' = c := by simpa using hc
    decide
  · rw [List.cons_append, ← List.cons_append, List.getLast?_append_of_ne_nil _ (by simp)] at hc
    have hmem := List.mem_of_getLast? hc
    rcases List.mem_cons.1 hmem with rfl | hmem
    · decide
    · rw [List.eq_of_mem_replicate hmem]
      decide

theorem IsArgument.tight {t : Text} (h : IsArgument t) : t.Tight :=
  h.elim IsLiteral.tight IsPlain.toTight

/-! ## Backslashes -/

/-- A backslash at the end of the text escapes the character that follows. -/
def escapes (t : Text) : Bool := t.foldl (fun e c => c == '\\' && !e) false

theorem escapes_concat (t : Text) (c : Char) : escapes (t ++ [c]) = (c == '\\' && !escapes t) := by
  unfold escapes
  rw [List.foldl_append]
  rfl

theorem escapes_cons_of_ne {c : Char} (t : Text) (hc : c ≠ '\\') : escapes (c :: t) = escapes t := by
  unfold escapes
  rw [List.foldl_cons, beq_false_of_ne hc]
  rfl

theorem escapes_pair (c : Char) (t : Text) : escapes ('\\' :: c :: t) = escapes t := by
  unfold escapes
  rw [List.foldl_cons, List.foldl_cons, show ('\\' == '\\' && !false) = true from rfl, Bool.not_true,
    Bool.and_false]

/-- The backslashes at the end escape what follows if their number is odd. -/
theorem escapes_eq (t : Text) :
    escapes t = ((t.reverse.takeWhile (· == '\\')).length % 2 == 1) := by
  induction t using List.reverseRecOn with
  | nil => rfl
  | append_singleton t c ih =>
    rw [escapes_concat, ih, List.reverse_append, List.reverse_singleton, List.singleton_append]
    by_cases hc : c = '\\'
    · rw [List.takeWhile_cons_of_pos (by simpa using hc), List.length_cons]
      generalize (t.reverse.takeWhile (· == '\\')).length = n
      rcases Nat.mod_two_eq_zero_or_one n with hn | hn
      · rw [hn, show (n + 1) % 2 = 1 by omega]
        simp [hc]
      · rw [hn, show (n + 1) % 2 = 0 by omega]
        simp
    · rw [List.takeWhile_cons_of_neg (by simpa using hc)]
      simp [hc]

theorem LiteralBody.escapes_eq_false {t : Text} (h : LiteralBody t) : escapes t = false := by
  induction h with
  | nil => rfl
  | plain hs _ _ ih => rwa [escapes_cons_of_ne _ hs]
  | escaped _ ih => rwa [escapes_pair]

/-- A quote inside of a literal is escaped. -/
theorem LiteralBody.escapes_of_quote {t u v : Text} (h : LiteralBody t) (ht : t = u ++ '"' :: v) :
    escapes u = true := by
  induction h generalizing u with
  | nil => simp at ht
  | @plain c t hs hq _ ih =>
    rcases u with _ | ⟨d, u⟩
    · exact absurd (List.cons.inj ht).1 hq
    · obtain ⟨rfl, htail⟩ := List.cons.inj ht
      rw [escapes_cons_of_ne _ hs]
      exact ih htail
  | @escaped c t _ ih =>
    rcases u with _ | ⟨d, u⟩
    · exact absurd (List.cons.inj ht).1 (by decide)
    · obtain ⟨hd, htail⟩ := List.cons.inj ht
      rw [← hd]
      rcases u with _ | ⟨d, u⟩
      · rfl
      · obtain ⟨rfl, hrest⟩ := List.cons.inj htail
        rw [escapes_pair]
        exact ih hrest

/-- No quote inside of a literal stands right after a comma. -/
theorem LiteralBody.noCommaQuote {t : Text} (h : LiteralBody t) : ¬ comma ++ ['"'] <:+: t := by
  rintro ⟨u, v, rfl⟩
  have hesc := h.escapes_of_quote (u := u ++ comma) (v := v) (by simp)
  rw [show u ++ comma = u ++ [','] ++ [' '] by simp [comma], escapes_concat] at hesc
  cases hesc

/-! ## Open and closed literals -/

theorem endsInQuote_eq_true_iff {t : Text} :
    endsInQuote t = true ↔ ∃ u, u ≠ [] ∧ t = u ++ ['"'] ∧ escapes u = false := by
  have hparity : ∀ u : Text, ((u.reverse.takeWhile (· == '\\')).length % 2 == 0) = true ↔
      escapes u = false := fun u => by
    rw [escapes_eq, beq_iff_eq, beq_eq_false_iff_ne]
    omega
  unfold endsInQuote
  rw [Bool.and_eq_true, bne_iff_ne]
  constructor
  · rintro ⟨hne, h⟩
    split at h
    · cases h
    · next u hu =>
      obtain rfl := dropSuffix?_eq_some_iff.1 hu
      exact ⟨u, fun hu => hne (by rw [hu]; rfl), rfl, (hparity u).1 h⟩
  · rintro ⟨u, hu, rfl, h⟩
    refine ⟨fun heq => hu ?_, ?_⟩
    · exact List.append_left_eq_self.1 heq
    · rw [dropSuffix?_append]
      exact (hparity u).2 h

theorem isOpenLiteral_eq_false_of_head? {t : Text} (h : t.head? ≠ some '"') :
    isOpenLiteral t = false := by
  unfold isOpenLiteral
  rcases t with _ | ⟨c, t⟩
  · rfl
  · have hstart : startsWith (c :: t) ['"'] = false := by
      rw [startsWith, List.isPrefixOf_cons_cons, Bool.and_eq_false_iff, beq_eq_false_iff_ne]
      exact Or.inl fun hc => h (congrArg some hc.symm)
    rw [hstart, Bool.false_and]

/-- A whole literal is closed. -/
theorem isOpenLiteral_eq_false_of_isLiteral {t : Text} (h : IsLiteral t) :
    isOpenLiteral t = false := by
  obtain ⟨body, n, hbody, rfl⟩ := h
  have hdots : dropEndWhile (· == '.') ('"' :: body ++ '"' :: List.replicate n '.') =
      '"' :: body ++ ['"'] := by
    rw [show '"' :: body ++ '"' :: List.replicate n '.' =
      '"' :: body ++ ['"'] ++ List.replicate n '.' by simp]
    refine dropEndWhile_append (fun c hc => ?_) fun c hc => ?_
    · rw [List.getLast?_concat] at hc
      obtain rfl := Option.some.inj hc
      rfl
    · rw [List.eq_of_mem_replicate hc]
      rfl
  have hquote : endsInQuote ('"' :: body ++ ['"']) = true :=
    endsInQuote_eq_true_iff.2 ⟨'"' :: body, by simp, rfl, by
      rw [escapes_cons_of_ne _ (by decide)]
      exact hbody.escapes_eq_false⟩
  unfold isOpenLiteral
  rw [hdots, hquote, Bool.not_true, Bool.and_false]

/-- A literal that is cut at one of its commas is open: the quotes before the cut are escaped. -/
theorem isOpenLiteral_of_append_comma {t u v : Text} (h : IsLiteral t)
    (ht : t = u ++ comma ++ v) : isOpenLiteral u = true := by
  obtain ⟨body, n, hbody, rfl⟩ := h
  rcases u with _ | ⟨c, u⟩
  · exact absurd (List.cons.inj ht).1 (by decide)
  obtain ⟨rfl, ht⟩ := List.cons.inj ht
  unfold isOpenLiteral
  rw [Bool.and_eq_true, Bool.not_eq_true', ← Bool.not_eq_true]
  refine ⟨by simp [startsWith], fun hquote => ?_⟩
  obtain ⟨w, hw, hend, hesc⟩ := endsInQuote_eq_true_iff.1 hquote
  obtain ⟨dots, hdots⟩ := dropEndWhile_isPrefix (· == '.') ('"' :: u)
  rw [hend] at hdots
  obtain ⟨d, w, rfl⟩ := List.exists_cons_of_ne_nil hw
  obtain ⟨rfl, rfl⟩ := List.cons.inj hdots
  rw [escapes_cons_of_ne _ (by decide)] at hesc
  -- the quote after `w` stands inside of the body, ends it, or is one of the dots
  have ht : body ++ '"' :: List.replicate n '.' = w ++ '"' :: (dots ++ comma ++ v) := by
    simpa using ht
  rcases List.append_eq_append_iff.1 ht with ⟨x, rfl, hx⟩ | ⟨x, rfl, hx⟩
  · rcases x with _ | ⟨e, x⟩
    · have hmem : ',' ∈ List.replicate n '.' := by
        rw [(List.cons.inj hx).2]
        simp [comma]
      exact absurd (List.eq_of_mem_replicate hmem) (by decide)
    · have hmem : '"' ∈ List.replicate n '.' := by
        rw [(List.cons.inj hx).2]
        simp
      exact absurd (List.eq_of_mem_replicate hmem) (by decide)
  · rcases x with _ | ⟨e, x⟩
    · have hmem : ',' ∈ List.replicate n '.' := by
        rw [← (List.cons.inj hx).2]
        simp [comma]
      exact absurd (List.eq_of_mem_replicate hmem) (by decide)
    · obtain ⟨rfl, -⟩ := List.cons.inj hx
      rw [hbody.escapes_of_quote rfl] at hesc
      cases hesc

/-! ## Merging -/

/-- The tokens that the pieces close, and the literal that they leave open, after an open
literal. -/
def mergeRun : Option Text → List Text → List Text × Option Text
  | held, [] => ([], held)
  | held, p :: ps =>
    if isOpenLiteral (continued held p) then mergeRun (some (continued held p)) ps
    else (continued held p :: (mergeRun none ps).1, (mergeRun none ps).2)

theorem mergeOpen_eq (held : Option Text) (ps : List Text) :
    mergeOpen held ps = (mergeRun held ps).1 ++ (mergeRun held ps).2.toList := by
  induction ps generalizing held with
  | nil => rfl
  | cons p ps ih =>
    rw [mergeOpen, mergeRun]
    split
    · exact ih _
    · exact congrArg (continued held p :: ·) (ih none)

/-- A piece hands nothing to those after it but the literal that is open. -/
theorem mergeRun_append (held : Option Text) (ps qs : List Text) :
    mergeRun held (ps ++ qs) =
      ((mergeRun held ps).1 ++ (mergeRun (mergeRun held ps).2 qs).1,
        (mergeRun (mergeRun held ps).2 qs).2) := by
  induction ps generalizing held with
  | nil => rfl
  | cons p ps ih =>
    rw [List.cons_append, mergeRun, mergeRun]
    split
    · exact ih _
    · rw [ih none]
      rfl

theorem continued_joinCommas_cons (held : Option Text) (p : Text) {qs : List Text} (hq : qs ≠ []) :
    continued (some (continued held p)) (joinCommas qs) = continued held (joinCommas (p :: qs)) := by
  rw [joinCommas_cons p hq]
  cases held <;> simp [continued]

/-- Pieces that make an open literal up to the last one are merged as one piece. -/
theorem mergeRun_of_open {held : Option Text} {ps : List Text} (hne : ps ≠ [])
    (hopen : ∀ qs rs, ps = qs ++ rs → qs ≠ [] → rs ≠ [] →
      isOpenLiteral (continued held (joinCommas qs)) = true) :
    mergeRun held ps = mergeRun held [joinCommas ps] := by
  induction ps generalizing held with
  | nil => exact absurd rfl hne
  | cons p ps ih =>
    rcases ps with _ | ⟨q, ps⟩
    · rw [joinCommas_singleton]
    · have hp := hopen [p] (q :: ps) rfl (by simp) (by simp)
      rw [joinCommas_singleton] at hp
      have hrest : ∀ qs rs, q :: ps = qs ++ rs → qs ≠ [] → rs ≠ [] →
          isOpenLiteral (continued (some (continued held p)) (joinCommas qs)) = true := by
        intro qs rs hqs hq hr
        rw [continued_joinCommas_cons _ _ hq]
        exact hopen (p :: qs) rs (by rw [hqs]; rfl) (by simp) hr
      rw [mergeRun, if_pos hp, ih (by simp) hrest]
      unfold mergeRun
      rw [continued_joinCommas_cons _ _ (by simp)]

/-- A token as merging makes it: it is an open literal at each of its commas. -/
def IsToken (t : Text) : Prop := ∀ a b, t = a ++ comma ++ b → isOpenLiteral a = true

theorem isToken_of_noComma {t : Text} (h : ¬ comma <:+: t) : IsToken t :=
  fun a b ht => absurd ⟨a, b, ht.symm⟩ h

theorem IsArgument.isToken {a : Text} (h : IsArgument a) : IsToken a :=
  h.elim (fun hlit _ _ => isOpenLiteral_of_append_comma hlit) fun hplain =>
    isToken_of_noComma hplain.noComma

theorem IsArgument.isOpenLiteral_eq_false {a : Text} (h : IsArgument a) : isOpenLiteral a = false :=
  h.elim isOpenLiteral_eq_false_of_isLiteral fun hplain =>
    isOpenLiteral_eq_false_of_head? hplain.noQuote

theorem IsToken.isOpenLiteral_of_pieces {t : Text} {ps qs : List Text} (h : IsToken t)
    (ht : splitCommas t = ps ++ qs) (hp : ps ≠ []) (hq : qs ≠ []) :
    isOpenLiteral (joinCommas ps) = true :=
  h _ (joinCommas qs) (by rw [← joinCommas_append hp hq, ← ht, joinCommas_splitCommas])

/-- The pieces of a token are merged as the token is. -/
theorem mergeLiterals_append {a : Text} (ha : IsToken a) (ts : List Text) :
    mergeLiterals (splitCommas a ++ ts) = mergeLiterals (a :: ts) := by
  have hrun : mergeRun none (splitCommas a) = mergeRun none [a] := by
    rw [mergeRun_of_open (splitCommas_ne_nil a) fun _ _ => ha.isOpenLiteral_of_pieces,
      joinCommas_splitCommas]
  unfold mergeLiterals
  rw [← List.singleton_append, mergeOpen_eq, mergeOpen_eq, mergeRun_append, mergeRun_append, hrun]

theorem mergeLiterals_cons {a : Text} (ha : isOpenLiteral a = false) (ts : List Text) :
    mergeLiterals (a :: ts) = a :: mergeLiterals ts :=
  if_neg (by rw [show continued none a = a from rfl, ha]; simp)

theorem mergeLiterals_singleton (a : Text) : mergeLiterals [a] = [a] := by
  unfold mergeLiterals
  rw [mergeOpen]
  split <;> rfl

/-- The lists that merging makes: each token is open at its commas, and all but the last one are
closed. -/
def IsMerged : List Text → Prop
  | [] => True
  | t :: ts => IsToken t ∧ (ts ≠ [] → isOpenLiteral t = false) ∧ IsMerged ts

theorem isMerged_of_isArgument {args : List Text} (h : ∀ a ∈ args, IsArgument a) :
    IsMerged args := by
  induction args with
  | nil => trivial
  | cons a args ih =>
    have ha := h a List.mem_cons_self
    exact ⟨ha.isToken, fun _ => ha.isOpenLiteral_eq_false,
      ih fun b hb => h b (List.mem_cons_of_mem a hb)⟩

theorem IsMerged.mergeLiterals_flatMap {ts : List Text} (h : IsMerged ts) :
    mergeLiterals (ts.flatMap splitCommas) = ts := by
  induction ts with
  | nil => rfl
  | cons t ts ih =>
    obtain ⟨ht, hclosed, hts⟩ := h
    rw [List.flatMap_cons, mergeLiterals_append ht]
    rcases ts with _ | ⟨u, us⟩
    · exact mergeLiterals_singleton t
    · rw [mergeLiterals_cons (hclosed (by simp)), ih hts]

/-! ## Splitting -/

/-- What may stand after a list of arguments: blanks, and a comma before them. -/
inductive IsTrailer : Text → Prop where
  | blanks {b : Text} (hb : IsBlanks b) : IsTrailer b
  | comma {b : Text} (hb : IsBlanks b) : IsTrailer (',' :: b)

variable {args : List Text} {lead sep t : Text}

theorem dropEndWhile_comma_of_tight (ht : t.Tight) (commas : Text) (hc : ∀ c ∈ commas, c = ',') :
    dropEndWhile (· == ',') (t ++ commas) = t :=
  dropEndWhile_append (fun c h => beq_eq_false_iff_ne.2 (ht.last c h).2)
    fun c h => beq_iff_eq.2 (hc c h)

theorem dropEndWhile_comma_trim (hlead : IsBlanks lead) (ht : t.Tight) (hsep : IsTrailer sep) :
    dropEndWhile (· == ',') (trim (lead ++ t ++ sep)) = t := by
  have hhead := fun c hc => (ht.head c hc).1
  cases hsep with
  | blanks hb =>
    rw [trim_append hlead ht.ne_nil hhead (fun c hc => (ht.last c hc).1) hb]
    simpa using dropEndWhile_comma_of_tight ht [] (by simp)
  | @comma b hb =>
    rw [show lead ++ t ++ ',' :: b = lead ++ (t ++ [',']) ++ b by simp,
      trim_append hlead (by simp) ?_ ?_ hb]
    · exact dropEndWhile_comma_of_tight ht [','] (by simp)
    · rwa [List.head?_append_of_ne_nil _ ht.ne_nil]
    · intro c hc
      rw [List.getLast?_concat] at hc
      rw [← Option.some.inj hc]
      decide

/-- Nothing is taken off the ends of a tight text. -/
theorem split_of_tight (ht : t.Tight) : split t = mergeLiterals (splitCommas t) := by
  have hbody := dropEndWhile_comma_trim isBlanks_nil ht (.blanks isBlanks_nil)
  rw [List.nil_append, List.append_nil] at hbody
  unfold split
  rw [hbody]
  exact if_neg (by simpa using ht.ne_nil)

theorem tight_joinCommas (hne : args ≠ []) (h : ∀ a ∈ args, IsArgument a) :
    Tight (joinCommas args) :=
  Tight.joinCommas hne fun a ha => (h a ha).tight

/-- A list of arguments splits into its arguments. -/
theorem split_joinCommas (h : ∀ a ∈ args, IsArgument a) (hlead : IsBlanks lead)
    (hsep : IsTrailer sep) : split (lead ++ joinCommas args ++ sep) = args := by
  rcases args with _ | ⟨a, as⟩
  · have hbody : dropEndWhile (· == ',') (trim (lead ++ joinCommas [] ++ sep)) = [] := by
      rw [show joinCommas [] = [] from rfl, List.append_nil]
      cases hsep with
      | blanks hb =>
        rw [trim_of_isBlanks fun c hc => (List.mem_append.1 hc).elim (hlead c) (hb c)]
        rfl
      | @comma b hb =>
        rw [trim_append_cons hlead (by decide) hb]
        rfl
    unfold split
    rw [hbody]
    rfl
  · have htight := tight_joinCommas (List.cons_ne_nil a as) h
    have hne := List.isEmpty_eq_false_iff.2 htight.ne_nil
    unfold split
    rw [dropEndWhile_comma_trim hlead htight hsep]
    show (if (joinCommas (a :: as)).isEmpty then _ else _) = _
    rw [hne, if_neg (by simp), splitCommas_joinCommas (by simp),
      (isMerged_of_isArgument h).mergeLiterals_flatMap]

/-- Splitting undoes joining: the arguments of a list come out as they are, and only they. -/
theorem split_joined_arguments (h : ∀ a ∈ args, IsArgument a) : split (joinCommas args) = args := by
  have hsplit := split_joinCommas h isBlanks_nil (.blanks isBlanks_nil)
  rwa [List.nil_append, List.append_nil] at hsplit

/-- A shortened literal with a comma after an escaped quote, a number, and a literal that ends in a
pair of backslashes and a comma. -/
def sayingArgs : List Text :=
  ["\"say \\\", hi\"...".toList, ['2'], "\"dir\\\\, \"".toList]

theorem split_joined_arguments_saying :
    split "\"say \\\", hi\"..., 2, \"dir\\\\, \"".toList = sayingArgs := by
  have hargs : ∀ a ∈ sayingArgs, IsArgument a := by
    simp only [sayingArgs, List.forall_mem_cons, List.not_mem_nil, false_implies, implies_true,
      and_true]
    exact ⟨.inl ⟨"say \\\", hi".toList, 3, by decide +kernel, by decide +kernel⟩,
      .inr ⟨by decide +kernel, by decide, by decide +kernel⟩,
      .inl ⟨"dir\\\\, ".toList, 0, by decide +kernel, by decide +kernel⟩⟩
  have hsplit := split_joined_arguments hargs
  rwa [show joinCommas sayingArgs = "\"say \\\", hi\"..., 2, \"dir\\\\, \"".toList by
    decide +kernel] at hsplit

end Token

end SyscallTrace
