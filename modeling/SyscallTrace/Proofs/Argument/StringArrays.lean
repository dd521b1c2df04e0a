import Mathlib.Data.List.TakeWhile
import SyscallTrace.Proofs.Argument.Merging

/-!
# Arrays of strings

An array of string literals is cut at its commas and its brackets stay at the first and the last
literal. A bracket after a closing quote hides the quote, so the last literal of an array of two or
more stays open and takes the arguments after it. `Token.suffix_split_array_iff` says exactly which
arrays leave those arguments alone: the literals must hold commas next to their quotes, at which a
closing quote is taken for an opening one and the next opening quote for the one that closes it.

* `openAfter_bracket_literal_iff`: the first literal, behind its bracket.
* `openAfter_literal`: a literal that is read as one.
* `openAfter_literal_iff`: a literal whose opening quote closes another one.
-/

namespace SyscallTrace.Token

open Text

variable {held : Option Text} {a b h s t w z : Text} {c : Char} {args lits : List Text}

/-! ## Commas next to quotes -/

/-- The closing quote of the literal stands right after a comma. -/
def EndsAtComma (s : Text) : Prop := ∃ u n, s = u ++ comma ++ '"' :: List.replicate n '.'

/-- Nothing but dots stands between the opening quote and the first comma. -/
def StartsAtComma (s : Text) : Prop := ∃ n u, s = '"' :: List.replicate n '.' ++ comma ++ u

theorem endsAtComma_iff {n : Nat} :
    EndsAtComma (a ++ '"' :: List.replicate n '.') ↔ comma <:+ a := by
  constructor
  · rintro ⟨u, m, hu⟩
    have hnot : ∀ k, '"' ∉ List.replicate k '.' := fun k hmem =>
      absurd (List.eq_of_mem_replicate hmem) (by decide)
    rcases List.append_eq_append_iff.1 hu with ⟨x, hx, hrest⟩ | ⟨x, rfl, hrest⟩
    · rcases x with _ | ⟨d, x⟩
      · exact ⟨u, by rw [hx, List.append_nil]⟩
      · refine absurd ?_ (hnot n)
        rw [(List.cons.inj hrest).2]
        simp
    · rcases x with _ | ⟨d, x⟩
      · exact ⟨u, by rw [List.append_nil]⟩
      · refine absurd ?_ (hnot m)
        rw [(List.cons.inj hrest).2]
        simp
  · rintro ⟨u, rfl⟩
    exact ⟨u, n, rfl⟩

/-! ## A literal after an open one -/

/-- The dots at the end of a text are those after its last quote. -/
theorem dropEndWhile_dots_quote (a b : Text) :
    dropEndWhile (· == '.') (a ++ '"' :: b) = a ++ '"' :: dropEndWhile (· == '.') b := by
  unfold dropEndWhile
  rw [List.reverse_append, List.reverse_cons, List.append_assoc, List.dropWhile_append]
  split
  · next hall =>
    rw [List.isEmpty_iff.1 hall]
    simp
  · simp

theorem escapes_quote (a b : Text) : escapes (a ++ '"' :: b) = escapes b := by
  unfold escapes
  rw [List.foldl_append, List.foldl_cons]
  rfl

/-- A quote after a comma closes the open literal if nothing but dots follows. -/
theorem isOpenLiteral_continued_dots {n : Nat} :
    isOpenLiteral (continued (some h) ('"' :: List.replicate n '.')) = false := by
  have hend : endsInQuote (dropEndWhile (· == '.') (h ++ comma ++ '"' :: List.replicate n '.')) =
      true := by
    have hdots : dropEndWhile (· == '.') (List.replicate n '.') = [] := by
      simpa using dropEndWhile_append (p := (· == '.')) (t := []) (s := List.replicate n '.')
        (by simp) (by simp)
    rw [dropEndWhile_dots_quote, hdots]
    refine endsInQuote_eq_true_iff.2 ⟨h ++ comma, by simp [comma], rfl, ?_⟩
    rw [show h ++ comma = h ++ [','] ++ [' '] by simp [comma], escapes_concat]
    rfl
  show isOpenLiteral (h ++ comma ++ '"' :: List.replicate n '.') = false
  unfold isOpenLiteral
  rw [hend, Bool.not_true, Bool.and_false]

theorem endsInQuote_quote_iff (hb : b ≠ []) :
    endsInQuote (a ++ '"' :: b) = true ↔ ∃ u, b = u ++ ['"'] ∧ escapes u = false := by
  obtain ⟨v, c, rfl⟩ := (List.eq_nil_or_concat' b).resolve_left hb
  rw [endsInQuote_eq_true_iff]
  constructor
  · rintro ⟨u, -, heq, hesc⟩
    rw [← List.cons_append, ← List.append_assoc] at heq
    obtain ⟨rfl, hc⟩ := List.append_inj' heq rfl
    exact ⟨v, by rw [hc], by rwa [escapes_quote] at hesc⟩
  · rintro ⟨u, heq, hesc⟩
    obtain ⟨rfl, hc⟩ := List.append_inj' heq rfl
    exact ⟨a ++ '"' :: v, by simp, by rw [hc]; simp, by rwa [escapes_quote]⟩

/-- What follows an open literal is read as the literal that it is, unless it is a quote with dots
after it. -/
theorem isOpenLiteral_continued (hh : isOpenLiteral h = true)
    (hw : ∃ c ∈ w, c ≠ '.') :
    isOpenLiteral (continued (some h) ('"' :: w)) = isOpenLiteral ('"' :: w) := by
  have hstart : startsWith (h ++ comma ++ '"' :: w) ['"'] = true := by
    have hstart := (Bool.and_eq_true _ _ ▸ hh).1
    rw [startsWith, List.isPrefixOf_iff_prefix] at hstart ⊢
    exact hstart.trans ⟨comma ++ '"' :: w, by simp⟩
  have hdots : dropEndWhile (· == '.') w ≠ [] := fun hnil => by
    obtain ⟨c, hc, hne⟩ := hw
    unfold dropEndWhile at hnil
    rw [List.reverse_eq_nil_iff, List.dropWhile_eq_nil_iff] at hnil
    exact hne (by simpa using hnil c (List.mem_reverse.2 hc))
  have hend : endsInQuote (dropEndWhile (· == '.') (h ++ comma ++ '"' :: w)) =
      endsInQuote (dropEndWhile (· == '.') ([] ++ '"' :: w)) := by
    rw [dropEndWhile_dots_quote, dropEndWhile_dots_quote, Bool.eq_iff_iff,
      endsInQuote_quote_iff hdots, endsInQuote_quote_iff hdots]
  show isOpenLiteral (h ++ comma ++ '"' :: w) = isOpenLiteral ([] ++ '"' :: w)
  unfold isOpenLiteral
  rw [hstart, hend]
  rfl

theorem isOpenLiteral_bracket (hs : IsLiteral s) : isOpenLiteral (s ++ [']']) = true := by
  obtain ⟨body, n, -, rfl⟩ := hs
  have hdots : dropEndWhile (· == '.') ('"' :: body ++ '"' :: List.replicate n '.' ++ [']']) =
      '"' :: body ++ '"' :: List.replicate n '.' ++ [']'] := by
    simpa using dropEndWhile_append (p := (· == '.')) (s := [])
      (t := '"' :: body ++ '"' :: List.replicate n '.' ++ [']'])
      (fun c hc => by rw [List.getLast?_concat] at hc; rw [← Option.some.inj hc]; rfl) (by simp)
  unfold isOpenLiteral
  rw [Bool.and_eq_true, Bool.not_eq_true', ← Bool.not_eq_true, hdots]
  refine ⟨by simp [startsWith], fun hend => ?_⟩
  obtain ⟨u, -, heq, -⟩ := endsInQuote_eq_true_iff.1 hend
  exact absurd (List.cons.inj (List.append_inj' heq rfl).2).1 (by decide)

theorem exists_quote_of_isLiteral (hs : IsLiteral s) (z : Text) :
    ∃ w, s ++ z = '"' :: w ∧ ∃ c ∈ w, c ≠ '.' := by
  obtain ⟨body, n, -, rfl⟩ := hs
  exact ⟨body ++ '"' :: List.replicate n '.' ++ z, rfl, '"', by simp, by decide⟩

/-- A literal that does not start at a comma holds more than dots before each of its commas. -/
theorem exists_quote_of_append_comma (hs : IsLiteral s) (hstart : ¬ StartsAtComma s)
    (h : s = a ++ comma ++ b) : ∃ w, a = '"' :: w ∧ ∃ c ∈ w, c ≠ '.' := by
  obtain ⟨body, n, -, rfl⟩ := hs
  rcases a with _ | ⟨c, w⟩
  · exact absurd (List.cons.inj h).1 (by decide)
  · obtain ⟨rfl, -⟩ := List.cons.inj h
    refine ⟨w, rfl, ?_⟩
    by_contra hdots
    push Not at hdots
    exact hstart ⟨w.length, b, by rw [h, ← List.eq_replicate_of_mem hdots]⟩

/-- A literal that is read as one is closed at its end, and a bracket after it keeps it open. -/
theorem openAfter_literal (hs : IsLiteral s)
    (hheld : ∀ h ∈ held, isOpenLiteral h = true ∧ ¬ StartsAtComma s) :
    openAfter held s = none ∧ openAfter held (s ++ [']']) ≠ none := by
  have hcontinued : ∀ {w : Text}, (∃ c ∈ w, c ≠ '.') →
      isOpenLiteral (continued held ('"' :: w)) = isOpenLiteral ('"' :: w) := by
    intro w hw
    cases held with
    | none => rfl
    | some h => exact isOpenLiteral_continued (hheld h rfl).1 hw
  have hcut : ∀ a b, s = a ++ comma ++ b → isOpenLiteral (continued held a) = true := by
    intro a b hab
    have hopen := isOpenLiteral_of_append_comma hs hab
    cases held with
    | none => exact hopen
    | some h =>
      obtain ⟨w, rfl, hw⟩ := exists_quote_of_append_comma hs (hheld h rfl).2 hab
      rwa [hcontinued hw]
  constructor
  · obtain ⟨w, hw, hdots⟩ := exists_quote_of_isLiteral hs []
    rw [List.append_nil] at hw
    rw [openAfter_of_open hcut, mergeRun_singleton, hw, hcontinued hdots, ← hw,
      isOpenLiteral_eq_false_of_isLiteral hs]
    rfl
  · obtain ⟨w, hw, hdots⟩ := exists_quote_of_isLiteral hs [']']
    rw [openAfter_of_open fun a b hab => hcut a _ (append_comma_of_concat hab (by decide)).choose_spec,
      mergeRun_singleton, hw, hcontinued hdots, ← hw, isOpenLiteral_bracket hs]
    simp

/-! ## Literals of an array -/

theorem openAfter_closingQuote_iff {n : Nat} (hhead : a.head? ≠ some '"')
    (hquote : ¬ comma ++ ['"'] <:+: a) (hz : '"' ∉ z) (hcomma : ',' ∉ z) :
    openAfter none (a ++ '"' :: List.replicate n '.' ++ z) = none ↔ a ≠ [] ∧ ¬ comma <:+ a := by
  have hdots : ∀ c, c ≠ '.' → c ∉ z → c ∉ List.replicate n '.' ++ z := fun c hc hcz hmem =>
    (List.mem_append.1 hmem).elim (fun h => hc (List.eq_of_mem_replicate h)) hcz
  rw [List.append_assoc, List.cons_append]
  exact openAfter_quote_iff hhead hquote (hdots '"' (by decide) hz) (hdots ',' (by decide) hcomma)

/-- The first literal of an array: the bracket hides its opening quote. -/
theorem openAfter_bracket_literal_iff (hs : IsLiteral s) (hz : '"' ∉ z) (hcomma : ',' ∉ z) :
    openAfter none ('[' :: s ++ z) = none ↔ ¬ EndsAtComma s := by
  obtain ⟨body, n, hbody, rfl⟩ := hs
  have hhead : ('[' :: '"' :: body).head? ≠ some '"' := fun h => absurd (Option.some.inj h) (by decide)
  have hquote : ¬ comma ++ ['"'] <:+: '[' :: '"' :: body := by
    rw [List.infix_cons_iff, List.infix_cons_iff, not_or, not_or]
    exact ⟨fun h => absurd (List.cons_prefix_cons.1 h).1 (by decide),
      fun h => absurd (List.cons_prefix_cons.1 h).1 (by decide), hbody.noCommaQuote⟩
  have hend : comma <:+ '[' :: '"' :: body ↔ comma <:+ '"' :: body := by
    rw [List.suffix_cons_iff]
    exact or_iff_right fun h => absurd (List.cons.inj h).1 (by decide)
  rw [endsAtComma_iff, ← hend]
  exact (openAfter_closingQuote_iff hhead hquote hz hcomma).trans
    (and_iff_right (List.cons_ne_nil _ _))

theorem StartsAtComma.exists_body {body : Text} {n : Nat}
    (h : StartsAtComma ('"' :: body ++ '"' :: List.replicate n '.')) :
    ∃ m u, body = List.replicate m '.' ++ comma ++ u := by
  obtain ⟨m, u, hu⟩ := h
  have hbody : body ++ '"' :: List.replicate n '.' = List.replicate m '.' ++ comma ++ u :=
    (List.cons.inj hu).2
  rcases List.append_eq_append_iff.1 hbody with ⟨x, hx, hrest⟩ | ⟨x, hx, -⟩
  · rcases x with _ | ⟨c, x⟩
    · exact ⟨m, [], by rw [hx]; simp⟩
    · have hmem : '"' ∈ List.replicate m '.' ++ comma := by
        rw [hx, (List.cons.inj hrest).1]
        simp
      refine absurd (List.mem_append.1 hmem) ?_
      rw [not_or]
      exact ⟨fun h => absurd (List.eq_of_mem_replicate h) (by decide), by decide⟩
  · exact ⟨m, x, hx⟩

/-- A literal whose opening quote closes the literal before it. -/
theorem openAfter_literal_iff (hs : IsLiteral s) (hstart : StartsAtComma s) (hz : '"' ∉ z)
    (hcomma : ',' ∉ z) : openAfter (some h) (s ++ z) = none ↔ ¬ EndsAtComma s := by
  obtain ⟨body, n, hbody, rfl⟩ := hs
  obtain ⟨m, u, rfl⟩ := hstart.exists_body
  have hclosed : openAfter (some h) ('"' :: List.replicate m '.') = none := by
    have hsingle : ¬ comma <:+: '"' :: List.replicate m '.' := noComma_of_not_mem fun hmem =>
      (List.mem_cons.1 hmem).elim (by decide) fun hc =>
        absurd (List.eq_of_mem_replicate hc) (by decide)
    rw [openAfter_of_noComma hsingle, mergeRun_singleton, isOpenLiteral_continued_dots]
    rfl
  have hhead : u.head? ≠ some '"' := fun hu => by
    obtain ⟨v, rfl⟩ := List.head?_eq_some_iff.1 hu
    exact hbody.noCommaQuote ⟨List.replicate m '.', v, by simp⟩
  have hquote : ¬ comma ++ ['"'] <:+: u := fun hin =>
    hbody.noCommaQuote (hin.trans (List.suffix_append _ u).isInfix)
  have hcut : '"' :: (List.replicate m '.' ++ comma ++ u) ++ '"' :: List.replicate n '.' ++ z =
      '"' :: List.replicate m '.' ++ comma ++ (u ++ '"' :: List.replicate n '.' ++ z) := by
    simp
  rw [hcut, openAfter_append_comma, hclosed, openAfter_closingQuote_iff hhead hquote hz hcomma,
    endsAtComma_iff, show '"' :: (List.replicate m '.' ++ comma ++ u) =
      '"' :: List.replicate m '.' ++ comma ++ u from rfl, comma_suffix_append_iff, not_or]

/-! ## The whole array -/

/-- The printed form of an array of literals. -/
def arrayText (lits : List Text) : Text := '[' :: joinCommas lits ++ [']']

/-- The quotes of an array are taken for each other at their commas: each literal but the last one
ends at a comma, each but the first one starts at one, and the last one does not end at one. -/
structure LeavesNothingOpen (lits : List Text) : Prop where
  chain : lits.IsChain fun s t => EndsAtComma s ∧ StartsAtComma t
  last : ∀ s ∈ lits.getLast?, ¬ EndsAtComma s

theorem leavesNothingOpen_singleton : LeavesNothingOpen [s] ↔ ¬ EndsAtComma s :=
  ⟨fun h => h.last s rfl, fun h => ⟨.singleton s, fun t ht => by rwa [← Option.some.inj ht]⟩⟩

theorem leavesNothingOpen_cons_cons : LeavesNothingOpen (s :: t :: lits) ↔
    EndsAtComma s ∧ StartsAtComma t ∧ LeavesNothingOpen (t :: lits) := by
  constructor
  · rintro ⟨hchain, hlast⟩
    obtain ⟨⟨hs, ht⟩, hchain⟩ := List.isChain_cons_cons.1 hchain
    exact ⟨hs, ht, hchain, by rwa [List.getLast?_cons_cons] at hlast⟩
  · rintro ⟨hs, ht, hchain, hlast⟩
    exact ⟨List.isChain_cons_cons.2 ⟨⟨hs, ht⟩, hchain⟩, by rwa [List.getLast?_cons_cons]⟩

/-- Literals that are read as they are: the bracket after the last one hides its closing quote. -/
theorem openAfter_literals_ne_none (hne : lits ≠ []) (hlits : ∀ s ∈ lits, IsLiteral s) :
    openAfter none (joinCommas lits ++ [']']) ≠ none := by
  induction lits with
  | nil => exact absurd rfl hne
  | cons s lits ih =>
    obtain ⟨hs, hlits⟩ := List.forall_mem_cons.1 hlits
    have hnone : ∀ h ∈ (none : Option Text), isOpenLiteral h = true ∧ ¬ StartsAtComma s := by simp
    obtain ⟨hclosed, hbracket⟩ := openAfter_literal hs hnone
    rcases lits with _ | ⟨t, lits⟩
    · rwa [joinCommas_singleton]
    · rw [joinCommas_cons s (by simp), List.append_assoc, openAfter_append_comma, hclosed]
      exact ih (by simp) hlits

theorem openAfter_literals_iff (hh : isOpenLiteral h = true) (hne : lits ≠ [])
    (hlits : ∀ s ∈ lits, IsLiteral s) :
    openAfter (some h) (joinCommas lits ++ [']']) = none ↔
      (∀ s ∈ lits.head?, StartsAtComma s) ∧ LeavesNothingOpen lits := by
  induction lits generalizing h with
  | nil => exact absurd rfl hne
  | cons s lits ih =>
    obtain ⟨hs, hlits⟩ := List.forall_mem_cons.1 hlits
    have hhead : (∀ u ∈ (s :: lits).head?, StartsAtComma u) ↔ StartsAtComma s := by simp
    have hread : ¬ StartsAtComma s → ∀ u ∈ some h, isOpenLiteral u = true ∧ ¬ StartsAtComma s :=
      fun hstart u hu => ⟨by rwa [← Option.some.inj hu], hstart⟩
    rw [hhead]
    rcases lits with _ | ⟨t, lits⟩
    · rw [joinCommas_singleton, leavesNothingOpen_singleton]
      by_cases hstart : StartsAtComma s
      · rw [openAfter_literal_iff hs hstart (by decide) (by decide), and_iff_right hstart]
      · exact iff_of_false (openAfter_literal hs (hread hstart)).2 fun h => hstart h.1
    · rw [joinCommas_cons s (by simp), List.append_assoc, openAfter_append_comma,
        leavesNothingOpen_cons_cons]
      -- the literal is still open, closed by its own quote, or closed by the next one
      by_cases hstart : StartsAtComma s
      · have hclosed := openAfter_literal_iff (h := h) (z := []) hs hstart (by simp) (by simp)
        rw [List.append_nil] at hclosed
        by_cases hend : EndsAtComma s
        · obtain ⟨u, hu⟩ := Option.ne_none_iff_exists'.1 fun h => hclosed.1 h hend
          have hopen := isOpenLiteral_of_mergeRun (fun v hv => (by rwa [← Option.some.inj hv])) hu
          rw [hu, ih hopen (by simp) hlits]
          simp [hstart, hend]
        · rw [hclosed.2 hend]
          exact iff_of_false (openAfter_literals_ne_none (by simp) hlits) fun h => hend h.2.1
      · rw [(openAfter_literal hs (hread hstart)).1]
        exact iff_of_false (openAfter_literals_ne_none (by simp) hlits) fun h => hstart h.1

theorem openAfter_arrayText_iff (hne : lits ≠ []) (hlits : ∀ s ∈ lits, IsLiteral s) :
    openAfter none (arrayText lits) = none ↔ LeavesNothingOpen lits := by
  obtain ⟨s, lits, rfl⟩ := List.exists_cons_of_ne_nil hne
  obtain ⟨hs, hlits⟩ := List.forall_mem_cons.1 hlits
  unfold arrayText
  rcases lits with _ | ⟨t, lits⟩
  · rw [joinCommas_singleton, leavesNothingOpen_singleton]
    exact openAfter_bracket_literal_iff hs (by decide) (by decide)
  · have hcut : '[' :: joinCommas (s :: t :: lits) ++ [']'] =
        '[' :: s ++ comma ++ (joinCommas (t :: lits) ++ [']']) := by
      rw [joinCommas_cons s (by simp)]
      simp
    have hfirst := openAfter_bracket_literal_iff (z := []) hs (by simp) (by simp)
    rw [List.append_nil] at hfirst
    rw [hcut, openAfter_append_comma, leavesNothingOpen_cons_cons]
    by_cases hend : EndsAtComma s
    · obtain ⟨u, hu⟩ := Option.ne_none_iff_exists'.1 fun h => hfirst.1 h hend
      have hopen := isOpenLiteral_of_mergeRun (by simp) hu
      rw [hu, openAfter_literals_iff hopen (by simp) hlits]
      simp [hend]
    · rw [hfirst.2 hend]
      exact iff_of_false (openAfter_literals_ne_none (by simp) hlits) fun h => hend h.1

theorem tight_arrayText (lits : List Text) : Tight (arrayText lits) := by
  refine ⟨by simp [arrayText], fun c hc => ?_, fun c hc => ?_⟩
  · obtain rfl : '[' = c := by simpa [arrayText] using hc
    decide
  · unfold arrayText at hc
    rw [List.getLast?_concat] at hc
    rw [← Option.some.inj hc]
    decide

/-- The arguments after an array of strings come out as they are exactly if the array leaves
nothing open. -/
theorem suffix_split_array_iff (hne : lits ≠ []) (hlits : ∀ s ∈ lits, IsLiteral s)
    (hargs : args ≠ []) (h : ∀ a ∈ args, IsArgument a) :
    args <:+ split (arrayText lits ++ comma ++ joinCommas args) ↔ LeavesNothingOpen lits :=
  (suffix_split_iff (tight_arrayText lits) hargs h).trans (openAfter_arrayText_iff hne hlits)

/-! ### The arguments of a new program -/

def programPath : Text := "\"./syscalls\"".toList

def programArg : Text := "\"open\"".toList

/-- The argument after those of the program, with the environment left out. -/
def environmentArg : Text := "[/* 39 vars */]".toList

theorem isLiteral_programPath : IsLiteral programPath :=
  ⟨"./syscalls".toList, 0, literalBody_of_not_mem (by decide) (by decide), by decide +kernel⟩

theorem isLiteral_programArg : IsLiteral programArg :=
  ⟨"open".toList, 0, literalBody_of_not_mem (by decide) (by decide), by decide +kernel⟩

theorem isArgument_environmentArg : IsArgument environmentArg :=
  .inr ⟨by decide +kernel, by decide, by decide +kernel⟩

theorem suffix_split_array_iff_program :
    [environmentArg] <:+ split "[\"./syscalls\"], [/* 39 vars */]".toList ∧
      ¬ [environmentArg] <:+ split "[\"./syscalls\", \"open\"], [/* 39 vars */]".toList := by
  have hpath : ∀ s ∈ [programPath], IsLiteral s := by
    simpa using isLiteral_programPath
  have hboth : ∀ s ∈ [programPath, programArg], IsLiteral s := by
    simpa using ⟨isLiteral_programPath, isLiteral_programArg⟩
  have hargs : ∀ a ∈ [environmentArg], IsArgument a := by
    simpa using isArgument_environmentArg
  have hone := suffix_split_array_iff (by simp) hpath (by simp) hargs
  have htwo := suffix_split_array_iff (by simp) hboth (by simp) hargs
  have hends : ¬ EndsAtComma programPath := by
    rw [show programPath = "\"./syscalls".toList ++ '"' :: List.replicate 0 '.' by decide +kernel,
      endsAtComma_iff]
    decide +kernel
  rw [show arrayText [programPath] ++ comma ++ joinCommas [environmentArg] =
    "[\"./syscalls\"], [/* 39 vars */]".toList by decide +kernel] at hone
  rw [show arrayText [programPath, programArg] ++ comma ++ joinCommas [environmentArg] =
    "[\"./syscalls\", \"open\"], [/* 39 vars */]".toList by decide +kernel] at htwo
  exact ⟨hone.2 (leavesNothingOpen_singleton.2 hends), fun h =>
    hends (leavesNothingOpen_cons_cons.1 (htwo.1 h)).1⟩

/-- The last of two strings takes the argument after the array. -/
theorem split_array_takes_argument :
    IsLiteral programPath ∧ IsLiteral programArg ∧ IsArgument environmentArg ∧
      arrayText [programPath, programArg] ++ comma ++ joinCommas [environmentArg] =
        "[\"./syscalls\", \"open\"], [/* 39 vars */]".toList ∧
      split "[\"./syscalls\", \"open\"], [/* 39 vars */]".toList =
        ["[\"./syscalls\"".toList, "\"open\"], [/* 39 vars */]".toList] ∧
      ¬ [environmentArg] <:+ split "[\"./syscalls\", \"open\"], [/* 39 vars */]".toList :=
  ⟨isLiteral_programPath, isLiteral_programArg, isArgument_environmentArg, by decide +kernel,
    by decide +kernel, by decide +kernel⟩

end SyscallTrace.Token
