import SyscallTrace.Argument.Braced
import SyscallTrace.Proofs.Argument.Merging

/-!
# The tokens of a structure

`Braced.take` takes the tokens up to the first one that ends in a closing brace. `Braced.Closes` is
the shape of what it takes, and `Braced.take_eq_ok_iff` says that it takes nothing else. A printed
structure that is cut at all of its commas has that shape exactly if no closing brace in it stands
before a comma (`Braced.closes_splitCommas_iff`).
-/

namespace SyscallTrace

namespace Text

variable {a b s t u : Text}

theorem endsWith_iff : endsWith t s = true ↔ s <:+ t := List.isSuffixOf_iff_suffix

theorem startsWith_iff : startsWith t s = true ↔ s <+: t := List.isPrefixOf_iff_prefix

/-- A cut at a comma is the first one, or it is a cut of what follows the first one. -/
theorem eq_or_exists_of_append_comma (h : a ++ comma ++ b = t ++ comma ++ u)
    (ht : ¬ comma <:+: t) :
    a = t ∧ b = u ∨ ∃ x, a = t ++ comma ++ x ∧ u = x ++ comma ++ b := by
  have hpieces := congrArg splitCommas h
  rw [splitCommas_append_comma, splitCommas_append_comma, splitCommas_eq_singleton ht] at hpieces
  obtain ⟨p, ps, hps⟩ := List.exists_cons_of_ne_nil (splitCommas_ne_nil a)
  rw [hps] at hpieces
  obtain ⟨rfl, hrest⟩ := List.cons.inj hpieces
  have ha := joinCommas_splitCommas a
  rw [hps] at ha
  rcases List.eq_nil_or_concat' ps with rfl | ⟨qs, q, rfl⟩
  · refine .inl ⟨by rw [← ha, joinCommas_singleton], ?_⟩
    rw [← joinCommas_splitCommas b, ← joinCommas_splitCommas u]
    exact congrArg joinCommas hrest
  · refine .inr ⟨joinCommas (qs ++ [q]), ?_, ?_⟩
    · rw [← ha, Token.joinCommas_cons p (by simp)]
    · rw [joinCommas_of_splitCommas hrest.symm (by simp) (splitCommas_ne_nil b),
        joinCommas_splitCommas]

end Text

namespace Braced

/-- The tokens that the reader of a structure takes: the last one, and only that one, ends in a
closing brace. -/
inductive Closes : List Text → Prop where
  | last {t : Text} : Closes [t ++ ['}']]
  | cons {t : Text} {ts : List Text} (ht : ¬ ['}'] <:+ t) (hts : Closes ts) : Closes (t :: ts)

variable {kind : ArgumentKind} {t u : Text} {raw rest tokens ts : List Text} {b : Braced}

namespace Closes

theorem ne_nil (h : Closes ts) : ts ≠ [] := by
  cases h <;> simp

theorem singleton_iff : Closes [t] ↔ ['}'] <:+ t := by
  constructor
  · intro h
    cases h with
    | last => exact List.suffix_append _ _
    | cons _ hts => exact absurd rfl hts.ne_nil
  · rintro ⟨u, rfl⟩
    exact .last

theorem cons_iff (hne : ts ≠ []) : Closes (t :: ts) ↔ ¬ ['}'] <:+ t ∧ Closes ts := by
  constructor
  · intro h
    cases h with
    | last => exact absurd rfl hne
    | cons ht hts => exact ⟨ht, hts⟩
  · rintro ⟨ht, hts⟩
    exact .cons ht hts

/-- Only the end of the first token matters. -/
theorem replaceHead (h : Closes (t :: ts)) (hend : ['}'] <:+ u ↔ ['}'] <:+ t) :
    Closes (u :: ts) := by
  by_cases hne : ts = []
  · subst hne
    exact singleton_iff.2 (hend.2 (singleton_iff.1 h))
  · rw [cons_iff hne] at h ⊢
    exact ⟨fun hu => h.1 (hend.1 hu), h.2⟩

end Closes

/-! ## Taking a structure -/

theorem splitAfter?_eq_some_iff : splitAfter? (fun t => Text.endsWith t ['}']) tokens =
    some (raw, rest) ↔ Closes raw ∧ tokens = raw ++ rest := by
  constructor
  · intro h
    refine ⟨?_, eq_append_of_splitAfter? h⟩
    induction tokens generalizing raw with
    | nil => cases h
    | cons t tokens ih =>
      rw [splitAfter?] at h
      split at h
      · next ht =>
        obtain ⟨rfl, -⟩ := Prod.mk.inj (Option.some.inj h)
        exact Closes.singleton_iff.2 (Text.endsWith_iff.1 ht)
      · next ht =>
        obtain ⟨⟨raw, rest⟩, hrest, hraw⟩ := Option.map_eq_some_iff.1 h
        obtain ⟨rfl, rfl⟩ := Prod.mk.inj hraw
        exact .cons (fun hend => ht (Text.endsWith_iff.2 hend)) (ih hrest)
  · rintro ⟨hraw, rfl⟩
    induction hraw with
    | @last t =>
      exact if_pos (Text.endsWith_iff.2 (List.suffix_append t ['}']))
    | @cons t ts ht _ ih =>
      rw [List.cons_append, splitAfter?, if_neg fun hend => ht (Text.endsWith_iff.1 hend), ih]
      rfl

theorem take_eq_ok_iff : take kind tokens = .ok b ↔
    (∀ t ∈ b.raw.head?, ['{'] <+: t) ∧ Closes b.raw ∧ tokens = b.raw ++ b.rest := by
  obtain ⟨raw, rest⟩ := b
  dsimp only
  constructor
  · intro h
    unfold take at h
    split at h
    · cases h
    · next first others =>
      split at h
      · next hfirst =>
        split at h
        · next hs =>
          obtain ⟨rfl, rfl⟩ := Braced.mk.inj (Except.ok.inj h)
          obtain ⟨hclose, htokens⟩ := splitAfter?_eq_some_iff.1 hs
          obtain ⟨t, ts, rfl⟩ := List.exists_cons_of_ne_nil hclose.ne_nil
          obtain ⟨rfl, -⟩ := List.cons.inj htokens
          refine ⟨fun u hu => ?_, hclose, htokens⟩
          rw [← Option.some.inj hu]
          exact Text.startsWith_iff.1 hfirst
        · cases h
      · cases h
  · rintro ⟨hopen, hclose, rfl⟩
    have hs := splitAfter?_eq_some_iff.2 ⟨hclose, Eq.refl (raw ++ rest)⟩
    obtain ⟨t, ts, rfl⟩ := List.exists_cons_of_ne_nil hclose.ne_nil
    unfold take
    rw [List.cons_append] at hs ⊢
    dsimp only
    rw [if_pos (Text.startsWith_iff.2 (hopen t rfl)), hs]

/-! ## The closing brace -/

theorem dropClosing_last (t : Text) : dropClosing [t ++ ['}']] = [t] := by
  rw [dropClosing, Text.dropSuffix?_append]
  rfl

theorem dropClosing_cons (t : Text) (hne : ts ≠ []) :
    dropClosing (t :: ts) = t :: dropClosing ts :=
  dropClosing.eq_3 t ts hne

theorem Closes.dropClosing_ne_nil (h : Closes ts) : dropClosing ts ≠ [] := by
  cases h with
  | last => simp [dropClosing_last]
  | cons _ hts => simp [dropClosing_cons _ hts.ne_nil]

/-- The brace that is taken off is the last character of the structure. -/
theorem Closes.joinCommas_eq (h : Closes ts) :
    Text.joinCommas ts = Text.joinCommas (dropClosing ts) ++ ['}'] := by
  induction h with
  | last => rw [dropClosing_last, Text.joinCommas_singleton, Text.joinCommas_singleton]
  | @cons t ts _ hts ih =>
    rw [dropClosing_cons t hts.ne_nil, Token.joinCommas_cons t hts.ne_nil,
      Token.joinCommas_cons t hts.dropClosing_ne_nil, ih, List.append_assoc _ _ ['}']]

theorem Closes.eq_append_of_dropClosing {us : List Text} (h : Closes ts)
    (hd : dropClosing ts = us ++ [t]) : ts = us ++ [t ++ ['}']] := by
  induction h generalizing us with
  | @last u =>
    rw [dropClosing_last] at hd
    obtain ⟨rfl, hu⟩ := List.append_inj' (show [] ++ [u] = us ++ [t] from hd) rfl
    obtain ⟨rfl, -⟩ := List.cons.inj hu
    rfl
  | @cons u ts _ hts ih =>
    rw [dropClosing_cons u hts.ne_nil] at hd
    rcases us with _ | ⟨v, us⟩
    · exact absurd (List.cons.inj hd).2 hts.dropClosing_ne_nil
    · obtain ⟨rfl, hrest⟩ := List.cons.inj hd
      rw [ih hrest]
      rfl

/-! ## Structures that are cut at all commas -/

/-- A closing brace right before a comma. -/
def innerClose : Text := ['}'] ++ Text.comma

theorem closing_suffix_append_comma_iff :
    ['}'] <:+ t ++ Text.comma ++ u ↔ ['}'] <:+ u := by
  constructor
  · intro h
    rw [List.append_assoc] at h
    have h : ['}'] <:+ ' ' :: u := Text.suffix_of_suffix_append_cons (c := ',') h (by decide)
    exact (List.suffix_cons_iff.1 h).resolve_left fun heq => absurd (List.cons.inj heq).1 (by decide)
  · intro h
    exact h.trans (List.suffix_append _ _)

theorem innerClose_infix_append_comma_iff (ht : ¬ Text.comma <:+: t) :
    innerClose <:+: t ++ Text.comma ++ u ↔ ['}'] <:+ t ∨ innerClose <:+: u := by
  constructor
  · rintro ⟨a, b, hab⟩
    rw [innerClose, ← List.append_assoc] at hab
    rcases Text.eq_or_exists_of_append_comma hab ht with ⟨rfl, -⟩ | ⟨x, hx, rfl⟩
    · exact .inl (List.suffix_append _ _)
    · obtain ⟨y, rfl⟩ := closing_suffix_append_comma_iff.1 (hx ▸ List.suffix_append a ['}'])
      exact .inr ⟨y, b, by simp [innerClose]⟩
  · rintro (⟨v, rfl⟩ | hu)
    · exact ⟨v, u, by simp [innerClose]⟩
    · exact hu.trans (List.suffix_append _ _).isInfix

theorem closes_iff_of_noComma (hne : ts ≠ []) (h : ∀ t ∈ ts, ¬ Text.comma <:+: t) :
    Closes ts ↔ ['}'] <:+ Text.joinCommas ts ∧ ¬ innerClose <:+: Text.joinCommas ts := by
  induction ts with
  | nil => exact absurd rfl hne
  | cons t ts ih =>
    obtain ⟨ht, hts⟩ := List.forall_mem_cons.1 h
    by_cases hlast : ts = []
    · subst hlast
      have hinner : ¬ innerClose <:+: t := fun hin => ht ((List.suffix_append _ _).isInfix.trans hin)
      rw [Closes.singleton_iff, Text.joinCommas_singleton, and_iff_left hinner]
    · rw [Closes.cons_iff hlast, Token.joinCommas_cons t hlast, closing_suffix_append_comma_iff,
        innerClose_infix_append_comma_iff ht, ih hlast hts, not_or]
      exact and_left_comm

/-- The pieces of a text are those of one structure exactly if the text ends in a closing brace and
none in it stands before a comma. -/
theorem closes_splitCommas_iff :
    Closes (Text.splitCommas t) ↔ ['}'] <:+ t ∧ ¬ innerClose <:+: t := by
  rw [closes_iff_of_noComma (Text.splitCommas_ne_nil t) fun _ => Text.noComma_of_mem_splitCommas,
    Text.joinCommas_splitCommas]

/-! ## The text of a structure -/

theorem fields_cons (t : Text) (ts rest : List Text) :
    fields ⟨('{' :: t) :: ts, rest⟩ = dropClosing (t :: ts) := by
  have hopen : Text.dropPrefix? ('{' :: t) ['{'] = some t := Text.dropPrefix?_append ['{'] t
  unfold fields
  rw [List.modifyHead_cons, hopen, Option.getD_some]

/-- The braces that are taken off are those around the text. -/
theorem joinCommas_raw (hopen : ∀ t ∈ b.raw.head?, ['{'] <+: t) (hclose : Closes b.raw) :
    Text.joinCommas b.raw = '{' :: Text.joinCommas b.fields ++ ['}'] := by
  obtain ⟨raw, rest⟩ := b
  dsimp only at hopen hclose ⊢
  obtain ⟨u, ts, rfl⟩ := List.exists_cons_of_ne_nil hclose.ne_nil
  obtain ⟨t, rfl⟩ := hopen u rfl
  have hend : ['}'] <:+ t ↔ ['}'] <:+ '{' :: t :=
    ⟨fun h => h.trans (List.suffix_cons '{' t), fun h =>
      (List.suffix_cons_iff.1 h).resolve_left fun heq => absurd (List.cons.inj heq).1 (by decide)⟩
  have hjoin : Text.joinCommas (('{' :: t) :: ts) = '{' :: Text.joinCommas (t :: ts) := by
    by_cases hne : ts = []
    · rw [hne, Text.joinCommas_singleton, Text.joinCommas_singleton]
    · rw [Token.joinCommas_cons _ hne, Token.joinCommas_cons _ hne]
      rfl
  show Text.joinCommas (('{' :: t) :: ts) = '{' :: Text.joinCommas (fields ⟨('{' :: t) :: ts, rest⟩)
    ++ ['}']
  rw [hjoin, fields_cons, (hclose.replaceHead hend).joinCommas_eq]
  rfl

theorem prefix_of_mem_dropClosing (h : t ∈ dropClosing ts) : ∃ u ∈ ts, t <+: u := by
  induction ts with
  | nil => cases h
  | cons u ts ih =>
    by_cases hne : ts = []
    · subst hne
      refine ⟨u, List.mem_cons_self, ?_⟩
      rw [List.mem_singleton.1 h]
      cases hdrop : u.dropSuffix? ['}'] with
      | none => exact List.prefix_refl u
      | some v => exact ⟨['}'], (Text.dropSuffix?_eq_some_iff.1 hdrop).symm⟩
    · rw [dropClosing_cons u hne] at h
      rcases List.mem_cons.1 h with rfl | h
      · exact ⟨t, List.mem_cons_self, List.prefix_refl t⟩
      · obtain ⟨v, hv, hpre⟩ := ih h
        exact ⟨v, List.mem_cons_of_mem u hv, hpre⟩

/-- Where no closing brace is in the text, the one around it ends the structure. -/
theorem closes_splitCommas_braced (hbrace : '}' ∉ t) :
    Closes (Text.splitCommas ('{' :: t ++ ['}'])) := by
  refine closes_splitCommas_iff.2 ⟨List.suffix_append _ _, ?_⟩
  rintro ⟨u, v, huv⟩
  have hmem : '}' ∈ (u ++ innerClose ++ v).dropLast := by
    rw [innerClose, List.append_assoc, List.append_assoc,
      List.dropLast_append_of_ne_nil (by simp [Text.comma])]
    simp [Text.comma]
  rw [huv, List.dropLast_concat] at hmem
  exact hbrace ((List.mem_cons.1 hmem).resolve_left (by decide))

/-- The opening brace stands at the front of the first piece. -/
theorem exists_splitCommas_brace (t : Text) : ∃ p ps, Text.splitCommas t = p :: ps ∧
    Text.splitCommas ('{' :: t) = ('{' :: p) :: ps := by
  obtain ⟨p, ps, hps⟩ := List.exists_cons_of_ne_nil (Text.splitCommas_ne_nil t)
  refine ⟨p, ps, hps, ?_⟩
  rw [Text.splitCommas_cons fun h => absurd (List.cons_prefix_cons.1 h).1 (by decide), hps]
  rfl

/-- The fields of such a structure are the pieces of its text. -/
theorem fields_splitCommas (hbrace : '}' ∉ t) :
    fields ⟨Text.splitCommas ('{' :: t ++ ['}']), rest⟩ = Text.splitCommas t := by
  have hclose := closes_splitCommas_braced hbrace
  obtain ⟨p, ps, hps, hraw⟩ := exists_splitCommas_brace (t ++ ['}'])
  have htext := Text.joinCommas_splitCommas ('{' :: (t ++ ['}']))
  rw [List.cons_append, hraw] at hclose ⊢
  rw [hraw, joinCommas_raw (b := ⟨('{' :: p) :: ps, rest⟩)
    (fun u hu => ⟨p, Option.some.inj hu⟩) hclose, fields_cons] at htext
  have hjoin : Text.joinCommas (dropClosing (p :: ps)) = t :=
    List.append_cancel_right (List.cons.inj htext).2
  have hpieces : ∀ u ∈ dropClosing (p :: ps), Text.splitCommas u = [u] := by
    intro u hu
    obtain ⟨v, hv, hpre⟩ := prefix_of_mem_dropClosing hu
    exact Text.splitCommas_eq_singleton fun hin =>
      Text.noComma_of_mem_splitCommas (hps ▸ hv) (hin.trans hpre.isInfix)
  have hne : dropClosing (p :: ps) ≠ [] := by
    cases ps <;> simp [dropClosing]
  rw [fields_cons, ← hjoin, Text.splitCommas_joinCommas hne, List.flatMap_congr hpieces,
    List.flatMap_singleton']

/-- A structure without closing braces and quotes in it is taken from the front of the arguments,
cut at all of its commas. -/
theorem take_split (hbrace : '}' ∉ t) (hquote : '"' ∉ t) (hrest : ∀ u ∈ rest, Token.IsPlain u) :
    take kind (Token.split ('{' :: t ++ ['}'] ++ Text.comma ++ Text.joinCommas rest)) =
      .ok ⟨Text.splitCommas ('{' :: t ++ ['}']), rest⟩ := by
  have htight : Text.Tight ('{' :: t ++ ['}']) := by
    refine ⟨by simp, fun c hc => ?_, fun c hc => ?_⟩
    · rw [← Option.some.inj hc]
      decide
    · rw [List.getLast?_concat] at hc
      rw [← Option.some.inj hc]
      decide
  have hnoquote : '"' ∉ '{' :: t ++ ['}'] := by simp [hquote]
  have htokens : ∀ u ∈ Text.splitCommas ('{' :: t ++ ['}']),
      ¬ Text.comma <:+: u ∧ u.head? ≠ some '"' := fun u hu =>
    ⟨Text.noComma_of_mem_splitCommas hu, Text.head?_ne_quote_of_mem_splitCommas
      (fun h => hnoquote (List.mem_of_mem_head? h)) (fun h => hnoquote (h.mem (by simp))) hu⟩
  have hjoin := Text.joinCommas_splitCommas ('{' :: t ++ ['}'])
  have hsplit := Token.split_joinCommas_append_comma (Text.splitCommas_ne_nil _)
    (hjoin.symm ▸ htight) htokens hrest
  rw [hjoin] at hsplit
  rw [hsplit]
  refine take_eq_ok_iff.2 ⟨fun u hu => ?_, closes_splitCommas_braced hbrace, rfl⟩
  obtain ⟨p, ps, -, hraw⟩ := exists_splitCommas_brace (t ++ ['}'])
  dsimp only at hu
  rw [List.cons_append, hraw] at hu
  exact ⟨p, Option.some.inj hu⟩

end Braced

end SyscallTrace
