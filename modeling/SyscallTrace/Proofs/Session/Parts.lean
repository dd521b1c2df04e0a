import SyscallTrace.Proofs.Session.Projection

/-!
# Histories in parts

What a part of a history yields depends on the calls that wait before it and on what the lines
after it do to the calls that are open at its end (`sources_append`, `valid_append`), and on both
only as far as the part touches them (`partSources_congr`, `valid_congr`).

A call is left alone by the lines that follow it if the first of them that does anything to its
process and name starts another call (`LeftAlone`). Whether it waits or not is all the same to
them (`sources_congr_of_leftAlone`).
-/

namespace SyscallTrace

/-- The calls that wait after these lines. -/
def Waiting.after (w : Waiting) : List Entry → Waiting
  | [] => w
  | e :: es => (e.call?.elim w (w.next e.line)).after es

namespace History

/-- What the records of the lines `es` are built from if the lines `later` follow. -/
def partSources (w : Waiting) (es later : List Entry) : List Source :=
  match es with
  | [] => []
  | e :: es =>
    match e.call? with
    | none => partSources w es later
    | some c =>
      (w.source? e.line e.number c (es ++ later)).toList ++ partSources (w.next e.line c) es later

/-- The lines do nothing to calls outside of `P`. -/
def TouchesOnly (P : CallKey → Prop) (es : List Entry) : Prop :=
  ∀ e ∈ es, ∀ k, ¬ P k → e.effect k = .passes

/-- The same calls wait under the keys in `P`. -/
def AgreeIn (P : CallKey → Prop) (w w' : Waiting) : Prop := ∀ k, P k → w k = w' k

/-- The first line that does anything to the call that waits under `k` starts another one. -/
def LeftAlone (k : CallKey) (es : List Entry) : Prop :=
  ∃ ps rest, es = ps ++ rest ∧ (∀ e ∈ ps, e.effect k = .passes) ∧
    ∀ e ∈ rest.head?, e.effect k = .starts

variable {w w' : Waiting} {e : Entry} {es es' later later' : List Entry} {c : Call} {k : CallKey}
  {line : Text} {number : Nat} {P : CallKey → Prop}

theorem effect_of_call (hc : e.call? = some c) : e.effect k = c.effect k := by
  rw [Entry.effect, hc]
  rfl

theorem effect_of_none (hc : e.call? = none) : e.effect k = .passes := by
  rw [Entry.effect, hc]
  rfl

theorem after_cons_of_none (hc : e.call? = none) : w.after (e :: es) = w.after es := by
  rw [Waiting.after, hc]
  rfl

theorem after_cons_of_some (hc : e.call? = some c) :
    w.after (e :: es) = (w.next e.line c).after es := by
  rw [Waiting.after, hc]
  rfl

theorem partSources_cons_of_none (hc : e.call? = none) :
    partSources w (e :: es) later = partSources w es later := by
  rw [partSources, hc]

theorem partSources_cons_of_some (hc : e.call? = some c) :
    partSources w (e :: es) later =
      (w.source? e.line e.number c (es ++ later)).toList ++
        partSources (w.next e.line c) es later := by
  rw [partSources, hc]

/-! ## Parts put together -/

theorem sources_append :
    sources w (es ++ later) = partSources w es later ++ sources (w.after es) later := by
  induction es generalizing w with
  | nil => rfl
  | cons e es ih =>
    rw [List.cons_append]
    cases hc : e.call? with
    | none =>
      rw [sources_cons_of_none hc, partSources_cons_of_none hc, after_cons_of_none hc, ih]
    | some c =>
      rw [sources_cons_of_some hc, partSources_cons_of_some hc, after_cons_of_some hc, ih,
        List.append_assoc]

theorem valid_append : Valid w (es ++ later) ↔ Valid w es ∧ Valid (w.after es) later := by
  induction es generalizing w with
  | nil => exact ⟨fun h => ⟨trivial, h⟩, And.right⟩
  | cons e es ih =>
    rw [List.cons_append]
    cases hc : e.call? with
    | none => rw [valid_cons_of_none hc, valid_cons_of_none hc, after_cons_of_none hc, ih]
    | some c =>
      rw [valid_cons_of_some hc, valid_cons_of_some hc, after_cons_of_some hc, ih, and_assoc]

theorem laterArgs?_append_congr (h : laterArgs? k later = laterArgs? k later') :
    laterArgs? k (es ++ later) = laterArgs? k (es ++ later') := by
  induction es with
  | nil => exact h
  | cons e es ih => rw [List.cons_append, List.cons_append, laterArgs?, laterArgs?, ih]

theorem laterArgs?_append_of_passes (h : ∀ e ∈ es, e.effect k = .passes) :
    laterArgs? k (es ++ later) = laterArgs? k later := by
  induction es with
  | nil => rfl
  | cons e es ih =>
    rw [List.cons_append, laterArgs?_cons_of_passes (h e List.mem_cons_self),
      ih fun e he => h e (List.mem_cons_of_mem _ he)]

/-! ## What a part depends on -/

theorem admits_congr (h : w c.key = w' c.key) : w.Admits c ↔ w'.Admits c := by
  unfold Waiting.Admits
  rw [h]

theorem admits_of_passes (h : c.effect c.key = .passes) : w.Admits c := by
  obtain ⟨o, ho⟩ := Call.effect_eq_passes_iff.1 h rfl
  rw [Waiting.Admits, ho]
  trivial

theorem source?_congr (hw : w c.key = w' c.key)
    (hes : laterArgs? c.key es = laterArgs? c.key es') :
    w.source? line number c es = w'.source? line number c es' := by
  unfold Waiting.source?
  rw [hw, hes]

theorem source?_congr_of_passes (h : c.effect c.key = .passes) :
    w.source? line number c es = w'.source? line number c es' := by
  obtain ⟨o, ho⟩ := Call.effect_eq_passes_iff.1 h rfl
  rw [Waiting.source?_of_complete ho, Waiting.source?_of_complete ho]

namespace AgreeIn

theorem next (h : AgreeIn P w w') : AgreeIn P (w.next line c) (w'.next line c) :=
  fun k hk => next_apply_congr (h k hk)

theorem after (h : AgreeIn P w w') (es : List Entry) :
    AgreeIn P (w.after es) (w'.after es) := by
  induction es generalizing w w' with
  | nil => exact h
  | cons e es ih =>
    cases hc : e.call? with
    | none =>
      rw [after_cons_of_none hc, after_cons_of_none hc]
      exact ih h
    | some c =>
      rw [after_cons_of_some hc, after_cons_of_some hc]
      exact ih h.next

theorem symm (h : AgreeIn P w w') : AgreeIn P w' w := fun k hk => (h k hk).symm

theorem trans {w'' : Waiting} (h : AgreeIn P w w') (h' : AgreeIn P w' w'') : AgreeIn P w w'' :=
  fun k hk => (h k hk).trans (h' k hk)

/-- A call changes nothing under other keys than its own. -/
theorem next_self (w : Waiting) (line : Text) (c : Call) :
    AgreeIn (· ≠ c.key) w (w.next line c) :=
  fun _ hk => (Waiting.next_apply_of_passes (Call.effect_of_ne (Ne.symm hk))).symm

end AgreeIn

theorem TouchesOnly.tail (h : TouchesOnly P (e :: es)) : TouchesOnly P es :=
  fun e he => h e (List.mem_cons_of_mem _ he)

theorem TouchesOnly.passes (h : TouchesOnly P (e :: es)) (hc : e.call? = some c)
    (hk : ¬ P c.key) : c.effect c.key = .passes := by
  rw [← effect_of_call hc]
  exact h e List.mem_cons_self c.key hk

theorem touchesOnly_ne (h : ∀ e ∈ es, e.effect k = .passes) : TouchesOnly (· ≠ k) es := by
  intro e he k' hk'
  rw [not_not.1 hk']
  exact h e he

theorem partSources_congr (hes : TouchesOnly P es) (hw : AgreeIn P w w')
    (hlater : ∀ k, P k → laterArgs? k later = laterArgs? k later') :
    partSources w es later = partSources w' es later' := by
  induction es generalizing w w' with
  | nil => rfl
  | cons e es ih =>
    cases hc : e.call? with
    | none =>
      rw [partSources_cons_of_none hc, partSources_cons_of_none hc]
      exact ih hes.tail hw
    | some c =>
      have hsource : w.source? e.line e.number c (es ++ later) =
          w'.source? e.line e.number c (es ++ later') := by
        by_cases hk : P c.key
        · exact source?_congr (hw c.key hk) (laterArgs?_append_congr (hlater c.key hk))
        · exact source?_congr_of_passes (hes.passes hc hk)
      rw [partSources_cons_of_some hc, partSources_cons_of_some hc, hsource, ih hes.tail hw.next]

theorem valid_congr (hes : TouchesOnly P es) (hw : AgreeIn P w w') (hv : Valid w es) :
    Valid w' es := by
  induction es generalizing w w' with
  | nil => trivial
  | cons e es ih =>
    cases hc : e.call? with
    | none =>
      rw [valid_cons_of_none hc] at hv ⊢
      exact ih hes.tail hw hv
    | some c =>
      rw [valid_cons_of_some hc] at hv ⊢
      refine ⟨?_, ih hes.tail hw.next hv.2⟩
      by_cases hk : P c.key
      · exact (admits_congr (hw c.key hk)).1 hv.1
      · exact admits_of_passes (hes.passes hc hk)

theorem after_apply_of_passes (h : ∀ e ∈ es, e.effect k = .passes) : w.after es k = w k := by
  induction es generalizing w with
  | nil => rfl
  | cons e es ih =>
    have hes := fun e he => h e (List.mem_cons_of_mem _ he)
    have he := h e List.mem_cons_self
    cases hc : e.call? with
    | none => rw [after_cons_of_none hc, ih hes]
    | some c =>
      rw [effect_of_call hc] at he
      rw [after_cons_of_some hc, ih hes, Waiting.next_apply_of_passes he]

theorem map_line_partSources_sublist :
    ((partSources w es later).map Source.line).Sublist (es.map Entry.line) := by
  induction es generalizing w with
  | nil => exact List.Sublist.refl _
  | cons e es ih =>
    rw [List.map_cons]
    cases hc : e.call? with
    | none =>
      rw [partSources_cons_of_none hc]
      exact ih.cons _
    | some c =>
      rw [partSources_cons_of_some hc, List.map_append]
      cases hx : w.source? e.line e.number c (es ++ later) with
      | none => exact ih.cons _
      | some x =>
        rw [Option.toList_some, List.map_singleton, (Waiting.of_mem_source? hx).1]
        exact ih.cons_cons _

theorem map_line_sources_sublist :
    ((sources w es).map Source.line).Sublist (es.map Entry.line) := by
  have h : sources w (es ++ []) = partSources w es [] ++ sources (w.after es) [] := sources_append
  rw [List.append_nil] at h
  rw [h, show sources (w.after es) [] = [] from rfl, List.append_nil]
  exact map_line_partSources_sublist

/-! ## Calls that are left alone -/

theorem LeftAlone.laterArgs? (h : LeftAlone k es) : laterArgs? k es = some [] := by
  obtain ⟨ps, rest, rfl, hps, hrest⟩ := h
  rw [laterArgs?_append_of_passes hps]
  cases rest with
  | nil => rfl
  | cons e rest => exact laterArgs?_cons_of_starts (hrest e rfl)

/-- A call that starts under a key makes up for what waited there. -/
theorem next_eq_of_starts (hw : AgreeIn (· ≠ k) w w') (h : c.effect k = .starts) :
    w.next line c = w'.next line c := by
  funext k'
  by_cases hk : k' = k
  · rw [hk, Waiting.next_apply_of_starts h, Waiting.next_apply_of_starts h]
  · exact hw.next k' hk

/-- Lines that leave a call alone do not show whether it waits. -/
theorem sources_congr_of_leftAlone (h : LeftAlone k es) (hw : AgreeIn (· ≠ k) w w') :
    sources w es = sources w' es := by
  obtain ⟨ps, rest, rfl, hps, hrest⟩ := h
  rw [sources_append, sources_append,
    partSources_congr (touchesOnly_ne hps) hw fun _ _ => rfl]
  congr 1
  have hw := hw.after ps
  cases rest with
  | nil => rfl
  | cons e rest =>
    have he := hrest e rfl
    cases hc : e.call? with
    | none =>
      rw [effect_of_none hc] at he
      cases he
    | some c =>
      rw [effect_of_call hc] at he
      obtain ⟨-, hs⟩ := Call.effect_eq_starts_iff.1 he
      rw [sources_cons_of_some hc, sources_cons_of_some hc, next_eq_of_starts hw he,
        Waiting.source?_of_unfinished hs, Waiting.source?_of_unfinished hs]

theorem valid_congr_of_leftAlone (h : LeftAlone k es) (hw : AgreeIn (· ≠ k) w w')
    (hv : Valid w es) : Valid w' es := by
  obtain ⟨ps, rest, rfl, hps, hrest⟩ := h
  rw [valid_append] at hv ⊢
  refine ⟨valid_congr (touchesOnly_ne hps) hw hv.1, ?_⟩
  have hw := hw.after ps
  cases rest with
  | nil => trivial
  | cons e rest =>
    have he := hrest e rfl
    cases hc : e.call? with
    | none =>
      rw [effect_of_none hc] at he
      cases he
    | some c =>
      rw [effect_of_call hc] at he
      obtain ⟨-, hs⟩ := Call.effect_eq_starts_iff.1 he
      have hv := (valid_cons_of_some hc).1 hv.2
      rw [valid_cons_of_some hc, ← next_eq_of_starts hw he]
      refine ⟨?_, hv.2⟩
      rw [Waiting.Admits, hs]
      trivial

end History

end SyscallTrace
