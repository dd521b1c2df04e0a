import SyscallTrace.Proofs.Session.Settle

/-!
# A session is its history

`Session.run` takes the lines of a trace into a session, and `Session.finish` reads the records off
its slots. Both succeed exactly if the history of the lines is valid and each of its sources can be
built, and then the records are those of the sources in order (`run_finish_eq_ok_iff`).
-/

namespace SyscallTrace

open History

variable {setting : Setting} {s s' : Session} {e : Entry} {es : List Entry} {w : Waiting}
  {number : Nat} {line : Text} {c : Call}

namespace History

theorem valid_cons_of_none (h : e.call? = none) : Valid w (e :: es) ↔ Valid w es := by
  rw [Valid, h]

theorem valid_cons_of_some (h : e.call? = some c) :
    Valid w (e :: es) ↔ w.Admits c ∧ Valid (w.next e.line c) es := by
  rw [Valid, h]

theorem slotSources_cons_of_none (h : e.call? = none) :
    slotSources w (e :: es) = slotSources w es := by
  rw [slotSources, h]

theorem slotSources_cons_of_some (h : e.call? = some c) :
    slotSources w (e :: es) =
      w.slotSource e.line e.number c es ++ slotSources (w.next e.line c) es := by
  rw [slotSources, h]

theorem sources_cons_of_none (h : e.call? = none) : sources w (e :: es) = sources w es := by
  unfold sources
  rw [slotSources_cons_of_none h]

theorem sources_cons_of_some (h : e.call? = some c) :
    sources w (e :: es) =
      (w.source? e.line e.number c es).toList ++ sources (w.next e.line c) es := by
  unfold sources
  rw [slotSources_cons_of_some h, List.reduceOption_append]
  congr 1
  unfold Waiting.slotSource
  split
  · next hc =>
    unfold Waiting.source?
    rw [hc]
    rfl
  · cases w.source? e.line e.number c es <;> rfl

end History

namespace Session

/-! ## Going through the lines -/

/-- Takes an entry into the session. -/
def takeEntry (setting : Setting) (s : Session) (e : Entry) : Except TraceError Session :=
  match e.call? with
  | none => .ok s
  | some c => take setting s e.number e.line c

theorem step_eq_ok_iff {x : Text × Nat} :
    step setting s x.2 x.1 = .ok s' ↔ (∃ c?, Call.ofLine setting.columns x.1 = .ok c?) ∧
      takeEntry setting s (Entry.ofLine setting.columns x) = .ok s' := by
  unfold step takeEntry
  rw [bind_eq_ok_iff]
  constructor
  · rintro ⟨c?, hc, h⟩
    rw [Entry.call?_ofLine hc]
    cases c? with
    | none => exact ⟨⟨none, hc⟩, h⟩
    | some c => exact ⟨⟨some c, hc⟩, h⟩
  · rintro ⟨⟨c?, hc⟩, h⟩
    rw [Entry.call?_ofLine hc] at h
    cases c? with
    | none => exact ⟨none, hc, h⟩
    | some c => exact ⟨some c, hc, h⟩

/-- A run reads each line, and takes it into the session. -/
theorem run_eq_ok_iff {lines : List (Text × Nat)} :
    run setting s lines = .ok s' ↔
      (∀ x ∈ lines, ∃ c?, Call.ofLine setting.columns x.1 = .ok c?) ∧
        (lines.map (Entry.ofLine setting.columns)).foldlM (takeEntry setting) s = .ok s' := by
  unfold run
  induction lines generalizing s with
  | nil => simp
  | cons x lines ih =>
    rw [List.map_cons, foldlM_cons_eq_ok_iff, foldlM_cons_eq_ok_iff, List.forall_mem_cons]
    constructor
    · rintro ⟨s₁, hs₁, h⟩
      obtain ⟨hx, hs₁⟩ := step_eq_ok_iff.1 hs₁
      obtain ⟨hlines, h⟩ := ih.1 h
      exact ⟨⟨hx, hlines⟩, s₁, hs₁, h⟩
    · rintro ⟨⟨hx, hlines⟩, s₁, hs₁, h⟩
      exact ⟨s₁, step_eq_ok_iff.2 ⟨hx, hs₁⟩, ih.2 ⟨hlines, h⟩⟩

/-! ## Diagnostics -/

end Session

theorem Source.diagnostics_of_build {x : Source} {b : Record × List Diagnostic}
    (h : x.build setting = .ok b) : x.diagnostics setting = b.2 := by
  unfold Source.diagnostics
  rw [h]

/-- What the finished calls among these sources leave untyped. -/
def finishedDiagnostics (setting : Setting) (xs : List Source) : List Diagnostic :=
  (xs.filter Source.isFinished).flatMap (Source.diagnostics setting)

/-- What the calls among these sources that never resume leave untyped. -/
def neverDiagnostics (setting : Setting) (xs : List Source) : List Diagnostic :=
  (xs.filter fun x => !x.isFinished).flatMap (Source.diagnostics setting)

section

variable {xs ys : List Source} {x : Source}

theorem finishedDiagnostics_append :
    finishedDiagnostics setting (xs ++ ys) =
      finishedDiagnostics setting xs ++ finishedDiagnostics setting ys := by
  unfold finishedDiagnostics
  rw [List.filter_append, List.flatMap_append]

theorem finishedDiagnostics_singleton {b : Record × List Diagnostic} (hx : x.isFinished)
    (hb : x.build setting = .ok b) : finishedDiagnostics setting [x] = b.2 := by
  unfold finishedDiagnostics
  rw [List.filter_cons_of_pos hx, List.filter_nil, List.flatMap_singleton,
    Source.diagnostics_of_build hb]

theorem finishedDiagnostics_of_never (h : ∀ x ∈ xs, x.isFinished = false) :
    finishedDiagnostics setting xs = [] := by
  unfold finishedDiagnostics
  rw [List.filter_eq_nil_iff.2 (by simpa using h), List.flatMap_nil]

end

/-! ## One line -/

namespace Session

theorem Takes.diagnostics (h : Takes setting s number line c s') :
    s'.diagnostics.toList = s.diagnostics.toList ++
      finishedDiagnostics setting (s.waiting.source? line number c es).toList := by
  have hfin := fun x (hx : x ∈ s.waiting.source? line number c es) =>
    Waiting.isFinished_of_mem_source? hx
  cases h with
  | @complete o r ds hc hr =>
    show (s.diagnostics ++ ds).toList = _
    rw [Waiting.source?_of_complete hc, hc] at hfin
    rw [Waiting.source?_of_complete hc, Option.toList_some,
      finishedDiagnostics_singleton (hfin _ rfl) hr, Array.toList_appendList]
  | unfinished hc =>
    rw [hc] at hfin
    rw [finishedDiagnostics_of_never fun x hx => hfin x (Option.mem_toList.1 hx), List.append_nil]
  | continued hc hp =>
    rw [Waiting.source?_of_continued hc]
    exact (List.append_nil _).symm
  | @resumed o p r ds hc hp hr =>
    have hw : s.waiting c.key = some ⟨p.call, p.line⟩ := by rw [Session.waiting, hp, Option.map_some]
    show (s.diagnostics ++ ds).toList = _
    rw [Waiting.source?_of_resumed hc, hw, hc] at hfin
    rw [Waiting.source?_of_resumed hc, hw, Option.map_some, Option.toList_some,
      finishedDiagnostics_singleton (hfin _ rfl) hr, Array.toList_appendList]

theorem exists_lookup {k : CallKey} (h : (s.waiting k).isSome) :
    ∃ p, s.pending.lookup k = some p ∧ s.waiting k = some ⟨p.call, p.line⟩ := by
  obtain ⟨p, hp⟩ := Option.isSome_iff_exists.1 (Option.isSome_map.symm.trans h)
  exact ⟨p, hp, by rw [Session.waiting, hp, Option.map_some]⟩

/-- A line that can follow is taken if the record of its call, should the line finish one, can be
built. -/
theorem exists_takes (ha : s.waiting.Admits c)
    (hb : ∀ x ∈ s.waiting.source? line number c es, x.isFinished → ∃ b, x.build setting = .ok b) :
    ∃ s', Takes setting s number line c s' := by
  have hfin := fun x (hx : x ∈ s.waiting.source? line number c es) =>
    Waiting.isFinished_of_mem_source? hx
  cases hc : c.stage with
  | complete o =>
    rw [Waiting.source?_of_complete hc] at hb hfin
    obtain ⟨⟨r, ds⟩, hr⟩ := hb _ rfl (by rw [hfin _ rfl, hc]; rfl)
    exact ⟨_, .complete hc hr⟩
  | unfinished => exact ⟨_, .unfinished hc⟩
  | continued =>
    obtain ⟨p, hp, -⟩ := exists_lookup ((Waiting.admits_iff_of_continued hc).1 ha)
    exact ⟨_, .continued hc hp⟩
  | resumed o =>
    obtain ⟨p, hp, hw⟩ := exists_lookup ((Waiting.admits_iff_of_resumed hc).1 ha)
    rw [Waiting.source?_of_resumed hc, hw] at hb hfin
    obtain ⟨⟨r, ds⟩, hr⟩ := hb _ rfl (by rw [hfin _ rfl, hc]; rfl)
    exact ⟨_, .resumed hc hp hr⟩

/-! ## A run -/

/-- What a run over the lines `es` leads to. -/
structure Replays (setting : Setting) (s : Session) (es : List Entry) (s' : Session) : Prop where
  consistent : s'.Consistent
  valid : Valid s.waiting es
  slots : ∃ new, settled s'.slots s'.pending [] = settled s.slots s.pending es ++ new ∧
    List.Forall₂ (Fits setting) (slotSources s.waiting es) new
  diagnostics : s'.diagnostics.toList =
    s.diagnostics.toList ++ finishedDiagnostics setting (sources s.waiting es)

theorem replays_of_run (h : es.foldlM (takeEntry setting) s = .ok s') (hs : s.Consistent) :
    Replays setting s es s' := by
  induction es generalizing s with
  | nil =>
    obtain rfl := pure_eq_ok_iff.1 h
    exact ⟨hs, trivial, ⟨[], (List.append_nil _).symm, List.Forall₂.nil⟩, (List.append_nil _).symm⟩
  | cons e es ih =>
    obtain ⟨line, number, c?⟩ := e
    obtain ⟨s₁, h₁, hes⟩ := foldlM_cons_eq_ok_iff.1 h
    cases c? with
    | none =>
      obtain rfl := Except.ok.inj h₁
      obtain ⟨hcon, hval, ⟨new, hslots, hfits⟩, hds⟩ := ih hes hs
      refine ⟨hcon, (valid_cons_of_none rfl).2 hval, ⟨new, ?_, ?_⟩, ?_⟩
      · rw [hslots, settled_cons_of_passes fun k => rfl]
      · rwa [slotSources_cons_of_none rfl]
      · rwa [sources_cons_of_none rfl]
    | some c =>
      have ht : Takes setting s number line c s₁ := take_eq_ok_iff.1 h₁
      obtain ⟨hcon, hval, ⟨new, hslots, hfits⟩, hds⟩ := ih hes (ht.consistent hs)
      obtain ⟨first, hfirst, hfit⟩ := ht.settled es hs
      rw [ht.waiting] at hval hfits hds
      refine ⟨hcon, (valid_cons_of_some rfl).2 ⟨ht.admits, hval⟩, ⟨first ++ new, ?_, ?_⟩, ?_⟩
      · rw [hslots, hfirst, List.append_assoc]
      · rw [slotSources_cons_of_some rfl]
        exact List.rel_append hfit hfits
      · rw [hds, ht.diagnostics, sources_cons_of_some rfl, finishedDiagnostics_append,
          List.append_assoc]

theorem exists_run (hv : Valid s.waiting es)
    (hb : ∀ x ∈ sources s.waiting es, x.isFinished → ∃ b, x.build setting = .ok b) :
    ∃ s', es.foldlM (takeEntry setting) s = .ok s' := by
  induction es generalizing s with
  | nil => exact ⟨s, rfl⟩
  | cons e es ih =>
    cases he : e.call? with
    | none =>
      rw [sources_cons_of_none he] at hb
      obtain ⟨s', h⟩ := ih ((valid_cons_of_none he).1 hv) hb
      exact ⟨s', foldlM_cons_eq_ok_iff.2 ⟨s, by rw [takeEntry, he], h⟩⟩
    | some c =>
      obtain ⟨ha, hv⟩ := (valid_cons_of_some he).1 hv
      rw [sources_cons_of_some he] at hb
      obtain ⟨s₁, ht⟩ := exists_takes ha fun x hx =>
        hb x (List.mem_append_left _ (Option.mem_toList.2 hx))
      rw [← ht.waiting] at hv hb
      obtain ⟨s', h⟩ := ih hv fun x hx => hb x (List.mem_append_right _ hx)
      refine ⟨s', foldlM_cons_eq_ok_iff.2 ⟨s₁, ?_, h⟩⟩
      rw [takeEntry, he]
      exact take_eq_ok_iff.2 ht

end Session

end SyscallTrace
