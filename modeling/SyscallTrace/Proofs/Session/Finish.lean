import Mathlib.Data.List.Chain
import SyscallTrace.Proofs.Record
import SyscallTrace.Proofs.Session.Replay
import SyscallTrace.Proofs.StableSort

/-!
# A trace is its history

`Session.finish` reads the records off the slots. With what a run leads to (`replays_of_run`) this
says what a parsed trace is (`Trace.ofText_eq_ok_iff`): the history of its lines is valid, each
source of the history can be built, and the records and the diagnostics are those of the sources,
in order.
-/

namespace SyscallTrace

open History

variable {setting : Setting} {s : Session} {w : Waiting} {es : List Entry}

/-! ## Records of slots -/

namespace Session

/-- The record of a slot is that of its source, and what it leaves untyped is new unless its call
finished before the end. -/
theorem Fits.slotRecord_eq_ok_iff {x? : Option Source} {slot : NumberedSlot}
    {result : Option Record × List Diagnostic} (h : Fits setting x? slot) :
    slotRecord setting slot = .ok result ↔
      match x? with
      | none => result = (none, [])
      | some x => ∃ b, x.build setting = .ok b ∧
          result = (some b.1, if x.isFinished then [] else b.2) := by
  cases h with
  | @finished x r ds hx hb =>
    show Except.ok (some r, []) = Except.ok result ↔ _
    simp [hb, hx, eq_comm]
  | moved =>
    show Except.ok (none, []) = Except.ok result ↔ _
    simp [eq_comm]
  | @never p number hp =>
    have hx : Source.isFinished ⟨p.call, p.line, none, number⟩ = false := by
      unfold Source.isFinished
      rw [hp]
      rfl
    show (setting.record p.call p.line none number).map _ = .ok result ↔ _
    rw [map_eq_ok_iff]
    simp [hx, Source.build, eq_comm]

variable {xs? : List (Option Source)} {slots : List NumberedSlot}

/-- The records of the slots are those of their sources. -/
theorem of_mapM_slotRecord (h : List.Forall₂ (Fits setting) xs? slots)
    {results : List (Option Record × List Diagnostic)}
    (hr : slots.mapM (slotRecord setting) = .ok results) :
    ∃ built, xs?.reduceOption.mapM (Source.build setting) = .ok built ∧
      results.filterMap Prod.fst = built.map Prod.fst ∧
      results.flatMap Prod.snd = neverDiagnostics setting xs?.reduceOption := by
  rw [mapM_eq_ok_iff] at hr
  induction h generalizing results with
  | nil =>
    obtain rfl := List.forall₂_nil_left_iff.1 hr
    exact ⟨[], rfl, rfl, rfl⟩
  | @cons x? slot xs? slots hfit _ ih =>
    obtain ⟨result, results, hres, hrest, rfl⟩ := List.forall₂_cons_left_iff.1 hr
    obtain ⟨built, hb, hfst, hsnd⟩ := ih hrest
    rw [hfit.slotRecord_eq_ok_iff] at hres
    cases x? with
    | none =>
      subst hres
      exact ⟨built, hb, hfst, hsnd⟩
    | some x =>
      obtain ⟨b, hbx, rfl⟩ := hres
      rw [List.reduceOption_cons_of_some]
      refine ⟨b :: built, mapM_eq_ok_iff.2 (.cons hbx (mapM_eq_ok_iff.1 hb)), ?_, ?_⟩
      · rw [List.map_cons, ← hfst]
        rfl
      · rw [List.flatMap_cons, hsnd]
        unfold neverDiagnostics
        cases hx : x.isFinished with
        | true => simp [hx]
        | false => simp [hx, Source.diagnostics_of_build hbx]

theorem exists_mapM_slotRecord (h : List.Forall₂ (Fits setting) xs? slots)
    {built : List (Record × List Diagnostic)}
    (hb : xs?.reduceOption.mapM (Source.build setting) = .ok built) :
    ∃ results, slots.mapM (slotRecord setting) = .ok results := by
  rw [mapM_eq_ok_iff] at hb
  induction h generalizing built with
  | nil => exact ⟨[], rfl⟩
  | @cons x? slot xs? slots hfit _ ih =>
    obtain ⟨result, built', hres, hb'⟩ : ∃ result built', slotRecord setting slot = .ok result ∧
        List.Forall₂ (fun x b => x.build setting = .ok b) xs?.reduceOption built' := by
      cases x? with
      | none => exact ⟨_, built, hfit.slotRecord_eq_ok_iff.2 rfl, hb⟩
      | some x =>
        rw [List.reduceOption_cons_of_some] at hb
        obtain ⟨b, built', hbx, hb', rfl⟩ := List.forall₂_cons_left_iff.1 hb
        exact ⟨_, built', hfit.slotRecord_eq_ok_iff.2 ⟨b, hbx, rfl⟩, hb'⟩
    obtain ⟨results, hr⟩ := ih hb'
    exact ⟨result :: results, mapM_eq_ok_iff.2 (.cons hres (mapM_eq_ok_iff.1 hr))⟩

end Session

/-! ## The order of diagnostics -/

namespace Source

variable {x : Source}

theorem line_of_mem_diagnostics {d : Diagnostic} (h : d ∈ x.diagnostics setting) :
    d.line = x.number := by
  unfold diagnostics at h
  split at h
  · next r ds hb => exact Record.line_of_ofCall hb d h
  · cases h

variable {xs : List Source}

theorem filter_flatMap_diagnostics (n : Nat) :
    (xs.flatMap (diagnostics setting)).filter (fun d => d.line == n) =
      (xs.filter fun x => x.number == n).flatMap (diagnostics setting) := by
  induction xs with
  | nil => rfl
  | cons x xs ih =>
    rw [List.flatMap_cons, List.filter_append, ih, List.filter_cons]
    by_cases hx : x.number = n
    · rw [if_pos (by simpa using hx), List.flatMap_cons, List.filter_eq_self.2]
      intro d hd
      simpa [line_of_mem_diagnostics hd] using hx
    · rw [if_neg (by simpa using hx), List.filter_eq_nil_iff.2, List.nil_append]
      intro d hd
      simpa [line_of_mem_diagnostics hd] using hx

theorem filter_number_of_pairwise (h : (xs.map number).Pairwise (· < ·)) (n : Nat) :
    (xs.filter fun x => x.number == n) = [] ∨ ∃ x, (xs.filter fun x => x.number == n) = [x] := by
  have hsub := (List.pairwise_map.1 h).sublist (List.filter_sublist (p := fun x => x.number == n))
  have hn : ∀ x ∈ xs.filter fun x => x.number == n, x.number = n := fun x hx => by
    simpa using (List.mem_filter.1 hx).2
  match hf : xs.filter fun x => x.number == n with
  | [] => exact Or.inl hf
  | [x] => exact Or.inr ⟨x, hf⟩
  | x :: y :: ys =>
    rw [hf] at hsub hn
    have hlt := List.rel_of_pairwise_cons hsub List.mem_cons_self
    rw [hn x (by simp), hn y (by simp)] at hlt
    exact absurd hlt (Nat.lt_irrefl n)

/-- Diagnostics that are reported at the end take the places of their lines. -/
theorem mergeSort_diagnostics (h : (xs.map number).Pairwise (· < ·)) :
    ((finishedDiagnostics setting xs ++ neverDiagnostics setting xs).mergeSort
      fun d e => d.line ≤ e.line) = xs.flatMap (diagnostics setting) := by
  refine StableSort.mergeSort_eq Diagnostic.line ?_ fun n => ?_
  · rw [List.pairwise_flatMap]
    refine ⟨fun x _ => List.pairwise_of_forall_mem_list fun d hd e he => ?_, ?_⟩
    · rw [line_of_mem_diagnostics hd, line_of_mem_diagnostics he]
    · refine (List.pairwise_map.1 h).imp fun hxy d hd e he => ?_
      rw [line_of_mem_diagnostics hd, line_of_mem_diagnostics he]
      exact Nat.le_of_lt hxy
  · unfold finishedDiagnostics neverDiagnostics
    rw [List.filter_append, filter_flatMap_diagnostics, filter_flatMap_diagnostics,
      filter_flatMap_diagnostics, List.filter_comm,
      List.filter_comm fun x : Source => x.number == n]
    rcases filter_number_of_pairwise h n with hf | ⟨x, hf⟩
    · rw [hf]
      rfl
    · rw [hf]
      cases hx : x.isFinished <;> simp [hx]

end Source

namespace History

theorem map_number_sources_sublist :
    ((sources w es).map Source.number).Sublist (es.map Entry.number) := by
  induction es generalizing w with
  | nil => exact List.Sublist.refl _
  | cons e es ih =>
    cases he : e.call? with
    | none =>
      rw [sources_cons_of_none he, List.map_cons]
      exact ih.cons _
    | some c =>
      rw [sources_cons_of_some he, List.map_append, List.map_cons]
      cases hx : w.source? e.line e.number c es with
      | none => exact ih.cons _
      | some x =>
        rw [Option.toList_some, List.map_singleton, (Waiting.of_mem_source? hx).2.1]
        exact ih.cons_cons _

end History

theorem map_number_entries (columns : Columns) (lines : List Text) :
    (entries columns lines).map Entry.number = List.range' 1 lines.length := by
  unfold entries
  rw [List.map_map]
  exact List.zipIdx_map_snd 1 lines

/-! ## A whole trace -/

theorem flatMap_diagnostics_of_build {xs : List Source} {built : List (Record × List Diagnostic)}
    (h : xs.mapM (Source.build setting) = .ok built) :
    xs.flatMap (Source.diagnostics setting) = built.flatMap Prod.snd := by
  rw [mapM_eq_ok_iff] at h
  induction h with
  | nil => rfl
  | cons hb _ ih => rw [List.flatMap_cons, List.flatMap_cons, ih, Source.diagnostics_of_build hb]

/-- A session over the lines of a trace, from the first to the last, is their history. -/
theorem Session.run_finish_eq_ok_iff {lines : List Text}
    {result : List Record × List Diagnostic} :
    (run setting {} (lines.zipIdx 1) >>= fun s => s.finish setting) = .ok result ↔
      (∀ line ∈ lines, ∃ c?, Call.ofLine setting.columns line = .ok c?) ∧
      Valid Waiting.none (entries setting.columns lines) ∧
      ∃ built, (sources Waiting.none (entries setting.columns lines)).mapM
          (Source.build setting) = .ok built ∧
        result = (built.map Prod.fst, built.flatMap Prod.snd) := by
  have hread : (∀ x ∈ lines.zipIdx 1, ∃ c?, Call.ofLine setting.columns x.1 = .ok c?) ↔
      ∀ line ∈ lines, ∃ c?, Call.ofLine setting.columns line = .ok c? := by
    conv_rhs => rw [← List.zipIdx_map_fst 1 lines, List.forall_mem_map]
  have hnumbers : ((sources Waiting.none (entries setting.columns lines)).map
      Source.number).Pairwise (· < ·) := by
    refine List.Pairwise.sublist map_number_sources_sublist ?_
    rw [map_number_entries]
    exact List.pairwise_lt_range'
  -- the final slots of a run fit the history
  have hrun : ∀ s', (entries setting.columns lines).foldlM (takeEntry setting) {} = .ok s' →
      Valid Waiting.none (entries setting.columns lines) ∧
      List.Forall₂ (Fits setting) (slotSources Waiting.none (entries setting.columns lines))
        s'.finalSlots ∧
      s'.diagnostics.toList =
        finishedDiagnostics setting (sources Waiting.none (entries setting.columns lines)) := by
    intro s' hs'
    obtain ⟨hcon, hval, ⟨new, hslots, hfits⟩, hds⟩ := replays_of_run hs' Consistent.empty
    refine ⟨hval, ?_, hds⟩
    rw [finalSlots_eq_settled hcon, hslots]
    exact hfits
  rw [bind_eq_ok_iff]
  constructor
  · rintro ⟨s', hs', hfin⟩
    obtain ⟨hlines, hs'⟩ := run_eq_ok_iff.1 hs'
    obtain ⟨hval, hfits, hds⟩ := hrun s' hs'
    obtain ⟨results, hr, hfin⟩ := bind_eq_ok_iff.1 hfin
    obtain ⟨built, hb, hfst, hsnd⟩ := of_mapM_slotRecord hfits hr
    refine ⟨hread.1 hlines, hval, built, hb, ?_⟩
    rw [← pure_eq_ok_iff.1 hfin, hfst, hds, hsnd]
    exact congrArg _ ((Source.mergeSort_diagnostics hnumbers).trans (flatMap_diagnostics_of_build hb))
  · rintro ⟨hlines, hval, built, hb, rfl⟩
    have hbuild := exists_mapM_eq_ok_iff.1 ⟨built, hb⟩
    obtain ⟨s', hs'⟩ := exists_run (s := {}) hval fun x hx _ => hbuild x hx
    obtain ⟨-, hfits, hds⟩ := hrun s' hs'
    obtain ⟨results, hr⟩ := exists_mapM_slotRecord hfits hb
    obtain ⟨built', hb', hfst, hsnd⟩ := of_mapM_slotRecord hfits hr
    obtain rfl := Except.ok.inj (hb'.symm.trans hb)
    refine ⟨s', run_eq_ok_iff.2 ⟨hread.2 hlines, hs'⟩, bind_eq_ok_iff.2 ⟨results, hr, ?_⟩⟩
    refine pure_eq_ok_iff.2 ?_
    rw [hfst, hds, hsnd]
    exact congrArg _ ((Source.mergeSort_diagnostics hnumbers).trans (flatMap_diagnostics_of_build hb))

/-- What a parsed trace is: its columns are detected, all its lines can be read, its history is
valid, and its records and diagnostics are those of the sources of the history, in order. -/
theorem Trace.ofText_eq_ok_iff {path contents : Text} {catalog : Catalog} {config : Config}
    {t : Trace} :
    ofText path contents catalog config = .ok t ↔
      detectColumns config contents = .ok t.columns ∧ t.path = path ∧ t.catalog = catalog ∧
      (∀ line ∈ contents.lines, ∃ c?, Call.ofLine t.columns line = .ok c?) ∧
      Valid Waiting.none (entries t.columns contents.lines) ∧
      ∃ built, (sources Waiting.none (entries t.columns contents.lines)).mapM
          (Source.build ⟨catalog, t.columns⟩) = .ok built ∧
        t.records = built.map Prod.fst ∧ t.diagnostics = built.flatMap Prod.snd := by
  unfold ofText
  rw [bind_eq_ok_iff]
  constructor
  · rintro ⟨columns, hcol, h⟩
    obtain ⟨s, hs, h⟩ := bind_eq_ok_iff.1 h
    obtain ⟨⟨records, diagnostics⟩, hfin, h⟩ := bind_eq_ok_iff.1 h
    obtain rfl := pure_eq_ok_iff.1 h
    obtain ⟨hlines, hval, built, hb, hres⟩ :=
      Session.run_finish_eq_ok_iff.1 (bind_eq_ok_iff.2 ⟨s, hs, hfin⟩)
    obtain ⟨rfl, rfl⟩ := Prod.mk.inj hres
    exact ⟨hcol, rfl, rfl, hlines, hval, built, hb, rfl, rfl⟩
  · obtain ⟨path', columns, catalog', records, diagnostics⟩ := t
    rintro ⟨hcol, rfl, rfl, hlines, hval, built, hb, rfl, rfl⟩
    have hrun : (Session.run ⟨catalog', columns⟩ {} (contents.lines.zipIdx 1) >>= fun s =>
        s.finish ⟨catalog', columns⟩) = .ok (built.map Prod.fst, built.flatMap Prod.snd) :=
      Session.run_finish_eq_ok_iff.2 ⟨hlines, hval, built, hb, rfl⟩
    obtain ⟨s, hs, hfin⟩ := bind_eq_ok_iff.1 hrun
    refine ⟨columns, hcol, bind_eq_ok_iff.2 ⟨s, hs, bind_eq_ok_iff.2 ?_⟩⟩
    exact ⟨(built.map Prod.fst, built.flatMap Prod.snd), hfin, rfl⟩

/-- When a trace parses. -/
theorem Trace.exists_ofText_eq_ok_iff {path contents : Text} {catalog : Catalog}
    {config : Config} {columns : Columns} (h : detectColumns config contents = .ok columns) :
    (∃ t, ofText path contents catalog config = .ok t) ↔
      (∀ line ∈ contents.lines, ∃ c?, Call.ofLine columns line = .ok c?) ∧
      Valid Waiting.none (entries columns contents.lines) ∧
      ∀ x ∈ sources Waiting.none (entries columns contents.lines),
        ∃ b, x.build ⟨catalog, columns⟩ = .ok b := by
  rw [← exists_mapM_eq_ok_iff (f := Source.build ⟨catalog, columns⟩)]
  constructor
  · rintro ⟨t, ht⟩
    obtain ⟨hcol, -, -, hlines, hval, built, hb, -⟩ := ofText_eq_ok_iff.1 ht
    obtain rfl := Except.ok.inj (h.symm.trans hcol)
    exact ⟨hlines, hval, built, hb⟩
  · rintro ⟨hlines, hval, built, hb⟩
    exact ⟨⟨path, columns, catalog, built.map Prod.fst, built.flatMap Prod.snd⟩,
      ofText_eq_ok_iff.2 ⟨h, rfl, rfl, hlines, hval, built, hb, rfl, rfl⟩⟩

end SyscallTrace
