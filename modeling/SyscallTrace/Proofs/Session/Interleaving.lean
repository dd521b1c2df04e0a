import SyscallTrace.Proofs.Session.Projection
import SyscallTrace.Proofs.Session.Renumbering

/-!
# Interleaving

How the lines of different processes interleave does not matter: traces with the same lines of each
process, in the same order, parse to the same records and diagnostics of each process
(`Trace.independent_of_interleaving`).
-/

namespace SyscallTrace

/-- The lines that start with a process. -/
def linesOf (p : UInt32) (lines : List Text) : List Text :=
  lines.filter fun line => linePid? line == some p

/-- The same lines, blank ones aside, and those of each process in the same order. -/
structure SameByProcess (lines lines' : List Text) : Prop where
  perm : (lines.filter (· ≠ [])).Perm (lines'.filter (· ≠ []))
  order : ∀ p, linesOf p lines = linesOf p lines'

namespace SameByProcess

variable {lines lines' : List Text}

theorem symm (h : SameByProcess lines lines') : SameByProcess lines' lines :=
  ⟨h.perm.symm, fun p => (h.order p).symm⟩

theorem mem_iff (h : SameByProcess lines lines') {line : Text} (hne : line ≠ []) :
    line ∈ lines ↔ line ∈ lines' := by
  have := h.perm.mem_iff (a := line)
  simpa [hne] using this

/-- Two neighbouring lines of different processes can change places. -/
theorem swap {line line' : Text} (h : linePid? line ≠ linePid? line') (before after : List Text) :
    SameByProcess (before ++ line :: line' :: after) (before ++ line' :: line :: after) where
  perm := ((List.Perm.swap line' line after).append_left before).filter _
  order p := by
    unfold linesOf
    rw [List.filter_append, List.filter_append]
    congr 1
    by_cases hp : linePid? line = some p
    · have hp' : linePid? line' ≠ some p := fun hp' => h (hp.trans hp'.symm)
      simp [hp, hp']
    · simp [List.filter_cons, hp]

end SameByProcess

/-- The diagnostics at the lines that start with a process. -/
def diagnosticsOf (p : UInt32) (lines : List Text) (ds : List Diagnostic) : List Diagnostic :=
  ds.filter fun d => lines[d.line - 1]?.bind linePid? == some p

namespace History

variable {columns : Columns} {lines lines' : List Text} {p : UInt32}

theorem onProcess_entries_unnumbered :
    (onProcess p (entries columns lines)).map Entry.unnumbered =
      (linesOf p lines).map (Entry.plain columns) := by
  unfold onProcess linesOf
  rw [show (fun e : Entry => linePid? e.line == some p) =
    (fun e => linePid? e.line == some p) ∘ Entry.unnumbered from rfl, ← List.filter_map,
    entries_map_unnumbered, List.filter_map]
  rfl

/-- Of each process, the two histories are the same up to their line numbers. -/
theorem onProcess_unnumbered_congr (h : SameByProcess lines lines') :
    (onProcess p (entries columns lines)).map Entry.unnumbered =
      (onProcess p (entries columns lines')).map Entry.unnumbered := by
  rw [onProcess_entries_unnumbered, onProcess_entries_unnumbered, h.order]

theorem valid_of_sameByProcess (h : SameByProcess lines lines')
    (hv : Valid Waiting.none (entries columns lines)) :
    Valid Waiting.none (entries columns lines') := by
  rw [valid_iff_forall_onProcess (showsPids_entries columns _)] at hv ⊢
  intro p
  rw [← valid_map_unnumbered, ← onProcess_unnumbered_congr h, valid_map_unnumbered]
  exact hv p

theorem sources_of_sameByProcess (h : SameByProcess lines lines') (p : UInt32) :
    ((sources Waiting.none (entries columns lines)).filter fun x => x.call.pid == p).map
        Source.unnumbered =
      ((sources Waiting.none (entries columns lines')).filter fun x => x.call.pid == p).map
        Source.unnumbered := by
  rw [← sources_onProcess (showsPids_entries columns _) (AgreeOn.refl p _),
    ← sources_onProcess (showsPids_entries columns _) (AgreeOn.refl p _),
    ← sources_map_unnumbered, ← sources_map_unnumbered, onProcess_unnumbered_congr h]

end History

open History

/-! ## Records of one process -/

section

variable {setting : Setting} {x : Source} {xs : List Source} {b : Record × List Diagnostic}
  {built : List (Record × List Diagnostic)} {p : UInt32}

theorem pid_of_build (h : x.build setting = .ok b) : b.1.pid = x.call.pid :=
  Record.pid_of_ofCall h

theorem mapM_build_filter (h : xs.mapM (Source.build setting) = .ok built) (p : UInt32) :
    (xs.filter fun x => x.call.pid == p).mapM (Source.build setting) =
      .ok (built.filter fun b => b.1.pid == p) := by
  rw [mapM_eq_ok_iff] at h ⊢
  refine List.rel_filter (fun x b hb => ?_) h
  show (x.call.pid == p) = true ↔ (b.1.pid == p) = true
  rw [pid_of_build hb]

end

namespace History

variable {w : Waiting} {es : List Entry} {columns : Columns} {lines : List Text} {x : Source}

theorem exists_entry_of_mem_sources (h : x ∈ sources w es) :
    ∃ e ∈ es, ∃ c, e.call? = some c ∧ x.line = e.line ∧ x.number = e.number ∧
      x.call.stage = c.stage ∧ x.call.key = c.key := by
  induction es generalizing w with
  | nil => cases h
  | cons e es ih =>
    cases hc : e.call? with
    | none =>
      rw [sources_cons_of_none hc] at h
      obtain ⟨e', he', hx⟩ := ih h
      exact ⟨e', List.mem_cons_of_mem _ he', hx⟩
    | some c =>
      rw [sources_cons_of_some hc] at h
      rcases List.mem_append.1 h with h | h
      · exact ⟨e, List.mem_cons_self, c, hc, Waiting.of_mem_source? (Option.mem_toList.1 h)⟩
      · obtain ⟨e', he', hx⟩ := ih h
        exact ⟨e', List.mem_cons_of_mem _ he', hx⟩

/-- A source stands at a line that starts with its process. -/
theorem pid_of_line (h : x ∈ sources w (entries columns lines)) :
    lines[x.number - 1]?.bind linePid? = some x.call.pid := by
  obtain ⟨e, he, c, hc, -, hnumber, -, hkey⟩ := exists_entry_of_mem_sources h
  have hpid := showsPids_entries columns lines e he c hc
  obtain ⟨⟨line, n⟩, hl, rfl⟩ := List.mem_map.1 he
  obtain ⟨-, hl⟩ := List.mem_zipIdx_iff_le_and_getElem?_sub.1 hl
  rw [hnumber, show x.call.pid = c.pid from congrArg Prod.fst hkey]
  show lines[n - 1]?.bind linePid? = _
  rw [hl, Option.bind_some]
  exact hpid

end History

/-- The diagnostics of a process are those of its records. -/
theorem diagnosticsOf_flatMap {setting : Setting} {lines : List Text} {xs : List Source}
    {built : List (Record × List Diagnostic)} {p : UInt32}
    (h : xs.mapM (Source.build setting) = .ok built)
    (hlines : ∀ x ∈ xs, lines[x.number - 1]?.bind linePid? = some x.call.pid) :
    diagnosticsOf p lines (built.flatMap Prod.snd) =
      (built.filter fun b => b.1.pid == p).flatMap Prod.snd := by
  rw [mapM_eq_ok_iff] at h
  induction h with
  | nil => rfl
  | @cons x b xs built hb _ ih =>
    have hx := hlines x List.mem_cons_self
    have hline : ∀ d ∈ b.2, lines[d.line - 1]?.bind linePid? = some b.1.pid := fun d hd => by
      rw [Record.line_of_ofCall hb d hd, hx, pid_of_build hb]
    have ih := ih fun x hx => hlines x (List.mem_cons_of_mem _ hx)
    unfold diagnosticsOf at ih ⊢
    rw [List.flatMap_cons, List.filter_append, ih, List.filter_cons]
    by_cases hp : b.1.pid = p
    · rw [if_pos (by simpa using hp), List.flatMap_cons]
      congr 1
      refine List.filter_eq_self.2 fun d hd => ?_
      simpa [hline d hd] using hp
    · rw [if_neg (by simpa using hp)]
      refine (congrArg (· ++ _) (List.filter_eq_nil_iff.2 fun d hd => ?_)).trans (List.nil_append _)
      simpa [hline d hd] using hp

/-! ## Whole traces -/

namespace Trace

variable {path path' contents contents' : Text} {catalog : Catalog} {config : Config}
  {columns : Columns}

theorem exists_ofText_of_sameByProcess (h : SameByProcess contents.lines contents'.lines)
    (hcol : detectColumns config contents = .ok columns)
    (hcol' : detectColumns config contents' = .ok columns)
    (ht : ∃ t, ofText path contents catalog config = .ok t) :
    ∃ t, ofText path' contents' catalog config = .ok t := by
  obtain ⟨hlines, hval, hbuild⟩ := (exists_ofText_eq_ok_iff hcol).1 ht
  refine (exists_ofText_eq_ok_iff hcol').2
    ⟨fun line hl => ?_, valid_of_sameByProcess h hval, fun x hx => ?_⟩
  · by_cases hne : line = []
    · subst hne
      exact ⟨none, rfl⟩
    · exact hlines line ((h.mem_iff hne).2 hl)
  · have hmem : x.unnumbered ∈ ((sources Waiting.none (entries columns contents'.lines)).filter
        fun y => y.call.pid == x.call.pid).map Source.unnumbered :=
      List.mem_map.2 ⟨x, List.mem_filter.2 ⟨hx, beq_self_eq_true _⟩, rfl⟩
    rw [← sources_of_sameByProcess h] at hmem
    obtain ⟨y, hy, hyx⟩ := List.mem_map.1 hmem
    rw [← exists_build_unnumbered_iff, ← hyx, exists_build_unnumbered_iff]
    exact hbuild y (List.mem_of_mem_filter hy)

/-- Traces with the same lines of each process in the same order, and with the same columns, parse
or fail together, and if they parse, the records of each process are the same and so are its
diagnostics up to their line numbers. -/
theorem independent_of_interleaving (h : SameByProcess contents.lines contents'.lines)
    (hcol : detectColumns config contents = .ok columns)
    (hcol' : detectColumns config contents' = .ok columns) :
    ((∃ t, ofText path contents catalog config = .ok t) ↔
      ∃ t', ofText path' contents' catalog config = .ok t') ∧
    ∀ t t', ofText path contents catalog config = .ok t →
      ofText path' contents' catalog config = .ok t' → ∀ p : UInt32,
        t.records.filter (fun r => r.pid == p) = t'.records.filter (fun r => r.pid == p) ∧
        (diagnosticsOf p contents.lines t.diagnostics).map Diagnostic.unnumbered =
          (diagnosticsOf p contents'.lines t'.diagnostics).map Diagnostic.unnumbered := by
  refine ⟨⟨exists_ofText_of_sameByProcess h hcol hcol',
    exists_ofText_of_sameByProcess h.symm hcol' hcol⟩, fun t t' ht ht' p => ?_⟩
  obtain ⟨hc, -, -, -, -, built, hb, hr, hd⟩ := ofText_eq_ok_iff.1 ht
  obtain ⟨hc', -, -, -, -, built', hb', hr', hd'⟩ := ofText_eq_ok_iff.1 ht'
  obtain rfl := Except.ok.inj (hcol.symm.trans hc)
  rw [← Except.ok.inj (hcol'.symm.trans hc')] at hb'
  -- the results of the process, with their line numbers struck out
  have hbuilt : (built.filter fun b => b.1.pid == p).map unnumberedResult =
      (built'.filter fun b => b.1.pid == p).map unnumberedResult := by
    have hp := mapM_build_unnumbered (mapM_build_filter hb p)
    rw [sources_of_sameByProcess h p] at hp
    exact Except.ok.inj (hp.symm.trans (mapM_build_unnumbered (mapM_build_filter hb' p)))
  have hrecords : ∀ bs : List (Record × List Diagnostic),
      (bs.map Prod.fst).filter (fun r => r.pid == p) =
        ((bs.filter fun b => b.1.pid == p).map unnumberedResult).map Prod.fst := fun bs => by
    rw [List.filter_map, map_fst_unnumberedResult]
    rfl
  constructor
  · rw [hr, hr', hrecords, hrecords, hbuilt]
  · rw [hd, hd', diagnosticsOf_flatMap hb fun x hx => pid_of_line hx,
      diagnosticsOf_flatMap hb' fun x hx => pid_of_line hx, flatMap_snd_unnumberedResult,
      flatMap_snd_unnumberedResult, hbuilt]

/-- A call of a second process while one of the first is interrupted. -/
def closeBetween : Text :=
  "1 read(3, <unfinished ...>\n2 close(3) = 0\n1 <... read resumed>8) = 8".toList

/-- The same lines, with the call of the second process before both of the first. -/
def closeBefore : Text :=
  "2 close(3) = 0\n1 read(3, <unfinished ...>\n1 <... read resumed>8) = 8".toList

theorem independent_of_interleaving_close :
    ∃ t t', ofText [] closeBetween {} {} = .ok t ∧ ofText [] closeBefore {} {} = .ok t' ∧
      t.records.length = 2 ∧ ∀ p : UInt32,
        t.records.filter (fun r => r.pid == p) = t'.records.filter (fun r => r.pid == p) ∧
        (diagnosticsOf p closeBetween.lines t.diagnostics).map Diagnostic.unnumbered =
          (diagnosticsOf p closeBefore.lines t'.diagnostics).map Diagnostic.unnumbered := by
  have hlines : closeBetween.lines = [] ++ "1 read(3, <unfinished ...>".toList ::
      "2 close(3) = 0".toList :: ["1 <... read resumed>8) = 8".toList] := by decide +kernel
  have hlines' : closeBefore.lines = [] ++ "2 close(3) = 0".toList ::
      "1 read(3, <unfinished ...>".toList :: ["1 <... read resumed>8) = 8".toList] := by
    decide +kernel
  have hsame : SameByProcess closeBetween.lines closeBefore.lines := by
    rw [hlines, hlines']
    exact SameByProcess.swap (by decide +kernel) _ _
  have hcol : detectColumns {} closeBetween = .ok {} := toOption_eq_some_iff.1 (by decide +kernel)
  have hcol' : detectColumns {} closeBefore = .ok {} := toOption_eq_some_iff.1 (by decide +kernel)
  have hsize : ((ofText [] closeBetween {} {}).toOption.map size) = some 2 := by decide +kernel
  obtain ⟨t, ht, hsize⟩ := Option.map_eq_some_iff.1 hsize
  have ht := toOption_eq_some_iff.1 ht
  obtain ⟨t', ht'⟩ : ∃ t', ofText [] closeBefore {} {} = .ok t' :=
    (independent_of_interleaving hsame hcol hcol').1.1 ⟨t, ht⟩
  exact ⟨t, t', ht, ht', hsize, (independent_of_interleaving hsame hcol hcol').2 t t' ht ht'⟩

end Trace

end SyscallTrace
