import SyscallTrace.Proofs.Session.Openings

/-!
# The sequence of records

`Trace.record_sequence` describes the records of a trace by the places of its lines alone: which
lines have a record, and which tokens and columns of which lines it is built from.
-/

namespace SyscallTrace

/-- The call of a resumed line together with the call that it resumes and the tokens that were
added in between. It has the timestamp and the instruction pointer of the line that started it. -/
def Call.resuming (c started : Call) (added : List Text) : Call :=
  { c with
    args := started.args ++ added ++ c.args
    heading :=
      { c.heading with
        timestamp := started.heading.timestamp
        instPointer := started.heading.instPointer } }

namespace History

/-- What the record of the line at place `i` is built from. A complete call and a call that resumes
are aligned with their parameters; a call that never resumes is not. -/
inductive Yields (es : List Entry) (i : Nat) : Source → Prop where
  | complete {e : Entry} {c : Call} {o : Outcome} (he : es[i]? = some e) (hc : e.call? = some c)
      (hs : c.stage = .complete o) : Yields es i ⟨c.aligned, e.line, none, e.number⟩
  | resumed {e e₀ : Entry} {c c₀ : Call} {o : Outcome} {j : Nat} (he : es[i]? = some e)
      (hc : e.call? = some c) (hs : c.stage = .resumed o) (hj : OpenAt es c.key j i)
      (he₀ : es[j]? = some e₀) (hc₀ : e₀.call? = some c₀) :
      Yields es i ⟨(c.resuming c₀ (addedTokens es c.key (between j i))).aligned, e.line,
        some e₀.line, e.number⟩
  | neverResumed {e : Entry} {c : Call} (he : es[i]? = some e) (hc : e.call? = some c)
      (hs : c.stage = .unfinished)
      (hn : ∀ m, OpenAt es c.key i m → effectAt es c.key m ≠ .ends) :
      Yields es i ⟨c.extend (addedTokens es c.key (openFrom es c.key i (i + 1))), e.line, none,
        e.number⟩

/-- The line at place `i` has a record: it shows a complete or a resumed call, or an unfinished
call that no line resumes. -/
def HasRecord (es : List Entry) (i : Nat) : Prop :=
  ∃ e c, es[i]? = some e ∧ e.call? = some c ∧
    match c.stage with
    | .complete _ | .resumed _ => True
    | .unfinished => ∀ m, OpenAt es c.key i m → effectAt es c.key m ≠ .ends
    | .continued => False

variable {es : List Entry} {columns : Columns} {e : Entry} {c : Call} {i : Nat} {x : Source}

/-- The calls on the lines have the columns of the trace. -/
def HasColumns (columns : Columns) (es : List Entry) : Prop :=
  ∀ e ∈ es, ∀ c ∈ e.call?, c.heading.HasColumns columns

theorem sourceAt?_of_call (he : es[i]? = some e) (hc : e.call? = some c) :
    sourceAt? es i = (waitingAt es i).source? e.line e.number c (es.drop (i + 1)) := by
  rw [sourceAt?, he, Option.bind_some, hc, Option.bind_some]

theorem exists_call_of_sourceAt? (h : sourceAt? es i = some x) :
    ∃ e c, es[i]? = some e ∧ e.call? = some c := by
  obtain ⟨e, he, h⟩ := Option.bind_eq_some_iff.1 h
  obtain ⟨c, hc, -⟩ := Option.bind_eq_some_iff.1 h
  exact ⟨e, c, he, hc⟩

theorem openAt_of_unfinished (he : es[i]? = some e) (hc : e.call? = some c)
    (hs : c.stage = .unfinished) : OpenAt es c.key i (i + 1) := by
  refine (openAt_succ_iff_of_starts ?_).2 rfl
  rw [effectAt_of_getElem? he, Entry.effect, hc]
  exact Call.effect_unfinished hs

/-- The source of a call that no line resumes has the tokens that were added while it was open. -/
theorem sourceAt?_of_unfinished (he : es[i]? = some e) (hc : e.call? = some c)
    (hs : c.stage = .unfinished) :
    sourceAt? es i = some x ↔
      (∀ m, OpenAt es c.key i m → effectAt es c.key m ≠ .ends) ∧
        x = ⟨c.extend (addedTokens es c.key (openFrom es c.key i (i + 1))), e.line, none,
          e.number⟩ := by
  have hi := openAt_of_unfinished he hc hs
  have hlen : i + 1 ≤ es.length := (List.getElem?_eq_some_iff.1 he).1
  have hopen : (∀ m, i + 1 ≤ m → OpenAt es c.key i m → effectAt es c.key m ≠ .ends) ↔
      ∀ m, OpenAt es c.key i m → effectAt es c.key m ≠ .ends :=
    ⟨fun h m ho => h m ho.lt ho, fun h m _ => h m⟩
  rw [sourceAt?_of_call he hc, Waiting.source?_of_unfinished hs, Option.map_eq_some_iff]
  constructor
  · rintro ⟨args, ha, rfl⟩
    obtain ⟨hall, rfl⟩ := (laterArgs?_eq_some_iff hi hlen).1 ha
    exact ⟨hopen.1 hall, rfl⟩
  · rintro ⟨hall, rfl⟩
    exact ⟨_, (laterArgs?_eq_some_iff hi hlen).2 ⟨hopen.2 hall, rfl⟩, rfl⟩

/-- A resumed call has the timestamp and the instruction pointer of the line that started it, as
both lines have these columns or neither has. -/
theorem resume_extend {e₀ : Entry} {c₀ : Call} {j : Nat} {added : List Text}
    (hcol : HasColumns columns es) (he : es[i]? = some e) (hc : e.call? = some c)
    (he₀ : es[j]? = some e₀) (hc₀ : e₀.call? = some c₀) :
    OpenCall.resume ⟨c₀.extend added, e₀.line⟩ c = c.resuming c₀ added := by
  have hh₀ := hcol e₀ (List.mem_of_getElem? he₀) c₀ hc₀
  have hh := hcol e (List.mem_of_getElem? he) c hc
  unfold OpenCall.resume Call.resuming Call.extend
  rw [hh₀.timestamp_or hh, hh₀.instPointer_or hh]

theorem sourceAt?_of_resumed {o : Outcome} (hcol : HasColumns columns es) (he : es[i]? = some e)
    (hc : e.call? = some c) (hs : c.stage = .resumed o) :
    sourceAt? es i = some x ↔ ∃ j e₀ c₀, OpenAt es c.key j i ∧ es[j]? = some e₀ ∧
      e₀.call? = some c₀ ∧
      x = ⟨(c.resuming c₀ (addedTokens es c.key (between j i))).aligned, e.line, some e₀.line,
        e.number⟩ := by
  rw [sourceAt?_of_call he hc, Waiting.source?_of_resumed hs, Option.map_eq_some_iff]
  constructor
  · rintro ⟨w, hw, rfl⟩
    obtain ⟨j, e₀, c₀, hj, he₀, hc₀, rfl⟩ := waitingAt_eq_some_iff.1 hw
    exact ⟨j, e₀, c₀, hj, he₀, hc₀, by rw [resume_extend hcol he hc he₀ hc₀]⟩
  · rintro ⟨j, e₀, c₀, hj, he₀, hc₀, rfl⟩
    refine ⟨_, waitingAt_eq_some_iff.2 ⟨j, e₀, c₀, hj, he₀, hc₀, rfl⟩, ?_⟩
    rw [resume_extend hcol he hc he₀ hc₀]

/-- What a line yields is its source. -/
theorem yields_iff (hcol : HasColumns columns es) : Yields es i x ↔ sourceAt? es i = some x := by
  constructor
  · intro h
    cases h with
    | complete he hc hs => rw [sourceAt?_of_call he hc, Waiting.source?_of_complete hs]
    | resumed he hc hs hj he₀ hc₀ =>
      exact (sourceAt?_of_resumed hcol he hc hs).2 ⟨_, _, _, hj, he₀, hc₀, rfl⟩
    | neverResumed he hc hs hn => exact (sourceAt?_of_unfinished he hc hs).2 ⟨hn, rfl⟩
  · intro h
    obtain ⟨e, c, he, hc⟩ := exists_call_of_sourceAt? h
    cases hs : c.stage with
    | complete o =>
      rw [sourceAt?_of_call he hc, Waiting.source?_of_complete hs] at h
      obtain rfl := Option.some.inj h
      exact .complete he hc hs
    | unfinished =>
      obtain ⟨hn, rfl⟩ := (sourceAt?_of_unfinished he hc hs).1 h
      exact .neverResumed he hc hs hn
    | continued =>
      rw [sourceAt?_of_call he hc, Waiting.source?_of_continued hs] at h
      cases h
    | resumed o =>
      obtain ⟨j, e₀, c₀, hj, he₀, hc₀, rfl⟩ := (sourceAt?_of_resumed hcol he hc hs).1 h
      exact .resumed he hc hs hj he₀ hc₀

/-- A line yields one source at most. -/
theorem Yields.unique {y : Source} (hcol : HasColumns columns es) (hx : Yields es i x)
    (hy : Yields es i y) : y = x :=
  Option.some.inj (((yields_iff hcol).1 hy).symm.trans ((yields_iff hcol).1 hx))

/-- In a valid history the lines that have a record are those with a source. -/
theorem hasRecord_iff (hval : Valid Waiting.none es) :
    HasRecord es i ↔ ∃ x, sourceAt? es i = some x := by
  constructor
  · rintro ⟨e, c, he, hc, h⟩
    cases hs : c.stage with
    | complete o =>
      rw [sourceAt?_of_call he hc, Waiting.source?_of_complete hs]
      exact ⟨_, rfl⟩
    | unfinished =>
      rw [hs] at h
      exact ⟨_, (sourceAt?_of_unfinished he hc hs).2 ⟨h, rfl⟩⟩
    | continued =>
      rw [hs] at h
      exact h.elim
    | resumed o =>
      have ha := (valid_drop_iff (Nat.zero_le _)).1 hval i e c (Nat.zero_le i) he hc
      obtain ⟨w, hw⟩ := Option.isSome_iff_exists.1 ((Waiting.admits_iff_of_resumed hs).1 ha)
      rw [sourceAt?_of_call he hc, Waiting.source?_of_resumed hs, hw]
      exact ⟨_, rfl⟩
  · rintro ⟨x, hx⟩
    obtain ⟨e, c, he, hc⟩ := exists_call_of_sourceAt? hx
    refine ⟨e, c, he, hc, ?_⟩
    cases hs : c.stage with
    | complete o => trivial
    | unfinished => exact ((sourceAt?_of_unfinished he hc hs).1 hx).1
    | continued =>
      rw [sourceAt?_of_call he hc, Waiting.source?_of_continued hs] at hx
      cases hx
    | resumed o => trivial

theorem hasColumns_entries (columns : Columns) (lines : List Text) :
    HasColumns columns (entries columns lines) := by
  intro e he c hc
  obtain ⟨x, -, rfl⟩ := List.mem_map.1 he
  exact Call.hasColumns_of_ofLine (Entry.call?_ofLine_eq_some_iff.1 hc)

/-- The places that have a source, in order, next to what their sources are. -/
theorem forall₂_sources (es : List Entry) :
    List.Forall₂ (fun i x => sourceAt? es i = some x)
      ((List.range es.length).filter fun i => (sourceAt? es i).isSome)
      (sources Waiting.none es) := by
  rw [sources_eq_filterMap]
  induction List.range es.length with
  | nil => exact .nil
  | cons i is ih =>
    cases hx : sourceAt? es i with
    | none => rwa [List.filter_cons_of_neg (by simp [hx]), List.filterMap_cons_none hx]
    | some x =>
      rw [List.filter_cons_of_pos (by simp [hx]), List.filterMap_cons_some hx]
      exact .cons hx ih

/-- A source has the line that yields it, and the number of that line. -/
theorem Yields.line_eq (h : Yields es i x) :
    ∃ e, es[i]? = some e ∧ x.line = e.line ∧ x.number = e.number := by
  cases h with
  | complete he | resumed he | neverResumed he => exact ⟨_, he, rfl, rfl⟩

theorem getElem?_entries (columns : Columns) (lines : List Text) (i : Nat) :
    (entries columns lines)[i]? = lines[i]?.map fun line => .ofLine columns (line, i + 1) := by
  unfold entries
  rw [List.getElem?_map, List.getElem?_zipIdx, Option.map_map, Nat.add_comm]
  rfl

theorem Yields.getElem?_lines {lines : List Text} (h : Yields (entries columns lines) i x) :
    lines[i]? = some x.line ∧ x.number = i + 1 := by
  obtain ⟨e, he, hline, hnumber⟩ := h.line_eq
  rw [getElem?_entries, Option.map_eq_some_iff] at he
  obtain ⟨line, hlines, rfl⟩ := he
  rw [hline, hnumber]
  exact ⟨hlines, rfl⟩

end History

open History

/-- The records and the diagnostics of a trace come from building what its lines yield, in order. -/
theorem Trace.exists_built {path contents : Text} {catalog : Catalog} {config : Config}
    {t : Trace} (h : ofText path contents catalog config = .ok t) :
    ∃ places built, places.Pairwise (· < ·) ∧
      (∀ i, i ∈ places ↔ HasRecord (entries t.columns contents.lines) i) ∧
      List.Forall₂ (fun i b => ∃ x, Yields (entries t.columns contents.lines) i x ∧
        x.build ⟨catalog, t.columns⟩ = .ok b) places built ∧
      t.records = built.map Prod.fst ∧ t.diagnostics = built.flatMap Prod.snd := by
  obtain ⟨-, -, -, -, hval, built, hb, hrecords, hds⟩ := ofText_eq_ok_iff.1 h
  have hcol := hasColumns_entries t.columns contents.lines
  generalize entries t.columns contents.lines = es at hval hb hcol
  refine ⟨(List.range es.length).filter fun i => (sourceAt? es i).isSome, built,
    List.pairwise_lt_range.filter _, fun i => ?_, ?_, hrecords, hds⟩
  · rw [hasRecord_iff hval, List.mem_filter, Option.isSome_iff_exists, List.mem_range]
    refine and_iff_right_of_imp ?_
    rintro ⟨x, hx⟩
    obtain ⟨e, c, he, -⟩ := exists_call_of_sourceAt? hx
    exact (List.getElem?_eq_some_iff.1 he).1
  · refine forall₂_trans (fun i x b hx hb => ?_) (forall₂_sources es) (mapM_eq_ok_iff.1 hb)
    exact ⟨x, (yields_iff hcol).2 hx, hb⟩

/-- The records of a trace, in the order of its lines: one for each complete call, one for each
resumed call, and one for each unfinished call that no line resumes. There are no others. Each has
the fields of the one source that its line yields, with the tokens of the call cast and its
timestamp read. -/
theorem Trace.record_sequence {path contents : Text} {catalog : Catalog} {config : Config}
    {t : Trace} (h : ofText path contents catalog config = .ok t) :
    ∃ places : List Nat, places.Pairwise (· < ·) ∧
      (∀ i, i ∈ places ↔ HasRecord (entries t.columns contents.lines) i) ∧
      List.Forall₂ (fun i r => ∃ x args ds timestamp,
        Yields (entries t.columns contents.lines) i x ∧
        (∀ y, Yields (entries t.columns contents.lines) i y → y = x) ∧
        contents.lines[i]? = some x.line ∧ x.number = i + 1 ∧
        Record.typeArguments catalog x.call x.number = .ok (args, ds) ∧
        Record.readTimestamp t.columns.timestamp x.call.heading.timestamp = .ok timestamp ∧
        r = { originalLine := x.line
              unfinishedLine := x.startedLine
              kind := x.call.kind
              pid := x.call.pid
              name := x.call.name
              args := args
              ret := x.call.ret?
              instPointer := x.call.heading.instPointer
              timestamp := timestamp
              elapsed := x.call.elapsed? }) places t.records := by
  obtain ⟨places, built, hincreasing, hplaces, hbuilt, hrecords, -⟩ := exists_built h
  refine ⟨places, hincreasing, hplaces, ?_⟩
  rw [hrecords, List.forall₂_map_right_iff]
  refine hbuilt.imp fun i b hb => ?_
  obtain ⟨x, hx, hb⟩ := hb
  obtain ⟨args, timestamp, hargs, htimestamp, hrecord⟩ := Record.ofCall_eq_ok_iff.1 hb
  exact ⟨x, args, b.2, timestamp, hx, fun y hy => hx.unique (hasColumns_entries _ _) hy,
    hx.getElem?_lines.1, hx.getElem?_lines.2, hargs, htimestamp, hrecord⟩

/-- Two processes whose calls overlap: a call that is interrupted twice and then resumed, and a call
that gives way to another one of its name. Neither of the last two ever resumes. -/
def overlapping : Text :=
  "1 read(3,  <unfinished ...>\n2 close(3) = 0\n1 <... read resumed>\"a\", <unfinished ...>
1 <... read resumed>1) = 1\n2 read(4, <unfinished ...>\n2 read(5, <unfinished ...>".toList

theorem Trace.record_sequence_overlapping :
    ∃ t, ofText [] overlapping {} {} = .ok t ∧ t.records.length = 4 ∧
      ∃ places : List Nat, places.Pairwise (· < ·) ∧
        (∀ i, i ∈ places ↔ HasRecord (entries t.columns overlapping.lines) i) ∧
        List.Forall₂ (fun i r => ∃ x args ds timestamp,
          Yields (entries t.columns overlapping.lines) i x ∧
          (∀ y, Yields (entries t.columns overlapping.lines) i y → y = x) ∧
          overlapping.lines[i]? = some x.line ∧ x.number = i + 1 ∧
          Record.typeArguments {} x.call x.number = .ok (args, ds) ∧
          Record.readTimestamp t.columns.timestamp x.call.heading.timestamp = .ok timestamp ∧
          r = { originalLine := x.line
                unfinishedLine := x.startedLine
                kind := x.call.kind
                pid := x.call.pid
                name := x.call.name
                args := args
                ret := x.call.ret?
                instPointer := x.call.heading.instPointer
                timestamp := timestamp
                elapsed := x.call.elapsed? }) places t.records := by
  have hsize : ((ofText [] overlapping {} {}).toOption.map size) = some 4 := by decide +kernel
  obtain ⟨t, ht, hsize⟩ := Option.map_eq_some_iff.1 hsize
  have ht := toOption_eq_some_iff.1 ht
  exact ⟨t, ht, hsize, record_sequence ht⟩

end SyscallTrace
