import SyscallTrace.Proofs.Line.Interruption
import SyscallTrace.Proofs.Session.InterruptedHistory
import SyscallTrace.Proofs.Session.Renumbering

/-!
# Interrupted calls

A call that is interrupted is recorded as if it were not: a trace in which the line of a complete
call is replaced by a resumed line, with the unfinished line at any earlier place, has the same
records and diagnostics, but for the kind of the one call, its lines, and the columns that are read
where it started (`Trace.interrupted_as_whole`). This asks for a return value behind the equals
sign: without one, a call can be read up to an end that one of its strings holds, and the resumed
line then has none (`Trace.interrupted_quoted_end`).
-/

namespace SyscallTrace

/-! ## The record of an interrupted call -/

/-- The tokens of a finished call are cast alike whether it was interrupted or not. -/
theorem castArguments_of_finished (syscall : Text) {kind kind' : CallKind}
    (hk : kind ≠ .unfinished) (hk' : kind' ≠ .unfinished) (ps : Option (List Parameter))
    (tokens : List Text) :
    castArguments syscall kind ps tokens = castArguments syscall kind' ps tokens := by
  unfold castArguments Casting.arguments
  simp only [if_neg hk, if_neg hk']

/-- The call as it is put together from two lines: it has the columns `h` of the line where it
started. -/
def Call.asResumed (c : Call) (h : Heading) (o : Outcome) : Call :=
  { c with heading := h, stage := .resumed o }

theorem Call.aligned_asResumed {c : Call} {o : Outcome} (hc : c.stage = .complete o) (h : Heading) :
    (c.asResumed h o).aligned = c.aligned.asResumed h o := by
  unfold aligned asResumed remark?
  rw [hc]
  rfl

theorem Record.typeArguments_asResumed {c : Call} {o : Outcome} (hc : c.stage = .complete o)
    (catalog : Catalog) (h : Heading) (number : Nat) :
    typeArguments catalog (c.asResumed h o) number = typeArguments catalog c number := by
  have hkind : c.kind ≠ .unfinished := by
    unfold Call.kind
    rw [hc]
    show CallKind.complete ≠ .unfinished
    decide
  have hname : (c.asResumed h o).name = c.name := rfl
  unfold typeArguments
  rw [hname]
  cases catalog.resolve c.name with
  | none => rfl
  | some definition =>
    have hcast : castArguments c.name .resumed definition.parameters? c.args =
        castArguments c.name c.kind definition.parameters? c.args :=
      castArguments_of_finished c.name (by decide) hkind _ _
    exact congrArg (Except.map _) hcast

/-- The record as it is put together from two lines: it has the columns of the line where the call
started. -/
def Record.asResumed (r : Record) (resumed started : Text) (pointer : Option Text)
    (timestamp : Option Timestamp) : Record :=
  { r with
    originalLine := resumed
    unfinishedLine := some started
    kind := .resumed
    instPointer := pointer
    timestamp := timestamp }

/-- The record of a resumed call is that of the same call on one line, but for its kind, its lines
and the columns in front of the line where it started. -/
theorem Record.ofCall_asResumed {catalog : Catalog} {mode : TimestampMode} {c : Call} {o : Outcome}
    {line : Text} {number : Nat} {record : Record} {ds : List Diagnostic} {h : Heading}
    {timestamp : Option Timestamp} (hc : c.stage = .complete o)
    (hr : ofCall catalog mode c line none number = .ok (record, ds))
    (hpid : h.pid = c.pid) (ht : readTimestamp mode h.timestamp = .ok timestamp)
    (resumed started : Text) :
    ofCall catalog mode (c.asResumed h o) resumed (some started) number =
      .ok (record.asResumed resumed started h.instPointer timestamp, ds) := by
  obtain ⟨args, timestamp', hargs, -, rfl⟩ := ofCall_eq_ok_iff.1 hr
  rw [← typeArguments_asResumed hc] at hargs
  have hret : (c.asResumed h o).ret? = c.ret? := by
    unfold Call.ret?
    rw [hc]
    rfl
  have helapsed : (c.asResumed h o).elapsed? = c.elapsed? := by
    unfold Call.elapsed?
    rw [hc]
    rfl
  refine ofCall_eq_ok_iff.2 ⟨args, timestamp, hargs, ht, ?_⟩
  rw [hret, helapsed, ← hpid]
  rfl

theorem originalLine_of_build {setting : Setting} {x : Source} {b : Record × List Diagnostic}
    (h : x.build setting = .ok b) : b.1.originalLine = x.line :=
  Record.originalLine_of_ofCall h

theorem map_originalLine_of_build {setting : Setting} {xs : List Source}
    {bs : List (Record × List Diagnostic)} (h : xs.mapM (Source.build setting) = .ok bs) :
    (bs.map Prod.fst).map Record.originalLine = xs.map Source.line := by
  rw [mapM_eq_ok_iff] at h
  induction h with
  | nil => rfl
  | cons hb _ ih =>
    rw [List.map_cons, List.map_cons, List.map_cons, ih, originalLine_of_build hb]

/-! ## Whole traces -/

namespace History

theorem effectAt_map_unnumbered (es : List Entry) (k : CallKey) (i : Nat) :
    effectAt (es.map Entry.unnumbered) k i = effectAt es k i := by
  unfold effectAt
  rw [List.getElem?_map]
  cases es[i]? <;> rfl

theorem openAt_map_unnumbered {es : List Entry} {k : CallKey} {i j : Nat} :
    OpenAt (es.map Entry.unnumbered) k j i ↔ OpenAt es k j i := by
  constructor
  · rintro ⟨hlt, hs, hl, hn⟩
    simp only [effectAt_map_unnumbered] at hs hl hn
    exact ⟨hlt, hs, hl, hn⟩
  · rintro ⟨hlt, hs, hl, hn⟩
    refine ⟨hlt, ?_, ?_, ?_⟩ <;> simpa only [effectAt_map_unnumbered]

theorem Undisturbed.map_unnumbered {es : List Entry} {k : CallKey} {n m : Nat}
    (h : Undisturbed es k n m) : Undisturbed (es.map Entry.unnumbered) k n m where
  notStarted i hi hn := by
    rw [effectAt_map_unnumbered]
    exact h.notStarted i hi hn
  notTaken i hi hn j hj ho := by
    rw [List.length_map] at hi
    rw [effectAt_map_unnumbered]
    exact h.notTaken i hi hn j hj (openAt_map_unnumbered.1 ho)

end History

open History

namespace Interruption

variable {columns : Columns} (i : Interruption columns) {o : Outcome}

/-- The call that is put together from the two lines is that of the whole line, with the columns of
the line where it started. -/
theorem resume_startedCall (hs : i.startedFront.heading.HasColumns columns)
    (hr : i.resumedFront.heading.HasColumns columns) :
    OpenCall.resume ⟨i.startedCall, i.started⟩ (i.resumedCall o) =
      (i.wholeCall o).asResumed i.startedFront.heading o := by
  unfold OpenCall.resume Call.asResumed startedCall resumedCall wholeCall
  dsimp only
  rw [hs.timestamp_or hr, hs.instPointer_or hr, i.resumed_pid, ← i.started_pid]

/-- The lines of the interrupted call, as entries of a history. -/
theorem interrupts {contents : Text} (hret : i.tail.head?.any CallForm.isReturnChar)
    (hs : i.started ∈ contents.lines) (hr : i.resumed ∈ contents.lines)
    (hc : Call.ofLine columns i.whole = .ok (some (i.wholeCall o)))
    (ho : Outcome.read columns.elapsed i.ret i.rest = .ok o) :
    Interrupts i.key (Entry.plain columns i.whole) (Entry.plain columns i.started)
      (Entry.plain columns i.resumed) (i.wholeCall o) i.startedCall (i.resumedCall o) where
  whole := Entry.call?_ofLine hc
  complete := ⟨o, rfl⟩
  started := Entry.call?_ofLine (i.ofLine_started hs)
  unfinished := rfl
  started_key := i.key_startedCall
  resumes := Entry.call?_ofLine (i.ofLine_resumed hret hr ho)
  resumed := ⟨o, rfl⟩
  resumed_key := i.key_resumedCall

/-- The sources of both traces, with their line numbers struck out. -/
theorem exists_sources {lines lines' before between after : List Text}
    (hlines : lines = before ++ (between ++ i.whole :: after))
    (hlines' : lines' = before ++ i.started :: (between ++ i.resumed :: after))
    (hcut : Interrupts i.key (Entry.plain columns i.whole) (Entry.plain columns i.started)
      (Entry.plain columns i.resumed) (i.wholeCall o) i.startedCall (i.resumedCall o))
    (hfree : Undisturbed (entries columns lines) i.key before.length
      (before.length + between.length))
    (hval : Valid Waiting.none (entries columns lines)) :
    Valid Waiting.none (entries columns lines') ∧ ∃ xs ys,
      (sources Waiting.none (entries columns lines)).map Source.unnumbered =
        xs ++ ⟨(i.wholeCall o).aligned, i.whole, none, 0⟩ :: ys ∧
      (sources Waiting.none (entries columns lines')).map Source.unnumbered =
        xs ++ ⟨(OpenCall.resume ⟨i.startedCall, i.started⟩ (i.resumedCall o)).aligned, i.resumed,
          some i.started, 0⟩ :: ys ∧
      (xs.map Source.line).Sublist (before ++ between) ∧ (ys.map Source.line).Sublist after := by
  have hfree := hfree.map_unnumbered
  rw [← valid_map_unnumbered] at hval ⊢
  rw [← sources_map_unnumbered, ← sources_map_unnumbered]
  rw [entries_map_unnumbered, hlines, List.map_append, List.map_append, List.map_cons] at hfree hval
  rw [entries_map_unnumbered, entries_map_unnumbered, hlines, hlines', List.map_append,
    List.map_append, List.map_cons, List.map_append, List.map_cons, List.map_append, List.map_cons]
  have hrest := hfree.leftAlone (List.length_map _) hval
  have hstarts := hfree.effect_ne_starts (List.length_map _) (by simp only [List.length_map])
  obtain ⟨hys, hzs⟩ := hrest.split (hcut.passes_whole _) hstarts
  obtain ⟨xs, ys, hsources, hsources', hxs, hys'⟩ := hcut.sources_eq Waiting.none _ hys hzs
  rw [← List.map_append, Entry.map_line_plain] at hxs
  rw [Entry.map_line_plain] at hys'
  exact ⟨hcut.valid hys hzs hval, xs, ys, hsources, hsources', hxs, hys'⟩

/-- Both traces have the same results but for the record of the call. -/
theorem exists_results {catalog : Catalog} {ss xs ys : List Source}
    {built : List (Record × List Diagnostic)}
    (hb : ss.mapM (Source.build ⟨catalog, columns⟩) = .ok built)
    (hss : ss.map Source.unnumbered = xs ++ ⟨(i.wholeCall o).aligned, i.whole, none, 0⟩ :: ys) :
    ∃ bs r ds bs', xs.mapM (Source.build ⟨catalog, columns⟩) = .ok bs ∧
      ys.mapM (Source.build ⟨catalog, columns⟩) = .ok bs' ∧
      built.map unnumberedResult = bs ++ (r, ds) :: bs' ∧
      (r.originalLine = i.whole ∧ r.unfinishedLine = none ∧ r.kind = .complete) ∧
      (xs ++ ⟨(i.wholeCall o).aligned.asResumed i.startedFront.heading o, i.resumed,
        some i.started, 0⟩ :: ys).mapM (Source.build ⟨catalog, columns⟩) =
          .ok (bs ++ (r.asResumed i.resumed i.started i.startedFront.heading.instPointer
            i.timestamp, ds) :: bs') := by
  have hbuilt := mapM_build_unnumbered hb
  rw [hss] at hbuilt
  obtain ⟨bs, ⟨r, ds⟩, bs', hbs, hrow, hbs', hresults⟩ := mapM_append_cons_eq_ok_iff.1 hbuilt
  have hrow' :=
    Record.ofCall_asResumed rfl hrow i.started_pid i.started_timestamp i.resumed i.started
  obtain ⟨args, timestamp, -, -, hrecord⟩ := Record.ofCall_eq_ok_iff.1 hrow
  refine ⟨bs, r, ds, bs', hbs, hbs', hresults, ?_,
    mapM_append_cons_eq_ok_iff.2 ⟨bs, _, bs', hbs, hrow', hbs', rfl⟩⟩
  rw [hrecord]
  exact ⟨rfl, rfl, rfl⟩

end Interruption

/-- What holds of all lines of the first trace and of the two new lines holds of all lines of the
second trace. -/
theorem forall_mem_of_cut {P : Text → Prop} {before between after : List Text}
    {whole started resumed : Text} (h : ∀ line ∈ before ++ (between ++ whole :: after), P line)
    (hs : P started) (hr : P resumed) :
    ∀ line ∈ before ++ started :: (between ++ resumed :: after), P line := by
  simp only [List.mem_append, List.mem_cons] at h ⊢
  rintro line (hl | rfl | hl | rfl | hl)
  · exact h line (Or.inl hl)
  · exact hs
  · exact h line (Or.inr (Or.inl hl))
  · exact hr
  · exact h line (Or.inr (Or.inr (Or.inr hl)))

/-- A trace in which a complete call is interrupted after any of its arguments parses to the same
records and diagnostics, in the same order, if a return value starts the text behind the equals
sign. The record of the call is resumed instead of complete, has the two lines instead of the one,
and has the timestamp and the instruction pointer of the line where it started. -/
theorem Trace.interrupted_as_whole {path path' contents contents' : Text} {catalog : Catalog}
    {config : Config} {t : Trace} {before between after : List Text}
    (h : ofText path contents catalog config = .ok t) (i : Interruption t.columns)
    (hret : i.tail.head?.any CallForm.isReturnChar)
    (hlines : contents.lines = before ++ (between ++ i.whole :: after))
    (hlines' : contents'.lines = before ++ i.started :: (between ++ i.resumed :: after))
    (hcol : detectColumns config contents' = .ok t.columns)
    (hfree : Undisturbed (entries t.columns contents.lines) i.key before.length
      (before.length + between.length)) :
    ∃ t' rs r rs', ofText path' contents' catalog config = .ok t' ∧ t'.columns = t.columns ∧
      t.records = rs ++ r :: rs' ∧ r.originalLine = i.whole ∧ r.unfinishedLine = none ∧
      r.kind = .complete ∧ (rs.map Record.originalLine).Sublist (before ++ between) ∧
      (rs'.map Record.originalLine).Sublist after ∧
      t'.records = rs ++ { r with
        originalLine := i.resumed
        unfinishedLine := some i.started
        kind := .resumed
        instPointer := i.startedFront.heading.instPointer
        timestamp := i.timestamp } :: rs' ∧
      t'.diagnostics.map Diagnostic.unnumbered = t.diagnostics.map Diagnostic.unnumbered := by
  obtain ⟨-, -, -, hread, hval, built, hb, hrecords, hdiagnostics⟩ := ofText_eq_ok_iff.1 h
  have hw : i.whole ∈ contents.lines := by rw [hlines]; simp
  have hs : i.started ∈ contents'.lines := by rw [hlines']; simp
  have hr : i.resumed ∈ contents'.lines := by rw [hlines']; simp
  obtain ⟨c?, hc⟩ := hread i.whole hw
  obtain ⟨o, ho, rfl⟩ := i.ofLine_whole hret hw hc
  have hstarted := i.ofLine_started hs
  have hresumed := i.ofLine_resumed hret hr ho
  obtain ⟨hval', xs, ys, hxs, hxs', hbefore, hafter⟩ :=
    i.exists_sources hlines hlines' (i.interrupts hret hs hr hc ho) hfree hval
  rw [i.resume_startedCall (Call.hasColumns_of_ofLine hstarted)
    (Call.hasColumns_of_ofLine hresumed), Call.aligned_asResumed rfl] at hxs'
  obtain ⟨bs, r, ds, bs', hbs, hbs', hresults, ⟨hline, hstartedLine, hkind⟩, hbuilt'⟩ :=
    i.exists_results hb hxs
  rw [← hxs'] at hbuilt'
  obtain ⟨t', ht'⟩ : ∃ t', ofText path' contents' catalog config = .ok t' := by
    refine (exists_ofText_eq_ok_iff hcol).2 ⟨?_, hval', fun x hx => ?_⟩
    · rw [hlines']
      rw [hlines] at hread
      exact forall_mem_of_cut hread ⟨_, hstarted⟩ ⟨_, hresumed⟩
    · rw [← exists_build_unnumbered_iff]
      exact exists_mapM_eq_ok_iff.1 ⟨_, hbuilt'⟩ _ (List.mem_map_of_mem hx)
  obtain ⟨hcol', -, -, -, -, built', hb', hrecords', hdiagnostics'⟩ := ofText_eq_ok_iff.1 ht'
  have hcolumns := Except.ok.inj (hcol'.symm.trans hcol)
  rw [hcolumns] at hb'
  have hresults' := Except.ok.inj ((mapM_build_unnumbered hb').symm.trans hbuilt')
  refine ⟨t', bs.map Prod.fst, r, bs'.map Prod.fst, ht', hcolumns, ?_, hline, hstartedLine, hkind,
    ?_, ?_, ?_, ?_⟩
  · rw [hrecords, ← map_fst_unnumberedResult, hresults, List.map_append, List.map_cons]
  · rwa [map_originalLine_of_build hbs]
  · rwa [map_originalLine_of_build hbs']
  · rw [hrecords', ← map_fst_unnumberedResult, hresults', List.map_append, List.map_cons]
    rfl
  · rw [hdiagnostics, hdiagnostics', flatMap_snd_unnumberedResult, flatMap_snd_unnumberedResult,
      hresults, hresults', List.flatMap_append, List.flatMap_append, List.flatMap_cons,
      List.flatMap_cons]

/-- A call that is not interrupted, between calls of another process. -/
def writeWhole : Text :=
  "1 close(3) = 0\n1 close(5) = 0\n2 write(1, \"a, b\", 4) = 4\n1 close(6) = 0".toList

/-- The same call, interrupted after its first argument while the other process goes on. -/
def writeInterrupted : Text :=
  "1 close(3) = 0\n2 write(1,  <unfinished ...>\n1 close(5) = 0
2 <... write resumed>\"a, b\", 4) = 4\n1 close(6) = 0".toList

/-- A process without further columns. -/
def plainFront (pid : UInt32) : Front {} :=
  ⟨⟨pid, none, none⟩, _, Heading.IsPrinted.isFront
    ⟨⟨rfl, rfl⟩, fun _ ht => (nomatch ht), fun _ ht => (nomatch ht)⟩⟩

/-- A call that is interrupted behind a comma of its argument list, on lines without further
columns. -/
def Interruption.behindComma (pid : UInt32) (name : Text) (first others : List Text) (tail : Text)
    (hname : IsName name) (hargs : ∀ a ∈ first ++ others, Token.IsArgument a)
    (hmark : ¬ CallForm.unfinishedMark <:+: Text.joinCommas others)
    (htail : CallForm.IsEnding tail) : Interruption {} where
  name := name
  first := first
  others := others
  tail := tail
  wholeFront := plainFront pid
  startedFront := plainFront pid
  resumedFront := plainFront pid
  trailer := ",  ".toList
  leader := []
  gap := [' ']
  gap' := [' ']
  resumedGap := [' ']
  resumedGap' := [' ']
  timestamp := none
  isName := hname
  isArgument := hargs
  noMark := hmark
  isEnding := htail
  isTrailer := .comma (Text.isBlanks_cons (c := ' ') rfl (Text.isBlanks_cons rfl Text.isBlanks_nil))
  isLeader := .blanks Text.isBlanks_nil
  isGap := Text.isBlankRun_blank
  isGap' := Text.isBlankRun_blank
  isResumedGap := Text.isBlankRun_blank
  isResumedGap' := Text.isBlankRun_blank
  started_timestamp := rfl
  started_pid := rfl
  resumed_pid := rfl

theorem CallForm.isEnding_of_noParen {tail : Text} (hparen : ')' ∉ tail)
    (hmark : ¬ unfinishedMark <:+ tail) : IsEnding tail :=
  ⟨fun _ _ h => hparen (h.mem (by simp)), hmark⟩

/-- Where the call is interrupted. -/
def writeInterruption : Interruption {} :=
  .behindComma 2 "write".toList [['1']] ["\"a, b\"".toList, ['4']] ['4'] Call.isName_write
    (by
      simp only [List.cons_append, List.nil_append, List.forall_mem_cons, List.not_mem_nil,
        false_implies, implies_true, and_true]
      exact ⟨.inr ⟨by decide +kernel, by decide, by decide +kernel⟩,
        .inl ⟨"a, b".toList, 0, by decide +kernel, by decide⟩,
        .inr ⟨by decide +kernel, by decide, by decide +kernel⟩⟩)
    (by decide +kernel) (CallForm.isEnding_of_noParen (by decide) (by decide))

theorem Trace.interrupted_as_whole_write :
    writeInterruption.whole = "2 write(1, \"a, b\", 4) = 4".toList ∧
      writeInterruption.started = "2 write(1,  <unfinished ...>".toList ∧
      writeInterruption.resumed = "2 <... write resumed>\"a, b\", 4) = 4".toList ∧
      ∃ t, ofText [] writeWhole {} {} = .ok t ∧ t.columns = {} ∧
        ∃ t' rs r rs', ofText [] writeInterrupted {} {} = .ok t' ∧ t'.columns = t.columns ∧
          t.records = rs ++ r :: rs' ∧ r.originalLine = writeInterruption.whole ∧
          r.unfinishedLine = none ∧ r.kind = .complete ∧
          (rs.map Record.originalLine).Sublist
            (["1 close(3) = 0".toList] ++ ["1 close(5) = 0".toList]) ∧
          (rs'.map Record.originalLine).Sublist ["1 close(6) = 0".toList] ∧
          t'.records = rs ++ { r with
            originalLine := writeInterruption.resumed
            unfinishedLine := some writeInterruption.started
            kind := .resumed
            instPointer := none
            timestamp := none } :: rs' ∧
          t'.diagnostics.map Diagnostic.unnumbered = t.diagnostics.map Diagnostic.unnumbered := by
  have hcolumns : ((ofText [] writeWhole {} {}).toOption.map columns) = some {} := by
    decide +kernel
  obtain ⟨⟨path, columns, catalog, records, diagnostics⟩, ht, rfl⟩ :=
    Option.map_eq_some_iff.1 hcolumns
  have ht := toOption_eq_some_iff.1 ht
  have hfree : Undisturbed (entries {} writeWhole.lines) writeInterruption.key 1 2 :=
    ⟨by decide +kernel, by decide +kernel⟩
  have hlines : writeWhole.lines = ["1 close(3) = 0".toList] ++ (["1 close(5) = 0".toList] ++
      writeInterruption.whole :: ["1 close(6) = 0".toList]) := by decide +kernel
  have hlines' : writeInterrupted.lines = ["1 close(3) = 0".toList] ++
      writeInterruption.started :: (["1 close(5) = 0".toList] ++
        writeInterruption.resumed :: ["1 close(6) = 0".toList]) := by
    decide +kernel
  have hcol : detectColumns {} writeInterrupted = .ok {} :=
    toOption_eq_some_iff.1 (by decide +kernel)
  exact ⟨by decide +kernel, by decide +kernel, by decide +kernel, _, ht, rfl,
    interrupted_as_whole ht writeInterruption rfl hlines hlines' hcol hfree⟩

/-- No return value starts the text behind the equals sign of this call. It is read up to the end of
a call that its string holds. -/
def quotedEndWhole : Text := "1 close(5) = 0\n1 write(1, \"a) = 3\", 4) = XYZ".toList

/-- The same call, interrupted after its second argument. -/
def quotedEndInterrupted : Text :=
  "1 close(5) = 0\n1 write(1, \"a) = 3\",  <unfinished ...>\n1 <... write resumed>4) = XYZ".toList

def quotedEndInterruption : Interruption {} :=
  .behindComma 1 "write".toList [['1'], "\"a) = 3\"".toList] [['4']] "XYZ".toList Call.isName_write
    (by
      simp only [List.cons_append, List.nil_append, List.forall_mem_cons, List.not_mem_nil,
        false_implies, implies_true, and_true]
      exact ⟨.inr ⟨by decide +kernel, by decide, by decide +kernel⟩,
        .inl ⟨"a) = 3".toList, 0, by decide +kernel, by decide⟩,
        .inr ⟨by decide +kernel, by decide, by decide +kernel⟩⟩)
    (by decide +kernel) (CallForm.isEnding_of_noParen (by decide) (by decide))

/-- Without a return value behind the equals sign, a call that is read as complete cannot always be
interrupted: all else that is asked holds here, and the trace with the two lines does not parse. -/
theorem Trace.interrupted_quoted_end :
    (ofText [] quotedEndWhole {} {}).toOption.map columns = some {} ∧
      Call.ofLine {} quotedEndInterruption.whole =
        .ok (some ⟨⟨1, none, none⟩, "write".toList, [['1'], "\"a".toList],
          .complete ⟨⟨.int 3, none⟩, none, some "\", 4) = XYZ".toList⟩⟩) ∧
      quotedEndWhole.lines =
        ["1 close(5) = 0".toList] ++ ([] ++ quotedEndInterruption.whole :: []) ∧
      quotedEndInterrupted.lines = ["1 close(5) = 0".toList] ++
        quotedEndInterruption.started :: ([] ++ quotedEndInterruption.resumed :: []) ∧
      detectColumns {} quotedEndInterrupted = .ok {} ∧
      Undisturbed (entries {} quotedEndWhole.lines) quotedEndInterruption.key 1 1 ∧
      ofText [] quotedEndInterrupted {} {} =
        .error (.format quotedEndInterruption.resumed .unknownForm) := by
  have hfree : Undisturbed (entries {} quotedEndWhole.lines) quotedEndInterruption.key 1 1 :=
    ⟨by decide +kernel, by decide +kernel⟩
  have hrefused : (ofText [] quotedEndInterrupted {} {}).map size =
      .error (.format quotedEndInterruption.resumed .unknownForm) := by
    decide +kernel
  exact ⟨by decide +kernel, by decide +kernel, by decide +kernel, by decide +kernel,
    by decide +kernel, hfree, map_eq_error_iff.1 hrefused⟩

-- Where the columns are detected on the one call of a trace, they are not once it is interrupted.
example :
    Trace.detectColumns {} "1 close(5) = 0".toList = .ok {} ∧
      Trace.detectColumns {} "1 close(5 <unfinished ...>\n1 <... close resumed>) = 0".toList =
        .error (.format [] .noCalls) := by
  decide +kernel

-- A call of the same name that waits meanwhile gives way to the interrupted one, and its own
-- resumed line is then left without a call.
example :
    (Trace.ofText [] "1 read(3, <unfinished ...>\n1 read(4) = 0\n1 close(5) = 0
1 <... read resumed>5) = 1".toList {} {}).map Trace.size = .ok 3 ∧
      (Trace.ofText [] "1 read(3, <unfinished ...>\n1 read(4 <unfinished ...>
1 <... read resumed>) = 0\n1 close(5) = 0\n1 <... read resumed>5) = 1".toList {} {}).map
          Trace.size =
        .error (.danglingResume "1 <... read resumed>5) = 1".toList 1 "read".toList) := by
  decide +kernel

end SyscallTrace
