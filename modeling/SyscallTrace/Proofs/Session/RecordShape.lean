import SyscallTrace.Proofs.Line.ReadOutcome
import SyscallTrace.Proofs.Record
import SyscallTrace.Proofs.Session.RecordSequence

/-!
# The shape of records

The fields of a record come from different places: its columns and its return value from the lines
of the call, its arguments from the catalog, and its kind from the order of the lines.
`Trace.records_isShaped` says how they belong together in every trace that parses.
-/

namespace SyscallTrace

/-- The fields of the record go together, in a trace with these columns. -/
structure Record.IsShaped (columns : Columns) (r : Record) : Prop where
  ret_eq_none_iff : r.ret = none ↔ r.kind = .unfinished
  isSome_unfinishedLine_iff : r.unfinishedLine.isSome ↔ r.kind = .resumed
  isRead : ∀ ret ∈ r.ret, ret.IsRead
  isSome_timestamp_iff : r.timestamp.isSome ↔ columns.timestamp ≠ .absent
  isSome_instPointer_iff : r.instPointer.isSome ↔ columns.instPointer
  isSome_elapsed_iff : r.elapsed.isSome ↔
    columns.elapsed ∧ r.kind ≠ .unfinished ∧ r.ret ≠ some ⟨.noReturn, none⟩
  /-- A parameter that no token was left for is the last one that has an argument. -/
  bare_last : ∀ v ∈ r.args.dropLast, v.isBare = false
  bare_unfinished : r.kind = .unfinished → ∀ v ∈ r.args, v.isBare = false
  label_of_isSuccessful : r.isSuccessful → ∀ ret ∈ r.ret, ret.label = none

namespace Call

variable {columns : Columns} {c c₀ : Call}

theorem ret?_eq_none_iff : c.ret? = none ↔ c.kind = .unfinished := by
  unfold ret? kind
  cases c.stage <;> simp [Stage.outcome?, Stage.kind]

namespace IsRead

theorem isRead_ret? (h : c.IsRead columns) {ret : Return} (hret : ret ∈ c.ret?) : ret.IsRead := by
  obtain ⟨o, ho, rfl⟩ := Option.map_eq_some_iff.1 hret
  exact (h.outcome o ho).toIsRead

theorem isSome_elapsed?_iff (h : c.IsRead columns) :
    c.elapsed?.isSome ↔
      columns.elapsed ∧ c.kind ≠ .unfinished ∧ c.ret? ≠ some ⟨.noReturn, none⟩ := by
  have hkind : c.kind ≠ .unfinished ↔ c.ret? ≠ none := not_congr ret?_eq_none_iff.symm
  rw [hkind]
  unfold elapsed? ret?
  cases ho : c.stage.outcome? with
  | none => simp
  | some o =>
    have helapsed := (h.outcome o ho).isSome_elapsed
    simp [helapsed]

theorem aligned (h : c.IsRead columns) : c.aligned.IsRead columns :=
  ⟨⟨h.timestamp, h.instPointer⟩, h.outcome⟩

theorem extend (h : c.IsRead columns) (args : List Text) : (c.extend args).IsRead columns :=
  ⟨⟨h.timestamp, h.instPointer⟩, h.outcome⟩

/-- The outcome of a resumed call is on the line that resumes it, and its columns are on the line
that started it. -/
theorem resuming (h : c.IsRead columns) (h₀ : c₀.IsRead columns) (added : List Text) :
    (c.resuming c₀ added).IsRead columns :=
  ⟨⟨h₀.timestamp, h₀.instPointer⟩, h.outcome⟩

end IsRead

end Call

namespace History

variable {columns : Columns} {es : List Entry} {i : Nat} {x : Source}

theorem isRead_entries {lines : List Text} :
    ∀ e ∈ entries columns lines, ∀ c ∈ e.call?, c.IsRead columns := by
  intro e he c hc
  obtain ⟨x, -, rfl⟩ := List.mem_map.1 he
  exact Call.isRead_of_ofLine (Entry.call?_ofLine_eq_some_iff.1 hc)

theorem Yields.isRead (hread : ∀ e ∈ es, ∀ c ∈ e.call?, c.IsRead columns) (h : Yields es i x) :
    x.call.IsRead columns := by
  cases h with
  | complete he hc hs => exact (hread _ (List.mem_of_getElem? he) _ hc).aligned
  | resumed he hc hs hj he₀ hc₀ =>
    have hstarted := hread _ (List.mem_of_getElem? he₀) _ hc₀
    exact ((hread _ (List.mem_of_getElem? he) _ hc).resuming hstarted _).aligned
  | neverResumed he hc hs hn => exact (hread _ (List.mem_of_getElem? he) _ hc).extend _

/-- A second line belongs to the calls that were resumed. -/
theorem Yields.isSome_startedLine_iff (h : Yields es i x) :
    x.startedLine.isSome ↔ x.call.kind = .resumed := by
  cases h with
  | @complete e c o he hc hs =>
    have hkind : c.aligned.kind = .complete := congrArg Stage.kind hs
    simp [hkind]
  | @resumed e e₀ c c₀ o j he hc hs hj he₀ hc₀ =>
    have hkind : (c.resuming c₀ (addedTokens es c.key (between j i))).aligned.kind = .resumed :=
      congrArg Stage.kind hs
    simp [hkind]
  | @neverResumed e c he hc hs hn =>
    have hkind : (c.extend (addedTokens es c.key (openFrom es c.key i (i + 1)))).kind =
      .unfinished := congrArg Stage.kind hs
    simp [hkind]

end History

open History

namespace Record

variable {catalog : Catalog} {columns : Columns} {c : Call} {line : Text} {started : Option Text}
  {number : Nat} {r : Record} {ds : List Diagnostic} {tokens : List Text}

theorem AccountsFor.bare_last (h : r.AccountsFor catalog tokens) :
    ∀ v ∈ r.args.dropLast, v.isBare = false := by
  intro v hv
  rw [← Bool.not_eq_true]
  intro hbare
  obtain ⟨i, hi⟩ := List.mem_iff_getElem?.1 hv
  rw [List.getElem?_dropLast] at hi
  split at hi
  · have hlast := (h.of_isBare hi hbare).2
    omega
  · cases hi

theorem AccountsFor.bare_unfinished (h : r.AccountsFor catalog tokens) (hk : r.kind = .unfinished) :
    ∀ v ∈ r.args, v.isBare = false := by
  intro v hv
  rw [← Bool.not_eq_true]
  intro hbare
  obtain ⟨i, hi⟩ := List.mem_iff_getElem?.1 hv
  exact (h.of_isBare hi hbare).1 hk

/-- A call that succeeds does not return what an error has. -/
theorem label_of_isSuccessful (hread : ∀ ret ∈ r.ret, ret.IsRead) (h : r.isSuccessful) :
    ∀ ret ∈ r.ret, ret.label = none := by
  intro ret hret
  unfold isSuccessful at h
  rw [hret, Option.any_some, Bool.and_eq_true, bne_iff_ne, bne_iff_ne] at h
  rw [Option.eq_none_iff_forall_ne_some]
  intro label hlabel
  exact ((hread ret hret).value_of_label label hlabel).elim h.1 h.2

/-- A call that is in order has a record of the right shape. -/
theorem isShaped_of_ofCall (hc : c.IsRead columns)
    (hstarted : started.isSome ↔ c.kind = .resumed)
    (h : ofCall catalog columns.timestamp c line started number = .ok (r, ds)) :
    r.IsShaped columns := by
  have haccounts := accountsFor_of_ofCall h
  obtain ⟨args, timestamp, -, htime, rfl⟩ := ofCall_eq_ok_iff.1 h
  have hread : ∀ ret ∈ c.ret?, ret.IsRead := fun ret hret => hc.isRead_ret? hret
  exact {
    ret_eq_none_iff := Call.ret?_eq_none_iff
    isSome_unfinishedLine_iff := hstarted
    isRead := hread
    isSome_timestamp_iff := by
      rw [isSome_of_readTimestamp htime, hc.timestamp, decide_eq_true_iff]
    isSome_instPointer_iff := by rw [hc.instPointer]
    isSome_elapsed_iff := hc.isSome_elapsed?_iff
    bare_last := haccounts.bare_last
    bare_unfinished := haccounts.bare_unfinished
    label_of_isSuccessful := label_of_isSuccessful hread }

end Record

/-- Every record of a trace has the right shape, for the columns that were detected. -/
theorem Trace.records_isShaped {path contents : Text} {catalog : Catalog} {config : Config}
    {t : Trace} (h : ofText path contents catalog config = .ok t) :
    ∀ r ∈ t.records, r.IsShaped t.columns := by
  obtain ⟨places, built, -, -, hbuilt, hrecords, -⟩ := exists_built h
  intro r hr
  rw [hrecords] at hr
  obtain ⟨b, hb, rfl⟩ := List.mem_map.1 hr
  obtain ⟨k, hk, rfl⟩ := List.mem_iff_getElem.1 hb
  obtain ⟨x, hx, hbuild⟩ := hbuilt.get (hbuilt.length_eq ▸ hk) hk
  exact Record.isShaped_of_ofCall (hx.isRead isRead_entries) hx.isSome_startedLine_iff hbuild

/-- Calls under all columns: one that fails, one that lacks an argument when it is resumed, one that
does not return, and one that never resumes. -/
def shapes : Text :=
  "1 10:00:00 [7f] read(3,  <unfinished ...>
2 10:00:01 [7f] close(4) = -1 EBADF (Bad file descriptor) <0.1>
1 10:00:02 [7f] <... read resumed>\"a\") = 1 <0.2>
2 10:00:03 [7f] exit_group(0) = ?\n3 10:00:04 [7f] pause( <unfinished ...>".toList

theorem Trace.records_isShaped_shapes :
    ∃ t, ofText [] shapes readCatalog {} = .ok t ∧
      t.records.map (fun r => (r.kind, r.elapsed.isSome, r.args.map ArgumentValue.isBare)) =
        [(.complete, true, [false]), (.resumed, true, [false, false, true]),
          (.complete, false, [false]), (.unfinished, false, [])] ∧
      ∀ r ∈ t.records, r.IsShaped t.columns := by
  have hview : (ofText [] shapes readCatalog {}).toOption.map (fun t => t.records.map fun r =>
      (r.kind, r.elapsed.isSome, r.args.map ArgumentValue.isBare)) =
        some [(.complete, true, [false]), (.resumed, true, [false, false, true]),
          (.complete, false, [false]), (.unfinished, false, [])] := by decide +kernel
  obtain ⟨t, ht, hview⟩ := Option.map_eq_some_iff.1 hview
  have ht := toOption_eq_some_iff.1 ht
  exact ⟨t, ht, hview, records_isShaped ht⟩

end SyscallTrace
