import SyscallTrace.Proofs.Record
import SyscallTrace.Proofs.Session.RecordSequence

/-!
# The diagnostics of a trace

The diagnostics of a trace are those of its records, in the order of the records
(`Trace.diagnostics_of_records`). Each record brings the number of its line, so that the
diagnostics are in the order of the lines as well.
-/

namespace SyscallTrace

open History

variable {catalog : Catalog} {places : List Nat}

/-- The diagnostics of the records, each with the number of the line at its place. -/
def diagnosticsAt (catalog : Catalog) (places : List Nat) (records : List Record) :
    List Diagnostic :=
  (places.zip records).flatMap fun x => x.2.diagnostics catalog (x.1 + 1)

theorem flatMap_snd_eq_diagnosticsAt {built : List (Record × List Diagnostic)}
    (h : List.Forall₂ (fun i b => b.2 = b.1.diagnostics catalog (i + 1)) places built) :
    built.flatMap Prod.snd = diagnosticsAt catalog places (built.map Prod.fst) := by
  unfold diagnosticsAt
  induction h with
  | nil => rfl
  | cons hb _ ih =>
    rw [List.map_cons, List.zip_cons_cons, List.flatMap_cons, List.flatMap_cons, ih, hb]

theorem pairwise_line_diagnosticsAt {records : List Record}
    (hlen : places.length ≤ records.length) (h : places.Pairwise (· < ·)) :
    ((diagnosticsAt catalog places records).map Diagnostic.line).Pairwise (· ≤ ·) := by
  have hzip : (places.zip records).Pairwise fun x y => x.1 < y.1 := by
    rw [← List.pairwise_map, List.map_fst_zip hlen]
    exact h
  unfold diagnosticsAt
  rw [List.pairwise_map, List.pairwise_flatMap]
  constructor
  · intro x _
    refine List.pairwise_of_forall_mem_list fun d hd e he => ?_
    rw [Record.line_of_mem_diagnostics hd, Record.line_of_mem_diagnostics he]
  · refine hzip.imp fun hxy d hd e he => ?_
    rw [Record.line_of_mem_diagnostics hd, Record.line_of_mem_diagnostics he]
    omega

/-- The diagnostics of a trace are those that its records show, in the order of the records. A
record has the number of its line: of the line that resumed a call, or of the line that started it
if none did. Its arguments account for the tokens of the call, so that nothing is left out. -/
theorem Trace.diagnostics_of_records {path contents : Text} {config : Config} {t : Trace}
    (h : ofText path contents catalog config = .ok t) :
    ∃ places : List Nat, places.Pairwise (· < ·) ∧
      List.Forall₂ (fun i r => contents.lines[i]? = some r.originalLine ∧
        ∃ x, Yields (entries t.columns contents.lines) i x ∧ x.number = i + 1 ∧
          Record.ofCall catalog t.columns.timestamp x.call x.line x.startedLine x.number =
            .ok (r, r.diagnostics catalog x.number) ∧
          r.AccountsFor catalog x.call.args) places t.records ∧
      t.diagnostics = diagnosticsAt catalog places t.records ∧
      (t.diagnostics.map Diagnostic.line).Pairwise (· ≤ ·) := by
  obtain ⟨places, built, hincreasing, -, hbuilt, hrecords, hds⟩ := exists_built h
  have hdiagnostics : t.diagnostics = diagnosticsAt catalog places t.records := by
    rw [hds, hrecords]
    refine flatMap_snd_eq_diagnosticsAt (hbuilt.imp fun i b hb => ?_)
    obtain ⟨x, hx, hb⟩ := hb
    rw [← hx.getElem?_lines.2]
    exact Record.diagnostics_of_ofCall hb
  refine ⟨places, hincreasing, ?_, hdiagnostics, ?_⟩
  · rw [hrecords, List.forall₂_map_right_iff]
    refine hbuilt.imp fun i b hb => ?_
    obtain ⟨x, hx, hb⟩ := hb
    have hline : b.1.originalLine = x.line := Record.originalLine_of_ofCall hb
    refine ⟨hline ▸ hx.getElem?_lines.1, x, hx, hx.getElem?_lines.2, ?_,
      Record.accountsFor_of_ofCall hb⟩
    rw [← Record.diagnostics_of_ofCall hb]
    exact hb
  · rw [hdiagnostics]
    refine pairwise_line_diagnosticsAt ?_ hincreasing
    rw [hrecords, List.length_map, hbuilt.length_eq]

/-- A call that is resumed after another one whose syscall is unknown: each leaves something
untyped. -/
def untypedCalls : Text :=
  "1 read(3,  <unfinished ...>\n2 mystery(4) = 0\n1 <... read resumed>\"a\", 1) = 1".toList

theorem Trace.diagnostics_of_records_untypedCalls :
    ∃ t, ofText [] untypedCalls readCatalog {} = .ok t ∧
      t.records.map (fun r => (r.diagnostics readCatalog 1).length) = [1, 1] ∧
      ∃ places : List Nat, places.Pairwise (· < ·) ∧
        List.Forall₂ (fun i r => untypedCalls.lines[i]? = some r.originalLine ∧
          ∃ x, Yields (entries t.columns untypedCalls.lines) i x ∧ x.number = i + 1 ∧
            Record.ofCall readCatalog t.columns.timestamp x.call x.line x.startedLine x.number =
              .ok (r, r.diagnostics readCatalog x.number) ∧
            r.AccountsFor readCatalog x.call.args) places t.records ∧
        t.diagnostics = diagnosticsAt readCatalog places t.records ∧
        (t.diagnostics.map Diagnostic.line).Pairwise (· ≤ ·) := by
  have hview : (ofText [] untypedCalls readCatalog {}).toOption.map
      (fun t => t.records.map fun r => (r.diagnostics readCatalog 1).length) = some [1, 1] := by
    decide +kernel
  obtain ⟨t, ht, hlengths⟩ := Option.map_eq_some_iff.1 hview
  have ht := toOption_eq_some_iff.1 ht
  exact ⟨t, ht, hlengths, diagnostics_of_records ht⟩

end SyscallTrace
