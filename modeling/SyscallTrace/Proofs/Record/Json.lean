import SyscallTrace.Proofs.Argument.AddressText
import SyscallTrace.Proofs.Json
import SyscallTrace.Record.Json
import SyscallTrace.Trace

/-!
# Written records

Two records are written alike exactly if they agree in every field, where of the timestamps only the
printed texts count (`Record.toJson_eq_iff`). Each record takes one line, so that the text that the
records of a trace are written as determines these records (`Trace.recordLines_determine_records`).
-/

namespace SyscallTrace

open Text

/-! ## Objects, lists and absent values -/

namespace Json

theorem string_inj (t u : Text) : string t = string u ↔ t = u := by rw [string.injEq]

@[simp] theorem ofString_inj {s t : String} : ofString s = ofString t ↔ s = t := by
  rw [ofString, ofString, string.injEq, String.toList_inj]

@[simp] theorem ofMembers_inj {ms ns : List (String × Json)} :
    ofMembers ms = ofMembers ns ↔ ms = ns := by
  have hinj : ∀ m n : String × Json, (m.1.toList, m.2) = (n.1.toList, n.2) → m = n := by
    intro m n h
    obtain ⟨hname, hvalue⟩ := Prod.mk.inj h
    exact Prod.ext (String.toList_inj.1 hname) hvalue
  rw [ofMembers, ofMembers, object.injEq, List.map_inj_right hinj]

@[simp] theorem ofMembers_ne_ofString (ms : List (String × Json)) (s : String) :
    ofMembers ms ≠ ofString s := nofun

@[simp] theorem ofString_ne_ofMembers (s : String) (ms : List (String × Json)) :
    ofString s ≠ ofMembers ms := nofun

theorem ofOption_inj {α : Type} {f : α → Json} (hf : ∀ x y, f x = f y ↔ x = y)
    (hnull : ∀ x, f x ≠ null) {a b : Option α} : ofOption f a = ofOption f b ↔ a = b := by
  cases a with
  | none =>
    cases b with
    | none => exact iff_of_true rfl rfl
    | some y => exact iff_of_false (hnull y).symm nofun
  | some x =>
    cases b with
    | none => exact iff_of_false (hnull x) nofun
    | some y => rw [ofOption, ofOption, hf, Option.some.injEq]

@[simp] theorem map_string_inj {ts us : List Text} : ts.map string = us.map string ↔ ts = us :=
  List.map_inj_right fun t u => (string_inj t u).1

@[simp] theorem ofOption_string_inj {a b : Option Text} :
    ofOption string a = ofOption string b ↔ a = b :=
  ofOption_inj string_inj fun _ => Json.noConfusion

end Json

/-! ## The parts of a record -/

open Json

@[simp] theorem Parameter.toJson_inj (p q : Parameter) : p.toJson = q.toJson ↔ p = q := by
  cases p
  cases q
  simp [toJson]

@[simp] theorem Duration.toJson_inj (d e : Duration) : d.toJson = e.toJson ↔ d = e := by
  cases d
  cases e
  simp [toJson]

@[simp] theorem FileDescriptor.toJson_inj (p q : FileDescriptor) : p.toJson = q.toJson ↔ p = q := by
  cases p <;> cases q <;> simp [toJson, Int64.toInt_inj]

@[simp] theorem UnixPath.toJson_inj (p q : UnixPath) : p.toJson = q.toJson ↔ p = q := by
  cases p <;> cases q <;> simp [toJson]

@[simp] theorem Ipv4.text_inj (a b : Ipv4) : a.text = b.text ↔ a = b := by
  refine ⟨fun h => ?_, congrArg text⟩
  have ha := ofText?_text a
  rw [h, ofText?_text] at ha
  exact (Option.some.inj ha).symm

@[simp] theorem SocketAddress.toJson_inj (a b : SocketAddress) : a.toJson = b.toJson ↔ a = b := by
  cases a <;> cases b <;> simp [toJson, UInt16.toNat_inj, UInt32.toNat_inj]

@[simp] theorem StatBuffer.toJson_inj (s t : StatBuffer) : s.toJson = t.toJson ↔ s = t := by
  cases s
  cases t
  simp [toJson]

@[simp] theorem PollFd.toJson_inj (p q : PollFd) : p.toJson = q.toJson ↔ p = q := by
  cases p
  cases q
  simp [toJson, Int64.toInt_inj]

@[simp] theorem PollFd.map_toJson_inj {ps qs : List PollFd} :
    ps.map toJson = qs.map toJson ↔ ps = qs :=
  List.map_inj_right fun p q => (toJson_inj p q).1

@[simp] theorem Placeholder.toJson_inj (p q : Placeholder) : p.toJson = q.toJson ↔ p = q := by
  cases p
  cases q
  simp [toJson]

@[simp] theorem ArgumentValue.toJson_inj (v w : ArgumentValue) : v.toJson = w.toJson ↔ v = w := by
  -- the name of the type tells the variants apart, and the payload what a variant holds
  cases v <;> cases w <;> simp [toJson, typeName, payload, Int64.toInt_inj]

@[simp] theorem ArgumentValue.map_toJson_inj {vs ws : List ArgumentValue} :
    vs.map toJson = ws.map toJson ↔ vs = ws :=
  List.map_inj_right fun v w => (toJson_inj v w).1

@[simp] theorem ReturnValue.toJson_inj (v w : ReturnValue) : v.toJson = w.toJson ↔ v = w := by
  cases v <;> cases w <;> simp [toJson, Int64.toInt_inj]

@[simp] theorem Return.toJson_inj (r s : Return) : r.toJson = s.toJson ↔ r = s := by
  cases r
  cases s
  simp [toJson]

@[simp] theorem Return.ofOption_toJson_inj {a b : Option Return} :
    ofOption toJson a = ofOption toJson b ↔ a = b :=
  ofOption_inj toJson_inj fun _ => Json.noConfusion

@[simp] theorem Duration.ofOption_toJson_inj {a b : Option Duration} :
    ofOption toJson a = ofOption toJson b ↔ a = b :=
  ofOption_inj toJson_inj fun _ => Json.noConfusion

/-- Of a timestamp, only the printed text is written. -/
@[simp] theorem Timestamp.ofOption_toJson_inj {a b : Option Timestamp} :
    ofOption toJson a = ofOption toJson b ↔ a.map raw = b.map raw := by
  have hwritten : ∀ t : Option Timestamp,
      ofOption toJson t = ofOption (fun u => ofMembers [("raw", string u)]) (t.map raw) := by
    intro t
    cases t <;> rfl
  rw [hwritten a, hwritten b]
  exact ofOption_inj (fun t u => by simp) fun _ => Json.noConfusion

@[simp] theorem CallKind.name_inj (k l : CallKind) : k.name = l.name ↔ k = l := by
  cases k <;> cases l <;> decide

/-! ## Records -/

namespace Record

/-- The records agree in every field. Of their timestamps only the printed texts count. -/
structure WrittenAlike (r s : Record) : Prop where
  originalLine : r.originalLine = s.originalLine
  unfinishedLine : r.unfinishedLine = s.unfinishedLine
  kind : r.kind = s.kind
  pid : r.pid = s.pid
  name : r.name = s.name
  args : r.args = s.args
  ret : r.ret = s.ret
  instPointer : r.instPointer = s.instPointer
  timestamp : r.timestamp.map Timestamp.raw = s.timestamp.map Timestamp.raw
  elapsed : r.elapsed = s.elapsed

theorem toJson_eq_iff {r s : Record} : r.toJson = s.toJson ↔ r.WrittenAlike s := by
  constructor
  · intro h
    simp only [toJson, ofMembers_inj, List.cons.injEq, Prod.mk.injEq, string.injEq,
      ofOption_string_inj, CallKind.name_inj, int.injEq, Int.natCast_inj, UInt32.toNat_inj,
      array.injEq, ArgumentValue.map_toJson_inj, Return.ofOption_toJson_inj,
      Timestamp.ofOption_toJson_inj, Duration.ofOption_toJson_inj, true_and, and_true] at h
    obtain ⟨hline, hstarted, hkind, hpid, hname, hargs, hret, hpointer, htime, helapsed⟩ := h
    exact ⟨hline, hstarted, hkind, hpid, hname, hargs, hret, hpointer, htime, helapsed⟩
  · intro h
    rw [toJson, toJson, h.originalLine, h.unfinishedLine, h.kind, h.pid, h.name, h.args, h.ret,
      h.instPointer, Timestamp.ofOption_toJson_inj.2 h.timestamp, h.elapsed]

theorem text_toJson_eq_iff {r s : Record} : r.toJson.text = s.toJson.text ↔ r.WrittenAlike s :=
  Json.text_injective.eq_iff.trans toJson_eq_iff

end Record

/-! ## Lines -/

theorem recordLines_eq_iff {rs ss : List Record} :
    recordLines rs = recordLines ss ↔ List.Forall₂ Record.WrittenAlike rs ss := by
  induction rs generalizing ss with
  | nil =>
    cases ss with
    | nil => exact iff_of_true rfl .nil
    | cons s ss => exact iff_of_false nofun nofun
  | cons r rs ih =>
    cases ss with
    | nil => exact iff_of_false nofun nofun
    | cons s ss =>
      rw [List.forall₂_cons, ← ih, ← Record.text_toJson_eq_iff]
      exact List.cons_eq_cons

theorem noControls_of_mem_recordLines {records : List Record} {line : Text}
    (h : line ∈ recordLines records) : NoControls line := by
  obtain ⟨r, -, rfl⟩ := List.mem_map.1 h
  exact noControls_text r.toJson

theorem splitOn_unlines_recordLines (records : List Record) :
    (unlines (recordLines records)).splitOn '\n' = recordLines records ++ [[]] :=
  splitOn_unlines fun _ hline hfeed =>
    absurd (noControls_of_mem_recordLines hline '\n' hfeed) (by decide)

/-- Each record of a trace is written on a line of its own, in order and without control
characters; behind the last line feed nothing is left. The line of a record determines it in every
field, and the whole text determines the records. -/
theorem Trace.recordLines_determine_records (t u : Trace) (r s : Record) :
    (unlines (recordLines t.records)).splitOn '\n' =
        (t.records.map fun r => r.toJson.text) ++ [[]] ∧
      (∀ line ∈ recordLines t.records, NoControls line) ∧
      (r.toJson.text = s.toJson.text ↔ r.WrittenAlike s) ∧
      (unlines (recordLines t.records) = unlines (recordLines u.records) ↔
        List.Forall₂ Record.WrittenAlike t.records u.records) := by
  refine ⟨splitOn_unlines_recordLines t.records, fun _ => noControls_of_mem_recordLines,
    Record.text_toJson_eq_iff, ?_⟩
  rw [← recordLines_eq_iff]
  refine ⟨fun h => ?_, congrArg unlines⟩
  have hlines := congrArg (List.splitOn '\n') h
  rw [splitOn_unlines_recordLines, splitOn_unlines_recordLines] at hlines
  exact List.append_cancel_right hlines

end SyscallTrace
