import SyscallTrace.Proofs.Session.Finish

/-!
# Line numbers

The numbers of the lines show in diagnostics and nowhere else: a history with its numbers struck
out has the same sources up to theirs (`sources_map_unnumbered`), and a record is the same for
every number (`Source.build_unnumbered`).
-/

namespace SyscallTrace

/-- The entry with its number struck out. -/
def Entry.unnumbered (e : Entry) : Entry := { e with number := 0 }

/-- The entry of a line without a number. -/
def Entry.plain (columns : Columns) (line : Text) : Entry := ofLine columns (line, 0)

/-- The source with its number struck out. -/
def Source.unnumbered (x : Source) : Source := { x with number := 0 }

/-- The diagnostic with its line number struck out. -/
def Diagnostic.unnumbered : Diagnostic → Diagnostic
  | unknownSyscall name _ => unknownSyscall name 0
  | untypedParameter syscall parameter _ => untypedParameter syscall parameter 0

theorem entries_map_unnumbered (columns : Columns) (lines : List Text) :
    (entries columns lines).map Entry.unnumbered = lines.map (Entry.plain columns) := by
  unfold entries
  conv_rhs => rw [← List.zipIdx_map_fst 1 lines]
  rw [List.map_map, List.map_map]
  rfl

theorem Entry.map_line_plain (columns : Columns) (lines : List Text) :
    (lines.map (plain columns)).map Entry.line = lines := by
  rw [List.map_map]
  exact List.map_id lines

namespace History

variable {k : CallKey} {w : Waiting} {es : List Entry}

theorem laterArgs?_map_unnumbered : laterArgs? k (es.map Entry.unnumbered) = laterArgs? k es := by
  induction es with
  | nil => rfl
  | cons e es ih =>
    rw [List.map_cons, laterArgs?, laterArgs?, ih]
    rfl

theorem source?_unnumbered (line : Text) (number : Nat) (c : Call) :
    w.source? line 0 c (es.map Entry.unnumbered) =
      (w.source? line number c es).map Source.unnumbered := by
  cases hc : c.stage with
  | complete o => rw [Waiting.source?_of_complete hc, Waiting.source?_of_complete hc]; rfl
  | unfinished =>
    rw [Waiting.source?_of_unfinished hc, Waiting.source?_of_unfinished hc,
      laterArgs?_map_unnumbered, Option.map_map]
    rfl
  | continued => rw [Waiting.source?_of_continued hc, Waiting.source?_of_continued hc]; rfl
  | resumed o =>
    rw [Waiting.source?_of_resumed hc, Waiting.source?_of_resumed hc, Option.map_map]
    rfl

theorem sources_map_unnumbered :
    sources w (es.map Entry.unnumbered) = (sources w es).map Source.unnumbered := by
  induction es generalizing w with
  | nil => rfl
  | cons e es ih =>
    rw [List.map_cons]
    cases hc : e.call? with
    | none => rw [sources_cons_of_none hc, sources_cons_of_none (e := e.unnumbered) hc, ih]
    | some c =>
      rw [sources_cons_of_some hc, sources_cons_of_some (e := e.unnumbered) hc, List.map_append,
        ← ih, show w.source? e.unnumbered.line e.unnumbered.number c (es.map Entry.unnumbered) = _
          from source?_unnumbered e.line e.number c]
      congr 1
      cases w.source? e.line e.number c es <;> rfl

theorem valid_map_unnumbered : Valid w (es.map Entry.unnumbered) ↔ Valid w es := by
  induction es generalizing w with
  | nil => exact Iff.rfl
  | cons e es ih =>
    rw [List.map_cons]
    cases hc : e.call? with
    | none => rw [valid_cons_of_none hc, valid_cons_of_none (e := e.unnumbered) hc, ih]
    | some c =>
      rw [valid_cons_of_some hc, valid_cons_of_some (e := e.unnumbered) hc, ih]
      rfl

end History

/-! ## Records -/

theorem Record.typeArguments_zero (catalog : Catalog) (c : Call) (number : Nat) :
    typeArguments catalog c 0 =
      (typeArguments catalog c number).map fun x => (x.1, x.2.map Diagnostic.unnumbered) := by
  unfold typeArguments
  cases catalog.resolve c.name with
  | none => rfl
  | some definition =>
    show Except.map _ (castArguments c.name c.kind definition.parameters? c.args) =
      Except.map _ (Except.map _ (castArguments c.name c.kind definition.parameters? c.args))
    cases castArguments c.name c.kind definition.parameters? c.args with
    | error e => rfl
    | ok output =>
      refine congrArg (fun ds => Except.ok (output.arguments, ds)) ?_
      rw [List.map_map]
      rfl

/-- A record is the same on every line. -/
theorem Record.ofCall_zero (catalog : Catalog) (mode : TimestampMode) (c : Call) (line : Text)
    (started : Option Text) (number : Nat) :
    ofCall catalog mode c line started 0 =
      (ofCall catalog mode c line started number).map fun x =>
        (x.1, x.2.map Diagnostic.unnumbered) := by
  unfold ofCall
  rw [typeArguments_zero catalog c number]
  cases typeArguments catalog c number with
  | error e => rfl
  | ok x =>
    cases readTimestamp mode c.heading.timestamp with
    | error e => rfl
    | ok timestamp => rfl

theorem Source.build_unnumbered (setting : Setting) (x : Source) :
    x.unnumbered.build setting =
      (x.build setting).map fun b => (b.1, b.2.map Diagnostic.unnumbered) :=
  Record.ofCall_zero ..

/-- A record and its diagnostics with their line numbers struck out. -/
def unnumberedResult (b : Record × List Diagnostic) : Record × List Diagnostic :=
  (b.1, b.2.map Diagnostic.unnumbered)

section

variable {setting : Setting} {x : Source} {xs : List Source}
  {built : List (Record × List Diagnostic)}

theorem exists_build_unnumbered_iff :
    (∃ b, x.unnumbered.build setting = .ok b) ↔ ∃ b, x.build setting = .ok b := by
  rw [Source.build_unnumbered]
  constructor
  · rintro ⟨b, hb⟩
    obtain ⟨b', hb', -⟩ := map_eq_ok_iff.1 hb
    exact ⟨b', hb'⟩
  · rintro ⟨b, hb⟩
    exact ⟨unnumberedResult b, map_eq_ok_iff.2 ⟨b, hb, rfl⟩⟩

theorem mapM_build_unnumbered (h : xs.mapM (Source.build setting) = .ok built) :
    (xs.map Source.unnumbered).mapM (Source.build setting) = .ok (built.map unnumberedResult) := by
  rw [mapM_eq_ok_iff] at h ⊢
  rw [List.forall₂_map_left_iff, List.forall₂_map_right_iff]
  refine h.imp fun x b hb => ?_
  rw [Source.build_unnumbered, hb]
  rfl

theorem map_fst_unnumberedResult :
    (built.map unnumberedResult).map Prod.fst = built.map Prod.fst := by
  rw [List.map_map]
  rfl

theorem flatMap_snd_unnumberedResult :
    (built.flatMap Prod.snd).map Diagnostic.unnumbered =
      (built.map unnumberedResult).flatMap Prod.snd := by
  rw [List.map_flatMap, List.flatMap_map]
  rfl

end

end SyscallTrace
