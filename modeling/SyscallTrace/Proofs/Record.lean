import SyscallTrace.Proofs.Argument.Untyped
import SyscallTrace.Record

/-!
# Building records

What it takes to build the record of a call (`Record.ofCall_eq_ok_iff`), and what the record shows
of it: the diagnostics that come with a record can be read off its name and its arguments
(`Record.diagnostics_of_ofCall`), and the arguments account for the tokens of the call
(`Record.accountsFor_of_ofCall`).
-/

namespace SyscallTrace

theorem Catalog.resolve_eq_none_iff {catalog : Catalog} {name : Text} :
    catalog.resolve name = none ↔
      catalog.lookup name = none ∧ catalog.lookup (name.trimChar '_') = none :=
  Option.or_eq_none_iff

/-- The parameters that the catalog has for a name, none if it does not know them. -/
def Catalog.signature (catalog : Catalog) (name : Text) : List Parameter :=
  ((catalog.resolve name).bind Definition.parameters?).getD []

theorem Catalog.signature_of_resolve {catalog : Catalog} {name : Text} {d : Definition}
    (h : catalog.resolve name = some d) : catalog.signature name = d.parameters?.getD [] := by
  unfold signature
  rw [h]
  rfl

namespace Record

/-- What a record at the line with this number leaves untyped: the whole call if the catalog has
neither its name nor the name without underscores around it, and else each parameter whose argument
is untyped. -/
def diagnostics (catalog : Catalog) (r : Record) (number : Nat) : List Diagnostic :=
  if catalog.lookup r.name = none ∧ catalog.lookup (r.name.trimChar '_') = none then
    [.unknownSyscall r.name number]
  else
    (untypedParameters (catalog.signature r.name) r.args).map fun p =>
      .untypedParameter r.name p number

/-- The arguments of the record account for these tokens. Its untyped parameters are those that got
a token and have no typed representation for it. -/
def AccountsFor (catalog : Catalog) (r : Record) (tokens : List Text) : Prop :=
  if catalog.resolve r.name = none then r.args = tokens.map .unimplemented
  else ∃ m cut, Accounts r.name r.kind (catalog.signature r.name) tokens
    ⟨r.args, untypedParameters (catalog.signature r.name) r.args⟩ m cut

variable {catalog : Catalog} {mode : TimestampMode} {c : Call} {line : Text}
  {started : Option Text} {number : Nat} {r : Record} {ds : List Diagnostic}
  {args : List ArgumentValue}

theorem ofCall_eq_ok_iff :
    ofCall catalog mode c line started number = .ok (r, ds) ↔ ∃ args timestamp,
      typeArguments catalog c number = .ok (args, ds) ∧
      readTimestamp mode c.heading.timestamp = .ok timestamp ∧
      r = ⟨line, started, c.kind, c.pid, c.name, args, c.ret?, c.heading.instPointer, timestamp,
        c.elapsed?⟩ := by
  unfold ofCall
  rw [bind_eq_ok_iff]
  constructor
  · rintro ⟨⟨args, ds'⟩, hargs, h⟩
    obtain ⟨timestamp, htime, h⟩ := bind_eq_ok_iff.1 h
    obtain ⟨rfl, rfl⟩ := Prod.mk.inj (pure_eq_ok_iff.1 h)
    exact ⟨args, timestamp, mapError_eq_ok_iff.1 hargs, mapError_eq_ok_iff.1 htime, rfl⟩
  · rintro ⟨args, timestamp, hargs, htime, rfl⟩
    refine ⟨(args, ds), mapError_eq_ok_iff.2 hargs, ?_⟩
    exact bind_eq_ok_iff.2 ⟨timestamp, mapError_eq_ok_iff.2 htime, rfl⟩

theorem originalLine_of_ofCall (h : ofCall catalog mode c line started number = .ok (r, ds)) :
    r.originalLine = line := by
  obtain ⟨args, timestamp, -, -, rfl⟩ := ofCall_eq_ok_iff.1 h
  rfl

theorem pid_of_ofCall (h : ofCall catalog mode c line started number = .ok (r, ds)) :
    r.pid = c.pid := by
  obtain ⟨args, timestamp, -, -, rfl⟩ := ofCall_eq_ok_iff.1 h
  rfl

theorem isSome_of_readTimestamp {raw : Option Text} {timestamp : Option Timestamp}
    (h : readTimestamp mode raw = .ok timestamp) : timestamp.isSome = raw.isSome := by
  cases raw with
  | none =>
    obtain rfl := Except.ok.inj h
    rfl
  | some raw =>
    obtain ⟨t, -, ht⟩ := elim_eq_ok_iff.1 h
    obtain rfl := Except.ok.inj ht
    rfl

/-- The tokens of a call are kept as they are if the catalog does not know it, and cast if it
does. -/
theorem typeArguments_eq_ok_iff :
    typeArguments catalog c number = .ok (args, ds) ↔
      (catalog.resolve c.name = none ∧ args = c.args.map .unimplemented ∧
        ds = [.unknownSyscall c.name number]) ∨
      ∃ d casting, catalog.resolve c.name = some d ∧
        Casting.run c.name (catalog.signature c.name) c.args = .ok casting ∧
        args = casting.arguments c.kind ∧
        ds = casting.untyped.map fun p => .untypedParameter c.name p number := by
  unfold typeArguments
  cases hd : catalog.resolve c.name with
  | none => simp [eq_comm]
  | some d =>
    rw [Catalog.signature_of_resolve hd, map_eq_ok_iff]
    constructor
    · rintro ⟨output, hcast, hout⟩
      obtain ⟨casting, hrun, rfl⟩ := map_eq_ok_iff.1 hcast
      obtain ⟨rfl, rfl⟩ := Prod.mk.inj hout
      exact .inr ⟨d, casting, rfl, hrun, rfl, rfl⟩
    · rintro (⟨h, -⟩ | ⟨d', casting, -, hrun, rfl, rfl⟩)
      · cases h
      · exact ⟨_, map_eq_ok_iff.2 ⟨casting, hrun, rfl⟩, rfl⟩

/-- The diagnostics that come with a record are those that it shows. -/
theorem diagnostics_of_ofCall (h : ofCall catalog mode c line started number = .ok (r, ds)) :
    ds = r.diagnostics catalog number := by
  obtain ⟨args, timestamp, hargs, -, rfl⟩ := ofCall_eq_ok_iff.1 h
  unfold diagnostics
  rcases typeArguments_eq_ok_iff.1 hargs with ⟨hnone, -, rfl⟩ | ⟨d, casting, hd, hrun, rfl, rfl⟩
  · rw [if_pos (Catalog.resolve_eq_none_iff.1 hnone)]
  · have hknown : catalog.resolve c.name ≠ none := by simp [hd]
    rw [if_neg (mt Catalog.resolve_eq_none_iff.2 hknown), Casting.untyped_eq hrun]

theorem accountsFor_of_ofCall (h : ofCall catalog mode c line started number = .ok (r, ds)) :
    r.AccountsFor catalog c.args := by
  obtain ⟨args, timestamp, hargs, -, rfl⟩ := ofCall_eq_ok_iff.1 h
  unfold AccountsFor
  dsimp only
  rcases typeArguments_eq_ok_iff.1 hargs with ⟨hnone, rfl, -⟩ | ⟨d, casting, hd, hrun, rfl, -⟩
  · rw [if_pos hnone]
  · rw [if_neg (by simp [hd]), ← Casting.untyped_eq hrun]
    exact Casting.exists_accounts hrun

/-- A placeholder without a token ends the arguments of a call that finished. -/
theorem AccountsFor.of_isBare {tokens : List Text} (h : r.AccountsFor catalog tokens) {i : Nat}
    {v : ArgumentValue} (hv : r.args[i]? = some v) (hbare : v.isBare) :
    r.kind ≠ .unfinished ∧ i + 1 = r.args.length := by
  unfold AccountsFor at h
  split at h
  · rw [h, List.getElem?_map] at hv
    obtain ⟨token, -, rfl⟩ := Option.map_eq_some_iff.1 hv
    cases hbare
  · obtain ⟨m, cut, h⟩ := h
    exact h.of_isBare hv hbare

theorem line_of_mem_diagnostics {d : Diagnostic} (h : d ∈ r.diagnostics catalog number) :
    d.line = number := by
  unfold diagnostics at h
  split at h
  · rw [List.mem_singleton.1 h]
    rfl
  · obtain ⟨p, -, rfl⟩ := List.mem_map.1 h
    rfl

theorem line_of_ofCall (h : ofCall catalog mode c line started number = .ok (r, ds)) :
    ∀ d ∈ ds, d.line = number := by
  rw [diagnostics_of_ofCall h]
  exact fun d hd => line_of_mem_diagnostics hd

end Record

/-- A catalog that has a type for the first and the last parameter of a syscall, but none for the
one in between. -/
def readCatalog : Catalog :=
  .ofList [⟨"read".toList, some [⟨"fd".toList, some "int".toList, false, false⟩,
    ⟨"buf".toList, none, true, false⟩, ⟨"count".toList, some "size_t".toList, false, false⟩]⟩]

end SyscallTrace
