import SyscallTrace.Proofs.Argument.Accounting

/-!
# Arguments without a typed value

An argument has no typed value if its token was kept as it is, or if a placeholder stands in its
place. The arguments show by themselves which parameters have no typed representation
(`Casting.untyped_eq`), and a placeholder without a token can only be the last argument of a call
that finished (`Accounts.of_isBare`).
-/

namespace SyscallTrace

namespace ArgumentValue

variable {kind : ArgumentKind} {token : Text} {rest rest' : List Text} {v : ArgumentValue}
  {value? : Option ArgumentValue} {p : Placeholder}

/-- The value stands for a parameter that no token was left for. -/
def isBare : ArgumentValue → Bool
  | missing placeholder => placeholder.given.isNone
  | _ => false

/-- A value that is read has the kind that it is read for. -/
theorem kind?_of_read (h : read kind token rest = .ok (some v, rest')) : v.kind? = some kind := by
  have hmap : ∀ {α : Type} {x : Except CastError α} {f : α → Option ArgumentValue × List Text},
      x.map f = .ok (some v, rest') → ∃ a, f a = (some v, rest') := fun hx => by
    obtain ⟨a, -, ha⟩ := map_eq_ok_iff.1 hx
    exact ⟨a, ha⟩
  cases kind with
  | int | fileDescriptor =>
    obtain ⟨a, ha⟩ := hmap h
    rw [← Option.some.inj (Prod.mk.inj ha).1]
    rfl
  | hex | flags | unimplemented =>
    rw [← Option.some.inj (Prod.mk.inj (Except.ok.inj h)).1]
    rfl
  | filepath =>
    obtain ⟨path, -, rfl⟩ := Option.map_eq_some_iff.1 (Prod.mk.inj (Except.ok.inj h)).1
    rfl
  | sockaddr | stat | pollFdList =>
    obtain ⟨a, ha⟩ := hmap h
    obtain ⟨x, -, rfl⟩ := Option.map_eq_some_iff.1 (Prod.mk.inj ha).1
    rfl

theorem read_unimplemented (h : read .unimplemented token rest = .ok (value?, rest')) :
    value? = some (.unimplemented token) :=
  (Prod.mk.inj (Except.ok.inj h)).1.symm

/-- The value, or else the placeholder, is untyped exactly if the kind is. -/
theorem kind?_getD_eq_iff (h : read kind token rest = .ok (value?, rest')) :
    (value?.getD (.missing p)).kind? = some .unimplemented ↔ kind = .unimplemented := by
  cases value? with
  | some v =>
    rw [Option.getD_some, kind?_of_read h, Option.some.injEq]
  | none =>
    refine ⟨fun hkind => (by cases hkind), fun hkind => ?_⟩
    subst hkind
    cases read_unimplemented h

theorem isBare_getD_eq_false (h : read kind token rest = .ok (value?, rest'))
    (hp : p.given.isNone = false) : (value?.getD (.missing p)).isBare = false := by
  cases value? with
  | none => exact hp
  | some v =>
    have hkind := kind?_of_read h
    cases v with
    | missing => cases hkind
    | _ => rfl

end ArgumentValue

/-- The parameters that these arguments are untyped for, in order. -/
def untypedParameters (ps : List Parameter) (args : List ArgumentValue) : List UntypedParameter :=
  (ps.zip args).filterMap fun x =>
    if x.2.kind? = some .unimplemented then some ⟨x.1.name, x.1.type?⟩ else none

theorem untypedParameters_cons (p : Parameter) (ps : List Parameter) (v : ArgumentValue)
    (args : List ArgumentValue) :
    untypedParameters (p :: ps) (v :: args) =
      (if v.kind? = some .unimplemented then [⟨p.name, p.type?⟩] else []) ++
        untypedParameters ps args := by
  unfold untypedParameters
  rw [List.zip_cons_cons, List.filterMap_cons]
  by_cases hv : v.kind? = some .unimplemented <;> simp [hv]

namespace Casting

variable {syscall : Text} {kind : CallKind} {ps : List Parameter} {tokens : List Text}
  {casting : Casting}

theorem arguments_cons (step : CastStep) (casting : Casting) (kind : CallKind) :
    arguments { casting with steps := step :: casting.steps } kind =
      step.argument :: casting.arguments kind := by
  unfold arguments
  rfl

/-- A cast reports the parameters whose arguments are untyped. -/
theorem untyped_eq (h : run syscall ps tokens = .ok casting) :
    casting.untyped = untypedParameters ps (casting.arguments kind) := by
  induction ps generalizing tokens casting with
  | nil =>
    obtain rfl := Except.ok.inj h
    rfl
  | cons p ps ih =>
    cases tokens with
    | nil =>
      obtain rfl := Except.ok.inj h
      unfold untypedParameters arguments
      cases kind <;> simp [untyped, ArgumentValue.kind?]
    | cons token tokens =>
      obtain ⟨value?, rest, others, hread, hrest, rfl⟩ := run_cons_eq_ok_iff.1 h
      rw [arguments_cons, untypedParameters_cons, ← ih hrest]
      have hkind : ∀ taken, (CastStep.argument ⟨p, ArgumentKind.select syscall p token, taken,
          value?⟩).kind? = some .unimplemented ↔
            ArgumentKind.select syscall p token = .unimplemented := fun taken =>
        ArgumentValue.kind?_getD_eq_iff hread
      by_cases hk : ArgumentKind.select syscall p token = .unimplemented
      · rw [if_pos ((hkind _).2 hk)]
        exact List.filterMap_cons_some (if_pos hk)
      · rw [if_neg (mt (hkind _).1 hk)]
        exact List.filterMap_cons_none (if_neg hk)

end Casting

/-- A placeholder without a token ends the arguments of a call that finished. -/
theorem Accounts.of_isBare {syscall : Text} {kind : CallKind} {ps : List Parameter}
    {tokens : List Text} {output : CastOutput} {m : Nat} {cut : Nat → Nat}
    (h : Accounts syscall kind ps tokens output m cut) {i : Nat} {v : ArgumentValue}
    (hv : output.arguments[i]? = some v) (hbare : v.isBare) :
    kind ≠ .unfinished ∧ i + 1 = output.arguments.length := by
  by_cases hi : i < m
  · -- a parameter that got tokens has a value, or a placeholder with the first of them
    obtain ⟨p, token, value?, -, -, ⟨first, rest, -, hread⟩, harg⟩ := h.built i hi
    obtain rfl := Option.some.inj (hv.symm.trans harg)
    rw [ArgumentValue.isBare_getD_eq_false hread rfl] at hbare
    cases hbare
  rcases h.of_le (Nat.not_lt.1 hi) hv with ⟨p, -, hkind, hlast⟩ | ⟨t, rfl, -⟩
  · exact ⟨hkind, hlast⟩
  · cases hbare

end SyscallTrace
