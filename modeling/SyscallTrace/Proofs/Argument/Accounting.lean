import SyscallTrace.Proofs.Argument.Consumption

/-!
# Token accounting

A cast cuts the tokens of a call into pieces, one for each parameter that it reaches, and reads each
argument from exactly its piece. `Casting.accounts` gives the cuts of every cast that succeeds: no
token is lost, none is read twice, and the arguments stay in line with the parameters.
-/

namespace SyscallTrace

/-- The untyped parameter at place `i`, if the parameter there has no typed representation for the
token at the cut. -/
def untypedAt (syscall : Text) (ps : List Parameter) (tokens : List Text) (cut : Nat → Nat)
    (i : Nat) : Option UntypedParameter :=
  ps[i]?.bind fun p => tokens[cut i]?.bind fun token =>
    if ArgumentKind.select syscall p token = .unimplemented then some ⟨p.name, p.type?⟩ else none

/-- How the output of a cast accounts for its tokens: the first `m` parameters got the tokens
between neighbouring cuts. -/
structure Accounts (syscall : Text) (kind : CallKind) (ps : List Parameter) (tokens : List Text)
    (output : CastOutput) (m : Nat) (cut : Nat → Nat) : Prop where
  zero : cut 0 = 0
  increasing : ∀ i < m, cut i < cut (i + 1)
  within : cut m ≤ tokens.length
  used : m ≤ ps.length
  /-- Each argument is built from exactly the tokens between its cuts. A placeholder stands where
  there is no value in them. -/
  built : ∀ i < m, ∃ p token value?, ps[i]? = some p ∧ tokens[cut i]? = some token ∧
    ArgumentValue.Builds (ArgumentKind.select syscall p token)
      (tokens.extract (cut i) (cut (i + 1))) value? ∧
    output.arguments[i]? = some (value?.getD (.missing ⟨p, some token⟩))
  /-- A parameter is only left out when there are no more tokens. -/
  ranOut : ∀ p, ps[m]? = some p → cut m = tokens.length ∧
    output.arguments.drop m = if kind = .unfinished then [] else [.missing ⟨p, none⟩]
  leftOver : m = ps.length → output.arguments.drop m = (tokens.drop (cut m)).map .unimplemented
  untyped : output.untyped = (List.range m).filterMap (untypedAt syscall ps tokens cut)

/-- An argument behind those of the parameters that got tokens is a token of its own, or it is the
last one and stands for a parameter that got none. -/
theorem Accounts.of_le {syscall : Text} {kind : CallKind} {ps : List Parameter}
    {tokens : List Text} {output : CastOutput} {m : Nat} {cut : Nat → Nat}
    (h : Accounts syscall kind ps tokens output m cut) {i : Nat} {v : ArgumentValue} (hi : m ≤ i)
    (hv : output.arguments[i]? = some v) :
    (∃ p, v = .missing ⟨p, none⟩ ∧ kind ≠ .unfinished ∧ i + 1 = output.arguments.length) ∨
      ∃ t, v = .unimplemented t ∧ (tokens.drop (cut m))[i - m]? = some t := by
  have hdrop : (output.arguments.drop m)[i - m]? = some v := by
    rw [List.getElem?_drop, Nat.add_sub_cancel' hi, hv]
  cases hp : ps[m]? with
  | some p =>
    have hlength : (output.arguments.drop m).length = output.arguments.length - m :=
      List.length_drop
    have hlt : i < output.arguments.length := (List.getElem?_eq_some_iff.1 hv).1
    rw [(h.ranOut p hp).2] at hdrop hlength
    by_cases hk : kind = .unfinished
    · rw [if_pos hk] at hdrop
      cases hdrop
    · rw [if_neg hk] at hdrop hlength
      rw [List.length_singleton] at hlength
      exact .inl ⟨p, List.mem_singleton.1 (List.mem_of_getElem? hdrop), hk, by omega⟩
  | none =>
    have hm : m = ps.length := Nat.le_antisymm h.used (List.getElem?_eq_none_iff.1 hp)
    rw [h.leftOver hm, List.getElem?_map] at hdrop
    obtain ⟨t, ht, rfl⟩ := Option.map_eq_some_iff.1 hdrop
    exact .inr ⟨t, rfl, ht⟩

namespace Casting

variable {syscall : Text} {kind : CallKind} {p : Parameter} {ps : List Parameter} {token : Text}
  {tokens taken rest : List Text} {output : CastOutput} {m : Nat} {cut : Nat → Nat}

theorem accounts_nil : Accounts syscall kind [] tokens ⟨tokens.map .unimplemented, []⟩ 0
    fun _ => 0 where
  zero := rfl
  increasing i hi := absurd hi (Nat.not_lt_zero i)
  within := Nat.zero_le _
  used := Nat.le_refl 0
  built i hi := absurd hi (Nat.not_lt_zero i)
  ranOut p hp := by cases hp
  leftOver _ := rfl
  untyped := rfl

theorem accounts_ranOut : Accounts syscall kind (p :: ps) []
    ⟨if kind = .unfinished then [] else [.missing ⟨p, none⟩], []⟩ 0 fun _ => 0 where
  zero := rfl
  increasing i hi := absurd hi (Nat.not_lt_zero i)
  within := Nat.le_refl 0
  used := Nat.zero_le _
  built i hi := absurd hi (Nat.not_lt_zero i)
  ranOut q hq := by
    obtain rfl := Option.some.inj hq
    exact ⟨rfl, rfl⟩
  leftOver h := by cases h
  untyped := rfl

/-- Where the tokens of the step at place `i` start. -/
def cutAt (c : Casting) (i : Nat) : Nat :=
  ((c.steps.take i).flatMap CastStep.tokens).length

/-- The cuts of a cast whose first parameter takes `n` tokens. -/
def shift (n : Nat) (cut : Nat → Nat) : Nat → Nat
  | 0 => 0
  | i + 1 => n + cut i

theorem getElem?_shift (i : Nat) :
    (taken ++ rest)[shift taken.length cut (i + 1)]? = rest[cut i]? := by
  show (taken ++ rest)[taken.length + cut i]? = _
  rw [List.getElem?_append_right (Nat.le_add_right _ _), Nat.add_sub_cancel_left]

theorem extract_shift (i j : Nat) :
    (taken ++ rest).extract (taken.length + i) (taken.length + j) = rest.extract i j := by
  rw [List.extract_eq_take_drop, List.extract_eq_take_drop, List.drop_length_add_append,
    Nat.add_sub_add_left]

/-- The accounts of a cast, from what the first parameter takes and the accounts of the others. -/
theorem accounts_cons {value? : Option ArgumentValue} (htaken : tokens = taken ++ rest)
    (htoken : taken.head? = some token)
    (hb : ArgumentValue.Builds (ArgumentKind.select syscall p token) taken value?)
    (h : Accounts syscall kind ps rest output m cut) :
    Accounts syscall kind (p :: ps) tokens
      ⟨value?.getD (.missing ⟨p, some token⟩) :: output.arguments,
        (if ArgumentKind.select syscall p token = .unimplemented then [⟨p.name, p.type?⟩]
          else []) ++ output.untyped⟩
      (m + 1) (shift taken.length cut) := by
  subst htaken
  have hpos : 0 < taken.length := List.length_pos_iff.2 hb.ne_nil
  have hzero : (taken ++ rest)[shift taken.length cut 0]? = some token := by
    rw [← htoken, ← List.head?_append_of_ne_nil _ hb.ne_nil, List.head?_eq_getElem?]
    rfl
  refine ⟨rfl, fun i hi => ?_, ?_, ?_, fun i hi => ?_, fun q hq => ?_, fun hm => ?_, ?_⟩
  · cases i with
    | zero =>
      show 0 < taken.length + cut 0
      omega
    | succ i => exact Nat.add_lt_add_left (h.increasing i (by omega)) _
  · rw [List.length_append]
    exact Nat.add_le_add_left h.within _
  · exact Nat.succ_le_succ h.used
  · cases i with
    | zero =>
      refine ⟨p, token, value?, rfl, hzero, ?_, rfl⟩
      have hslice : (taken ++ rest).extract (shift taken.length cut 0)
          (shift taken.length cut 1) = taken := by
        show (taken ++ rest).extract 0 (taken.length + cut 0) = taken
        rw [h.zero, List.extract_eq_take_drop]
        simp
      rw [hslice]
      exact hb
    | succ i =>
      obtain ⟨q, t, v, hq, ht, hbuilds, harg⟩ := h.built i (by omega)
      refine ⟨q, t, v, hq, (getElem?_shift i).trans ht, ?_, harg⟩
      have hslice : (taken ++ rest).extract (shift taken.length cut (i + 1))
          (shift taken.length cut (i + 1 + 1)) = rest.extract (cut i) (cut (i + 1)) :=
        extract_shift _ _
      rw [hslice]
      exact hbuilds
  · obtain ⟨hcut, harg⟩ := h.ranOut q hq
    refine ⟨?_, harg⟩
    rw [List.length_append, ← hcut]
    rfl
  · have hrest := h.leftOver (Nat.succ.inj hm)
    show output.arguments.drop m = _
    rw [hrest, show shift taken.length cut (m + 1) = taken.length + cut m from rfl,
      List.drop_length_add_append]
  · rw [List.range_succ_eq_map, List.filterMap_cons, List.filterMap_map]
    have hrest : (List.range m).filterMap
        (untypedAt syscall (p :: ps) (taken ++ rest) (shift taken.length cut) ∘ Nat.succ) =
          output.untyped := by
      rw [h.untyped]
      refine List.filterMap_congr fun i _ => ?_
      show untypedAt syscall (p :: ps) (taken ++ rest) (shift taken.length cut) (i + 1) = _
      unfold untypedAt
      rw [getElem?_shift]
      rfl
    have hfirst : untypedAt syscall (p :: ps) (taken ++ rest) (shift taken.length cut) 0 =
        if ArgumentKind.select syscall p token = .unimplemented then some ⟨p.name, p.type?⟩
        else none := by
      unfold untypedAt
      rw [hzero]
      rfl
    rw [hrest, hfirst]
    split <;> rfl

/-- A cast that reads a value for its first parameter, and casts the rest of the tokens. -/
theorem run_cons_eq_ok_iff {casting : Casting} :
    run syscall (p :: ps) (token :: tokens) = .ok casting ↔
      ∃ value? rest others, ArgumentValue.read (ArgumentKind.select syscall p token) token tokens =
          .ok (value?, rest) ∧ run syscall ps rest = .ok others ∧
        casting = { others with
          steps := ⟨p, ArgumentKind.select syscall p token,
            (token :: tokens).take (tokens.length + 1 - rest.length), value?⟩ :: others.steps } := by
  rw [run]
  dsimp only
  constructor
  · intro h
    split at h
    · cases h
    · next value? rest hread =>
      split at h
      · cases h
      · next others hrest => exact ⟨value?, rest, others, hread, hrest, (Except.ok.inj h).symm⟩
  · rintro ⟨value?, rest, others, hread, hrest, rfl⟩
    rw [hread]
    dsimp only
    rw [hrest]

/-- A step holds the tokens that its parameter takes. -/
theorem take_of_taken (h : token :: tokens = taken ++ rest) :
    (token :: tokens).take (tokens.length + 1 - rest.length) = taken := by
  have hlen := congrArg List.length h
  rw [List.length_cons, List.length_append] at hlen
  rw [h, show tokens.length + 1 - rest.length = taken.length by omega]
  exact List.take_left

/-- What a cast leaves is the end of its tokens. -/
theorem rest_suffix {casting : Casting} (h : run syscall ps tokens = .ok casting) :
    casting.rest <:+ tokens := by
  induction ps generalizing tokens casting with
  | nil =>
    obtain rfl := Except.ok.inj h
    exact List.suffix_refl tokens
  | cons p ps ih =>
    cases tokens with
    | nil =>
      obtain rfl := Except.ok.inj h
      exact List.suffix_refl []
    | cons token tokens =>
      obtain ⟨value?, rest, others, hread, hrest, rfl⟩ := run_cons_eq_ok_iff.1 h
      obtain ⟨taken, htaken, -⟩ := ArgumentValue.exists_builds_of_read hread
      exact (ih hrest).trans ⟨taken, htaken.symm⟩

theorem cutAt_nil (unfilled : Option Parameter) (rest : List Text) :
    cutAt ⟨[], unfilled, rest⟩ = fun _ => 0 := by
  funext i
  unfold cutAt
  rw [List.take_nil]
  rfl

theorem cutAt_cons (step : CastStep) (c : Casting) :
    cutAt { c with steps := step :: c.steps } = shift step.tokens.length c.cutAt := by
  funext i
  cases i with
  | zero => rfl
  | succ i => exact List.length_append

/-- The steps of a cast account for its tokens. -/
theorem accounts {casting : Casting} (h : run syscall ps tokens = .ok casting) :
    Accounts syscall kind ps tokens ⟨casting.arguments kind, casting.untyped⟩
      casting.steps.length casting.cutAt := by
  induction ps generalizing tokens casting with
  | nil =>
    obtain rfl := Except.ok.inj h
    have hargs : Casting.arguments ⟨[], none, tokens⟩ kind = tokens.map .unimplemented := by
      unfold arguments
      simp
    rw [hargs, cutAt_nil]
    exact accounts_nil
  | cons p ps ih =>
    cases tokens with
    | nil =>
      obtain rfl := Except.ok.inj h
      have hargs : Casting.arguments ⟨[], some p, []⟩ kind =
          if kind = .unfinished then [] else [.missing ⟨p, none⟩] := by
        unfold arguments
        simp
      rw [hargs, cutAt_nil]
      exact accounts_ranOut
    | cons token tokens =>
      obtain ⟨value?, rest, others, hread, hrest, rfl⟩ := run_cons_eq_ok_iff.1 h
      obtain ⟨taken, htaken, hb⟩ := ArgumentValue.exists_builds_of_read hread
      have htoken : taken.head? = some token := by
        rw [← List.head?_append_of_ne_nil _ hb.ne_nil, ← htaken, List.head?_cons]
      rw [take_of_taken htaken, cutAt_cons, List.length_cons]
      convert accounts_cons htaken htoken hb (ih hrest) using 2
      · show CastStep.argument _ :: _ = _
        unfold CastStep.argument
        rw [htoken]
        rfl
      · by_cases hk : ArgumentKind.select syscall p token = .unimplemented
        · rw [if_pos hk]
          exact List.filterMap_cons_some (if_pos hk)
        · rw [if_neg hk]
          exact List.filterMap_cons_none (if_neg hk)

theorem exists_accounts {casting : Casting} (h : run syscall ps tokens = .ok casting) :
    ∃ m cut, Accounts syscall kind ps tokens ⟨casting.arguments kind, casting.untyped⟩ m cut :=
  ⟨_, _, accounts h⟩

end Casting

end SyscallTrace
