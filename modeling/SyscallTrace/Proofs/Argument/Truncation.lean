import SyscallTrace.Proofs.Argument.Accounting

/-!
# Calls cut short

The line of an unfinished call ends before its tokens do. Where it ends between the tokens of two
parameters, its arguments are those that the finished call starts with, and nothing stands for the
parameters after them (`castArguments_take_cutAt`).

1. No reader of values looks further than the rest of the tokens reaches
   (`ArgumentValue.exists_taken_of_read`), so a step of the cast is the same when the tokens end
   at a later cut, and the cast up to a cut has the steps before it (`Casting.run_take_cutAt`).
2. The accounts of both casts agree on the parameters without a typed representation
   (`Casting.untyped_cutShort`).
-/

namespace SyscallTrace

theorem Accounts.cut_lt {syscall : Text} {kind : CallKind} {ps : List Parameter}
    {tokens : List Text} {output : CastOutput} {m : Nat} {cut : Nat → Nat}
    (h : Accounts syscall kind ps tokens output m cut) {i j : Nat} (hij : i < j) (hj : j ≤ m) :
    cut i < cut j := by
  induction j with
  | zero => omega
  | succ j ih =>
    have hlast := h.increasing j (by omega)
    by_cases hi : i = j
    · rwa [hi]
    · have := ih (by omega) (by omega)
      omega

namespace Casting

variable {syscall : Text} {kind : CallKind} {ps : List Parameter} {tokens : List Text}
  {casting : Casting} {k : Nat}

/-- The cast up to its place `k`, with no tokens left for the parameters from there on. -/
def cutShort (c : Casting) (ps : List Parameter) (k : Nat) : Casting :=
  ⟨c.steps.take k, ps[k]?, []⟩

theorem cutAt_cutShort {i : Nat} (hi : i ≤ k) :
    (casting.cutShort ps k).cutAt i = casting.cutAt i := by
  unfold cutAt cutShort
  rw [List.take_take, Nat.min_eq_left hi]

/-- Tokens that end at a cut of a cast give the steps before the cut. -/
theorem run_take_cutAt (h : run syscall ps tokens = .ok casting) (hk : k ≤ casting.steps.length) :
    run syscall ps (tokens.take (casting.cutAt k)) = .ok (casting.cutShort ps k) := by
  induction ps generalizing tokens casting k with
  | nil =>
    obtain rfl := Except.ok.inj h
    obtain rfl := Nat.le_zero.1 hk
    rfl
  | cons p ps ih =>
    cases tokens with
    | nil =>
      obtain rfl := Except.ok.inj h
      obtain rfl := Nat.le_zero.1 hk
      rfl
    | cons token tokens =>
      obtain ⟨value?, rest, others, hread, hrest, rfl⟩ := run_cons_eq_ok_iff.1 h
      cases k with
      | zero => rfl
      | succ k =>
        obtain ⟨taken, rfl, hshort⟩ := ArgumentValue.exists_taken_of_read hread
        have hstep : ∀ rest', (token :: (taken ++ rest')).take
            ((taken ++ rest').length + 1 - rest'.length) = token :: taken := fun rest' =>
          take_of_taken rfl
        have htokens : (token :: (taken ++ rest)).take ((token :: taken).length + others.cutAt k) =
            token :: (taken ++ rest.take (others.cutAt k)) := by
          rw [← List.cons_append, List.take_length_add_append, List.cons_append]
        rw [hstep, cutAt_cons]
        show run syscall (p :: ps) ((token :: (taken ++ rest)).take
          ((token :: taken).length + others.cutAt k)) = _
        rw [htokens]
        refine run_cons_eq_ok_iff.2 ⟨value?, rest.take (others.cutAt k), others.cutShort ps k,
          hshort _ (List.take_prefix _ _), ih hrest (Nat.le_of_succ_le_succ hk), ?_⟩
        rw [hstep]
        rfl

/-- An unfinished call has no argument for a parameter without tokens. -/
theorem arguments_cutShort (hk : k ≤ casting.steps.length) :
    (casting.cutShort ps k).arguments .unfinished = (casting.arguments kind).take k := by
  have hk : k ≤ (casting.steps.map CastStep.argument).length := by rwa [List.length_map]
  unfold arguments
  rw [List.append_assoc (casting.steps.map _), List.take_append_of_le_length hk, ← List.map_take,
    if_pos rfl, List.append_nil]
  exact List.append_nil _

theorem untyped_cutShort (h : run syscall ps tokens = .ok casting)
    (hk : k ≤ casting.steps.length) :
    (casting.cutShort ps k).untyped =
      (List.range k).filterMap (untypedAt syscall ps tokens casting.cutAt) := by
  have haccounts : Accounts syscall .unfinished ps tokens _ _ _ := accounts h
  have hshort : (casting.cutShort ps k).untyped = _ :=
    (accounts (run_take_cutAt h hk) : Accounts syscall .unfinished ps _ _ _ _).untyped
  have hlength : (casting.cutShort ps k).steps.length = k := List.length_take_of_le hk
  rw [hlength] at hshort
  refine hshort.trans (List.filterMap_congr fun i hi => ?_)
  have hi : i < k := List.mem_range.1 hi
  unfold untypedAt
  rw [cutAt_cutShort (Nat.le_of_lt hi), List.getElem?_take_of_lt (haccounts.cut_lt hi hk)]

end Casting

/-- A call whose tokens end at a cut of its cast is cast to the arguments before the cut, and
reports the parameters without a typed representation among those before the cut. -/
theorem castArguments_take_cutAt {syscall : Text} {kind : CallKind}
    {parameters? : Option (List Parameter)} {tokens : List Text} {output : CastOutput}
    (h : castArguments syscall kind parameters? tokens = .ok output) :
    ∃ casting, Casting.run syscall (parameters?.getD []) tokens = .ok casting ∧
      Accounts syscall kind (parameters?.getD []) tokens output casting.steps.length
        casting.cutAt ∧
      ∀ k ≤ casting.steps.length,
        castArguments syscall .unfinished parameters? (tokens.take (casting.cutAt k)) =
          .ok ⟨output.arguments.take k, (List.range k).filterMap
            (untypedAt syscall (parameters?.getD []) tokens casting.cutAt)⟩ := by
  obtain ⟨casting, hrun, rfl⟩ := map_eq_ok_iff.1 h
  refine ⟨casting, hrun, Casting.accounts hrun, fun k hk => ?_⟩
  refine map_eq_ok_iff.2 ⟨_, Casting.run_take_cutAt hrun hk, ?_⟩
  rw [Casting.arguments_cutShort hk, Casting.untyped_cutShort hrun hk]

/-- A poll array with its returned events, its length and a time limit that has no typed value,
without the signal mask and the token behind it. -/
theorem castArguments_take_cutAt_ppoll :
    let ps : List Parameter := [⟨"fds".toList, some "pollfd".toList, true, false⟩,
      ⟨"nfds".toList, some "nfds_t".toList, false, false⟩,
      ⟨"tmo_p".toList, some "timespec".toList, true, true⟩,
      ⟨"sigmask".toList, some "sigset_t".toList, true, false⟩]
    let tokens := ["[\x7bfd=4".toList, "events=POLLIN\x7d".toList, "revents=POLLIN\x7d]".toList,
      "1".toList, "NULL".toList, "NULL".toList, "8".toList]
    let args : List ArgumentValue := [.pollFdList [⟨4, "POLLIN".toList, some "POLLIN".toList⟩],
      .int 1, .unimplemented "NULL".toList, .hex "NULL".toList, .unimplemented "8".toList]
    let untyped : List UntypedParameter := [⟨"tmo_p".toList, some "timespec".toList⟩]
    castArguments "ppoll".toList .resumed (some ps) tokens = .ok ⟨args, untyped⟩ ∧
      castArguments "ppoll".toList .unfinished (some ps) (tokens.take 5) =
        .ok ⟨args.take 3, untyped⟩ := by
  intro ps tokens args untyped
  have hcast : castArguments "ppoll".toList .resumed (some ps) tokens = .ok ⟨args, untyped⟩ := by
    decide +kernel
  have hcuts : ((Casting.run "ppoll".toList ps tokens).toOption.map fun c =>
      (c.steps.length, c.cutAt 3,
        (List.range 3).filterMap (untypedAt "ppoll".toList ps tokens c.cutAt))) =
        some (4, 5, untyped) := by
    decide +kernel
  obtain ⟨casting, hrun, -, hshort⟩ := castArguments_take_cutAt hcast
  have hrun : Casting.run "ppoll".toList ps tokens = .ok casting := hrun
  rw [hrun] at hcuts
  obtain ⟨hlength, hcuts⟩ := Prod.mk.inj (Option.some.inj hcuts)
  obtain ⟨hcut, huntyped⟩ := Prod.mk.inj hcuts
  have h := hshort 3 (by omega)
  rw [hcut] at h
  refine ⟨hcast, h.trans ?_⟩
  rw [← huntyped]
  rfl

end SyscallTrace
