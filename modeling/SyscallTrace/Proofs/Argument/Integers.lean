import SyscallTrace.Proofs.Argument.Accounting
import SyscallTrace.Proofs.Decimal

/-!
# Integers among the arguments

An integer is chosen for a parameter only where digits stand, in brackets or plain
(`ArgumentKind.isDigits_of_select`). They are read if the number fits a signed word of 64 bits, and
are refused otherwise (`ArgumentValue.read_of_select`). A call is rejected for an integer exactly
if its cast comes to such a number (`Casting.run_eq_error_int_iff`): the readers of the other kinds
name their own kind in every error (`ArgumentValue.kind_of_read_eq_error`).
-/

namespace SyscallTrace

/-! ## The kinds that errors name -/

/-- The kind of value that was to be read. -/
def CastError.kind : CastError → ArgumentKind
  | value _ target => target
  | malformed kind _ _ => kind

theorem Braced.kind_of_take_eq_error {kind : ArgumentKind} {tokens : List Text} {e : CastError}
    (h : take kind tokens = .error e) : e.kind = kind := by
  unfold take at h
  split at h
  · rw [← Except.error.inj h]
    rfl
  · split at h
    · split at h
      · cases h
      · rw [← Except.error.inj h]
        rfl
    · rw [← Except.error.inj h]
      rfl

theorem SocketAddress.kind_of_take_eq_error {tokens : List Text} {e : CastError}
    (h : take tokens = .error e) : e.kind = .sockaddr := by
  unfold take at h
  split at h
  · rw [← Except.error.inj h]
    rfl
  · split at h
    · cases h
    · split at h
      · cases h
      · rcases bind_eq_error_iff.1 h with hbraced | ⟨braced, -, h⟩
        · exact Braced.kind_of_take_eq_error hbraced
        · split at h
          · cases h
          · rw [← Except.error.inj h]
            rfl

theorem StatBuffer.kind_of_take_eq_error {tokens : List Text} {e : CastError}
    (h : take tokens = .error e) : e.kind = .stat := by
  unfold take at h
  split at h
  · cases h
  · rcases bind_eq_error_iff.1 h with hbraced | ⟨braced, -, h⟩
    · exact Braced.kind_of_take_eq_error hbraced
    · dsimp only at h
      split at h
      · cases h
      · rw [← Except.error.inj h]
        rfl

namespace PollFd

variable {seen tokens : List Text} {e : CastError}

theorem kind_of_takeEntry_eq_error (h : takeEntry seen tokens = .error e) :
    e.kind = .pollFdList := by
  unfold takeEntry at h
  split at h
  · rw [← Except.error.inj h]
    rfl
  · split at h
    · rw [← Except.error.inj h]
      rfl
    · split at h
      · rw [← Except.error.inj h]
        rfl
      · split at h
        · rw [← Except.error.inj h]
          rfl
        · split at h
          · rw [← Except.error.inj h]
            rfl
          · cases h

theorem kind_of_takeEntries_eq_error (h : takeEntries seen tokens = .error e) :
    e.kind = .pollFdList := by
  induction hlen : tokens.length using Nat.strongRecOn generalizing seen tokens with
  | ind n ih =>
    cases hentry : takeEntry seen tokens with
    | error e' =>
      rw [takeEntries_of_error hentry] at h
      rw [← Except.error.inj h]
      exact kind_of_takeEntry_eq_error hentry
    | ok entry =>
      by_cases hlast : entry.isLast
      · rw [takeEntries_of_last hentry hlast] at h
        cases h
      · rw [takeEntries_of_not_last hentry hlast, map_eq_error_iff] at h
        exact ih _ (hlen ▸ length_rest_lt_of_takeEntry hentry) h rfl

theorem kind_of_takeList_eq_error (h : takeList tokens = .error e) : e.kind = .pollFdList := by
  unfold takeList at h
  split at h
  · rw [← Except.error.inj h]
    rfl
  · split at h
    · cases h
    · split at h
      · cases h
      · split at h
        · exact kind_of_takeEntries_eq_error (map_eq_error_iff.1 h)
        · rw [← Except.error.inj h]
          rfl

end PollFd

namespace ArgumentValue

variable {syscall : Text} {kind : ArgumentKind} {p : Parameter} {token : Text} {rest : List Text}
  {e : CastError}

/-- The text that an integer is read from: the token, without brackets around it. -/
def numeral (token : Text) : Text := (ArgumentKind.bracketed? token).getD token

theorem readInt_eq (token : Text) :
    readInt token = (Decimal.int64? (numeral token)).elim (.error (.value token .int)) .ok := rfl

theorem eq_of_readInt_eq_error (h : readInt token = .error e) : e = .value token .int := by
  obtain ⟨-, rfl⟩ | ⟨v, -, hv⟩ := elim_eq_error_iff.1 h
  · rfl
  · cases hv

theorem kind_of_readDescriptor_eq_error (h : readDescriptor token = .error e) :
    e.kind = .fileDescriptor := by
  unfold readDescriptor at h
  dsimp only at h
  split at h
  · cases h
  · rw [elim_eq_error_iff] at h
    obtain ⟨-, rfl⟩ | ⟨fd, -, hfd⟩ := h
    · rfl
    · cases hfd

/-- The error of a reader names the kind of its value. -/
theorem kind_of_read_eq_error (h : read kind token rest = .error e) : e.kind = kind := by
  cases kind with
  | int =>
    rw [eq_of_readInt_eq_error (map_eq_error_iff.1 h)]
    rfl
  | fileDescriptor => exact kind_of_readDescriptor_eq_error (map_eq_error_iff.1 h)
  | hex | filepath | flags | unimplemented => cases h
  | sockaddr => exact SocketAddress.kind_of_take_eq_error (map_eq_error_iff.1 h)
  | stat => exact StatBuffer.kind_of_take_eq_error (map_eq_error_iff.1 h)
  | pollFdList => exact PollFd.kind_of_takeList_eq_error (map_eq_error_iff.1 h)

end ArgumentValue

/-! ## Where integers are chosen -/

namespace ArgumentKind

variable {syscall type token : Text} {p : Parameter}

theorem bracketed?_of_isDigits (h : Decimal.isDigits token) : bracketed? token = none := by
  have hnone : Text.dropPrefix? token ['['] = none := by
    rw [Text.dropPrefix?_eq_none_iff]
    intro hopen
    exact absurd (Decimal.isDigit_of_isDigits h (hopen.mem List.mem_cons_self)) (by decide)
  unfold bracketed?
  rw [hnone]
  rfl

theorem isDigits_of_ofInteger (h : ofInteger syscall p type token = .int) :
    Decimal.isDigits (ArgumentValue.numeral token) := by
  unfold ofInteger at h
  split at h
  · cases h
  · split at h
    · cases h
    · split at h
      · split at h
        · next hinner =>
          obtain ⟨inner, htoken, hdigits⟩ := (Option.any_eq_true _ _).1 hinner
          unfold ArgumentValue.numeral
          rwa [htoken, Option.getD_some]
        · cases h
      · split at h
        · cases h
        · split at h
          · next hdigits =>
            unfold ArgumentValue.numeral
            rwa [bracketed?_of_isDigits hdigits, Option.getD_none]
          · cases h

/-- An integer is chosen only where digits stand. -/
theorem isDigits_of_select (h : select syscall p token = .int) :
    Decimal.isDigits (ArgumentValue.numeral token) := by
  unfold select at h
  split at h
  · cases h
  · next type _ =>
    split at h
    · split at h <;> cases h
    · split at h
      · split at h <;> cases h
      · split at h
        · exact isDigits_of_ofInteger h
        · split at h
          · cases h
          · split at h <;> cases h

end ArgumentKind

namespace ArgumentValue

variable {syscall : Text} {p : Parameter} {token : Text}

/-- The number that digits write is read if it fits the word, and its token is refused if not. -/
theorem read_of_select (h : ArgumentKind.select syscall p token = .int) (rest : List Text) :
    read .int token rest = if Decimal.valueOf (numeral token) < 2 ^ 63 then
      .ok (some (int (Int64.ofInt (Decimal.valueOf (numeral token)))), rest)
    else .error (.value token .int) := by
  unfold read
  dsimp only
  rw [readInt_eq, Decimal.int64?_of_isDigits (ArgumentKind.isDigits_of_select h)]
  by_cases hvalue : Decimal.valueOf (numeral token) < 2 ^ 63
  · rw [if_pos hvalue, if_pos hvalue]
    rfl
  · rw [if_neg hvalue, if_neg hvalue]
    rfl

theorem read_of_select_eq_error_iff (h : ArgumentKind.select syscall p token = .int)
    (rest : List Text) :
    read .int token rest = .error (.value token .int) ↔
      2 ^ 63 ≤ Decimal.valueOf (numeral token) := by
  rw [read_of_select h]
  constructor
  · intro herror
    by_contra hvalue
    rw [if_pos (Nat.not_le.1 hvalue)] at herror
    cases herror
  · intro hvalue
    exact if_neg (Nat.not_lt.2 hvalue)

end ArgumentValue

/-! ## Calls that are rejected for an integer -/

namespace Casting

variable {syscall : Text} {p : Parameter} {ps : List Parameter} {first token : Text}
  {tokens rest : List Text} {value? : Option ArgumentValue} {e : CastError}

/-- The cast comes to `token` for a parameter that an integer is chosen for, and the number there
does not fit the word. -/
def Overflows (syscall : Text) (ps : List Parameter) (tokens : List Text) (token : Text) : Prop :=
  ∃ before p after casting rest, ps = before ++ p :: after ∧
    run syscall before tokens = .ok casting ∧ casting.rest = token :: rest ∧
    ArgumentKind.select syscall p token = .int ∧
    2 ^ 63 ≤ Decimal.valueOf (ArgumentValue.numeral token)

theorem run_cons_of_error
    (h : ArgumentValue.read (ArgumentKind.select syscall p first) first tokens = .error e) :
    run syscall (p :: ps) (first :: tokens) = .error e := by
  rw [run]
  dsimp only
  rw [h]

theorem run_cons_eq_error_iff
    (h : ArgumentValue.read (ArgumentKind.select syscall p first) first tokens =
      .ok (value?, rest)) :
    run syscall (p :: ps) (first :: tokens) = .error e ↔ run syscall ps rest = .error e := by
  rw [run]
  dsimp only
  rw [h]
  dsimp only
  cases run syscall ps rest <;> simp

theorem overflows_cons_iff :
    Overflows syscall (p :: ps) (first :: tokens) token ↔
      (first = token ∧ ArgumentKind.select syscall p token = .int ∧
        2 ^ 63 ≤ Decimal.valueOf (ArgumentValue.numeral token)) ∨
      ∃ value? rest, ArgumentValue.read (ArgumentKind.select syscall p first) first tokens =
        .ok (value?, rest) ∧ Overflows syscall ps rest token := by
  constructor
  · rintro ⟨before, q, after, casting, left, hps, hrun, hleft, hselect, hvalue⟩
    cases before with
    | nil =>
      obtain ⟨rfl, rfl⟩ := List.cons.inj hps
      obtain rfl := Except.ok.inj hrun
      exact .inl ⟨(List.cons.inj hleft).1, hselect, hvalue⟩
    | cons p' before =>
      obtain ⟨rfl, rfl⟩ := List.cons.inj hps
      obtain ⟨value?, rest, others, hread, hrest, rfl⟩ := run_cons_eq_ok_iff.1 hrun
      exact .inr ⟨value?, rest, hread, before, q, after, others, left, rfl, hrest, hleft, hselect,
        hvalue⟩
  · rintro (⟨rfl, hselect, hvalue⟩ |
      ⟨value?, rest, hread, before, q, after, casting, left, rfl, hrun, hleft, hselect, hvalue⟩)
    · exact ⟨[], p, ps, ⟨[], none, first :: tokens⟩, tokens, rfl, rfl, rfl, hselect, hvalue⟩
    · exact ⟨p :: before, q, after, _, left, rfl,
        run_cons_eq_ok_iff.2 ⟨value?, rest, casting, hread, hrun, rfl⟩, hleft, hselect, hvalue⟩

theorem not_overflows_nil : ¬ Overflows syscall ps [] token := by
  rintro ⟨before, p, after, casting, left, -, hrun, hleft, -⟩
  have hsuffix := rest_suffix hrun
  rw [hleft, List.suffix_nil] at hsuffix
  cases hsuffix

theorem run_eq_error_int_iff :
    run syscall ps tokens = .error (.value token .int) ↔ Overflows syscall ps tokens token := by
  induction ps generalizing tokens with
  | nil =>
    refine ⟨fun h => (by cases h), ?_⟩
    rintro ⟨before, p, after, -, -, hps, -⟩
    simp at hps
  | cons p ps ih =>
    cases tokens with
    | nil => exact ⟨fun h => (by cases h), fun h => absurd h not_overflows_nil⟩
    | cons first tokens =>
      rw [overflows_cons_iff]
      cases hread : ArgumentValue.read (ArgumentKind.select syscall p first) first tokens with
      | ok r =>
        obtain ⟨value?, rest⟩ := r
        rw [run_cons_eq_error_iff hread, ih]
        constructor
        · exact fun h => .inr ⟨value?, rest, rfl, h⟩
        · rintro (⟨rfl, hselect, hvalue⟩ | ⟨value', rest', hrest, h⟩)
          · have herror := (ArgumentValue.read_of_select_eq_error_iff hselect tokens).2 hvalue
            rw [hselect, herror] at hread
            cases hread
          · obtain ⟨rfl, rfl⟩ := Prod.mk.inj (Except.ok.inj hrest)
            exact h
      | error e =>
        rw [run_cons_of_error hread, Except.error.injEq]
        constructor
        · rintro rfl
          have hselect : ArgumentKind.select syscall p first = .int :=
            (ArgumentValue.kind_of_read_eq_error hread).symm
          rw [hselect] at hread
          obtain ⟨rfl, -⟩ := CastError.value.inj
            (ArgumentValue.eq_of_readInt_eq_error (map_eq_error_iff.1 hread))
          exact .inl ⟨rfl, hselect,
            (ArgumentValue.read_of_select_eq_error_iff hselect tokens).1 hread⟩
        · rintro (⟨rfl, hselect, hvalue⟩ | ⟨value', rest', hrest, -⟩)
          · have herror := (ArgumentValue.read_of_select_eq_error_iff hselect tokens).2 hvalue
            rw [hselect, herror] at hread
            exact (Except.error.inj hread).symm
          · cases hrest

end Casting

/-- Where an integer is chosen its number is read exactly if it fits a signed word of 64 bits, and
a call is rejected for an integer exactly if its cast comes to one that does not fit. -/
theorem castArguments_integers (syscall : Text) :
    (∀ p token rest, ArgumentKind.select syscall p token = .int →
      ((∃ v, ArgumentValue.read .int token rest = .ok (some (.int v), rest) ∧
        v.toInt = Decimal.valueOf (ArgumentValue.numeral token)) ↔
          Decimal.valueOf (ArgumentValue.numeral token) < 2 ^ 63)) ∧
    ∀ kind parameters? tokens token,
      castArguments syscall kind parameters? tokens = .error (.value token .int) ↔
        Casting.Overflows syscall (parameters?.getD []) tokens token := by
  refine ⟨fun p token rest hselect => ?_, fun kind parameters? tokens token => ?_⟩
  · rw [ArgumentValue.read_of_select hselect]
    constructor
    · rintro ⟨v, hv, -⟩
      by_contra hvalue
      rw [if_neg hvalue] at hv
      cases hv
    · intro hvalue
      refine ⟨_, if_pos hvalue, Int64.toInt_ofInt_of_le ?_ ?_⟩
      · omega
      · omega
  · unfold castArguments
    rw [map_eq_error_iff]
    exact Casting.run_eq_error_int_iff

/-- The largest number that fits, in brackets. -/
theorem castArguments_integers_largest :
    let p : Parameter := ⟨"result".toList, some "loff_t".toList, true, false⟩
    let token := "[9223372036854775807]".toList
    ArgumentKind.select "llseek".toList p token = .int ∧
      ∃ v, ArgumentValue.read .int token [] = .ok (some (.int v), []) ∧
        v.toInt = Decimal.valueOf (ArgumentValue.numeral token) := by
  intro p token
  have hselect : ArgumentKind.select "llseek".toList p token = .int := by decide +kernel
  exact ⟨hselect, ((castArguments_integers "llseek".toList).1 p token [] hselect).2
    (by decide +kernel)⟩

/-- The largest unsigned number is chosen as an integer, and the call is rejected for it. -/
theorem castArguments_rejects_unsigned :
    let offset : Parameter := ⟨"offset".toList, some "loff_t".toList, false, false⟩
    let ps : List Parameter := [⟨"fd".toList, some "int".toList, false, false⟩, offset,
      ⟨"result".toList, some "loff_t".toList, true, false⟩,
      ⟨"whence".toList, some "int".toList, false, false⟩]
    let token := "18446744073709551615".toList
    ArgumentKind.select "llseek".toList offset token = .int ∧ Decimal.isDigits token ∧
      castArguments "llseek".toList .complete (some ps)
        ["3".toList, token, '[' :: token ++ [']'], "SEEK_END".toList] =
          .error (.value token .int) := by
  decide +kernel

end SyscallTrace
