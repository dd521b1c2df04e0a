import SyscallTrace.Argument.Casting
import SyscallTrace.Proofs.Success

/-!
# Casting with a cursor

The casting of `Casting.run` hands each reader the tokens that are left. Here is the same engine over
one fixed list of tokens, with a cursor that each reader moves forward: it takes items and ranges of
the list by index, and stops as out of range at an index that the list does not have.
-/

namespace SyscallTrace

namespace Cursor

/-- Why a computation with indices stops. -/
inductive Stop where
  | outOfRange
  | error (e : CastError)
  deriving DecidableEq

variable {α β : Type}

/-! ## Checked indices -/

/-- The item at an index. -/
def item (xs : List α) (i : Nat) : Except Stop α :=
  xs[i]?.elim (.error .outOfRange) .ok

/-- The items from one index up to another. -/
def range (xs : List α) (a b : Nat) : Except Stop (List α) :=
  if a ≤ b ∧ b ≤ xs.length then .ok (xs.extract a b) else .error .outOfRange

/-- A difference of indices. -/
def minus (a b : Nat) : Except Stop Nat :=
  if b ≤ a then .ok (a - b) else .error .outOfRange

/-- Fails with the first `n` tokens. -/
def malformed (kind : ArgumentKind) (tokens : List Text) (n : Nat) (fault : StructureFault) :
    Except Stop α := do
  let shown ← range tokens 0 n
  .error (.error (.malformed kind shown fault))

/-- A result of the engine without indices. -/
def lift (x : Except CastError α) : Except Stop α := x.mapError .error

theorem item_eq {xs : List α} {i : Nat} {x : α} (h : xs[i]? = some x) : item xs i = .ok x := by
  rw [item, h]
  rfl

theorem range_zero {xs : List α} {n : Nat} (h : n ≤ xs.length) :
    range xs 0 n = .ok (xs.take n) := by
  rw [range, if_pos ⟨Nat.zero_le n, h⟩, List.extract_eq_take_drop]
  rfl

theorem range_length {xs : List α} {n : Nat} (h : n ≤ xs.length) :
    range xs n xs.length = .ok (xs.drop n) := by
  rw [range, if_pos ⟨h, Nat.le_refl _⟩, List.extract_eq_take_drop,
    List.take_of_length_le (Nat.le_of_eq List.length_drop)]

theorem malformed_eq {kind : ArgumentKind} {tokens : List Text} {n : Nat} {fault : StructureFault}
    (h : n ≤ tokens.length) :
    (malformed kind tokens n fault : Except Stop α) =
      .error (.error (.malformed kind (tokens.take n) fault)) := by
  rw [malformed, range_zero h]
  rfl

theorem malformed_ne_ok {kind : ArgumentKind} {tokens : List Text} {n : Nat}
    {fault : StructureFault} {x : α} : malformed kind tokens n fault ≠ .ok x := by
  intro h
  obtain ⟨shown, -, h⟩ := bind_eq_ok_iff.1 h
  cases h

/-! ## Readers -/

/-- The number of tokens of a structure in braces. -/
def takeBraced (kind : ArgumentKind) (tokens : List Text) : Except Stop Nat :=
  if tokens.head?.any fun first => Text.startsWith first ['{'] then
    match tokens.findIdx? fun t => Text.endsWith t ['}'] with
    | some i => .ok (i + 1)
    | none => .error (.error (.malformed kind tokens .noClosingBrace))
  else malformed kind tokens (min tokens.length 1) .noOpeningBrace

/-- A socket address and the number of its tokens. -/
def takeAddress (tokens : List Text) : Except Stop (Option SocketAddress × Nat) :=
  match tokens.head? with
  | none => .error (.error (.malformed .sockaddr tokens .noTokens))
  | some first =>
    if first.startsWith "0x".toList then .ok (none, 1)
    else if first = "0".toList ∨ first = "NULL".toList then .ok (some .null, 1)
    else do
      let n ← takeBraced .sockaddr tokens
      let raw ← range tokens 0 n
      let fields := Braced.fields ⟨raw, []⟩
      let familyField ← item fields 0
      match SocketAddress.readFamily familyField with
      | .error fault => .error (.error (.malformed .sockaddr raw fault))
      | .ok family =>
        let others ← range fields 1 fields.length
        match SocketAddress.ofFields family others with
        | .error fault => .error (.error (.malformed .sockaddr raw fault))
        | .ok address => .ok (some address, n)

/-- The token at index `i` of a structure whose last index is `last`, without the braces. -/
def bare (last i : Nat) (token : Text) : Text :=
  let t := if i = 0 then (token.dropPrefix? ['{']).getD token else token
  if i = last then (t.dropSuffix? ['}']).getD t else t

/-- The fields of a file status, from the tokens from index `i` on. -/
def statFields (last : Nat) : Nat → List Text → List Text
  | i, token :: next :: tokens =>
    if StatBuffer.opensDevice (bare last i token) then
      (bare last i token ++ Text.comma ++ bare last (i + 1) next) ::
        statFields last (i + 2) tokens
    else bare last i token :: statFields last (i + 1) (next :: tokens)
  | i, [token] => [bare last i token]
  | _, [] => []

/-- A file status and the number of its tokens. -/
def takeStat (tokens : List Text) : Except Stop (Option StatBuffer × Nat) :=
  if tokens.head?.any StatBuffer.isPointer then .ok (none, 1)
  else do
    let n ← takeBraced .stat tokens
    let raw ← range tokens 0 n
    let last ← minus n 1
    let fields := statFields last 0 raw
    if fields.length = StatBuffer.fieldCount then .ok (some ⟨fields⟩, n)
    else
      .error <| .error <| .malformed .stat raw <|
        .fieldCount StatBuffer.fieldCount fields.length

/-- An entry of a poll array at the cursor, whether it is the last one, and the cursor after it. -/
def takeEntry (tokens : List Text) (cursor : Nat) : Except Stop (PollFd × Bool × Nat) :=
  let fault (n : Nat) (f : StructureFault) : Except Stop (PollFd × Bool × Nat) :=
    malformed .pollFdList tokens (min n tokens.length) f
  match tokens[cursor]? with
  | none => fault cursor .noClosingBracket
  | some fdToken =>
    match Text.dropPrefix? (fdToken.dropWhile (· == '[')) "\x7bfd=".toList with
    | none => fault (cursor + 1) .noDescriptor
    | some fdText =>
      match Decimal.int64? fdText with
      | none => .error (.error (.value fdText .pollFdList))
      | some fd =>
        match tokens[cursor + 1]? with
        | none => fault (cursor + 1) .eventsMissing
        | some eventsToken =>
          match (PollFd.dropClosing eventsToken).dropPrefix? "events=".toList with
          | none => fault (cursor + 2) .noEvents
          | some events =>
            match tokens[cursor + 2]?.bind fun t => t.dropPrefix? "revents=".toList with
            | none => .ok (⟨fd, events, none⟩, eventsToken.endsWith [']'], cursor + 2)
            | some value =>
              .ok (⟨fd, events, some (PollFd.dropClosing value)⟩,
                eventsToken.endsWith [']'] || value.endsWith [']'], cursor + 3)

theorem cursor_lt_of_takeEntry {tokens : List Text} {cursor next : Nat} {p : PollFd}
    {isLast : Bool} (h : takeEntry tokens cursor = .ok (p, isLast, next)) :
    cursor < next ∧ cursor < tokens.length := by
  unfold takeEntry at h
  dsimp only at h
  split at h
  · exact absurd h malformed_ne_ok
  · next fdToken hfd =>
    refine ⟨?_, (List.getElem?_eq_some_iff.1 hfd).1⟩
    split at h
    · exact absurd h malformed_ne_ok
    · split at h
      · cases h
      · split at h
        · exact absurd h malformed_ne_ok
        · split at h
          · exact absurd h malformed_ne_ok
          · split at h
            · have := (Prod.mk.inj (Prod.mk.inj (Except.ok.inj h)).2).2
              omega
            · have := (Prod.mk.inj (Prod.mk.inj (Except.ok.inj h)).2).2
              omega

/-- The entries of a poll array from the cursor on, after the ones in `list`. -/
def takeEntries (tokens : List Text) (cursor : Nat) (list : List PollFd) :
    Except Stop (List PollFd × Nat) :=
  match _h : takeEntry tokens cursor with
  | .error e => .error e
  | .ok (p, isLast, next) =>
    if isLast then .ok (list ++ [p], next) else takeEntries tokens next (list ++ [p])
termination_by tokens.length - cursor
decreasing_by
  have := cursor_lt_of_takeEntry _h
  omega

/-- A poll array and the number of its tokens. -/
def takeList (tokens : List Text) : Except Stop (Option (List PollFd) × Nat) :=
  match tokens.head? with
  | none => malformed .pollFdList tokens (min 1 tokens.length) .noOpeningBracket
  | some first =>
    if first = "[]".toList then .ok (some [], 1)
    else if first.startsWith "0x".toList ∨ first = "NULL".toList then .ok (none, 1)
    else if first.startsWith ['['] then
      (takeEntries tokens 0 []).map fun r => (some r.1, r.2)
    else malformed .pollFdList tokens (min 1 tokens.length) .noOpeningBracket

/-- A value of the given kind and the number of its tokens. -/
def construct (kind : ArgumentKind) (tokens : List Text) :
    Except Stop (Option ArgumentValue × Nat) := do
  let token ← item tokens 0
  match kind with
  | .int => lift ((ArgumentValue.readInt token).map fun v => (some (.int v), 1))
  | .hex => .ok (some (.hex (ArgumentValue.hexDigits token)), 1)
  | .fileDescriptor =>
    lift ((ArgumentValue.readDescriptor token).map fun fd => (some (.fileDescriptor fd), 1))
  | .filepath => .ok ((SocketAddress.unquote? token).map .filepath, 1)
  | .flags => .ok (some (.flags (Flags.ofToken token)), 1)
  | .unimplemented => .ok (some (.unimplemented token), 1)
  | .sockaddr => (takeAddress tokens).map fun r => (r.1.map .sockaddr, r.2)
  | .stat => (takeStat tokens).map fun r => (r.1.map .stat, r.2)
  | .pollFdList => (takeList tokens).map fun r => (r.1.map .pollFdList, r.2)

/-! ## The engine -/

/-- Casts the parameters that are left from the cursor on, after what is in the output. -/
def castFrom (syscall : Text) (kind : CallKind) (tokens : List Text) :
    List Parameter → Nat → CastOutput → Except Stop (CastOutput × Nat)
  | [], cursor, output => .ok (output, cursor)
  | p :: ps, cursor, output =>
    match tokens[cursor]? with
    | none =>
      .ok (⟨output.arguments ++ (if kind = .unfinished then [] else [.missing ⟨p, none⟩]),
        output.untyped⟩, cursor)
    | some token => do
      let selected := ArgumentKind.select syscall p token
      let left ← range tokens cursor tokens.length
      let (value?, consumed) ← construct selected left
      castFrom syscall kind tokens ps (cursor + consumed)
        ⟨output.arguments ++ [value?.getD (.missing ⟨p, some token⟩)],
          output.untyped ++ if selected = .unimplemented then [⟨p.name, p.type?⟩] else []⟩

/-- Casts the tokens of a call. -/
def cast (syscall : Text) (kind : CallKind) (parameters? : Option (List Parameter))
    (tokens : List Text) : Except Stop CastOutput := do
  let (output, cursor) ← castFrom syscall kind tokens (parameters?.getD []) 0 ⟨[], []⟩
  let left ← range tokens cursor tokens.length
  return ⟨output.arguments ++ left.map .unimplemented, output.untyped⟩

end Cursor

end SyscallTrace
