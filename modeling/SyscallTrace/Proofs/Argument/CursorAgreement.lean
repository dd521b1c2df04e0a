import SyscallTrace.Proofs.Argument.Accounting
import SyscallTrace.Proofs.Argument.Cursor

/-!
# Agreement of both engines

The readers with a cursor give what the readers without one give, and the number of tokens that
these take off. So the engine with a cursor never stops out of range, and always gives what
`castArguments` gives (`Cursor.cast_eq`). `castArguments_accounts` puts this next to the accounts of
the casts that succeed.
-/

namespace SyscallTrace

namespace Cursor

variable {α : Type}

/-- A reader of one token takes one off. -/
theorem length_cons_sub (x : α) (xs : List α) : (x :: xs).length - xs.length = 1 := by
  rw [List.length_cons, Nat.add_sub_cancel_left]

/-! ## Structures in braces -/

theorem splitAfter?_eq_map_findIdx? (p : α → Bool) (xs : List α) :
    splitAfter? p xs = (xs.findIdx? p).map fun i => (xs.take (i + 1), xs.drop (i + 1)) := by
  induction xs with
  | nil => rfl
  | cons x xs ih =>
    rw [splitAfter?, List.findIdx?_cons]
    cases hx : p x with
    | true => simp
    | false =>
      rw [ih]
      simp [Option.map_map, Function.comp_def]

/-- A structure in braces takes its tokens by their number. -/
theorem takeBraced_eq (kind : ArgumentKind) (tokens : List Text) :
    takeBraced kind tokens = lift ((Braced.take kind tokens).map fun b => b.raw.length) := by
  cases tokens with
  | nil =>
    show malformed kind [] 0 .noOpeningBrace = _
    rw [malformed_eq (Nat.le_refl 0)]
    rfl
  | cons first others =>
    unfold takeBraced Braced.take
    dsimp only
    rw [List.head?_cons, Option.any_some]
    by_cases hfirst : first.startsWith ['{']
    · rw [if_pos hfirst, if_pos hfirst, splitAfter?_eq_map_findIdx?]
      cases hi : (first :: others).findIdx? fun t => Text.endsWith t ['}'] with
      | none => rfl
      | some i =>
        have hlt : i < (first :: others).length := (List.findIdx?_eq_some_iff_getElem.1 hi).1
        show Except.ok (i + 1) = Except.ok ((first :: others).take (i + 1)).length
        rw [List.length_take, Nat.min_eq_left hlt]
    · have hone : min (first :: others).length 1 = 1 := by simp
      rw [if_neg hfirst, if_neg hfirst, hone, malformed_eq (by simp)]
      rfl

theorem take_length_raw {kind : ArgumentKind} {tokens : List Text} {b : Braced}
    (h : Braced.take kind tokens = .ok b) :
    b.raw.length ≤ tokens.length ∧ tokens.take b.raw.length = b.raw ∧
      tokens.length - b.rest.length = b.raw.length := by
  rw [← Braced.raw_append_rest_of_take h, List.length_append]
  exact ⟨by omega, List.take_left, by omega⟩

theorem length_dropClosing (ts : List Text) : (Braced.dropClosing ts).length = ts.length := by
  fun_induction Braced.dropClosing ts with
  | case1 => rfl
  | case2 t => rfl
  | case3 t ts _ ih => rw [List.length_cons, List.length_cons, ih]

theorem length_fields (b : Braced) : b.fields.length = b.raw.length := by
  unfold Braced.fields
  rw [length_dropClosing, List.length_modifyHead]

theorem takeAddress_eq (tokens : List Text) :
    takeAddress tokens =
      lift ((SocketAddress.take tokens).map fun r => (r.1, tokens.length - r.2.length)) := by
  cases tokens with
  | nil => rfl
  | cons first others =>
    unfold takeAddress SocketAddress.take
    dsimp only [List.head?_cons]
    by_cases hptr : first.startsWith "0x".toList
    · rw [if_pos hptr, if_pos hptr]
      show Except.ok (none, 1) = Except.ok (none, (first :: others).length - others.length)
      rw [length_cons_sub]
    · rw [if_neg hptr, if_neg hptr]
      by_cases hnull : first = "0".toList ∨ first = "NULL".toList
      · rw [if_pos hnull, if_pos hnull]
        show Except.ok (some SocketAddress.null, 1) =
          Except.ok (some SocketAddress.null, (first :: others).length - others.length)
        rw [length_cons_sub]
      · rw [if_neg hnull, if_neg hnull, takeBraced_eq]
        cases hb : Braced.take .sockaddr (first :: others) with
        | error e => rfl
        | ok b =>
          obtain ⟨hle, hraw, hlen⟩ := take_length_raw hb
          have hpos : 0 < b.raw.length := List.length_pos_iff.2 (Braced.take_raw hb).1
          obtain ⟨familyField, others', hfields⟩ : ∃ f fs, b.fields = f :: fs :=
            List.exists_cons_of_length_pos (by rw [length_fields]; exact hpos)
          have hfields' : Braced.fields ⟨b.raw, []⟩ = familyField :: others' := hfields
          have hothers : range (familyField :: others') 1 (familyField :: others').length =
              .ok others' := range_length (by simp)
          have hstructure : SocketAddress.ofStructure b.fields =
              SocketAddress.readFamily familyField >>= fun family =>
                SocketAddress.ofFields family others' := by
            rw [hfields]
            rfl
          rw [ok_bind, hstructure]
          show range (first :: others) 0 b.raw.length >>= _ = _
          rw [range_zero hle, hraw, ok_bind, hfields', item_eq (i := 0) rfl, ok_bind]
          cases SocketAddress.readFamily familyField with
          | error fault => rfl
          | ok family =>
            dsimp only
            rw [ok_bind, hothers, ok_bind]
            cases SocketAddress.ofFields family others' with
            | error fault => rfl
            | ok address =>
              show Except.ok (some address, b.raw.length) =
                Except.ok (some address, (first :: others).length - b.rest.length)
              rw [hlen]

/-! ## File status -/

theorem bare_of_lt {last i : Nat} (hi : i ≠ 0) (h : i < last) (token : Text) :
    bare last i token = token := by
  rw [bare, if_neg hi, if_neg (Nat.ne_of_lt h)]

theorem bare_last {last : Nat} (h : last ≠ 0) (token : Text) :
    bare last last token = (token.dropSuffix? ['}']).getD token := by
  rw [bare, if_neg h, if_pos rfl]

/-- The tokens from index `i` on, without the braces. -/
def bares (last : Nat) : Nat → List Text → List Text
  | _, [] => []
  | i, t :: ts => bare last i t :: bares last (i + 1) ts

/-- Taking the braces off while the halves of devices are joined, or before, is the same. -/
theorem statFields_eq (last i : Nat) (tokens : List Text) :
    statFields last i tokens = StatBuffer.mergeDevices (bares last i tokens) := by
  fun_induction statFields last i tokens with
  | case1 i token next tokens hopen ih =>
    rw [bares, bares, StatBuffer.mergeDevices, if_pos hopen, ih]
  | case2 i token next tokens hopen ih =>
    rw [bares, bares, StatBuffer.mergeDevices, if_neg hopen, ih, bares]
  | case3 i token => rfl
  | case4 i => rfl

theorem bares_of_pos {last i : Nat} {ts : List Text} (hi : i ≠ 0) (h : i + ts.length = last + 1) :
    bares last i ts = Braced.dropClosing ts := by
  induction ts generalizing i with
  | nil => rfl
  | cons t ts ih =>
    rw [List.length_cons] at h
    cases ts with
    | nil =>
      obtain rfl : i = last := by simpa using h
      rw [bares, bare_last hi]
      rfl
    | cons u ts =>
      rw [bares, bare_of_lt hi (by rw [List.length_cons] at h; omega), ih (by omega) (by omega)]
      rfl

theorem bares_eq_fields (raw rest : List Text) :
    bares (raw.length - 1) 0 raw = Braced.fields ⟨raw, rest⟩ := by
  cases raw with
  | nil => rfl
  | cons t ts =>
    cases ts with
    | nil => rfl
    | cons u ts =>
      rw [bares, bares_of_pos (by omega) (by simp; omega), bare, if_pos rfl, if_neg (by simp)]
      rfl

theorem takeStat_eq (tokens : List Text) :
    takeStat tokens =
      lift ((StatBuffer.take tokens).map fun r => (r.1, tokens.length - r.2.length)) := by
  unfold takeStat StatBuffer.take
  by_cases hptr : tokens.head?.any StatBuffer.isPointer
  · rw [if_pos hptr, if_pos hptr]
    cases tokens with
    | nil => cases hptr
    | cons first others =>
      show Except.ok (none, 1) = Except.ok (none, (first :: others).length - others.length)
      rw [length_cons_sub]
  · rw [if_neg hptr, if_neg hptr, takeBraced_eq]
    cases hb : Braced.take .stat tokens with
    | error e => rfl
    | ok b =>
      obtain ⟨hle, hraw, hlen⟩ := take_length_raw hb
      have hpos : 0 < b.raw.length := List.length_pos_iff.2 (Braced.take_raw hb).1
      have hminus : minus b.raw.length 1 = .ok (b.raw.length - 1) := if_pos hpos
      rw [ok_bind]
      show range tokens 0 b.raw.length >>= _ = _
      rw [range_zero hle, hraw, ok_bind, hminus, ok_bind]
      dsimp only
      rw [statFields_eq, bares_eq_fields b.raw b.rest]
      by_cases hcount : (StatBuffer.mergeDevices b.fields).length = StatBuffer.fieldCount
      · rw [if_pos hcount, if_pos hcount]
        show Except.ok (some _, b.raw.length) =
          Except.ok (some _, tokens.length - b.rest.length)
        rw [hlen]
      · rw [if_neg hcount, if_neg hcount]
        rfl

/-! ## Poll arrays -/

theorem take_add_length (seen left : List Text) (n : Nat) :
    (seen ++ left).take (min (seen.length + n) (seen ++ left).length) = seen ++ left.take n := by
  rw [← List.take_take, List.take_length, List.take_length_add_append]

/-- A fault at the cursor shows the tokens before it and `n` more. -/
theorem malformed_at (kind : ArgumentKind) (seen left : List Text) (n : Nat)
    (fault : StructureFault) :
    (malformed kind (seen ++ left) (min (seen.length + n) (seen ++ left).length) fault :
        Except Stop α) =
      .error (.error (.malformed kind (seen ++ left.take n) fault)) := by
  rw [malformed_eq (Nat.min_le_right _ _), take_add_length]

theorem getElem?_at (seen left : List Text) (n : Nat) :
    (seen ++ left)[seen.length + n]? = left[n]? := by
  rw [List.getElem?_append_right (Nat.le_add_right _ _), Nat.add_sub_cancel_left]

theorem takeEntry_eq (seen left : List Text) :
    takeEntry (seen ++ left) seen.length =
      lift ((PollFd.takeEntry seen left).map fun e =>
        (e.pollFd, e.isLast, (seen ++ left).length - e.rest.length)) := by
  unfold takeEntry PollFd.takeEntry
  dsimp only
  cases left with
  | nil =>
    rw [show (seen ++ [])[seen.length]? = none by simp]
    exact malformed_at .pollFdList seen [] 0 .noClosingBracket
  | cons fdToken left =>
    rw [show (seen ++ fdToken :: left)[seen.length]? = some fdToken from
      getElem?_at seen (fdToken :: left) 0]
    dsimp only
    cases Text.dropPrefix? (fdToken.dropWhile (· == '[')) "\x7bfd=".toList with
    | none => exact malformed_at .pollFdList seen (fdToken :: left) 1 .noDescriptor
    | some fdText =>
      dsimp only
      cases Decimal.int64? fdText with
      | none => rfl
      | some fd =>
        dsimp only
        rw [getElem?_at]
        cases left with
        | nil => exact malformed_at .pollFdList seen [fdToken] 1 .eventsMissing
        | cons eventsToken left =>
          dsimp only [List.getElem?_cons_succ, List.getElem?_cons_zero]
          cases (PollFd.dropClosing eventsToken).dropPrefix? "events=".toList with
          | none =>
            exact malformed_at .pollFdList seen (fdToken :: eventsToken :: left) 2 .noEvents
          | some events =>
            dsimp only
            rw [getElem?_at]
            have hlen : ∀ rest : List Text,
                (seen ++ fdToken :: eventsToken :: rest).length - rest.length =
                  seen.length + 2 := fun rest => by simp; omega
            cases left with
            | nil =>
              show Except.ok (_, _, seen.length + 2) = Except.ok (_, _, _ - List.length [])
              rw [hlen []]
              rfl
            | cons token left =>
              dsimp only [List.getElem?_cons_succ, List.getElem?_cons_zero, Option.bind_some,
                PollFd.withRevents]
              cases token.dropPrefix? "revents=".toList with
              | none =>
                show Except.ok (_, _, seen.length + 2) = Except.ok (_, _, _ - (token :: left).length)
                rw [hlen]
              | some value =>
                show Except.ok (_, _, seen.length + 3) = Except.ok (_, _, _ - left.length)
                rw [show (seen ++ fdToken :: eventsToken :: token :: left).length - left.length =
                  seen.length + 3 by simp; omega]

theorem takeEntries_of_error {tokens : List Text} {cursor : Nat} {list : List PollFd} {e : Stop}
    (h : takeEntry tokens cursor = .error e) : takeEntries tokens cursor list = .error e := by
  rw [takeEntries]
  split
  · next e' h' =>
    obtain rfl := Except.error.inj (h'.symm.trans h)
    rfl
  · next h' => cases h'.symm.trans h

theorem takeEntries_of_ok {tokens : List Text} {cursor next : Nat} {list : List PollFd}
    {p : PollFd} {isLast : Bool} (h : takeEntry tokens cursor = .ok (p, isLast, next)) :
    takeEntries tokens cursor list =
      if isLast then .ok (list ++ [p], next) else takeEntries tokens next (list ++ [p]) := by
  rw [takeEntries]
  split
  · next h' => cases h'.symm.trans h
  · next p' isLast' next' h' =>
    obtain ⟨rfl, hrest⟩ := Prod.mk.inj (Except.ok.inj (h'.symm.trans h))
    obtain ⟨rfl, rfl⟩ := Prod.mk.inj hrest
    rfl

theorem takeEntries_eq (seen left : List Text) (list : List PollFd) :
    takeEntries (seen ++ left) seen.length list =
      lift ((PollFd.takeEntries seen left).map fun r =>
        (list ++ r.1, (seen ++ left).length - r.2.length)) := by
  induction hlen : left.length using Nat.strongRecOn generalizing seen left list with
  | ind n ih =>
    have hentry := takeEntry_eq seen left
    cases he : PollFd.takeEntry seen left with
    | error e =>
      rw [he] at hentry
      rw [takeEntries_of_error hentry, PollFd.takeEntries_of_error he]
      rfl
    | ok e =>
      rw [he] at hentry
      rw [takeEntries_of_ok hentry]
      by_cases hlast : e.isLast
      · rw [if_pos hlast, PollFd.takeEntries_of_last he hlast]
        rfl
      · -- the entries that follow are those of a list with a longer part seen
        obtain ⟨taken, -, htaken, -⟩ := PollFd.takeEntry_taken he
        have hleft : left.take (left.length - e.rest.length) = taken := by
          rw [htaken, List.length_append, Nat.add_sub_cancel, List.take_left]
        have hnext : (seen ++ left).length - e.rest.length = (seen ++ taken).length := by
          rw [htaken]
          simp only [List.length_append]
          omega
        have hsplit : seen ++ left = (seen ++ taken) ++ e.rest := by
          rw [List.append_assoc, ← htaken]
        rw [if_neg hlast, PollFd.takeEntries_of_not_last he hlast, hleft, hnext, hsplit,
          ih e.rest.length (hlen ▸ PollFd.length_rest_lt_of_takeEntry he) _ _ _ rfl]
        cases PollFd.takeEntries (seen ++ taken) e.rest with
        | error fault => rfl
        | ok r =>
          show Except.ok (list ++ [e.pollFd] ++ r.1, _) = Except.ok (list ++ e.pollFd :: r.1, _)
          rw [List.append_assoc]
          rfl

theorem takeList_eq (tokens : List Text) :
    takeList tokens =
      lift ((PollFd.takeList tokens).map fun r => (r.1, tokens.length - r.2.length)) := by
  cases tokens with
  | nil => exact malformed_eq (Nat.zero_le _)
  | cons first others =>
    unfold takeList PollFd.takeList
    dsimp only [List.head?_cons]
    have hone : ∀ v : Option (List PollFd), (Except.ok (v, 1) : Except Stop _) =
        .ok (v, (first :: others).length - others.length) := fun v => by
      rw [length_cons_sub]
    by_cases hempty : first = "[]".toList
    · rw [if_pos hempty, if_pos hempty]
      exact hone _
    · rw [if_neg hempty, if_neg hempty]
      by_cases hptr : first.startsWith "0x".toList ∨ first = "NULL".toList
      · rw [if_pos hptr, if_pos hptr]
        exact hone _
      · rw [if_neg hptr, if_neg hptr]
        by_cases hopen : first.startsWith ['[']
        · rw [if_pos hopen, if_pos hopen]
          have hentries := takeEntries_eq [] (first :: others) []
          rw [List.nil_append, List.length_nil] at hentries
          rw [hentries]
          cases PollFd.takeEntries [] (first :: others) <;> rfl
        · have hmin : min 1 (first :: others).length = 1 := by simp
          rw [if_neg hopen, if_neg hopen, hmin, malformed_eq (by simp)]
          rfl

/-! ## All kinds -/

theorem construct_cons (kind : ArgumentKind) (token : Text) (left : List Text) :
    construct kind (token :: left) =
      lift ((ArgumentValue.read kind token left).map fun r =>
        (r.1, (token :: left).length - r.2.length)) := by
  unfold construct
  rw [item_eq (i := 0) rfl, ok_bind]
  cases kind with
  | int =>
    show lift ((ArgumentValue.readInt token).map _) =
      lift (((ArgumentValue.readInt token).map _).map _)
    cases ArgumentValue.readInt token with
    | error e => rfl
    | ok v =>
      show Except.ok (_, 1) = Except.ok (_, (token :: left).length - left.length)
      rw [length_cons_sub]
  | fileDescriptor =>
    show lift ((ArgumentValue.readDescriptor token).map _) =
      lift (((ArgumentValue.readDescriptor token).map _).map _)
    cases ArgumentValue.readDescriptor token with
    | error e => rfl
    | ok v =>
      show Except.ok (_, 1) = Except.ok (_, (token :: left).length - left.length)
      rw [length_cons_sub]
  | hex | filepath | flags | unimplemented =>
    show Except.ok (_, 1) = Except.ok (_, (token :: left).length - left.length)
    rw [length_cons_sub]
  | sockaddr =>
    show (takeAddress (token :: left)).map _ = lift (((SocketAddress.take (token :: left)).map _).map _)
    rw [takeAddress_eq]
    cases SocketAddress.take (token :: left) <;> rfl
  | stat =>
    show (takeStat (token :: left)).map _ = lift (((StatBuffer.take (token :: left)).map _).map _)
    rw [takeStat_eq]
    cases StatBuffer.take (token :: left) <;> rfl
  | pollFdList =>
    show (takeList (token :: left)).map _ = lift (((PollFd.takeList (token :: left)).map _).map _)
    rw [takeList_eq]
    cases PollFd.takeList (token :: left) <;> rfl

/-! ## Casts -/

/-- The output of a cast before the tokens that no parameter took. -/
def addTo (output : CastOutput) (kind : CallKind) (c : Casting) : CastOutput :=
  ⟨output.arguments ++ c.steps.map CastStep.argument ++
      if kind = .unfinished then [] else c.unfilled.toList.map fun p => .missing ⟨p, none⟩,
    output.untyped ++ c.untyped⟩

theorem addTo_cons (output : CastOutput) (kind : CallKind) (s : CastStep) (c : Casting) :
    addTo output kind { c with steps := s :: c.steps } =
      addTo ⟨output.arguments ++ [s.argument], output.untyped ++ s.untyped?.toList⟩ kind c := by
  unfold addTo Casting.untyped
  rw [List.map_cons, List.filterMap_cons]
  cases s.untyped? <;> simp

theorem castFrom_eq (syscall : Text) (kind : CallKind) (ps : List Parameter)
    (seen left : List Text) (output : CastOutput) :
    castFrom syscall kind (seen ++ left) ps seen.length output =
      lift ((Casting.run syscall ps left).map fun c =>
        (addTo output kind c, (seen ++ left).length - c.rest.length)) := by
  induction ps generalizing seen left output with
  | nil =>
    have hlen : (seen ++ left).length - left.length = seen.length := by
      rw [List.length_append, Nat.add_sub_cancel]
    show Except.ok (output, seen.length) =
      Except.ok (addTo output kind ⟨[], none, left⟩, (seen ++ left).length - left.length)
    rw [hlen, addTo]
    simp [Casting.untyped]
  | cons p ps ih =>
    rw [castFrom]
    cases left with
    | nil =>
      rw [show (seen ++ [])[seen.length]? = none by simp]
      show Except.ok (_, seen.length) =
        Except.ok (addTo output kind ⟨[], some p, []⟩, (seen ++ []).length - List.length [])
      rw [addTo]
      simp [Casting.untyped]
    | cons token left =>
      have hget : (seen ++ token :: left)[seen.length]? = some token :=
        getElem?_at seen (token :: left) 0
      have hrange : range (seen ++ token :: left) seen.length (seen ++ token :: left).length =
          .ok (token :: left) := by
        rw [range_length (by simp), List.drop_left]
      rw [hget]
      dsimp only
      rw [hrange, ok_bind, construct_cons]
      cases hread : ArgumentValue.read (ArgumentKind.select syscall p token) token left with
      | error e =>
        rw [Casting.run]
        dsimp only
        rw [hread]
        rfl
      | ok r =>
        obtain ⟨value?, rest⟩ := r
        obtain ⟨taken, htaken, hb⟩ := ArgumentValue.exists_builds_of_read hread
        have htoken : taken.head? = some token := by
          rw [← List.head?_append_of_ne_nil _ hb.ne_nil, ← htaken, List.head?_cons]
        have hlen : (token :: left).length - rest.length = taken.length := by
          rw [htaken, List.length_append, Nat.add_sub_cancel]
        have hcursor : seen.length + taken.length = (seen ++ taken).length :=
          List.length_append.symm
        have hsplit : seen ++ token :: left = (seen ++ taken) ++ rest := by
          rw [htaken, List.append_assoc]
        show castFrom syscall kind (seen ++ token :: left) ps
          (seen.length + ((token :: left).length - rest.length)) _ = _
        rw [hlen, hcursor, hsplit, ih]
        rw [Casting.run]
        dsimp only
        rw [hread]
        dsimp only
        cases hrest : Casting.run syscall ps rest with
        | error e => rfl
        | ok others =>
          rw [Casting.take_of_taken htaken]
          refine congrArg (fun output => Except.ok (output, _)) ?_
          rw [addTo_cons]
          unfold CastStep.argument CastStep.untyped?
          dsimp only
          rw [htoken]
          by_cases hk : ArgumentKind.select syscall p token = .unimplemented
          · rw [if_pos hk, if_pos hk]
            rfl
          · rw [if_neg hk, if_neg hk]
            rfl

/-- The engine with the cursor gives what the one without gives: it never stops out of range. -/
theorem cast_eq (syscall : Text) (kind : CallKind) (parameters? : Option (List Parameter))
    (tokens : List Text) :
    cast syscall kind parameters? tokens =
      lift (castArguments syscall kind parameters? tokens) := by
  unfold cast castArguments
  have hfrom := castFrom_eq syscall kind (parameters?.getD []) [] tokens ⟨[], []⟩
  rw [List.nil_append, List.length_nil] at hfrom
  rw [hfrom]
  cases hrun : Casting.run syscall (parameters?.getD []) tokens with
  | error e => rfl
  | ok c =>
    obtain ⟨taken, htaken⟩ := Casting.rest_suffix hrun
    have hlen : tokens.length - c.rest.length = taken.length := by
      rw [← htaken, List.length_append, Nat.add_sub_cancel]
    show range tokens (tokens.length - c.rest.length) tokens.length >>= _ = _
    rw [range_length (Nat.sub_le _ _), hlen, ok_bind, ← htaken, List.drop_left]
    rfl

theorem lift_ne_outOfRange (x : Except CastError α) : lift x ≠ .error .outOfRange := by
  cases x with
  | error e =>
    intro h
    cases h
  | ok a =>
    intro h
    cases h

end Cursor

/-- A cast that succeeds accounts for all its tokens, and the engine with the cursor, which gives
the same result for every input, takes no index out of range, whether the cast succeeds or not. -/
theorem castArguments_accounts (syscall : Text) (kind : CallKind)
    (parameters? : Option (List Parameter)) (tokens : List Text) :
    (∀ output, castArguments syscall kind parameters? tokens = .ok output →
      ∃ m cut, Accounts syscall kind (parameters?.getD []) tokens output m cut) ∧
    Cursor.cast syscall kind parameters? tokens =
      Cursor.lift (castArguments syscall kind parameters? tokens) ∧
    Cursor.cast syscall kind parameters? tokens ≠ .error .outOfRange := by
  have hcast := Cursor.cast_eq syscall kind parameters? tokens
  refine ⟨fun output h => ?_, hcast, ?_⟩
  · obtain ⟨casting, hrun, rfl⟩ := map_eq_ok_iff.1 h
    exact Casting.exists_accounts hrun
  · rw [hcast]
    exact Cursor.lift_ne_outOfRange _

/-- A poll array of two entries, its length, a timeout, and a token more. -/
theorem castArguments_accounts_poll :
    let ps : List Parameter := [⟨"fds".toList, some "pollfd".toList, true, false⟩,
      ⟨"nfds".toList, some "nfds_t".toList, false, false⟩,
      ⟨"timeout".toList, some "int".toList, false, false⟩]
    let tokens := Token.split "[\x7bfd=4, events=POLLIN\x7d, \x7bfd=5, events=POLLIN\x7d], 2, 50, 0".toList
    ∃ output, castArguments "poll".toList .complete (some ps) tokens = .ok output ∧
      output.arguments.length = 4 ∧
      ∃ m cut, Accounts "poll".toList .complete ps tokens output m cut := by
  intro ps tokens
  have hlength : ((castArguments "poll".toList .complete (some ps) tokens).toOption.map
      fun output => output.arguments.length) = some 4 := by decide +kernel
  obtain ⟨output, hoption, hlength⟩ := Option.map_eq_some_iff.1 hlength
  have houtput := toOption_eq_some_iff.1 hoption
  exact ⟨output, houtput, hlength,
    (castArguments_accounts "poll".toList .complete (some ps) tokens).1 output houtput⟩

end SyscallTrace
