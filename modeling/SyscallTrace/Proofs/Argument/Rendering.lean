import SyscallTrace.Proofs.Argument.Untyped

/-!
# Arguments that keep their tokens

Most values are printed in a form of their own. The others are printed as the tokens that they were
built from, whatever these look like: paths, stat buffers, addresses of a family that is not
decoded, flags without numbers, and what has no typed value (`castArguments_verbatim`).

* `ArgumentValue.text_of_builds`: one value and the tokens it is built from.
* `Accounts.text_of_isVerbatim`: the arguments of a cast, each with its piece of the tokens.
-/

namespace SyscallTrace

open Text

/-! ## Stat buffers -/

namespace StatBuffer

variable {s : StatBuffer} {tokens rest ts : List Text}

theorem mergeDevices_ne_nil (hne : ts ≠ []) : mergeDevices ts ≠ [] := by
  fun_induction mergeDevices ts with
  | case1 => simp
  | case2 => simp
  | case3 => exact hne

/-- Halves are put together with what stands between them. -/
theorem joinCommas_mergeDevices (ts : List Text) :
    joinCommas (mergeDevices ts) = joinCommas ts := by
  fun_induction mergeDevices ts with
  | case1 field next fields _ ih =>
    by_cases hne : fields = []
    · subst hne
      rw [Token.joinCommas_cons field (by simp), joinCommas_singleton]
      exact joinCommas_singleton _
    · rw [Token.joinCommas_cons _ (mergeDevices_ne_nil hne), ih,
        Token.joinCommas_cons field (by simp), Token.joinCommas_cons next hne]
      simp only [List.append_assoc]
  | case2 field next fields _ ih =>
    rw [Token.joinCommas_cons _ (mergeDevices_ne_nil (by simp)), ih,
      Token.joinCommas_cons field (by simp)]
  | case3 => rfl

/-- A buffer has all its fields, and is printed as the tokens that it is read from. -/
theorem of_take_eq_ok_some (h : take tokens = .ok (some s, rest)) :
    ∃ raw, tokens = raw ++ rest ∧ s.text = joinCommas raw ∧ s.fields.length = fieldCount := by
  unfold take at h
  split at h
  · cases h
  obtain ⟨b, hb, h⟩ := bind_eq_ok_iff.1 h
  obtain ⟨hopen, hclose, htokens⟩ := Braced.take_eq_ok_iff.1 hb
  dsimp only at h
  split at h
  · next hcount =>
    obtain ⟨hs, rfl⟩ := Prod.mk.inj (Except.ok.inj h)
    obtain rfl := Option.some.inj hs
    refine ⟨b.raw, htokens, ?_, hcount⟩
    rw [Braced.joinCommas_raw hopen hclose, text, joinCommas_mergeDevices]
    rfl
  · cases h

theorem exists_of_take_eq_ok_none (h : take tokens = .ok (none, rest)) :
    ∃ t, tokens = t :: rest := by
  unfold take at h
  split at h
  · next hpointer =>
    obtain ⟨-, rfl⟩ := Prod.mk.inj (Except.ok.inj h)
    obtain ⟨t, ht, -⟩ := (Option.any_eq_true _ _).1 hpointer
    obtain ⟨ts, rfl⟩ := List.head?_eq_some_iff.1 ht
    exact ⟨t, rfl⟩
  · obtain ⟨b, -, h⟩ := bind_eq_ok_iff.1 h
    dsimp only at h
    split at h <;> cases h

end StatBuffer

/-! ## Socket addresses -/

namespace SocketAddress

variable {family family' : Text} {fields fields' tokens rest : List Text}

theorem eq_of_ofFields_eq_other (h : ofFields family fields = .ok (other family' fields')) :
    family' = family ∧ fields' = fields := by
  cases hdecoding : Decoding.ofFamily family with
  | unix =>
    obtain ⟨path, -, ha⟩ := (ofFields_unix_iff hdecoding).1 h
    cases ha
  | unspec =>
    obtain ⟨t, -, ha⟩ := (ofFields_unspec_iff hdecoding).1 h
    cases ha
  | inet =>
    obtain ⟨p, q, u, port, address, -, -, -, -, ha⟩ := (ofFields_inet_iff hdecoding).1 h
    cases ha
  | netlink =>
    obtain ⟨p, q, pid, groups, -, -, -, ha⟩ := (ofFields_netlink_iff hdecoding).1 h
    cases ha
  | verbatim => exact SocketAddress.other.inj ((ofFields_verbatim_iff hdecoding).1 h)

/-- An address that is not decoded is printed as the tokens that it is read from. -/
theorem of_take_eq_ok_other (h : take tokens = .ok (some (other family fields), rest)) :
    ∃ raw, tokens = raw ++ rest ∧ (other family fields).text = joinCommas raw := by
  rcases take_eq_ok_some_iff.1 h with
    ⟨t, -, ha, -⟩ | ⟨family', fields', raw, htokens, -, hframed, ha⟩
  · cases ha
  · obtain ⟨rfl, rfl⟩ := eq_of_ofFields_eq_other ha
    exact ⟨raw, htokens, hframed.textOf_eq⟩

end SocketAddress

/-! ## Flags -/

namespace Flags

variable {token t : Text}

theorem ofPiece_of_not_isDigits (h : Decimal.isDigits t = false) : ofPiece t = [t] := by
  unfold ofPiece
  rw [h, if_neg (by simp)]

/-- Flags are printed as their token if none of them is a number. -/
theorem text_ofToken (h : ∀ piece ∈ token.splitOn '|', Decimal.isDigits piece = false) :
    text (ofToken token) = token := by
  unfold ofToken
  split
  · unfold text
    simp
  · have hpieces : (token.splitOn '|').flatMap ofPiece = token.splitOn '|' := by
      rw [List.flatMap_congr fun piece hpiece => ofPiece_of_not_isDigits (h piece hpiece),
        List.flatMap_singleton']
    have hne : ¬ (token.splitOn '|').isEmpty = true := by
      simp
    unfold text
    rw [hpieces, if_neg hne, List.intercalate_splitOn]

end Flags

theorem PollFd.exists_of_takeList_eq_ok_none {tokens rest : List Text}
    (h : takeList tokens = .ok (none, rest)) : ∃ t, tokens = t :: rest := by
  unfold takeList at h
  split at h
  · cases h
  · next t others =>
    split at h
    · cases h
    · split at h
      · obtain ⟨-, rfl⟩ := Prod.mk.inj (Except.ok.inj h)
        exact ⟨t, rfl⟩
      · split at h
        · obtain ⟨r, -, hr⟩ := map_eq_ok_iff.1 h
          cases hr
        · cases h

/-! ## Values -/

namespace ArgumentValue

/-- The values that are printed as the tokens they were built from. -/
def IsVerbatim : ArgumentValue → List Text → Prop
  | filepath _, _ | stat _, _ | unimplemented _, _ | sockaddr (.other _ _), _ => True
  | missing placeholder, _ => placeholder.given.isSome
  | flags _, tokens => ∀ token ∈ tokens, ∀ piece ∈ token.splitOn '|',
      Decimal.isDigits piece = false
  | _, _ => False

variable {kind : ArgumentKind} {token : Text} {rest tokens : List Text} {v : ArgumentValue}
  {s : StatBuffer}

/-- What a reader of structures returns is made a value. -/
theorem exists_of_map_eq_ok {α : Type} {x : Except CastError (Option α × List Text)}
    {f : α → ArgumentValue} {value? : Option ArgumentValue}
    (h : (x.map fun r => (r.1.map f, r.2)) = .ok (value?, rest)) :
    ∃ a?, x = .ok (a?, rest) ∧ a?.map f = value? := by
  obtain ⟨⟨a?, rest'⟩, hx, hpair⟩ := map_eq_ok_iff.1 h
  obtain ⟨hvalue, rfl⟩ := Prod.mk.inj hpair
  exact ⟨a?, hx, hvalue⟩

/-- A value that keeps its tokens is printed as them. -/
theorem text_of_builds (h : Builds kind tokens (some v)) (hv : v.IsVerbatim tokens) :
    v.text = joinCommas tokens := by
  obtain ⟨token, rest, rfl, hread⟩ := h
  cases kind with
  | int | fileDescriptor =>
    obtain ⟨a, -, ha⟩ := map_eq_ok_iff.1 hread
    obtain rfl := Option.some.inj (Prod.mk.inj ha).1
    exact hv.elim
  | hex =>
    obtain rfl := Option.some.inj (Prod.mk.inj (Except.ok.inj hread)).1
    exact hv.elim
  | filepath =>
    obtain ⟨hpath, rfl⟩ := Prod.mk.inj (Except.ok.inj hread)
    obtain ⟨path, hquoted, rfl⟩ := Option.map_eq_some_iff.1 hpath
    rw [joinCommas_singleton, SocketAddress.unquote?_eq_some_iff.1 hquoted]
    rfl
  | flags =>
    obtain ⟨hflags, rfl⟩ := Prod.mk.inj (Except.ok.inj hread)
    obtain rfl := Option.some.inj hflags
    rw [joinCommas_singleton]
    exact Flags.text_ofToken (hv token List.mem_cons_self)
  | unimplemented =>
    obtain ⟨htoken, rfl⟩ := Prod.mk.inj (Except.ok.inj hread)
    obtain rfl := Option.some.inj htoken
    exact (joinCommas_singleton token).symm
  | sockaddr =>
    obtain ⟨a?, htake, ha⟩ := exists_of_map_eq_ok hread
    obtain ⟨a, rfl, rfl⟩ := Option.map_eq_some_iff.1 ha
    cases a with
    | other family fields =>
      obtain ⟨raw, htokens, htext⟩ := SocketAddress.of_take_eq_ok_other htake
      rw [htokens, List.append_nil]
      exact htext
    | _ => exact hv.elim
  | stat =>
    obtain ⟨s?, htake, hs⟩ := exists_of_map_eq_ok hread
    obtain ⟨s, rfl, rfl⟩ := Option.map_eq_some_iff.1 hs
    obtain ⟨raw, htokens, htext, -⟩ := StatBuffer.of_take_eq_ok_some htake
    rw [htokens, List.append_nil]
    exact htext
  | pollFdList =>
    obtain ⟨list?, -, hlist⟩ := exists_of_map_eq_ok hread
    obtain ⟨list, -, rfl⟩ := Option.map_eq_some_iff.1 hlist
    exact hv.elim

/-- There is no value only where one token stands in its place. -/
theorem exists_of_builds_none (h : Builds kind tokens none) : ∃ t, tokens = [t] := by
  obtain ⟨token, rest, rfl, hread⟩ := h
  cases kind with
  | int | fileDescriptor =>
    obtain ⟨a, -, ha⟩ := map_eq_ok_iff.1 hread
    cases ha
  | hex | flags | unimplemented => cases hread
  | filepath =>
    obtain ⟨-, rfl⟩ := Prod.mk.inj (Except.ok.inj hread)
    exact ⟨token, rfl⟩
  | sockaddr =>
    obtain ⟨a?, htake, ha⟩ := exists_of_map_eq_ok hread
    obtain rfl := Option.map_eq_none_iff.1 ha
    obtain ⟨t, -, ht⟩ := SocketAddress.take_eq_ok_none_iff.1 htake
    exact ⟨t, ht⟩
  | stat =>
    obtain ⟨s?, htake, hs⟩ := exists_of_map_eq_ok hread
    obtain rfl := Option.map_eq_none_iff.1 hs
    exact StatBuffer.exists_of_take_eq_ok_none htake
  | pollFdList =>
    obtain ⟨list?, htake, hlist⟩ := exists_of_map_eq_ok hread
    obtain rfl := Option.map_eq_none_iff.1 hlist
    exact PollFd.exists_of_takeList_eq_ok_none htake

theorem length_fields_of_builds (h : Builds kind tokens (some (.stat s))) :
    s.fields.length = StatBuffer.fieldCount := by
  obtain ⟨token, rest, rfl, hread⟩ := h
  obtain rfl := Option.some.inj (kind?_of_read hread)
  obtain ⟨s?, htake, hs⟩ := exists_of_map_eq_ok hread
  obtain ⟨t, rfl, ht⟩ := Option.map_eq_some_iff.1 hs
  obtain rfl := ArgumentValue.stat.inj ht
  obtain ⟨raw, -, -, hlen⟩ := StatBuffer.of_take_eq_ok_some htake
  exact hlen

end ArgumentValue

/-! ## Arguments of a cast -/

/-- The tokens that the argument at place `i` was built from. -/
def segmentAt (tokens : List Text) (m : Nat) (cut : Nat → Nat) (i : Nat) : List Text :=
  if i < m then tokens.extract (cut i) (cut (i + 1)) else (tokens.drop (cut m))[i - m]?.toList

namespace Accounts

variable {syscall : Text} {kind : CallKind} {ps : List Parameter} {tokens : List Text}
  {output : CastOutput} {m i : Nat} {cut : Nat → Nat} {v : ArgumentValue}

theorem head?_segmentAt (h : Accounts syscall kind ps tokens output m cut) (hi : i < m) :
    (segmentAt tokens m cut i).head? = tokens[cut i]? := by
  have hcut := h.increasing i hi
  unfold segmentAt
  rw [if_pos hi, List.extract_eq_take_drop, List.head?_take, if_neg (by omega), List.head?_drop]

/-- The arguments that keep their tokens are printed as them. -/
theorem text_of_isVerbatim (h : Accounts syscall kind ps tokens output m cut)
    (hv : output.arguments[i]? = some v) (hverbatim : v.IsVerbatim (segmentAt tokens m cut i)) :
    v.text = joinCommas (segmentAt tokens m cut i) := by
  by_cases hi : i < m
  · obtain ⟨p, token, value?, -, htoken, hbuilds, harg⟩ := h.built i hi
    have hsegment : segmentAt tokens m cut i = tokens.extract (cut i) (cut (i + 1)) := if_pos hi
    rw [← hsegment] at hbuilds
    obtain rfl := Option.some.inj (hv.symm.trans harg)
    cases value? with
    | some v => exact ArgumentValue.text_of_builds hbuilds hverbatim
    | none =>
      obtain ⟨t, ht⟩ := ArgumentValue.exists_of_builds_none hbuilds
      have hhead := h.head?_segmentAt hi
      rw [ht, htoken] at hhead
      rw [ht, joinCommas_singleton, Option.some.inj hhead]
      rfl
  · rcases h.of_le (Nat.not_lt.1 hi) hv with ⟨p, rfl, -⟩ | ⟨t, rfl, ht⟩
    · cases hverbatim
    · rw [segmentAt, if_neg hi, ht]
      exact (joinCommas_singleton t).symm

theorem length_fields (h : Accounts syscall kind ps tokens output m cut) {s : StatBuffer}
    (hv : output.arguments[i]? = some (.stat s)) : s.fields.length = StatBuffer.fieldCount := by
  by_cases hi : i < m
  · obtain ⟨p, token, value?, -, -, hbuilds, harg⟩ := h.built i hi
    have hvalue := hv.symm.trans harg
    cases value? with
    | some v =>
      obtain rfl := Option.some.inj hvalue
      exact ArgumentValue.length_fields_of_builds hbuilds
    | none => cases hvalue
  · rcases h.of_le (Nat.not_lt.1 hi) hv with ⟨p, hp, -⟩ | ⟨t, ht, -⟩
    · cases hp
    · cases ht

end Accounts

/-- A cast has accounts of its tokens, and by each of them the arguments that keep their tokens are
printed as these. No stat buffer lacks a field or has one too many. -/
theorem castArguments_verbatim {syscall : Text} {kind : CallKind}
    {parameters? : Option (List Parameter)} {tokens : List Text} {output : CastOutput}
    (h : castArguments syscall kind parameters? tokens = .ok output) :
    (∃ m cut, Accounts syscall kind (parameters?.getD []) tokens output m cut) ∧
      ∀ m cut, Accounts syscall kind (parameters?.getD []) tokens output m cut →
        ∀ i v, output.arguments[i]? = some v →
          (v.IsVerbatim (segmentAt tokens m cut i) →
            v.text = joinCommas (segmentAt tokens m cut i)) ∧
          ∀ s, v = .stat s → s.fields.length = StatBuffer.fieldCount := by
  refine ⟨?_, fun m cut haccounts i v hv => ⟨haccounts.text_of_isVerbatim hv, ?_⟩⟩
  · obtain ⟨casting, hrun, rfl⟩ := map_eq_ok_iff.1 h
    exact Casting.exists_accounts hrun
  · rintro s rfl
    exact haccounts.length_fields hv

/-- A path, an address that is not decoded and a pointer in place of a structure. -/
theorem castArguments_verbatim_pointer :
    let ps : List Parameter := [⟨"pathname".toList, some "char".toList, true, false⟩,
      ⟨"addr".toList, some "sockaddr".toList, true, true⟩,
      ⟨"buf".toList, some "stat".toList, true, true⟩]
    let tokens := ["\"/tmp/a\"".toList, "\x7bsa_family=AF_INET6".toList,
      "sin6_port=htons(80)\x7d".toList, "0x7ffe".toList]
    let args : List ArgumentValue := [.filepath "/tmp/a".toList,
      .sockaddr (.other "AF_INET6".toList ["sin6_port=htons(80)".toList]),
      .missing ⟨⟨"buf".toList, some "stat".toList, true, true⟩, some "0x7ffe".toList⟩]
    castArguments "connect".toList .complete (some ps) tokens = .ok ⟨args, []⟩ ∧
      ∃ m cut, Accounts "connect".toList .complete ps tokens ⟨args, []⟩ m cut ∧
        ∀ i v, args[i]? = some v → v.text = joinCommas (segmentAt tokens m cut i) := by
  intro ps tokens args
  have hcast : castArguments "connect".toList .complete (some ps) tokens = .ok ⟨args, []⟩ := by
    decide +kernel
  have hverbatim : ∀ v ∈ args, ∀ ts, v.IsVerbatim ts := by
    rw [List.forall_mem_cons, List.forall_mem_cons, List.forall_mem_singleton]
    exact ⟨fun _ => trivial, fun _ => trivial, fun _ => rfl⟩
  obtain ⟨⟨m, cut, haccounts⟩, hall⟩ := castArguments_verbatim hcast
  exact ⟨hcast, m, cut, haccounts, fun i v hv =>
    (hall m cut haccounts i v hv).1 (hverbatim v (List.mem_of_getElem? hv) _)⟩

end SyscallTrace
