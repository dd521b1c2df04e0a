import SyscallTrace.Argument.Casting
import SyscallTrace.Proofs.Argument.Addresses

/-!
# What the readers of values consume

A reader of values takes its tokens from the front of a list and leaves the rest. It reads them
whole: given the tokens that it took and any start of the rest, it reads the same value and leaves
that start (`ReadsWhole`). So its value does not depend on where the rest ends, and it needs no
token of the rest. `ArgumentValue.exists_taken_of_read` says so for every kind of value.
-/

namespace SyscallTrace

variable {α β : Type}

/-- What `f` reads from the front of the tokens it reads as well when the tokens end earlier, but
not before the last one that it takes, and it takes at least one. -/
def ReadsWhole (f : List Text → Except CastError (α × List Text)) : Prop :=
  ∀ tokens value rest, f tokens = .ok (value, rest) →
    ∃ taken, taken ≠ [] ∧ tokens = taken ++ rest ∧
      ∀ rest', rest' <+: rest → f (taken ++ rest') = .ok (value, rest')

theorem ReadsWhole.map {f : List Text → Except CastError (α × List Text)} (h : ReadsWhole f)
    (g : α → β) : ReadsWhole fun tokens => (f tokens).map fun r => (g r.1, r.2) := by
  intro tokens value rest hf
  obtain ⟨⟨v, rest'⟩, hv, hg⟩ := map_eq_ok_iff.1 hf
  obtain ⟨rfl, rfl⟩ := Prod.mk.inj hg
  obtain ⟨taken, hne, ht, hread⟩ := h tokens v rest' hv
  exact ⟨taken, hne, ht, fun rest'' hrest => map_eq_ok_iff.2 ⟨(v, rest''), hread rest'' hrest, rfl⟩⟩

/-! ## Structures in braces -/

theorem Braced.take_raw {kind : ArgumentKind} {tokens : List Text} {b : Braced}
    (h : take kind tokens = .ok b) :
    b.raw ≠ [] ∧ ∀ rest', take kind (b.raw ++ rest') = .ok ⟨b.raw, rest'⟩ := by
  obtain ⟨hopen, hclose, -⟩ := take_eq_ok_iff.1 h
  exact ⟨hclose.ne_nil, fun rest' => take_eq_ok_iff.2 ⟨hopen, hclose, rfl⟩⟩

theorem SocketAddress.readsWhole : ReadsWhole take := by
  intro tokens value rest h
  cases value with
  | none =>
    obtain ⟨t, ht, rfl⟩ := take_eq_ok_none_iff.1 h
    exact ⟨[t], by simp, rfl, fun rest' _ => take_eq_ok_none_iff.2 ⟨t, ht, rfl⟩⟩
  | some a =>
    rcases take_eq_ok_some_iff.1 h with
      ⟨t, ht, rfl, rfl⟩ | ⟨family, fields, raw, rfl, hfamily, hraw, ha⟩
    · exact ⟨[t], by simp, rfl, fun rest' _ =>
        take_eq_ok_some_iff.2 (.inl ⟨t, ht, rfl, rfl⟩)⟩
    · refine ⟨raw, hraw.closes.ne_nil, rfl, fun rest' _ => take_eq_ok_some_iff.2 (.inr ?_)⟩
      exact ⟨family, fields, raw, rfl, hfamily, hraw, ha⟩

theorem StatBuffer.readsWhole : ReadsWhole take := by
  intro tokens value rest h
  unfold take at h
  split at h
  · next hptr =>
    obtain ⟨rfl, rfl⟩ := Prod.mk.inj (Except.ok.inj h)
    cases tokens with
    | nil => cases hptr
    | cons first others =>
      refine ⟨[first], by simp, rfl, fun rest' _ => ?_⟩
      have hptr : ([first] ++ rest').head?.any isPointer := hptr
      unfold take
      rw [if_pos hptr]
      rfl
  · next hptr =>
    obtain ⟨braced, hb, h⟩ := bind_eq_ok_iff.1 h
    dsimp only at h
    split at h
    · next hcount =>
      obtain ⟨rfl, rfl⟩ := Prod.mk.inj (Except.ok.inj h)
      obtain ⟨hne, hraw⟩ := Braced.take_raw hb
      have htokens := Braced.raw_append_rest_of_take hb
      refine ⟨braced.raw, hne, htokens.symm, fun rest' _ => ?_⟩
      have hhead : (braced.raw ++ rest').head? = tokens.head? := by
        rw [← htokens, List.head?_append_of_ne_nil _ hne, List.head?_append_of_ne_nil _ hne]
      unfold take
      rw [hhead, if_neg hptr, hraw rest']
      exact bind_eq_ok_iff.2 ⟨_, rfl, if_pos hcount⟩
    · cases h

/-! ## Poll descriptors -/

namespace PollFd

/-- An entry takes the returned events if the next token has them. A token that has none is left,
and the entry is the same without it. -/
theorem withRevents_taken (fd : Int64) (events : Text) (isLast : Bool) (tokens : List Text) :
    ∃ taken, tokens = taken ++ (withRevents fd events isLast tokens).rest ∧
      ∀ rest', rest' <+: (withRevents fd events isLast tokens).rest →
        withRevents fd events isLast (taken ++ rest') =
          { withRevents fd events isLast tokens with rest := rest' } := by
  cases tokens with
  | nil =>
    refine ⟨[], rfl, fun rest' hrest => ?_⟩
    obtain rfl := List.prefix_nil.1 hrest
    rfl
  | cons token tokens =>
    cases hv : token.dropPrefix? "revents=".toList with
    | some value =>
      refine ⟨[token], ?_, fun rest' _ => ?_⟩
      · simp only [withRevents, hv]
        rfl
      · simp only [withRevents, List.cons_append, hv]
        rfl
    | none =>
      refine ⟨[], ?_, fun rest' hrest => ?_⟩
      · simp only [withRevents, hv]
        rfl
      · simp only [withRevents, hv] at hrest
        cases rest' with
        | nil =>
          simp only [withRevents, hv]
          rfl
        | cons t rest' =>
          obtain ⟨rfl, -⟩ := List.cons_prefix_cons.1 hrest
          simp only [withRevents, hv, List.nil_append]

theorem takeEntry_taken {seen tokens : List Text} {e : Entry} (h : takeEntry seen tokens = .ok e) :
    ∃ taken, taken ≠ [] ∧ tokens = taken ++ e.rest ∧
      ∀ seen' rest', rest' <+: e.rest →
        takeEntry seen' (taken ++ rest') = .ok { e with rest := rest' } := by
  unfold takeEntry at h
  split at h
  · cases h
  · next fdToken tokens =>
    split at h
    · cases h
    · next fdText hfdText =>
      split at h
      · cases h
      · next fd hfd =>
        split at h
        · cases h
        · next eventsToken rest =>
          split at h
          · cases h
          · next events hevents =>
            obtain rfl := Except.ok.inj h
            obtain ⟨taken, ht, hread⟩ :=
              withRevents_taken fd events (eventsToken.endsWith [']']) rest
            refine ⟨fdToken :: eventsToken :: taken, by simp, ?_, fun seen' rest' hrest => ?_⟩
            · rw [List.cons_append, List.cons_append, ← ht]
            · rw [List.cons_append, List.cons_append]
              simp only [takeEntry, hfdText, hfd, hevents, hread rest' hrest]

theorem takeEntries_of_error {seen tokens : List Text} {e : CastError}
    (h : takeEntry seen tokens = .error e) : takeEntries seen tokens = .error e := by
  rw [takeEntries]
  split
  · next e' h' =>
    obtain rfl := Except.error.inj (h'.symm.trans h)
    rfl
  · next h' => cases h'.symm.trans h

theorem takeEntries_of_last {seen tokens : List Text} {e : Entry}
    (h : takeEntry seen tokens = .ok e) (hlast : e.isLast) :
    takeEntries seen tokens = .ok ([e.pollFd], e.rest) := by
  rw [takeEntries]
  split
  · next h' => cases h'.symm.trans h
  · next e' h' =>
    obtain rfl := Except.ok.inj (h'.symm.trans h)
    rw [if_pos hlast]

theorem takeEntries_of_not_last {seen tokens : List Text} {e : Entry}
    (h : takeEntry seen tokens = .ok e) (hlast : ¬e.isLast) :
    takeEntries seen tokens =
      (takeEntries (seen ++ tokens.take (tokens.length - e.rest.length)) e.rest).map fun r =>
        (e.pollFd :: r.1, r.2) := by
  rw [takeEntries]
  split
  · next h' => cases h'.symm.trans h
  · next e' h' =>
    obtain rfl := Except.ok.inj (h'.symm.trans h)
    rw [if_neg hlast]
    cases takeEntries (seen ++ tokens.take (tokens.length - e'.rest.length)) e'.rest <;> rfl

theorem takeEntries_taken {seen tokens : List Text} {list : List PollFd} {rest : List Text}
    (h : takeEntries seen tokens = .ok (list, rest)) :
    ∃ taken, taken ≠ [] ∧ tokens = taken ++ rest ∧
      ∀ seen' rest', rest' <+: rest → takeEntries seen' (taken ++ rest') = .ok (list, rest') := by
  induction hlen : tokens.length using Nat.strongRecOn generalizing seen tokens list with
  | ind n ih =>
    cases he : takeEntry seen tokens with
    | error e =>
      rw [takeEntries_of_error he] at h
      cases h
    | ok e =>
      obtain ⟨taken, hne, ht, hread⟩ := takeEntry_taken he
      by_cases hlast : e.isLast
      · rw [takeEntries_of_last he hlast] at h
        obtain ⟨rfl, rfl⟩ := Prod.mk.inj (Except.ok.inj h)
        exact ⟨taken, hne, ht, fun seen' rest' hrest =>
          takeEntries_of_last (hread seen' rest' hrest) hlast⟩
      · rw [takeEntries_of_not_last he hlast] at h
        obtain ⟨⟨others, rest'⟩, ho, hr⟩ := map_eq_ok_iff.1 h
        obtain ⟨rfl, rfl⟩ := Prod.mk.inj hr
        obtain ⟨taken', hne', ht', hread'⟩ :=
          ih e.rest.length (hlen ▸ length_rest_lt_of_takeEntry he) ho rfl
        refine ⟨taken ++ taken', by simp [hne], ?_, fun seen' rest'' hrest => ?_⟩
        · rw [List.append_assoc, ← ht', ← ht]
        · have hfirst := hread seen' (taken' ++ rest'') (by
            rw [ht']
            exact (List.prefix_append_right_inj taken').2 hrest)
          rw [List.append_assoc, takeEntries_of_not_last hfirst hlast]
          dsimp only
          rw [hread' _ rest'' hrest]
          rfl

theorem readsWhole : ReadsWhole takeList := by
  intro tokens value rest h
  unfold takeList at h
  split at h
  · cases h
  · next first others =>
    split at h
    · next hempty =>
      obtain ⟨rfl, rfl⟩ := Prod.mk.inj (Except.ok.inj h)
      refine ⟨[first], by simp, rfl, fun rest' _ => ?_⟩
      rw [List.singleton_append]
      unfold takeList
      dsimp only
      rw [if_pos hempty]
    · next hempty =>
      split at h
      · next hptr =>
        obtain ⟨rfl, rfl⟩ := Prod.mk.inj (Except.ok.inj h)
        refine ⟨[first], by simp, rfl, fun rest' _ => ?_⟩
        rw [List.singleton_append]
        unfold takeList
        dsimp only
        rw [if_neg hempty, if_pos hptr]
      · next hptr =>
        split at h
        · next hopen =>
          obtain ⟨⟨list, rest'⟩, hl, hr⟩ := map_eq_ok_iff.1 h
          obtain ⟨rfl, rfl⟩ := Prod.mk.inj hr
          obtain ⟨taken, hne, ht, hread⟩ := takeEntries_taken hl
          refine ⟨taken, hne, ht, fun rest' hrest => ?_⟩
          have hread := hread [] rest' hrest
          obtain ⟨t, taken', rfl⟩ := List.exists_cons_of_ne_nil hne
          obtain ⟨rfl, -⟩ := List.cons.inj ht
          rw [List.cons_append] at hread ⊢
          unfold takeList
          dsimp only
          rw [if_neg hempty, if_neg hptr, if_pos hopen, hread]
          rfl
        · cases h

end PollFd

/-! ## All kinds -/

namespace ArgumentValue

/-- The reader of a kind reads this value from exactly these tokens. -/
def Builds (kind : ArgumentKind) (tokens : List Text) (value? : Option ArgumentValue) : Prop :=
  ∃ token rest, tokens = token :: rest ∧ read kind token rest = .ok (value?, [])

variable {kind : ArgumentKind} {token : Text} {rest rest' : List Text}
  {value? : Option ArgumentValue}

theorem Builds.ne_nil {tokens : List Text} (h : Builds kind tokens value?) : tokens ≠ [] := by
  obtain ⟨token, rest, rfl, -⟩ := h
  simp

theorem exists_taken_of_readsWhole {α : Type}
    {f : List Text → Except CastError (Option α × List Text)} (hf : ReadsWhole f)
    (g : α → ArgumentValue)
    (hread : ∀ rest, read kind token rest = (f (token :: rest)).map fun r => (r.1.map g, r.2))
    (h : read kind token rest = .ok (value?, rest')) :
    ∃ taken, rest = taken ++ rest' ∧
      ∀ rest'', rest'' <+: rest' → read kind token (taken ++ rest'') = .ok (value?, rest'') := by
  rw [hread] at h
  obtain ⟨taken, hne, ht, htaken⟩ := hf.map (Option.map g) (token :: rest) value? rest' h
  obtain ⟨t, taken, rfl⟩ := List.exists_cons_of_ne_nil hne
  obtain ⟨rfl, hrest⟩ := List.cons.inj ht
  refine ⟨taken, hrest, fun rest'' hprefix => ?_⟩
  rw [hread]
  exact htaken rest'' hprefix

/-- A value is read from the token and some tokens behind it, wherever the rest ends. -/
theorem exists_taken_of_read (h : read kind token rest = .ok (value?, rest')) :
    ∃ taken, rest = taken ++ rest' ∧
      ∀ rest'', rest'' <+: rest' → read kind token (taken ++ rest'') = .ok (value?, rest'') := by
  -- most kinds take one token, whatever follows it
  have hone : (∀ rest'', read kind token rest'' =
        (read kind token rest).map fun r => (r.1, rest'')) → rest' = rest →
      ∃ taken, rest = taken ++ rest' ∧
        ∀ rest'', rest'' <+: rest' → read kind token (taken ++ rest'') = .ok (value?, rest'') :=
    fun hall hrest => by
      subst hrest
      refine ⟨[], rfl, fun rest'' _ => ?_⟩
      rw [List.nil_append, hall, h]
      rfl
  cases kind with
  | int =>
    obtain ⟨v, hv, hr⟩ := map_eq_ok_iff.1 h
    refine hone (fun rest'' => ?_) (Prod.mk.inj hr).2.symm
    unfold read
    rw [hv]
    rfl
  | fileDescriptor =>
    obtain ⟨v, hv, hr⟩ := map_eq_ok_iff.1 h
    refine hone (fun rest'' => ?_) (Prod.mk.inj hr).2.symm
    unfold read
    rw [hv]
    rfl
  | hex | filepath | flags | unimplemented =>
    exact hone (fun _ => rfl) (Prod.mk.inj (Except.ok.inj h)).2.symm
  | sockaddr => exact exists_taken_of_readsWhole SocketAddress.readsWhole sockaddr (fun _ => rfl) h
  | stat => exact exists_taken_of_readsWhole StatBuffer.readsWhole stat (fun _ => rfl) h
  | pollFdList =>
    exact exists_taken_of_readsWhole PollFd.readsWhole pollFdList (fun _ => rfl) h

/-- A value is read from exactly the tokens that its reader takes. -/
theorem exists_builds_of_read (h : read kind token rest = .ok (value?, rest')) :
    ∃ taken, token :: rest = taken ++ rest' ∧ Builds kind taken value? := by
  obtain ⟨taken, rfl, hread⟩ := exists_taken_of_read h
  have hwhole := hread [] List.nil_prefix
  rw [List.append_nil] at hwhole
  exact ⟨token :: taken, rfl, token, taken, rfl, hwhole⟩

end ArgumentValue

end SyscallTrace
