import SyscallTrace.Proofs.Line.Reading
import SyscallTrace.Proofs.Session.Finish

/-!
# Open calls by position

The history of a trace, told by the places of its lines. A line that starts an unfinished call is
open at a later place until another line starts a call of its process and name, or resumes it
(`OpenAt`). `waitingAt_eq_some_iff` says that the call that waits at a place is the open one, with
the tokens that were added to it, `laterArgs?_eq_none_iff` and `addedTokens_of_laterArgs?` what the
lines from a place on do to it, and `sourceAt?_eq_some_iff` what the record of each line is built
from.
-/

namespace SyscallTrace

/-- The tokens that a line adds to the call that waits. -/
def Effect.added : Effect → List Text
  | .adds args => args
  | _ => []

namespace History

section Definitions

variable (es : List Entry) (k : CallKey)

/-- What the line at place `i` does to the call that waits under `k`. -/
def effectAt (i : Nat) : Effect := es[i]?.elim .passes fun e => e.effect k

/-- The call that the line at place `j` starts still waits when the line at place `i` comes. -/
structure OpenAt (j i : Nat) : Prop where
  lt : j < i
  starts : effectAt es k j = .starts
  latest : ∀ m, j < m → m < i → effectAt es k m ≠ .starts
  notResumed : ∀ m, j < m → m < i → effectAt es k m ≠ .ends

instance (j i : Nat) : Decidable (OpenAt es k j i) :=
  decidable_of_iff (j < i ∧ effectAt es k j = .starts ∧
      ∀ m < i, j < m → effectAt es k m ≠ .starts ∧ effectAt es k m ≠ .ends)
    ⟨fun ⟨hlt, hs, h⟩ => ⟨hlt, hs, fun m hj hi => (h m hi hj).1, fun m hj hi => (h m hi hj).2⟩,
      fun ⟨hlt, hs, h, h'⟩ => ⟨hlt, hs, fun m hi hj => ⟨h m hj hi, h' m hj hi⟩⟩⟩

/-- The tokens that the lines at these places add, in order. -/
def addedTokens (places : List Nat) : List Text :=
  places.flatMap fun m => (effectAt es k m).added

/-- The calls that wait when the line at place `i` comes. -/
def waitingAt (i : Nat) : Waiting :=
  (es.take i).foldl (fun w e => e.call?.elim w (w.next e.line)) Waiting.none

/-- What the record of the line at place `i` is built from, if it has one. -/
def sourceAt? (i : Nat) : Option Source :=
  es[i]?.bind fun e => e.call?.bind fun c =>
    (waitingAt es i).source? e.line e.number c (es.drop (i + 1))

end Definitions

variable {es : List Entry} {k : CallKey} {e : Entry} {c : Call} {i j m n : Nat} {args : List Text}
  {o : OpenCall}

/-! ## Open lines -/

theorem effectAt_of_getElem? (h : es[i]? = some e) : effectAt es k i = e.effect k := by
  unfold effectAt
  rw [h]
  rfl

theorem effectAt_of_le (h : es.length ≤ i) : effectAt es k i = .passes := by
  unfold effectAt
  rw [List.getElem?_eq_none h]
  rfl

theorem OpenAt.of_le (h : OpenAt es k j i) (hjm : j < m) (hmi : m ≤ i) : OpenAt es k j m :=
  ⟨hjm, h.starts, fun n hj hn => h.latest n hj (by omega),
    fun n hj hn => h.notResumed n hj (by omega)⟩

theorem openAt_succ_iff_of_starts (h : effectAt es k n = .starts) :
    OpenAt es k j (n + 1) ↔ j = n := by
  constructor
  · intro hj
    by_contra hne
    exact hj.latest n (by have := hj.lt; omega) (by omega) h
  · rintro rfl
    exact ⟨by omega, h, fun m hj hm => by omega, fun m hj hm => by omega⟩

theorem not_openAt_succ_of_ends (h : effectAt es k n = .ends) : ¬OpenAt es k j (n + 1) := by
  intro hj
  rcases Nat.lt_or_ge j n with hlt | hge
  · exact hj.notResumed n hlt (by omega) h
  · obtain rfl : j = n := by have := hj.lt; omega
    rw [hj.starts] at h
    cases h

/-- A line that neither starts nor ends a call leaves open what was open. -/
theorem openAt_succ_iff (hs : effectAt es k n ≠ .starts) (he : effectAt es k n ≠ .ends) :
    OpenAt es k j (n + 1) ↔ OpenAt es k j n := by
  constructor
  · intro hj
    have hne : j ≠ n := fun h => hs (h ▸ hj.starts)
    exact hj.of_le (by have := hj.lt; omega) (by omega)
  · intro hj
    have hlast : ∀ m, m < n + 1 → m < n ∨ m = n := fun m hm => by omega
    refine ⟨by have := hj.lt; omega, hj.starts, fun m hjm hm => ?_, fun m hjm hm => ?_⟩
    · rcases hlast m hm with hm | rfl
      · exact hj.latest m hjm hm
      · exact hs
    · rcases hlast m hm with hm | rfl
      · exact hj.notResumed m hjm hm
      · exact he

/-! ## Added tokens -/

theorem addedTokens_append (xs ys : List Nat) :
    addedTokens es k (xs ++ ys) = addedTokens es k xs ++ addedTokens es k ys :=
  List.flatMap_append

theorem addedTokens_singleton (n : Nat) : addedTokens es k [n] = (effectAt es k n).added :=
  List.flatMap_singleton _ _

/-- The places between two lines. -/
def between (j i : Nat) : List Nat := List.range' (j + 1) (i - (j + 1))

theorem between_succ (h : j < n) : between j (n + 1) = between j n ++ [n] := by
  unfold between
  rw [show n + 1 - (j + 1) = n - (j + 1) + 1 by omega, List.range'_concat]
  congr 2
  omega

theorem between_self_succ : between n (n + 1) = [] := by
  unfold between
  rw [Nat.sub_self]
  rfl

theorem addedTokens_between_succ (h : j < n) :
    addedTokens es k (between j (n + 1)) =
      addedTokens es k (between j n) ++ (effectAt es k n).added := by
  rw [between_succ h, addedTokens_append, addedTokens_singleton]

/-! ## The calls that wait at a place -/

theorem waitingAt_succ (h : es[n]? = some e) :
    waitingAt es (n + 1) = e.call?.elim (waitingAt es n) ((waitingAt es n).next e.line) := by
  obtain ⟨hn, rfl⟩ := List.getElem?_eq_some_iff.1 h
  unfold waitingAt
  rw [List.take_succ_eq_append_getElem hn, List.foldl_append]
  rfl

theorem waitingAt_succ_of_le (h : es.length ≤ n) : waitingAt es (n + 1) = waitingAt es n := by
  unfold waitingAt
  rw [List.take_of_length_le (by omega), List.take_of_length_le h]

theorem exists_of_effectAt_ne_passes (h : effectAt es k n ≠ .passes) :
    ∃ e c, es[n]? = some e ∧ e.call? = some c ∧ effectAt es k n = c.effect k ∧
      waitingAt es (n + 1) = (waitingAt es n).next e.line c := by
  cases he : es[n]? with
  | none => exact absurd (effectAt_of_le (List.getElem?_eq_none_iff.1 he)) h
  | some e =>
    rw [effectAt_of_getElem? he] at h
    cases hc : e.call? with
    | none =>
      refine absurd ?_ h
      rw [Entry.effect, hc]
      rfl
    | some c =>
      refine ⟨e, c, rfl, hc, ?_, ?_⟩
      · rw [effectAt_of_getElem? he, Entry.effect, hc]
        rfl
      · rw [waitingAt_succ he, hc]
        rfl

theorem waitingAt_succ_of_passes (h : effectAt es k n = .passes) :
    waitingAt es (n + 1) k = waitingAt es n k := by
  cases he : es[n]? with
  | none => rw [waitingAt_succ_of_le (List.getElem?_eq_none_iff.1 he)]
  | some e =>
    rw [effectAt_of_getElem? he, Entry.effect] at h
    rw [waitingAt_succ he]
    cases hc : e.call? with
    | none => rfl
    | some c =>
      rw [hc] at h
      exact Waiting.next_apply_of_passes h

theorem waitingAt_succ_of_starts (h : effectAt es k n = .starts) :
    ∃ e c, es[n]? = some e ∧ e.call? = some c ∧
      waitingAt es (n + 1) k = some ⟨c, e.line⟩ := by
  obtain ⟨e, c, he, hc, heff, hw⟩ := exists_of_effectAt_ne_passes (by rw [h]; simp)
  refine ⟨e, c, he, hc, ?_⟩
  rw [hw, Waiting.next_apply_of_starts (heff.symm.trans h)]

theorem waitingAt_succ_of_adds (h : effectAt es k n = .adds args) :
    waitingAt es (n + 1) k = (waitingAt es n k).map fun o => o.extend args := by
  obtain ⟨e, c, -, -, heff, hw⟩ := exists_of_effectAt_ne_passes (by rw [h]; simp)
  rw [hw, Waiting.next_apply_of_adds (heff.symm.trans h)]

theorem waitingAt_succ_of_ends (h : effectAt es k n = .ends) : waitingAt es (n + 1) k = none := by
  obtain ⟨e, c, -, -, heff, hw⟩ := exists_of_effectAt_ne_passes (by rw [h]; simp)
  rw [hw, Waiting.next_apply_of_ends (heff.symm.trans h)]

theorem addedTokens_between_succ_of_passes (h : effectAt es k n = .passes) (hj : j < n) :
    addedTokens es k (between j (n + 1)) = addedTokens es k (between j n) := by
  rw [addedTokens_between_succ hj, h]
  exact List.append_nil _

/-- The call that waits is the one of the open line, with the tokens that were added since. -/
theorem waitingAt_eq_some_iff :
    waitingAt es n k = some o ↔ ∃ j e c, OpenAt es k j n ∧ es[j]? = some e ∧ e.call? = some c ∧
      o = ⟨c.extend (addedTokens es k (between j n)), e.line⟩ := by
  induction n generalizing o with
  | zero =>
    constructor
    · intro h
      cases h
    · rintro ⟨j, e, c, hj, -⟩
      exact absurd hj.lt (Nat.not_lt_zero j)
  | succ n ih =>
    cases h : effectAt es k n with
    | passes =>
      rw [waitingAt_succ_of_passes h, ih]
      refine exists_congr fun j => exists_congr fun e => exists_congr fun c => ?_
      rw [openAt_succ_iff (by rw [h]; simp) (by rw [h]; simp)]
      refine and_congr_right fun hj => ?_
      rw [addedTokens_between_succ_of_passes h hj.lt]
    | starts =>
      obtain ⟨e, c, he, hc, hw⟩ := waitingAt_succ_of_starts h
      have htokens : c.extend (addedTokens es k (between n (n + 1))) = c := by
        rw [between_self_succ]
        exact Call.extend_nil c
      rw [hw, Option.some.injEq]
      constructor
      · rintro rfl
        refine ⟨n, e, c, (openAt_succ_iff_of_starts h).2 rfl, he, hc, ?_⟩
        rw [htokens]
      · rintro ⟨j, e', c', hj, he', hc', rfl⟩
        obtain rfl := (openAt_succ_iff_of_starts h).1 hj
        obtain rfl := Option.some.inj (he.symm.trans he')
        obtain rfl := Option.some.inj (hc.symm.trans hc')
        rw [htokens]
    | adds args =>
      rw [waitingAt_succ_of_adds h, Option.map_eq_some_iff]
      have hadd : ∀ j, j < n → ∀ c : Call,
          (c.extend (addedTokens es k (between j n))).extend args =
            c.extend (addedTokens es k (between j (n + 1))) := fun j hj c => by
        rw [Call.extend_extend, addedTokens_between_succ hj, h]
        rfl
      constructor
      · rintro ⟨o, ho, rfl⟩
        obtain ⟨j, e, c, hj, he, hc, rfl⟩ := ih.1 ho
        refine ⟨j, e, c, (openAt_succ_iff (by rw [h]; simp) (by rw [h]; simp)).2 hj, he, hc, ?_⟩
        rw [← hadd j hj.lt c]
        rfl
      · rintro ⟨j, e, c, hj, he, hc, rfl⟩
        have hj := (openAt_succ_iff (by rw [h]; simp) (by rw [h]; simp)).1 hj
        refine ⟨_, ih.2 ⟨j, e, c, hj, he, hc, rfl⟩, ?_⟩
        rw [← hadd j hj.lt c]
        rfl
    | ends =>
      rw [waitingAt_succ_of_ends h]
      constructor
      · intro ho
        cases ho
      · rintro ⟨j, e, c, hj, -⟩
        exact absurd hj (not_openAt_succ_of_ends h)

theorem drop_eq_cons (h : es[n]? = some e) : es.drop n = e :: es.drop (n + 1) := by
  obtain ⟨hn, rfl⟩ := List.getElem?_eq_some_iff.1 h
  exact List.drop_eq_getElem_cons hn

/-! ## What becomes of an open call -/

/-- The places from `n` on where the line at place `i` is open. -/
def openFrom (es : List Entry) (k : CallKey) (i n : Nat) : List Nat :=
  (List.range' n (es.length - n)).filter fun m => OpenAt es k i m

theorem openFrom_cons (hi : OpenAt es k i n) (hn : n < es.length) :
    openFrom es k i n = n :: openFrom es k i (n + 1) := by
  unfold openFrom
  rw [show es.length - n = es.length - (n + 1) + 1 by omega, List.range'_succ,
    List.filter_cons_of_pos (by simpa using hi)]

theorem addedTokens_openFrom (hi : OpenAt es k i n) (hn : n < es.length) :
    addedTokens es k (openFrom es k i n) =
      (effectAt es k n).added ++ addedTokens es k (openFrom es k i (n + 1)) := by
  rw [openFrom_cons hi hn]
  exact List.flatMap_cons ..

theorem openFrom_succ_of_starts (hi : i < n) (h : effectAt es k n = .starts) :
    openFrom es k i (n + 1) = [] := by
  unfold openFrom
  rw [List.filter_eq_nil_iff]
  intro m hm
  have hm := (List.mem_range'_1.1 hm).1
  rw [decide_eq_true_eq]
  exact fun ho => ho.latest n hi (by omega) h

/-- A line that neither starts nor ends a call only puts off what becomes of the open one. -/
theorem notResumedFrom_iff (h : effectAt es k n ≠ .ends) :
    (∀ m, n ≤ m → OpenAt es k i m → effectAt es k m ≠ .ends) ↔
      ∀ m, n + 1 ≤ m → OpenAt es k i m → effectAt es k m ≠ .ends := by
  constructor
  · intro hall m hm
    exact hall m (by omega)
  · intro hall m hm
    rcases Nat.eq_or_lt_of_le hm with rfl | hm
    · exact fun _ => h
    · exact hall m hm

/-- An open call is handed back unless some line resumes it while it is open, and then it has the
tokens that were added while it was. -/
theorem laterArgs?_eq_some_iff (hi : OpenAt es k i n) (hn : n ≤ es.length) :
    laterArgs? k (es.drop n) = some args ↔
      (∀ m, n ≤ m → OpenAt es k i m → effectAt es k m ≠ .ends) ∧
        args = addedTokens es k (openFrom es k i n) := by
  induction hlen : es.length - n generalizing n args with
  | zero =>
    have hplaces : openFrom es k i n = [] := by
      unfold openFrom
      rw [hlen]
      rfl
    rw [List.drop_eq_nil_of_le (by omega), hplaces]
    constructor
    · intro h
      refine ⟨fun m hm _ => ?_, (Option.some.inj h).symm⟩
      rw [effectAt_of_le (by omega)]
      simp
    · rintro ⟨-, rfl⟩
      rfl
  | succ len ih =>
    obtain ⟨e, he⟩ : ∃ e, es[n]? = some e := ⟨es[n], List.getElem?_eq_getElem (by omega)⟩
    have heff : effectAt es k n = e.effect k := effectAt_of_getElem? he
    rw [drop_eq_cons he, addedTokens_openFrom hi (by omega), heff]
    cases h : e.effect k with
    | passes =>
      have hs : effectAt es k n ≠ .starts := by rw [heff, h]; simp
      have hne : effectAt es k n ≠ .ends := by rw [heff, h]; simp
      rw [laterArgs?_cons_of_passes h, notResumedFrom_iff hne]
      exact ih ((openAt_succ_iff hs hne).2 hi) (by omega) (by omega)
    | starts =>
      have hne : effectAt es k n ≠ .ends := by rw [heff, h]; simp
      rw [laterArgs?_cons_of_starts h, openFrom_succ_of_starts hi.lt (heff.trans h),
        notResumedFrom_iff hne]
      constructor
      · intro ha
        refine ⟨fun m hm ho => absurd (heff.trans h) (ho.latest n hi.lt hm), ?_⟩
        exact (Option.some.inj ha).symm
      · rintro ⟨-, rfl⟩
        rfl
    | adds now =>
      have hs : effectAt es k n ≠ .starts := by rw [heff, h]; simp
      have hne : effectAt es k n ≠ .ends := by rw [heff, h]; simp
      rw [laterArgs?_cons_of_adds h, notResumedFrom_iff hne, Option.map_eq_some_iff]
      have ih := fun later => @ih (n + 1) later ((openAt_succ_iff hs hne).2 hi) (by omega) (by omega)
      constructor
      · rintro ⟨later, hl, rfl⟩
        obtain ⟨hall, rfl⟩ := (ih later).1 hl
        exact ⟨hall, rfl⟩
      · rintro ⟨hall, rfl⟩
        exact ⟨_, (ih _).2 ⟨hall, rfl⟩, rfl⟩
    | ends =>
      rw [laterArgs?_cons_of_ends h]
      constructor
      · intro ha
        cases ha
      · rintro ⟨hall, -⟩
        exact absurd (heff.trans h) (hall n (Nat.le_refl n) hi)

/-! ## Sources by position -/

/-- The sources of the lines from a place on, with the calls that wait there. -/
theorem sources_drop (hn : n ≤ es.length) :
    sources (waitingAt es n) (es.drop n) =
      (List.range' n (es.length - n)).filterMap (sourceAt? es) := by
  induction hlen : es.length - n generalizing n with
  | zero =>
    rw [List.drop_eq_nil_of_le (by omega)]
    rfl
  | succ len ih =>
    obtain ⟨e, he⟩ : ∃ e, es[n]? = some e := ⟨es[n], List.getElem?_eq_getElem (by omega)⟩
    have ih := @ih (n + 1) (by omega) (by omega)
    rw [waitingAt_succ he] at ih
    rw [drop_eq_cons he, List.range'_succ]
    cases hc : e.call? with
    | none =>
      rw [hc] at ih
      have hsrc : sourceAt? es n = none := by rw [sourceAt?, he, Option.bind_some, hc]; rfl
      rw [sources_cons_of_none hc, List.filterMap_cons_none hsrc]
      exact ih
    | some c =>
      rw [hc] at ih
      have hsrc : sourceAt? es n =
          (waitingAt es n).source? e.line e.number c (es.drop (n + 1)) := by
        rw [sourceAt?, he, Option.bind_some, hc, Option.bind_some]
      rw [sources_cons_of_some hc]
      cases hx : sourceAt? es n with
      | none =>
        rw [List.filterMap_cons_none hx, ← hsrc, hx]
        exact ih
      | some x =>
        rw [List.filterMap_cons_some hx, ← hsrc, hx]
        exact congrArg (x :: ·) ih

theorem sources_eq_filterMap :
    sources Waiting.none es = (List.range es.length).filterMap (sourceAt? es) := by
  rw [List.range_eq_range']
  exact sources_drop (Nat.zero_le _)

/-- In a valid history each line that continues or resumes a call finds one waiting. -/
theorem valid_drop_iff (hn : n ≤ es.length) :
    Valid (waitingAt es n) (es.drop n) ↔
      ∀ m e c, n ≤ m → es[m]? = some e → e.call? = some c → (waitingAt es m).Admits c := by
  induction hlen : es.length - n generalizing n with
  | zero =>
    rw [List.drop_eq_nil_of_le (by omega)]
    refine ⟨fun _ m e c hm he => ?_, fun _ => trivial⟩
    rw [List.getElem?_eq_none (by omega)] at he
    cases he
  | succ len ih =>
    obtain ⟨e, he⟩ : ∃ e, es[n]? = some e := ⟨es[n], List.getElem?_eq_getElem (by omega)⟩
    have ih := @ih (n + 1) (by omega) (by omega)
    rw [waitingAt_succ he] at ih
    rw [drop_eq_cons he]
    cases hc : e.call? with
    | none =>
      rw [hc] at ih
      rw [valid_cons_of_none hc]
      refine ih.trans ⟨fun h m e' c hm he' hc' => ?_, fun h m e' c hm => h m e' c (by omega)⟩
      refine h m e' c ?_ he' hc'
      have : n ≠ m := fun hnm => by
        obtain rfl := Option.some.inj (he.symm.trans (hnm ▸ he'))
        rw [hc] at hc'
        cases hc'
      omega
    | some c =>
      rw [hc] at ih
      rw [valid_cons_of_some hc, show Valid ((waitingAt es n).next e.line c) _ ↔ _ from ih]
      constructor
      · rintro ⟨ha, h⟩ m e' c' hm he' hc'
        rcases Nat.eq_or_lt_of_le hm with rfl | hm
        · obtain rfl := Option.some.inj (he.symm.trans he')
          obtain rfl := Option.some.inj (hc.symm.trans hc')
          exact ha
        · exact h m e' c' hm he' hc'
      · intro h
        exact ⟨h n e c (Nat.le_refl n) he hc, fun m e' c' hm => h m e' c' (by omega)⟩

end History

end SyscallTrace
