import Mathlib.Data.List.TakeWhile
import SyscallTrace.Proofs.Session.Openings
import SyscallTrace.Proofs.Session.Parts

/-!
# Histories with an interrupted call

Two lines start and resume the call that one line shows whole (`Interrupts`). Where nothing disturbs
the call in between (`Undisturbed`), the history with the two lines is valid if the one with the
whole line is (`Interrupts.valid`), and has its sources but for that of the call
(`Interrupts.sources_eq`).
-/

namespace SyscallTrace

namespace History

variable {es xs ys zs : List Entry} {e l u r : Entry} {c c₀ c₁ : Call} {k : CallKey} {n m : Nat}
  {o o' : Outcome} {w : Waiting}

/-! ## Where a call can be interrupted -/

/-- A call of this process and name can be interrupted from place `n` to place `m`: no other one
starts in between, and one that is open at `n` is neither continued nor resumed from there on. -/
structure Undisturbed (es : List Entry) (k : CallKey) (n m : Nat) : Prop where
  notStarted : ∀ i < m, n ≤ i → effectAt es k i ≠ .starts
  notTaken : ∀ i < es.length, n ≤ i → ∀ j < n, OpenAt es k j i →
    effectAt es k i = .passes ∨ effectAt es k i = .starts

/-- In a valid history, what a line continues or resumes is open. -/
theorem exists_openAt (hv : Valid Waiting.none es) (hpasses : effectAt es k n ≠ .passes)
    (hstarts : effectAt es k n ≠ .starts) : ∃ j, OpenAt es k j n := by
  obtain ⟨e, c, he, hc, heff, -⟩ := exists_of_effectAt_ne_passes hpasses
  have ha : (waitingAt es n).Admits c :=
    (valid_drop_iff (Nat.zero_le _)).1 hv n e c (Nat.zero_le n) he hc
  have hsome : (waitingAt es n k).isSome := by
    rw [heff] at hpasses hstarts
    cases h : c.effect k with
    | passes => exact absurd h hpasses
    | starts => exact absurd h hstarts
    | adds args =>
      obtain ⟨rfl, hs, -⟩ := Call.effect_eq_adds_iff.1 h
      exact (Waiting.admits_iff_of_continued hs).1 ha
    | ends =>
      obtain ⟨rfl, o, hs⟩ := Call.effect_eq_ends_iff.1 h
      exact (Waiting.admits_iff_of_resumed hs).1 ha
  obtain ⟨o, ho⟩ := Option.isSome_iff_exists.1 hsome
  obtain ⟨j, -, -, hj, -⟩ := waitingAt_eq_some_iff.1 ho
  exact ⟨j, hj⟩

theorem effectAt_append (i : Nat) :
    effectAt (xs ++ ys) k (xs.length + i) = effectAt ys k i := by
  unfold effectAt
  rw [List.getElem?_append_right (Nat.le_add_right _ _), Nat.add_sub_cancel_left]

theorem effectAt_of_passes (h : ∀ e ∈ xs, e.effect k = .passes) (hn : n < xs.length) :
    effectAt (xs ++ ys) k n = .passes := by
  have he : (xs ++ ys)[n]? = some xs[n] := by
    rw [List.getElem?_append_left hn, List.getElem?_eq_getElem hn]
  rw [effectAt_of_getElem? he]
  exact h _ (List.getElem_mem hn)

/-- From an undisturbed place on, the call that waits there is left alone. -/
theorem Undisturbed.leftAlone (h : Undisturbed (xs ++ zs) k n m) (hn : xs.length = n)
    (hv : Valid Waiting.none (xs ++ zs)) : LeftAlone k zs := by
  subst hn
  obtain ⟨ps, rest, rfl, hps, hrest⟩ : ∃ ps rest, zs = ps ++ rest ∧
      (∀ e ∈ ps, e.effect k = .passes) ∧ ∀ e ∈ rest.head?, e.effect k ≠ .passes := by
    refine ⟨zs.takeWhile fun e => e.effect k = .passes, zs.dropWhile fun e => e.effect k = .passes,
      List.takeWhile_append_dropWhile.symm, fun e he => ?_, fun e he => ?_⟩
    · simpa using List.mem_takeWhile_imp he
    · have hnot := List.head?_dropWhile_not (fun e : Entry => decide (e.effect k = .passes)) zs
      rw [Option.mem_def.1 he] at hnot
      simpa using hnot
  refine ⟨ps, rest, rfl, hps, fun e he => ?_⟩
  obtain ⟨rest, rfl⟩ : ∃ tail, rest = e :: tail := List.head?_eq_some_iff.1 he
  have heff : effectAt (xs ++ (ps ++ e :: rest)) k (xs.length + ps.length) = e.effect k := by
    rw [effectAt_append]
    exact effectAt_append 0
  have hpasses := hrest e rfl
  by_contra hstarts
  obtain ⟨j, hj⟩ := exists_openAt (n := xs.length + ps.length) hv (heff ▸ hpasses) (heff ▸ hstarts)
  -- the call that `e` continues or resumes started before the part, as all lines up to `e` pass
  have hlt : j < xs.length := by
    by_contra hge
    obtain ⟨i, rfl⟩ := Nat.exists_eq_add_of_le (Nat.le_of_not_lt hge)
    have hi := hj.starts
    rw [effectAt_append, effectAt_of_passes hps (by have := hj.lt; omega)] at hi
    cases hi
  rcases h.notTaken (xs.length + ps.length) (by simp) (by omega) j hlt hj with h | h
  · exact hpasses (heff.symm.trans h)
  · exact hstarts (heff.symm.trans h)

theorem Undisturbed.effect_ne_starts (h : Undisturbed (xs ++ (ys ++ zs)) k n m)
    (hn : xs.length = n) (hm : xs.length + ys.length = m) : ∀ e ∈ ys, e.effect k ≠ .starts := by
  intro e he
  obtain ⟨i, hi, rfl⟩ := List.mem_iff_getElem.1 he
  have hget : (ys ++ zs)[i]? = some ys[i] := by
    rw [List.getElem?_append_left hi, List.getElem?_eq_getElem hi]
  rw [← effectAt_of_getElem? hget, ← effectAt_append]
  exact h.notStarted (xs.length + i) (by omega) (by omega)

/-- If a call is left alone and no other one starts before a line, then no line before it does
anything to the call, and the lines after it leave it alone. -/
theorem LeftAlone.split (h : LeftAlone k (ys ++ e :: zs)) (he : e.effect k = .passes)
    (hys : ∀ e ∈ ys, e.effect k ≠ .starts) :
    (∀ e ∈ ys, e.effect k = .passes) ∧ LeftAlone k zs := by
  obtain ⟨ps, rest, heq, hps, hrest⟩ := h
  have hnot : rest.head? ≠ some e := fun hs => by
    rw [hrest e hs] at he
    cases he
  rcases List.append_eq_append_iff.1 heq with ⟨x, rfl, hx⟩ | ⟨x, rfl, hx⟩
  · rcases x with _ | ⟨d, x⟩
    · exact absurd (congrArg List.head? hx.symm) hnot
    · obtain ⟨rfl, rfl⟩ := List.cons.inj hx
      exact ⟨fun e he => hps e (List.mem_append_left _ he), x, rest, rfl,
        fun e he => hps e (List.mem_append_right _ (List.mem_cons_of_mem _ he)), hrest⟩
  · rcases x with _ | ⟨d, x⟩
    · exact absurd (congrArg List.head? hx) hnot
    · have hd := hrest d (by rw [hx]; rfl)
      exact absurd hd (hys d (by simp))

/-! ## A history with an interrupted call -/

/-- The lines `u` and `r` start and resume the call that the line `l` shows whole. -/
structure Interrupts (k : CallKey) (l u r : Entry) (c c₀ c₁ : Call) : Prop where
  whole : l.call? = some c
  complete : ∃ o, c.stage = .complete o
  started : u.call? = some c₀
  unfinished : c₀.stage = .unfinished
  started_key : c₀.key = k
  resumes : r.call? = some c₁
  resumed : ∃ o, c₁.stage = .resumed o
  resumed_key : c₁.key = k

namespace Interrupts

variable (h : Interrupts k l u r c c₀ c₁)

include h

theorem passes_whole (k' : CallKey) : l.effect k' = .passes := by
  obtain ⟨o, ho⟩ := h.complete
  rw [effect_of_call h.whole]
  exact Call.effect_complete ho

theorem starts : u.effect k = .starts := by
  rw [effect_of_call h.started, ← h.started_key]
  exact Call.effect_unfinished h.unfinished

theorem ends : r.effect k = .ends := by
  obtain ⟨o, ho⟩ := h.resumed
  rw [effect_of_call h.resumes, ← h.resumed_key]
  exact Call.effect_resumed ho

/-- Calls of other processes and names do not see the difference. -/
theorem laterArgs?_of_ne {k' : CallKey} (hk : k' ≠ k) :
    laterArgs? k' (l :: zs) = laterArgs? k' (r :: zs) := by
  have hr : r.effect k' = .passes := by
    rw [effect_of_call h.resumes]
    exact Call.effect_of_ne fun heq => hk (heq.symm.trans h.resumed_key)
  rw [laterArgs?_cons_of_passes (h.passes_whole k'), laterArgs?_cons_of_passes hr]

/-- A call that waited before the interrupted one started is handed back in either history. -/
theorem laterArgs?_eq (hys : ∀ e ∈ ys, e.effect k = .passes) (hzs : LeftAlone k zs)
    (k' : CallKey) :
    laterArgs? k' (ys ++ l :: zs) = laterArgs? k' (u :: (ys ++ r :: zs)) := by
  by_cases hk : k' = k
  · rw [hk, laterArgs?_append_of_passes hys, laterArgs?_cons_of_passes (h.passes_whole k),
      hzs.laterArgs?, laterArgs?_cons_of_starts h.starts]
  · have hu : u.effect k' = .passes := by
      rw [effect_of_call h.started]
      exact Call.effect_of_ne fun heq => hk (heq.symm.trans h.started_key)
    rw [laterArgs?_cons_of_passes hu]
    exact laterArgs?_append_congr (h.laterArgs?_of_ne hk)

theorem sources_whole :
    sources w (l :: zs) = ⟨c.aligned, l.line, none, l.number⟩ :: sources w zs := by
  obtain ⟨o, ho⟩ := h.complete
  rw [sources_cons_of_some h.whole, Waiting.source?_of_complete ho, Waiting.next, ho]
  rfl

/-- The unfinished line has no record. -/
theorem sources_started (hys : ∀ e ∈ ys, e.effect k = .passes) :
    sources w (u :: (ys ++ r :: zs)) = sources (w.next u.line c₀) (ys ++ r :: zs) := by
  have hnone : laterArgs? c₀.key (ys ++ r :: zs) = none := by
    rw [h.started_key, laterArgs?_append_of_passes hys, laterArgs?_cons_of_ends h.ends]
  rw [sources_cons_of_some h.started, Waiting.source?_of_unfinished h.unfinished, hnone]
  rfl

theorem sources_resumed {started : OpenCall} (hw : w k = some started) :
    sources w (r :: zs) = ⟨(started.resume c₁).aligned, r.line, some started.line, r.number⟩ ::
      sources (w.next r.line c₁) zs := by
  obtain ⟨o, ho⟩ := h.resumed
  rw [sources_cons_of_some h.resumes, Waiting.source?_of_resumed ho, h.resumed_key, hw]
  rfl

/-- After the unfinished line and lines that pass, the call waits. -/
theorem waits (hys : ∀ e ∈ ys, e.effect k = .passes) :
    ((w.next u.line c₀).after ys) k = some ⟨c₀, u.line⟩ := by
  have hstarts : c₀.effect k = .starts := by
    rw [← effect_of_call h.started]
    exact h.starts
  rw [after_apply_of_passes hys, Waiting.next_apply_of_starts hstarts]

/-- The calls that wait before and after the interrupted one are the same but for its key. -/
theorem agreeIn_started : AgreeIn (· ≠ k) w (w.next u.line c₀) := by
  rw [← h.started_key]
  exact AgreeIn.next_self w u.line c₀

theorem agreeIn_resumed :
    AgreeIn (· ≠ k) (w.after ys) (((w.next u.line c₀).after ys).next r.line c₁) := by
  refine (h.agreeIn_started.after ys).trans ?_
  rw [← h.resumed_key]
  exact AgreeIn.next_self _ r.line c₁

/-- The history with the interrupted call has the sources of the one with the whole call, but for
the source of the call itself. -/
theorem sources_eq (w : Waiting) (xs : List Entry) (hys : ∀ e ∈ ys, e.effect k = .passes)
    (hzs : LeftAlone k zs) :
    ∃ before after,
      sources w (xs ++ (ys ++ l :: zs)) =
        before ++ ⟨c.aligned, l.line, none, l.number⟩ :: after ∧
      sources w (xs ++ u :: (ys ++ r :: zs)) =
        before ++ ⟨(OpenCall.resume ⟨c₀, u.line⟩ c₁).aligned, r.line, some u.line, r.number⟩ ::
          after ∧
      (before.map Source.line).Sublist ((xs ++ ys).map Entry.line) ∧
      (after.map Source.line).Sublist (zs.map Entry.line) := by
  refine ⟨partSources w xs (ys ++ l :: zs) ++ partSources (w.after xs) ys (l :: zs),
    sources ((w.after xs).after ys) zs, ?_, ?_, ?_, map_line_sources_sublist⟩
  · rw [sources_append, sources_append, h.sources_whole, List.append_assoc]
  · have hbefore : partSources w xs (u :: (ys ++ r :: zs)) = partSources w xs (ys ++ l :: zs) :=
      (partSources_congr (P := fun _ => True) (fun _ _ _ hk => absurd trivial hk) (fun _ _ => rfl)
        fun k' _ => h.laterArgs?_eq hys hzs k').symm
    have hbetween : partSources ((w.after xs).next u.line c₀) ys (r :: zs) =
        partSources (w.after xs) ys (l :: zs) :=
      (partSources_congr (touchesOnly_ne hys) h.agreeIn_started
        fun k' hk => h.laterArgs?_of_ne hk).symm
    rw [sources_append, h.sources_started hys, sources_append, h.sources_resumed (h.waits hys),
      hbefore, hbetween, ← sources_congr_of_leftAlone hzs h.agreeIn_resumed, List.append_assoc]
  · rw [List.map_append, List.map_append]
    exact map_line_partSources_sublist.append map_line_partSources_sublist

theorem valid (hys : ∀ e ∈ ys, e.effect k = .passes) (hzs : LeftAlone k zs)
    (hv : Valid w (xs ++ (ys ++ l :: zs))) : Valid w (xs ++ u :: (ys ++ r :: zs)) := by
  obtain ⟨hxs, hv⟩ := valid_append.1 hv
  obtain ⟨hvys, hv⟩ := valid_append.1 hv
  obtain ⟨o, ho⟩ := h.complete
  obtain ⟨o', ho'⟩ := h.resumed
  have hvzs : Valid ((w.after xs).after ys) zs := by
    have hv := ((valid_cons_of_some h.whole).1 hv).2
    rwa [Waiting.next, ho] at hv
  refine valid_append.2 ⟨hxs, (valid_cons_of_some h.started).2 ⟨?_, valid_append.2 ⟨?_, ?_⟩⟩⟩
  · rw [Waiting.Admits, h.unfinished]
    trivial
  · exact valid_congr (touchesOnly_ne hys) h.agreeIn_started hvys
  · refine (valid_cons_of_some h.resumes).2 ⟨?_, ?_⟩
    · rw [Waiting.admits_iff_of_resumed ho', h.resumed_key, h.waits hys]
      rfl
    · exact valid_congr_of_leftAlone hzs h.agreeIn_resumed hvzs

end Interrupts

end History

end SyscallTrace
