import SyscallTrace.Proofs.Line.Reading
import SyscallTrace.Proofs.Session.Finish

/-!
# The history of one process

A call waits under its process and its name, so the calls of one process do not touch those of
another. `sources_onProcess` says that the sources of a process are those of its own lines, and
`valid_iff_forall_onProcess` that a history is valid if the history of each process is.
-/

namespace SyscallTrace

/-- The process that a line starts with. -/
def linePid? (line : Text) : Option UInt32 :=
  match Heading.takePid line.trim with
  | .ok (pid, _) => some pid
  | .error _ => none

theorem Call.linePid?_of_ofLine {columns : Columns} {line : Text} {c : Call}
    (h : ofLine columns line = .ok (some c)) : linePid? line = some c.pid := by
  obtain ⟨-, heading, body, form, ht, -, hc⟩ := ofLine_eq_ok_some_iff.1 h
  obtain ⟨t₁, t₂, hpid, -⟩ := Heading.take_eq_ok_some_iff.1 ht
  unfold linePid?
  rw [hpid, Call.pid, heading_of_ofForm hc]

namespace History

/-- Each line with a call starts with the process of the call. -/
def ShowsPids (es : List Entry) : Prop :=
  ∀ e ∈ es, ∀ c ∈ e.call?, linePid? e.line = some c.pid

/-- The lines that start with a process. -/
def onProcess (p : UInt32) (es : List Entry) : List Entry :=
  es.filter fun e => linePid? e.line == some p

/-- The same calls of a process wait. -/
def AgreeOn (p : UInt32) (w w' : Waiting) : Prop := ∀ k : CallKey, k.1 = p → w k = w' k

variable {p : UInt32} {w w' : Waiting} {es : List Entry} {e : Entry} {c : Call} {k : CallKey}
  {line : Text}

theorem showsPids_entries (columns : Columns) (lines : List Text) :
    ShowsPids (entries columns lines) := by
  intro e he c hc
  obtain ⟨x, -, rfl⟩ := List.mem_map.1 he
  exact Call.linePid?_of_ofLine (Entry.call?_ofLine_eq_some_iff.1 hc)

namespace ShowsPids

theorem tail (h : ShowsPids (e :: es)) : ShowsPids es :=
  fun e' he' => h e' (List.mem_cons_of_mem _ he')

theorem pid_of_call (h : ShowsPids (e :: es)) (hc : e.call? = some c) :
    linePid? e.line = some c.pid :=
  h e List.mem_cons_self c hc

theorem onProcess (h : ShowsPids es) (p : UInt32) : ShowsPids (onProcess p es) :=
  fun e he => h e (List.mem_of_mem_filter he)

end ShowsPids

theorem onProcess_cons_of_eq (h : linePid? e.line = some p) :
    onProcess p (e :: es) = e :: onProcess p es :=
  List.filter_cons_of_pos (by simpa using h)

theorem onProcess_cons_of_ne (h : linePid? e.line ≠ some p) :
    onProcess p (e :: es) = onProcess p es :=
  List.filter_cons_of_neg (by simpa using h)

theorem onProcess_onProcess : onProcess p (onProcess p es) = onProcess p es := by
  unfold onProcess
  rw [List.filter_filter]
  exact List.filter_congr fun e _ => Bool.and_self _

/-! ## The calls that wait -/

theorem next_apply_congr (h : w k = w' k) : w.next line c k = w'.next line c k := by
  cases heff : c.effect k with
  | passes => rw [Waiting.next_apply_of_passes heff, Waiting.next_apply_of_passes heff, h]
  | starts => rw [Waiting.next_apply_of_starts heff, Waiting.next_apply_of_starts heff]
  | adds args => rw [Waiting.next_apply_of_adds heff, Waiting.next_apply_of_adds heff, h]
  | ends => rw [Waiting.next_apply_of_ends heff, Waiting.next_apply_of_ends heff]

theorem effect_of_pid_ne (hk : k.1 = p) (h : c.pid ≠ p) : c.effect k = .passes :=
  Call.effect_of_ne fun hc => h (by rw [← hk, ← hc]; rfl)

namespace AgreeOn

theorem refl (p : UInt32) (w : Waiting) : AgreeOn p w w := fun _ _ => rfl

theorem next (h : AgreeOn p w w') : AgreeOn p (w.next line c) (w'.next line c) :=
  fun k hk => next_apply_congr (h k hk)

/-- A call of another process changes nothing. -/
theorem next_of_ne (h : AgreeOn p w w') (hc : c.pid ≠ p) : AgreeOn p (w.next line c) w' :=
  fun k hk => by rw [Waiting.next_apply_of_passes (effect_of_pid_ne hk hc), h k hk]

theorem admits_iff (h : AgreeOn p w w') (hc : c.pid = p) : w.Admits c ↔ w'.Admits c := by
  unfold Waiting.Admits
  rw [h c.key hc]

end AgreeOn

/-! ## Sources -/

theorem laterArgs?_onProcess (hes : ShowsPids es) (hk : k.1 = p) :
    laterArgs? k (onProcess p es) = laterArgs? k es := by
  induction es with
  | nil => rfl
  | cons e es ih =>
    by_cases hp : linePid? e.line = some p
    · rw [onProcess_cons_of_eq hp, laterArgs?, laterArgs?, ih hes.tail]
    · have heff : e.effect k = .passes := by
        unfold Entry.effect
        cases hc : e.call? with
        | none => rfl
        | some c => exact effect_of_pid_ne hk fun h => hp (by rw [hes.pid_of_call hc, h])
      rw [onProcess_cons_of_ne hp, laterArgs?_cons_of_passes heff, ih hes.tail]

theorem source?_onProcess (hes : ShowsPids es) (h : AgreeOn p w w') (hc : c.pid = p)
    (line : Text) (number : Nat) :
    w'.source? line number c (onProcess p es) = w.source? line number c es := by
  unfold Waiting.source?
  rw [h c.key hc, laterArgs?_onProcess hes hc]

theorem pid_of_mem_source? {number : Nat} {x : Source} (h : x ∈ w.source? line number c es) :
    x.call.pid = c.pid :=
  congrArg Prod.fst (Waiting.of_mem_source? h).2.2.2

/-- The sources of a process are those of its own lines. -/
theorem sources_onProcess (hes : ShowsPids es) (h : AgreeOn p w w') :
    sources w' (onProcess p es) = (sources w es).filter fun x => x.call.pid == p := by
  induction es generalizing w w' with
  | nil => rfl
  | cons e es ih =>
    cases hc : e.call? with
    | none =>
      rw [sources_cons_of_none hc, ← ih hes.tail h]
      by_cases hp : linePid? e.line = some p
      · rw [onProcess_cons_of_eq hp, sources_cons_of_none hc]
      · rw [onProcess_cons_of_ne hp]
    | some c =>
      have hpid := hes.pid_of_call hc
      rw [sources_cons_of_some hc, List.filter_append]
      by_cases hp : c.pid = p
      · rw [onProcess_cons_of_eq (hpid.trans (congrArg some hp)), sources_cons_of_some hc,
          source?_onProcess hes.tail h hp, ih hes.tail h.next]
        congr 1
        refine (List.filter_eq_self.2 fun x hx => ?_).symm
        rw [pid_of_mem_source? (Option.mem_toList.1 hx), hp, beq_self_eq_true]
      · rw [onProcess_cons_of_ne fun hq => hp (Option.some.inj (hpid.symm.trans hq)),
          ih hes.tail (h.next_of_ne hp)]
        have hnil : (w.source? e.line e.number c es).toList.filter
            (fun x => x.call.pid == p) = [] := by
          refine List.filter_eq_nil_iff.2 fun x hx => ?_
          rw [pid_of_mem_source? (Option.mem_toList.1 hx)]
          simpa using hp
        rw [hnil, List.nil_append]

/-! ## Validity -/

theorem valid_onProcess (hes : ShowsPids es) (h : AgreeOn p w w') (hv : Valid w es) :
    Valid w' (onProcess p es) := by
  induction es generalizing w w' with
  | nil => trivial
  | cons e es ih =>
    cases hc : e.call? with
    | none =>
      have hv := ih hes.tail h ((valid_cons_of_none hc).1 hv)
      by_cases hp : linePid? e.line = some p
      · rwa [onProcess_cons_of_eq hp, valid_cons_of_none hc]
      · rwa [onProcess_cons_of_ne hp]
    | some c =>
      obtain ⟨ha, hv⟩ := (valid_cons_of_some hc).1 hv
      have hpid := hes.pid_of_call hc
      by_cases hp : c.pid = p
      · rw [onProcess_cons_of_eq (hpid.trans (congrArg some hp)), valid_cons_of_some hc]
        exact ⟨(h.admits_iff hp).1 ha, ih hes.tail h.next hv⟩
      · rw [onProcess_cons_of_ne fun hq => hp (Option.some.inj (hpid.symm.trans hq))]
        exact ih hes.tail (h.next_of_ne hp) hv

/-- A history is valid if that of each process is. -/
theorem valid_iff_forall_onProcess (hes : ShowsPids es) :
    Valid w es ↔ ∀ p, Valid w (onProcess p es) := by
  refine ⟨fun hv p => valid_onProcess hes (AgreeOn.refl p w) hv, fun h => ?_⟩
  induction es generalizing w with
  | nil => trivial
  | cons e es ih =>
    cases hc : e.call? with
    | none =>
      refine (valid_cons_of_none hc).2 (ih hes.tail fun p => ?_)
      have hv := h p
      by_cases hp : linePid? e.line = some p
      · rwa [onProcess_cons_of_eq hp, valid_cons_of_none hc] at hv
      · rwa [onProcess_cons_of_ne hp] at hv
    | some c =>
      have hpid := hes.pid_of_call hc
      have hv := h c.pid
      rw [onProcess_cons_of_eq hpid, valid_cons_of_some hc] at hv
      refine (valid_cons_of_some hc).2 ⟨hv.1, ih hes.tail fun p => ?_⟩
      by_cases hp : c.pid = p
      · exact hp ▸ hv.2
      · -- the line is none of `p`, whose calls wait as before
        have hv := h p
        rw [onProcess_cons_of_ne fun hq => hp (Option.some.inj (hpid.symm.trans hq))] at hv
        rw [← onProcess_onProcess]
        refine valid_onProcess (hes.tail.onProcess p) (fun k hk => ?_) hv
        exact ((AgreeOn.refl p w).next_of_ne hp k hk).symm

end History

end SyscallTrace
