import SyscallTrace.Line.Alignment
import SyscallTrace.Proofs.Argument.PollArrays
import SyscallTrace.Proofs.Line.Printing

/-!
# Reports of returned events

A poll call reports the returned events in a remark after its return value. Alignment moves each of
them into the tokens of the array, and the array is read with the events that its entries receive
one report after the other (`PollFd.takeList_aligned_poll`).

* `reports_remark`: the reports are read from the remark.
* `attach_arrayTokens`: one report changes the tokens as it changes the entries.
* `foldl_attach_arrayTokens`: so do all reports, one after the other.
-/

namespace SyscallTrace

open Text

namespace PollFd

open SyscallTrace.Alignment Token

/-! ## Words -/

/-- What stands in the names of events and in the numbers after an array. -/
def isWordChar (c : Char) : Bool := !isBlank c && c ∉ "()[]\x7b\x7d\",=".toList

structure IsWord (t : Text) : Prop where
  ne_nil : t ≠ []
  chars : ∀ c ∈ t, isWordChar c

theorem isWordChar_of_isAlphanum {c : Char}
    (h : c.isAlphanum || c == '_' || c == '-' || c == '|') : isWordChar c := by
  simp only [Bool.or_eq_true, beq_iff_eq] at h
  rcases h with ((h | rfl) | rfl) | rfl
  · have hall : ∀ d ∈ "()[]\x7b\x7d\",=".toList, d.isAlphanum = false :=
      List.all_iff_forall_prop.1 (by decide)
    have hsign : c ∉ "()[]\x7b\x7d\",=".toList := fun hmem => by
      rw [hall c hmem] at h
      cases h
    unfold isWordChar
    rw [isBlank_eq_false_of_isAlphanum h, decide_eq_true hsign]
    rfl
  all_goals decide

namespace IsWord

variable {t : Text} {c : Char}

theorem not_mem (h : IsWord t) (hc : isWordChar c = false) : c ∉ t := fun hmem => by
  rw [h.chars c hmem] at hc
  cases hc

theorem isEvents (h : IsWord t) : IsEvents t := fun c hc hsign => by
  have hall : ∀ d ∈ "[]\x7b\x7d,".toList, isWordChar d = false :=
    List.all_iff_forall_prop.1 (by decide)
  exact h.not_mem (hall c hsign) hc

theorem isPlain (h : IsWord t) : IsPlain t := by
  have hend : ∀ c ∈ t, isBlank c = false ∧ c ≠ ',' := fun c hc => by
    have hchar := h.chars c hc
    simp only [isWordChar, Bool.and_eq_true, Bool.not_eq_true'] at hchar
    exact ⟨hchar.1, fun heq => h.not_mem (by decide) (heq ▸ hc)⟩
  refine ⟨⟨h.ne_nil, fun c hc => hend c (List.mem_of_mem_head? hc), fun c hc =>
    hend c (List.mem_of_getLast? hc)⟩, fun hhead => ?_, noComma_of_not_mem (h.not_mem (by decide))⟩
  exact h.not_mem (by decide) (List.mem_of_mem_head? hhead)

theorem not_revents (h : IsWord t) : ¬ "revents=".toList <+: t := fun hkey =>
  h.not_mem (by decide) (hkey.mem (show '=' ∈ "revents=".toList by decide))

end IsWord

/-! ## Reports -/

/-- The returned events of one descriptor. -/
structure Returned where
  fd : Int64
  revents : Text

namespace Returned

def text (r : Returned) : Text :=
  "\x7bfd=".toList ++ Decimal.ofInt r.fd.toInt ++ ", revents=".toList ++ r.revents ++ ['}']

def report (r : Returned) : PollReport := ⟨Decimal.ofInt r.fd.toInt, r.revents⟩

end Returned

/-- The remark that reports returned events. -/
def remark (rs : List Returned) : Text :=
  "([".toList ++ joinCommas (rs.map Returned.text) ++ "])".toList

/-- Gives returned events to the first entry of their descriptor that has none. They are dropped if
there is no such entry. -/
def receive : List PollFd → Returned → List PollFd
  | [], _ => []
  | p :: ps, r =>
    if p.fd = r.fd ∧ p.revents = none then { p with revents := some r.revents } :: ps
    else p :: receive ps r

variable {r : Returned} {rs : List Returned} {p : PollFd} {ps : List PollFd} {lead t : Text}
  {rest further : List Text}

theorem isDescriptor_ofInt (v : Int) : isDescriptor (Decimal.ofInt v) := by
  have hdigits : ∀ n, !(Decimal.ofNat n).isEmpty && (Decimal.ofNat n).all isDecimalDigit := by
    intro n
    rw [Bool.and_eq_true, Bool.not_eq_true', List.isEmpty_eq_false_iff, List.all_eq_true]
    exact ⟨Nat.toDigits_ne_nil, fun c hc =>
      isDecimalDigit_of_isDigit (Decimal.isDigit_of_mem_ofNat hc)⟩
  cases v with
  | ofNat n =>
    have hsign : (Decimal.ofNat n).dropPrefix? ['-'] = none := by
      rw [dropPrefix?_eq_none_iff]
      exact fun h => absurd (Decimal.isDigit_of_mem_ofNat (h.mem List.mem_cons_self)) (by decide)
    unfold isDescriptor Decimal.ofInt
    dsimp only
    rw [hsign]
    exact hdigits n
  | negSucc n =>
    have hsign : dropPrefix? ('-' :: Decimal.ofNat (n + 1)) ['-'] = some (Decimal.ofNat (n + 1)) :=
      dropPrefix?_append ['-'] _
    unfold isDescriptor Decimal.ofInt
    dsimp only
    rw [hsign]
    exact hdigits (n + 1)

theorem takeReport?_text_append (hr : IsWord r.revents) (t : Text) :
    takeReport? (r.text ++ t) = some (r.report, t) := by
  have hfd : cutFirst? (· == ',')
      (Decimal.ofInt r.fd.toInt ++ ',' :: (" revents=".toList ++ (r.revents ++ '}' :: t))) =
        some (Decimal.ofInt r.fd.toInt, " revents=".toList ++ (r.revents ++ '}' :: t)) := by
    refine cutFirst?_append (fun c hc => beq_eq_false_iff_ne.2 ?_) rfl
    rintro rfl
    exact Decimal.not_mem_ofInt rfl (by decide) hc
  have hrevents : cutFirst? (· == '}') (r.revents ++ '}' :: t) = some (r.revents, t) := by
    refine cutFirst?_append (fun c hc => beq_eq_false_iff_ne.2 ?_) rfl
    rintro rfl
    exact hr.not_mem (by decide) hc
  have htext : r.text ++ t = "\x7bfd=".toList ++ (Decimal.ofInt r.fd.toInt ++
      ',' :: (" revents=".toList ++ (r.revents ++ '}' :: t))) := by
    unfold Returned.text
    rw [show ", revents=".toList = ',' :: " revents=".toList from rfl]
    simp only [List.append_assoc, List.cons_append, List.nil_append]
  have hne : (isDescriptor (Decimal.ofInt r.fd.toInt) && !r.revents.isEmpty) = true := by
    rw [isDescriptor_ofInt, Bool.true_and, Bool.not_eq_true', List.isEmpty_eq_false_iff]
    exact hr.ne_nil
  unfold takeReport?
  rw [htext, dropPrefix?_append]
  simp only [Option.bind_eq_bind, Option.bind_some, hfd, dropPrefix?_append, hrevents, hne, if_true]
  rfl

theorem reports_text_append (hr : IsWord r.revents) (t : Text) :
    reports (r.text ++ t) = r.report :: reports t := by
  have htake := takeReport?_text_append hr t
  obtain ⟨u, hu⟩ : ∃ u, r.text ++ t = '{' :: u := ⟨_, rfl⟩
  rw [hu] at htake ⊢
  rw [reports]
  split
  · next h =>
    obtain ⟨rfl, rfl⟩ := Prod.mk.inj (Option.some.inj (htake.symm.trans h))
    rfl
  · next h => cases htake.symm.trans h

/-- A report starts at a brace only. -/
theorem reports_append {s : Text} (hs : '{' ∉ s) (t : Text) : reports (s ++ t) = reports t := by
  induction s with
  | nil => rfl
  | cons c s ih =>
    rw [List.mem_cons, not_or] at hs
    have hnone : takeReport? (c :: (s ++ t)) = none := by
      have hkey : dropPrefix? (c :: (s ++ t)) "\x7bfd=".toList = none := by
        rw [dropPrefix?_eq_none_iff]
        exact fun h => hs.1 (List.cons_prefix_cons.1 h).1
      unfold takeReport?
      rw [hkey]
      rfl
    rw [List.cons_append, reports]
    split
    · next h => cases hnone.symm.trans h
    · exact ih hs.2

theorem reports_joinCommas_append (hrs : ∀ r ∈ rs, IsWord r.revents) (t : Text) :
    reports (joinCommas (rs.map Returned.text) ++ t) = rs.map Returned.report ++ reports t := by
  induction rs with
  | nil => rfl
  | cons r rs ih =>
    obtain ⟨hr, hrs⟩ := List.forall_mem_cons.1 hrs
    rw [List.map_cons, List.map_cons, List.cons_append, ← ih hrs]
    by_cases hne : rs = []
    · subst hne
      rw [List.map_nil, joinCommas_singleton]
      exact reports_text_append hr t
    · rw [joinCommas_cons _ (by simpa using hne), List.append_assoc, List.append_assoc,
        reports_text_append hr, reports_append (by decide)]

/-- The reports are read from the remark as they are printed, and nothing else. -/
theorem reports_remark (hrs : ∀ r ∈ rs, IsWord r.revents) :
    reports (remark rs) = rs.map Returned.report := by
  have hend : reports "])".toList = [] := by
    rw [← List.append_nil "])".toList, reports_append (by decide), reports]
  unfold remark
  rw [List.append_assoc, reports_append (by decide), reports_joinCommas_append hrs, hend,
    List.append_nil]

/-! ## One report -/

theorem attach_cons {fd : PollReport} (h : opensEntry fd.fd t = false) (ts : List Text) :
    attach fd (t :: ts) = t :: attach fd ts := by
  cases ts with
  | nil => rfl
  | cons u ts =>
    rw [attach, h]
    rfl

theorem attach_eq_self {fd : PollReport} (h : ∀ t ∈ rest, opensEntry fd.fd t = false) :
    attach fd rest = rest := by
  induction rest with
  | nil => rfl
  | cons t ts ih =>
    obtain ⟨ht, hts⟩ := List.forall_mem_cons.1 h
    rw [attach_cons ht, ih hts]

theorem opensEntry_fdToken (hlead : ∀ c ∈ lead, c = '[') :
    opensEntry r.report.fd (p.fdToken lead) = decide (p.fd = r.fd) := by
  have hfd : Decimal.ofInt p.fd.toInt = Decimal.ofInt r.fd.toInt ↔ p.fd = r.fd := by
    refine ⟨fun h => ?_, fun h => by rw [h]⟩
    have hread := Decimal.int64?_ofInt p.fd
    rw [h, Decimal.int64?_ofInt] at hread
    exact (Option.some.inj hread).symm
  unfold opensEntry Returned.report
  rw [dropWhile_fdToken hlead, Bool.eq_iff_iff, beq_iff_eq, List.append_cancel_left_eq,
    decide_eq_true_iff, hfd]

/-- Only a token with the sign of an entry opens one. -/
theorem opensEntry_eq_false {fd : Text} (ht : '{' ∉ t) : opensEntry fd t = false := by
  unfold opensEntry
  rw [beq_eq_false_iff_ne]
  intro h
  refine ht ((List.dropWhile_suffix (· == '[')).mem ?_)
  rw [h]
  exact List.mem_cons_self

theorem IsEvents.noBrace (ht : IsEvents t) {key ending : Text} (hkey : '{' ∉ key)
    (hending : '{' ∉ ending) : '{' ∉ key ++ t ++ ending := by
  simp only [List.mem_append, not_or]
  exact ⟨⟨hkey, ht.not_mem (by decide)⟩, hending⟩

theorem noBrace_closing (isLast : Bool) : '{' ∉ closing isLast := by cases isLast <;> decide

theorem dropSuffix?_closing (t : Text) (isLast : Bool) :
    dropSuffix? (t ++ closing isLast) [']'] = if isLast then some (t ++ ['}']) else none := by
  cases isLast with
  | true =>
    rw [show t ++ closing true = t ++ ['}'] ++ [']'] by simp [closing], dropSuffix?_append]
    rfl
  | false =>
    rw [if_neg (by simp), Option.eq_none_iff_forall_ne_some]
    intro u hu
    have hlast := (List.append_inj' (dropSuffix?_eq_some_iff.1 hu) rfl).2
    exact absurd (List.cons.inj hlast).1 (by decide)

/-- A report goes to an entry of its descriptor that has no returned events, behind the awaited
ones. If the entry is the last one, the bracket that closes the array comes after them. -/
theorem attach_tokens {isLast : Bool} (hlead : ∀ c ∈ lead, c = '[') (hfd : p.fd = r.fd)
    (hnone : p.revents = none) (hrest : ∀ t ∈ rest.head?, ¬ "revents=".toList <+: t) :
    attach r.report (p.tokens ['}'] lead isLast ++ rest) =
      { p with revents := some r.revents }.tokens ['}'] lead isLast ++ rest := by
  have hopen : opensEntry r.report.fd (p.fdToken lead) = true := by
    rw [opensEntry_fdToken hlead, decide_eq_true hfd]
  have hnext : (rest.head?.any fun next => Text.startsWith next "revents=".toList) = false := by
    rw [← Bool.not_eq_true, Option.any_eq_true]
    rintro ⟨t, ht, hkey⟩
    exact hrest t ht (startsWith_iff.1 hkey)
  unfold tokens
  rw [hnone]
  show attach r.report (_ :: _ :: rest) = _
  rw [attach, hopen, hnext, dropSuffix?_closing]
  cases isLast <;> simp [closing, fdToken, Returned.report]

/-- All other entries stay as they are. -/
theorem attach_tokens_of_not {isLast : Bool} (hp : p.IsPrintable) (hlead : ∀ c ∈ lead, c = '[')
    (hnot : ¬ (p.fd = r.fd ∧ p.revents = none)) (rest : List Text) :
    attach r.report (p.tokens ['}'] lead isLast ++ rest) =
      p.tokens ['}'] lead isLast ++ attach r.report rest := by
  have hopen := opensEntry_fdToken (p := p) (r := r) hlead
  have hclosing := noBrace_closing isLast
  have hevents : ∀ ending, '{' ∉ ending →
      opensEntry r.report.fd ("events=".toList ++ p.events ++ ending) = false := fun ending h =>
    opensEntry_eq_false (hp.events.noBrace (by decide) h)
  unfold tokens
  cases hrevents : p.revents with
  | none =>
    rw [hrevents, and_iff_left rfl] at hnot
    rw [decide_eq_false hnot] at hopen
    show attach r.report (_ :: _ :: rest) = _
    rw [attach_cons hopen, attach_cons (hevents _ hclosing)]
    rfl
  | some revents =>
    have hkeyed : opensEntry r.report.fd ("revents=".toList ++ revents ++ closing isLast) = false :=
      opensEntry_eq_false ((hp.revents revents hrevents).noBrace (by decide) hclosing)
    have hnext : Text.startsWith ("revents=".toList ++ revents ++ closing isLast)
        "revents=".toList = true := by
      rw [startsWith_iff, List.append_assoc]
      exact List.prefix_append _ _
    show attach r.report (_ :: _ :: _ :: rest) = _
    rw [attach, List.head?_cons, Option.any_some, hnext, Bool.not_true, Bool.and_false,
      if_neg (by simp), attach_cons (hevents _ (by decide)), attach_cons hkeyed]
    rfl

theorem isEmpty_receive : (receive ps r).isEmpty = ps.isEmpty := by
  cases ps with
  | nil => rfl
  | cons p ps =>
    unfold receive
    split <;> rfl

/-- The tokens change as the entries do. -/
theorem attach_arrayTokens (hps : ∀ p ∈ ps, p.IsPrintable) (hlead : ∀ c ∈ lead, c = '[')
    (hrest : ∀ t ∈ rest, '{' ∉ t ∧ ¬ "revents=".toList <+: t) :
    attach r.report (arrayTokens ['}'] lead ps ++ rest) =
      arrayTokens ['}'] lead (receive ps r) ++ rest := by
  induction ps generalizing lead with
  | nil => exact attach_eq_self fun t ht => opensEntry_eq_false (hrest t ht).1
  | cons p ps ih =>
    obtain ⟨hp, hps⟩ := List.forall_mem_cons.1 hps
    rw [arrayTokens, List.append_assoc]
    by_cases hreceives : p.fd = r.fd ∧ p.revents = none
    · have hnext : ∀ t ∈ (arrayTokens ['}'] [] ps ++ rest).head?, ¬ "revents=".toList <+: t :=
        not_revents_head? fun t ht => (hrest t (List.mem_of_mem_head? ht)).2
      rw [receive, if_pos hreceives, attach_tokens hlead hreceives.1 hreceives.2 hnext, arrayTokens,
        List.append_assoc]
    · rw [receive, if_neg hreceives, attach_tokens_of_not hp hlead hreceives, ih hps (by simp),
        arrayTokens, isEmpty_receive, List.append_assoc]

/-! ## All reports -/

theorem isPrintable_of_mem_receive (hr : IsEvents r.revents) (hps : ∀ p ∈ ps, p.IsPrintable) :
    ∀ p ∈ receive ps r, p.IsPrintable := by
  induction ps with
  | nil => exact hps
  | cons p ps ih =>
    obtain ⟨hp, hps⟩ := List.forall_mem_cons.1 hps
    unfold receive
    split
    · refine List.forall_mem_cons.2 ⟨⟨hp.events, fun t ht => ?_⟩, hps⟩
      rwa [← Option.some.inj ht]
    · exact List.forall_mem_cons.2 ⟨hp, ih hps⟩

theorem isPrintable_of_mem_foldl (hrs : ∀ r ∈ rs, IsWord r.revents)
    (hps : ∀ p ∈ ps, p.IsPrintable) : ∀ p ∈ rs.foldl receive ps, p.IsPrintable := by
  induction rs generalizing ps with
  | nil => exact hps
  | cons r rs ih =>
    obtain ⟨hr, hrs⟩ := List.forall_mem_cons.1 hrs
    exact ih hrs (isPrintable_of_mem_receive hr.isEvents hps)

/-- The tokens hold what the entries have received. -/
theorem foldl_attach_arrayTokens (hrs : ∀ r ∈ rs, IsWord r.revents)
    (hps : ∀ p ∈ ps, p.IsPrintable) (hlead : ∀ c ∈ lead, c = '[')
    (hrest : ∀ t ∈ rest, '{' ∉ t ∧ ¬ "revents=".toList <+: t) :
    (rs.map Returned.report).foldl (fun args r => attach r args)
        (arrayTokens ['}'] lead ps ++ rest) =
      arrayTokens ['}'] lead (rs.foldl receive ps) ++ rest := by
  induction rs generalizing ps with
  | nil => rfl
  | cons r rs ih =>
    obtain ⟨hr, hrs⟩ := List.forall_mem_cons.1 hrs
    rw [List.map_cons, List.foldl_cons, List.foldl_cons, attach_arrayTokens hps hlead hrest]
    exact ih hrs (isPrintable_of_mem_receive hr.isEvents hps)

/-- Reports change no descriptor and no awaited events. -/
theorem map_receive {α : Type} (f : Int64 → Text → α) (ps : List PollFd) (r : Returned) :
    (receive ps r).map (fun p => f p.fd p.events) = ps.map fun p => f p.fd p.events := by
  induction ps with
  | nil => rfl
  | cons p ps ih =>
    unfold receive
    split
    · rfl
    · rw [List.map_cons, List.map_cons, ih]

theorem map_foldl_receive {α : Type} (f : Int64 → Text → α) (rs : List Returned)
    (ps : List PollFd) :
    (rs.foldl receive ps).map (fun p => f p.fd p.events) = ps.map fun p => f p.fd p.events := by
  induction rs generalizing ps with
  | nil => rfl
  | cons r rs ih => rw [List.foldl_cons, ih, map_receive]

theorem foldl_receive_ne_nil (hne : ps ≠ []) : rs.foldl receive ps ≠ [] := fun h => by
  have hmap := map_foldl_receive Prod.mk rs ps
  rw [h, List.map_nil] at hmap
  exact hne (List.map_eq_nil_iff.1 hmap.symm)

/-! ## Lines of poll calls -/

theorem Returned.not_mem_text {c : Char} (hr : IsWord r.revents) (hc : c ∈ ['\n', ')']) :
    c ∉ r.text := by
  have hall : ∀ d ∈ ['\n', ')'], d ∉ "\x7bfd=".toList ∧ d ∉ ", revents=".toList ∧ d ≠ '}' ∧
      isWordChar d = false ∧ d.isDigit = false ∧ d ≠ '-' :=
    List.all_iff_forall_prop.1 (by decide)
  obtain ⟨hopen, hkey, hclose, hchar, hdigit, hminus⟩ := hall c hc
  unfold Returned.text
  simp only [List.mem_append, List.mem_singleton, not_or]
  exact ⟨⟨⟨⟨hopen, Decimal.not_mem_ofInt hdigit hminus⟩, hkey⟩, hr.not_mem hchar⟩, hclose⟩

theorem not_mem_reports {c : Char} (hrs : ∀ r ∈ rs, IsWord r.revents) (hc : c ∈ ['\n', ')']) :
    c ∉ '(' :: ('[' :: joinCommas (rs.map Returned.text) ++ [']']) := by
  have hall : ∀ d ∈ ['\n', ')'], d ≠ ',' ∧ d ≠ ' ' ∧ d ≠ '(' ∧ d ≠ '[' ∧ d ≠ ']' :=
    List.all_iff_forall_prop.1 (by decide)
  obtain ⟨hcomma, hblank, hopen, hbracket, hclose⟩ := hall c hc
  have hjoin : c ∉ joinCommas (rs.map Returned.text) := by
    refine not_mem_joinCommas hcomma hblank fun t ht => ?_
    obtain ⟨r, hr, rfl⟩ := List.mem_map.1 ht
    exact Returned.not_mem_text (hrs r hr) hc
  simp only [List.mem_cons, List.mem_append, List.not_mem_nil, or_false, not_or]
  exact ⟨hopen, ⟨hbracket, hjoin⟩, hclose⟩

/-- A remark is one line, and its first closing parenthesis ends it. -/
theorem isRemark_remark (hrs : ∀ r ∈ rs, IsWord r.revents) : IsRemark (remark rs) := by
  have htext : remark rs =
      '(' :: ('[' :: joinCommas (rs.map Returned.text) ++ [']']) ++ [')'] := by
    simp [remark]
  rw [htext]
  refine ⟨⟨_, rfl⟩, fun hmem => ?_, fun gap hgap hin => ?_⟩
  · rcases List.mem_append.1 hmem with hmem | hmem
    · exact not_mem_reports hrs (by simp) hmem
    · exact absurd hmem (by decide)
  · -- what follows the first closing parenthesis is nothing
    obtain ⟨a, b, hab⟩ := hin
    have hsuffix : ')' :: (gap ++ ['='] ++ b) <:+
        '(' :: ('[' :: joinCommas (rs.map Returned.text) ++ [']']) ++ [')'] :=
      ⟨a, by rw [← hab]; simp⟩
    have hlast := suffix_of_suffix_append hsuffix (not_mem_reports hrs (by simp))
    have hlen := hlast.length_le
    simp at hlen

/-- The end of a poll call that returned and reports events. -/
def reported {hasElapsed : Bool} {v : Int64} (hv : 0 ≤ v) (hrs : ∀ r ∈ rs, IsWord r.revents)
    {elapsed : Option Elapsed} (helapsed : elapsed.isSome = hasElapsed) :
    PrintedOutcome hasElapsed where
  ret := ⟨.int v, none⟩
  remark := some (remark rs)
  elapsed := elapsed
  isReturn := .number hv
  isRemark t ht := by
    rw [← Option.some.inj ht]
    exact isRemark_remark hrs
  isSome_elapsed := by simp [helapsed]

theorem text_reported {hasElapsed : Bool} {v : Int64} {hv : 0 ≤ v}
    {hrs : ∀ r ∈ rs, IsWord r.revents} {elapsed : Option Elapsed}
    {helapsed : elapsed.isSome = hasElapsed} :
    (reported hv hrs helapsed).text =
      Decimal.ofInt v.toInt ++ (' ' :: remark rs) ++ spaced (elapsed.map Elapsed.text) := by
  unfold PrintedOutcome.text PrintedOutcome.ending reported spaced Return.text ReturnValue.text
  simp

/-- An entry as a call prints it, before anything has returned. -/
structure IsAwaited (p : PollFd) : Prop where
  isWord : IsWord p.events
  noRevents : p.revents = none

theorem IsAwaited.isPrintable (hp : p.IsAwaited) : p.IsPrintable where
  events := hp.isWord.isEvents
  revents r hr := by
    rw [hp.noRevents] at hr
    cases hr

theorem arrayTokens_of_isAwaited {inner : Text} (hps : ∀ p ∈ ps, p.IsAwaited) :
    arrayTokens [] lead ps = arrayTokens inner lead ps := by
  induction ps generalizing lead with
  | nil => rfl
  | cons p ps ih =>
    obtain ⟨hp, hps⟩ := List.forall_mem_cons.1 hps
    rw [arrayTokens, arrayTokens, ih hps]
    unfold tokens
    rw [hp.noRevents]

/-- The text of the arguments of a poll call. -/
def argsText (ps : List PollFd) (further : List Text) : Text := joinCommas (listText ps :: further)

theorem split_argsText (hne : ps ≠ []) (hps : ∀ p ∈ ps, p.IsAwaited)
    (hfurther : ∀ t ∈ further, IsWord t) :
    split (argsText ps further) = arrayTokens ['}'] ['['] ps ++ further := by
  have hprintable := fun p hp => (hps p hp).isPrintable
  have htokens : arrayTokens [] ['['] ps ≠ [] := arrayTokens_ne_nil hne
  have htext : argsText ps further = joinCommas (arrayTokens [] ['['] ps ++ further) := by
    unfold argsText
    rw [← joinCommas_arrayTokens_bracket hne]
    by_cases hnil : further = []
    · rw [hnil, joinCommas_singleton, List.append_nil]
    · rw [joinCommas_cons _ hnil, joinCommas_append htokens hnil]
  have htight : (argsText ps further).Tight := Tight.joinCommas (by simp) <|
    List.forall_mem_cons.2 ⟨tight_listText ps, fun t ht => (hfurther t ht).isPlain.toTight⟩
  have hmerged : IsMerged (arrayTokens [] ['['] ps ++ further) := by
    refine isMerged_of_noComma fun t ht => ?_
    rcases List.mem_append.1 ht with ht | ht
    · exact of_mem_arrayTokens hprintable (by simp) ht
    · exact ⟨(hfurther t ht).isPlain.noComma, (hfurther t ht).isPlain.noQuote⟩
  rw [htext] at htight ⊢
  rw [split_joinCommas_of_isMerged (by simp [htokens]) htight hmerged, arrayTokens_of_isAwaited hps]

theorem isLine_argsText (hps : ∀ p ∈ ps, p.IsAwaited) (hfurther : ∀ t ∈ further, IsWord t) :
    '\n' ∉ argsText ps further := by
  have htexts : ∀ t ∈ ps.map text, '\n' ∉ t := by
    intro t ht
    obtain ⟨p, hp, rfl⟩ := List.mem_map.1 ht
    have hdigits : '\n' ∉ Decimal.ofInt p.fd.toInt :=
      Decimal.not_mem_ofInt rfl (by decide)
    have hevents := (hps p hp).isWord.not_mem (c := '\n') (by decide)
    have hkeys : '\n' ∉ "\x7bfd=".toList ∧ '\n' ∉ ", events=".toList ∧ '\n' ∉ ['}'] := by decide
    unfold text
    rw [(hps p hp).noRevents, Option.elim_none]
    simp only [List.mem_append, not_or]
    exact ⟨⟨⟨⟨⟨hkeys.1, hdigits⟩, hkeys.2.1⟩, hevents⟩, by simp⟩, hkeys.2.2⟩
  refine not_mem_joinCommas (by decide) (by decide) (List.forall_mem_cons.2 ⟨?_, fun t ht =>
    (hfurther t ht).not_mem (by decide)⟩)
  have hjoin := not_mem_joinCommas (by decide) (by decide) htexts
  unfold listText
  simp only [List.mem_append, List.mem_cons, List.not_mem_nil, or_false, not_or]
  exact ⟨⟨by decide, hjoin⟩, by decide⟩

theorem isName_poll {name : Text} (hname : name = "poll".toList ∨ name = "ppoll".toList) :
    IsName name := by
  have hword : ∀ t ∈ ["poll".toList, "ppoll".toList], t ≠ [] ∧
      t.all fun c => c.isAlphanum || c == '_' := by decide
  obtain ⟨hne, hchars⟩ := hword name (by simpa using hname)
  exact ⟨hne, fun c hc => isNameChar_of_isAlphanum (List.all_eq_true.1 hchars c hc)⟩

theorem align_poll {name : Text} (hname : name = "poll".toList ∨ name = "ppoll".toList)
    (remark : Option Text) (args : List Text) :
    align name remark args = alignPoll remark args := by
  have hother : ∀ t ∈ ["poll".toList, "ppoll".toList],
      Text.startsWith t "shutdown".toList = false ∧
        Text.startsWith t "restart_syscall".toList = false := by decide
  obtain ⟨hshutdown, hrestart⟩ := hother name (by simpa using hname)
  unfold align
  rw [hshutdown, hrestart, if_neg (by simp), if_neg (by simp), if_pos hname]

/-- The array of a poll call is read with the events that are reported after its return value, each
of them at the first entry of its descriptor that has none yet. -/
theorem takeList_aligned_poll {columns : Columns} {h : Heading} {name : Text} {v : Int64}
    {elapsed : Option Elapsed} (hh : h.IsPrinted columns)
    (hname : name = "poll".toList ∨ name = "ppoll".toList) (hne : ps ≠ [])
    (hps : ∀ p ∈ ps, p.IsAwaited) (hrs : ∀ r ∈ rs, IsWord r.revents)
    (hfurther : ∀ t ∈ further, IsWord t) (hv : 0 ≤ v)
    (helapsed : elapsed.isSome = columns.elapsed) :
    ∃ call, Call.ofLine columns (Call.completeLine h name (argsText ps further)
        (reported hv hrs helapsed)) = .ok (some call) ∧
      takeList call.aligned.args = .ok (some (rs.foldl receive ps), further) ∧
      (rs.foldl receive ps).map (fun p => (p.fd, p.events)) = ps.map fun p => (p.fd, p.events) := by
  have hprintable : ∀ p ∈ ps, p.IsPrintable := fun p hp => (hps p hp).isPrintable
  have hrest : ∀ t ∈ further, '{' ∉ t ∧ ¬ "revents=".toList <+: t := fun t ht =>
    ⟨(hfurther t ht).not_mem (by decide), (hfurther t ht).not_revents⟩
  refine ⟨_, Call.ofLine_completeLine hh (isName_poll hname) (isLine_argsText hps hfurther)
    (reported hv hrs helapsed), ?_, map_foldl_receive Prod.mk rs ps⟩
  show takeList (align name (some (remark rs)) (split (argsText ps further))) = _
  have htokens : align name (some (remark rs)) (split (argsText ps further)) =
      arrayTokens ['}'] ['['] (rs.foldl receive ps) ++ further := by
    rw [align_poll hname, split_argsText hne hps hfurther, alignPoll, Option.elim_some,
      reports_remark hrs]
    exact foldl_attach_arrayTokens hrs hprintable (by simp) hrest
  rw [htokens]
  exact takeList_arrayTokens (isPrintable_of_mem_foldl hrs hprintable) (foldl_receive_ne_nil hne)
    (by simp) fun t ht => (hrest t (List.mem_of_mem_head? ht)).2

/-- Two entries of one descriptor receive one report each, and a report of no entry is dropped. -/
theorem takeList_aligned_poll_repeated :
    ∃ call, Call.ofLine ⟨false, .absent, false⟩
        ("9287 poll([\x7bfd=4, events=POLLIN\x7d, ".toList ++
          "\x7bfd=5, events=POLLOUT\x7d, \x7bfd=4, events=POLLPRI\x7d], 3, -1) = 2 ".toList ++
          "([\x7bfd=4, revents=POLLIN\x7d, \x7bfd=4, revents=POLLPRI\x7d, ".toList ++
          "\x7bfd=9, revents=POLLHUP\x7d])".toList) =
        .ok (some call) ∧
      takeList call.aligned.args = .ok (some [⟨4, "POLLIN".toList, some "POLLIN".toList⟩,
        ⟨5, "POLLOUT".toList, none⟩, ⟨4, "POLLPRI".toList, some "POLLPRI".toList⟩],
        [['3'], "-1".toList]) := by
  have hword : ∀ t ∈ ["POLLIN".toList, "POLLOUT".toList, "POLLPRI".toList, "POLLHUP".toList,
      ['3'], "-1".toList], IsWord t := by
    have hall : ∀ t ∈ ["POLLIN".toList, "POLLOUT".toList, "POLLPRI".toList, "POLLHUP".toList,
        ['3'], "-1".toList], t ≠ [] ∧
          t.all fun c => c.isAlphanum || c == '_' || c == '-' || c == '|' := by decide
    exact fun t ht => ⟨(hall t ht).1, fun c hc =>
      isWordChar_of_isAlphanum (List.all_eq_true.1 (hall t ht).2 c hc)⟩
  have hh : (⟨9287, none, none⟩ : Heading).IsPrinted ⟨false, .absent, false⟩ :=
    ⟨⟨rfl, rfl⟩, by simp, by simp⟩
  have hps : ∀ p ∈ [(⟨4, "POLLIN".toList, none⟩ : PollFd), ⟨5, "POLLOUT".toList, none⟩,
      ⟨4, "POLLPRI".toList, none⟩], p.IsAwaited := by
    simp only [List.forall_mem_cons, List.not_mem_nil, false_implies, implies_true, and_true]
    exact ⟨⟨hword _ (by simp), rfl⟩, ⟨hword _ (by simp), rfl⟩, hword _ (by simp), rfl⟩
  have hrs : ∀ r ∈ [(⟨4, "POLLIN".toList⟩ : Returned), ⟨4, "POLLPRI".toList⟩,
      ⟨9, "POLLHUP".toList⟩], IsWord r.revents := by
    simp only [List.forall_mem_cons, List.not_mem_nil, false_implies, implies_true, and_true]
    exact ⟨hword _ (by simp), hword _ (by simp), hword _ (by simp)⟩
  have hfurther : ∀ t ∈ [['3'], "-1".toList], IsWord t := fun t ht => hword t (by grind)
  have hv : (0 : Int64) ≤ 2 := by decide
  have helapsed : (none : Option Elapsed).isSome = false := rfl
  obtain ⟨call, hcall, hread, -⟩ :=
    takeList_aligned_poll hh (Or.inl rfl) (by simp) hps hrs hfurther hv helapsed
  refine ⟨call, ?_, hread⟩
  rw [← hcall, Call.completeLine, text_reported]
  exact congrArg (Call.ofLine _) (by decide +kernel)

end PollFd

end SyscallTrace
