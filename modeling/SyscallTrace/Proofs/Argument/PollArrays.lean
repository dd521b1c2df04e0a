import Mathlib.Data.Bool.AllAny
import SyscallTrace.Argument.Value
import SyscallTrace.Proofs.Argument.Consumption
import SyscallTrace.Proofs.Decimal

/-!
# Poll arrays

The entries of a poll array have two or three tokens each, with a bracket at the first and at the
last token of the array (`PollFd.arrayTokens`), and they are read from these tokens whatever follows
them (`PollFd.takeList_arrayTokens`). A printed array splits into such tokens, so it is read back
from among the arguments of a call (`PollFd.takeList_split_text`).
-/

namespace SyscallTrace

open Text

namespace PollFd

open Token

/-- What can be read back as the events of an entry: no bracket, no brace and no comma. -/
def IsEvents (t : Text) : Prop := ∀ c ∈ t, c ∉ "[]\x7b\x7d,".toList

instance : DecidablePred IsEvents := fun _ => decidable_of_iff _ List.all_iff_forall_prop

structure IsPrintable (p : PollFd) : Prop where
  events : IsEvents p.events
  revents : ∀ r ∈ p.revents, IsEvents r

/-! ## The tokens of an array -/

/-- What stands after the last value of an entry. -/
def closing (isLast : Bool) : Text := '}' :: if isLast then [']'] else []

def fdToken (lead : Text) (p : PollFd) : Text :=
  lead ++ ("\x7bfd=".toList ++ Decimal.ofInt p.fd.toInt)

/-- The tokens of an entry. What is in `inner` stands after the awaited events where the returned
ones follow. -/
def tokens (inner lead : Text) (isLast : Bool) (p : PollFd) : List Text :=
  match p.revents with
  | none => [p.fdToken lead, "events=".toList ++ p.events ++ closing isLast]
  | some r =>
    [p.fdToken lead, "events=".toList ++ p.events ++ inner,
      "revents=".toList ++ r ++ closing isLast]

/-- The tokens of the entries up to the end of an array. -/
def arrayTokens (inner : Text) : Text → List PollFd → List Text
  | _, [] => []
  | lead, p :: ps => p.tokens inner lead ps.isEmpty ++ arrayTokens inner [] ps

variable {inner lead t : Text} {isLast : Bool} {p : PollFd} {ps : List PollFd}
  {rest seen : List Text}

theorem tokens_ne_nil : p.tokens inner lead isLast ≠ [] := by
  unfold tokens
  split <;> simp

/-- The first token of an entry has its descriptor. -/
theorem head?_tokens_append :
    (p.tokens inner lead isLast ++ rest).head? = some (p.fdToken lead) := by
  unfold tokens
  split <;> rfl

theorem arrayTokens_ne_nil (hne : ps ≠ []) : arrayTokens inner lead ps ≠ [] := by
  obtain ⟨p, ps, rfl⟩ := List.exists_cons_of_ne_nil hne
  simp [arrayTokens, tokens_ne_nil]

/-- An entry is not followed by what looks like its returned events. -/
theorem not_revents_head? (hrest : ∀ t ∈ rest.head?, ¬ "revents=".toList <+: t) :
    ∀ t ∈ (arrayTokens inner [] ps ++ rest).head?, ¬ "revents=".toList <+: t := by
  cases ps with
  | nil => exact hrest
  | cons p ps =>
    rintro t ht hkey
    rw [arrayTokens, List.append_assoc, head?_tokens_append] at ht
    rw [← Option.some.inj ht] at hkey
    exact absurd (List.cons_prefix_cons.1 hkey).1 (by decide)

theorem dropWhile_fdToken (hlead : ∀ c ∈ lead, c = '[') :
    (p.fdToken lead).dropWhile (· == '[') = "\x7bfd=".toList ++ Decimal.ofInt p.fd.toInt := by
  have hstop : ∀ c ∈ ("\x7bfd=".toList ++ Decimal.ofInt p.fd.toInt).head?, (c == '[') = false := by
    intro c hc
    rw [← Option.some.inj hc]
    decide
  exact dropWhile_append (fun c hc => beq_iff_eq.2 (hlead c hc)) hstop

/-! ## Reading the tokens -/

/-- No closing sign is in the text. -/
def NoClosing (t : Text) : Prop := ∀ c ∈ t, c ≠ ']' ∧ c ≠ '}'

theorem dropClosing_append (ht : NoClosing t) {braces brackets : Text}
    (hbraces : ∀ c ∈ braces, c = '}') (hbrackets : ∀ c ∈ brackets, c = ']') :
    dropClosing (t ++ braces ++ brackets) = t := by
  have hend : ∀ c ∈ (t ++ braces).getLast?, (c == ']') = false := fun c hc => by
    rw [beq_eq_false_iff_ne]
    rcases List.mem_append.1 (List.mem_of_getLast? hc) with hc | hc
    · exact (ht c hc).1
    · rw [hbraces c hc]
      decide
  have hlast : ∀ c ∈ t.getLast?, (c == '}') = false := fun c hc =>
    beq_eq_false_iff_ne.2 (ht c (List.mem_of_getLast? hc)).2
  unfold dropClosing
  rw [dropEndWhile_append hend fun c hc => beq_iff_eq.2 (hbrackets c hc),
    dropEndWhile_append hlast fun c hc => beq_iff_eq.2 (hbraces c hc)]

theorem dropClosing_inner (ht : NoClosing t) (hinner : ∀ c ∈ inner, c = '}') :
    dropClosing (t ++ inner) = t := by
  rw [← List.append_nil (t ++ inner)]
  exact dropClosing_append ht hinner (by simp)

theorem dropClosing_closing (ht : NoClosing t) : dropClosing (t ++ closing isLast) = t := by
  have hbrackets : ∀ c ∈ (if isLast then [']'] else [] : Text), c = ']' := by
    split <;> simp
  have hbraces : ∀ c ∈ ['}'], c = '}' := by simp
  rw [show t ++ closing isLast = t ++ ['}'] ++ if isLast then [']'] else [] by simp [closing]]
  exact dropClosing_append ht hbraces hbrackets

/-- The bracket after the last entry closes the array. -/
theorem endsWith_closing : (t ++ closing isLast).endsWith [']'] = isLast := by
  cases isLast with
  | false =>
    rw [← Bool.not_eq_true, endsWith_iff]
    rintro ⟨u, hu⟩
    exact absurd (List.cons.inj (List.append_inj' hu rfl).2).1 (by decide)
  | true => exact endsWith_iff.2 ⟨t ++ ['}'], by simp [closing]⟩

theorem IsEvents.not_mem {c : Char} (h : IsEvents t) (hc : c ∈ "[]\x7b\x7d,".toList) : c ∉ t :=
  fun hmem => h c hmem hc

theorem IsEvents.noClosing (h : IsEvents t) : NoClosing t := fun c hc => by
  constructor <;> rintro rfl <;> exact h _ hc (by decide)

theorem IsPrintable.noClosing_events (hp : p.IsPrintable) :
    NoClosing ("events=".toList ++ p.events) := by
  intro c hc
  rcases List.mem_append.1 hc with hc | hc
  · have hkey : ∀ c ∈ "events=".toList, c ≠ ']' ∧ c ≠ '}' :=
      List.all_iff_forall_prop.1 (by decide)
    exact hkey c hc
  · exact hp.events.noClosing c hc

theorem endsWith_inner (ht : NoClosing t) (hinner : ∀ c ∈ inner, c = '}') :
    (t ++ inner).endsWith [']'] = false := by
  rw [← Bool.not_eq_true, endsWith_iff]
  intro h
  rcases List.mem_append.1 (h.mem List.mem_cons_self) with hmem | hmem
  · exact (ht _ hmem).1 rfl
  · exact absurd (hinner _ hmem) (by decide)

/-- The three readings that make an entry. -/
theorem takeEntry_of_read {fdText fdToken events eventsToken : Text} {fd : Int64}
    (hopen : Text.dropPrefix? (fdToken.dropWhile (· == '[')) "\x7bfd=".toList = some fdText)
    (hfd : Decimal.int64? fdText = some fd)
    (hevents : (dropClosing eventsToken).dropPrefix? "events=".toList = some events) :
    takeEntry seen (fdToken :: eventsToken :: rest) =
      .ok (withRevents fd events (eventsToken.endsWith [']']) rest) := by
  unfold takeEntry
  dsimp only
  rw [hopen]
  dsimp only
  rw [hfd]
  dsimp only
  rw [hevents]

theorem withRevents_of_not_revents {fd : Int64} {events : Text}
    (hrest : ∀ t ∈ rest.head?, ¬ "revents=".toList <+: t) :
    withRevents fd events isLast rest = ⟨⟨fd, events, none⟩, isLast, rest⟩ := by
  cases rest with
  | nil => rfl
  | cons t rest =>
    unfold withRevents
    dsimp only
    rw [dropPrefix?_eq_none_iff.2 (hrest t rfl)]

theorem withRevents_revents {fd : Int64} {events r : Text} (hr : IsEvents r) :
    withRevents fd events false (("revents=".toList ++ r ++ closing isLast) :: rest) =
      ⟨⟨fd, events, some r⟩, isLast, rest⟩ := by
  unfold withRevents
  dsimp only
  rw [List.append_assoc, dropPrefix?_append]
  dsimp only
  rw [dropClosing_closing hr.noClosing, endsWith_closing, Bool.false_or]

/-- An entry is read from its tokens. Without returned events of its own it must not have a token
after it that looks like them. -/
theorem takeEntry_tokens (hp : p.IsPrintable) (hlead : ∀ c ∈ lead, c = '[')
    (hinner : ∀ c ∈ inner, c = '}')
    (hrest : p.revents = none → ∀ t ∈ rest.head?, ¬ "revents=".toList <+: t) :
    takeEntry seen (p.tokens inner lead isLast ++ rest) = .ok ⟨p, isLast, rest⟩ := by
  have hopen : Text.dropPrefix? ((p.fdToken lead).dropWhile (· == '[')) "\x7bfd=".toList =
      some (Decimal.ofInt p.fd.toInt) := by
    rw [dropWhile_fdToken hlead, dropPrefix?_append]
  have hfd := Decimal.int64?_ofInt p.fd
  have hevents := hp.noClosing_events
  obtain ⟨fd, events, revents⟩ := p
  cases revents with
  | none =>
    have hkey : (dropClosing ("events=".toList ++ events ++ closing isLast)).dropPrefix?
        "events=".toList = some events := by
      rw [dropClosing_closing hevents, dropPrefix?_append]
    show takeEntry seen (_ :: _ :: rest) = _
    rw [takeEntry_of_read hopen hfd hkey, endsWith_closing, withRevents_of_not_revents (hrest rfl)]
  | some r =>
    have hkey : (dropClosing ("events=".toList ++ events ++ inner)).dropPrefix?
        "events=".toList = some events := by
      rw [dropClosing_inner hevents hinner, dropPrefix?_append]
    show takeEntry seen (_ :: _ :: _ :: rest) = _
    rw [takeEntry_of_read hopen hfd hkey, endsWith_inner hevents hinner,
      withRevents_revents (hp.revents r rfl)]

section

variable (hps : ∀ p ∈ ps, p.IsPrintable) (hne : ps ≠ []) (hinner : ∀ c ∈ inner, c = '}')
  (hrest : ∀ t ∈ rest.head?, ¬ "revents=".toList <+: t)

include hps hne hinner hrest

theorem takeEntries_arrayTokens (hlead : ∀ c ∈ lead, c = '[') :
    takeEntries seen (arrayTokens inner lead ps ++ rest) = .ok (ps, rest) := by
  induction ps generalizing seen lead with
  | nil => exact absurd rfl hne
  | cons p ps ih =>
    obtain ⟨hp, hps⟩ := List.forall_mem_cons.1 hps
    have hentry : takeEntry seen
        (p.tokens inner lead ps.isEmpty ++ (arrayTokens inner [] ps ++ rest)) =
          .ok ⟨p, ps.isEmpty, arrayTokens inner [] ps ++ rest⟩ :=
      takeEntry_tokens hp hlead hinner fun _ => not_revents_head? hrest
    rw [arrayTokens, List.append_assoc]
    by_cases hlast : ps = []
    · subst hlast
      exact takeEntries_of_last hentry rfl
    · have hmore : ¬ ps.isEmpty = true := by simpa using hlast
      rw [takeEntries_of_not_last hentry hmore, ih hps hlast (by simp)]
      rfl

/-- An array is read from its tokens, and what follows them is left. -/
theorem takeList_arrayTokens :
    takeList (arrayTokens inner ['['] ps ++ rest) = .ok (some ps, rest) := by
  obtain ⟨p, ps, rfl⟩ := List.exists_cons_of_ne_nil hne
  obtain ⟨ts, hts⟩ : ∃ ts, arrayTokens inner ['['] (p :: ps) ++ rest = p.fdToken ['['] :: ts := by
    rw [arrayTokens, List.append_assoc]
    exact List.head?_eq_some_iff.1 head?_tokens_append
  have hlead : ∀ c ∈ ['['], c = '[' := by simp
  have hread : takeEntries [] (arrayTokens inner ['['] (p :: ps) ++ rest) = .ok (p :: ps, rest) :=
    takeEntries_arrayTokens hps hne hinner hrest hlead
  rw [hts] at hread ⊢
  have hempty : p.fdToken ['['] ≠ "[]".toList := fun h =>
    absurd (List.cons.inj (List.cons.inj h).2).1 (by decide)
  have hptr : ¬ ((p.fdToken ['[']).startsWith "0x".toList ∨ p.fdToken ['['] = "NULL".toList) := by
    rintro (h | h)
    · exact absurd (List.cons_prefix_cons.1 (startsWith_iff.1 h)).1 (by decide)
    · exact absurd (List.cons.inj h).1 (by decide)
  have hopen : (p.fdToken ['[']).startsWith ['['] := startsWith_iff.2 ⟨_, rfl⟩
  unfold takeList
  dsimp only
  rw [if_neg hempty, if_neg hptr, if_pos hopen, hread]
  rfl

end

/-! ## Printed arrays -/

theorem joinCommas_tokens : joinCommas (p.tokens [] lead isLast) =
    lead ++ p.text ++ if isLast then [']'] else [] := by
  have hevents : ", events=".toList = comma ++ "events=".toList := rfl
  have hrevents : ", revents=".toList = comma ++ "revents=".toList := rfl
  unfold tokens text fdToken closing
  cases p.revents with
  | none =>
    rw [joinCommas_cons _ (by simp), joinCommas_singleton, hevents, Option.elim_none]
    simp only [List.append_assoc, List.cons_append, List.nil_append]
  | some r =>
    rw [joinCommas_cons _ (by simp), joinCommas_cons _ (by simp), joinCommas_singleton, hevents,
      Option.elim_some, hrevents]
    simp only [List.append_assoc, List.cons_append, List.nil_append]

theorem joinCommas_arrayTokens (hne : ps ≠ []) :
    joinCommas (arrayTokens [] lead ps) = lead ++ joinCommas (ps.map text) ++ [']'] := by
  induction ps generalizing lead with
  | nil => exact absurd rfl hne
  | cons p ps ih =>
    rw [arrayTokens, List.map_cons]
    by_cases hlast : ps = []
    · subst hlast
      rw [show arrayTokens [] [] [] = [] from rfl, List.append_nil, joinCommas_tokens,
        List.map_nil, joinCommas_singleton]
      rfl
    · rw [List.isEmpty_eq_false_iff.2 hlast,
        joinCommas_append tokens_ne_nil (arrayTokens_ne_nil hlast), joinCommas_tokens, ih hlast,
        joinCommas_cons p.text (by simpa using hlast)]
      simp

theorem joinCommas_arrayTokens_bracket (hne : ps ≠ []) :
    joinCommas (arrayTokens [] ['['] ps) = listText ps :=
  joinCommas_arrayTokens hne

theorem tight_listText (ps : List PollFd) : (listText ps).Tight := by
  unfold listText
  refine ⟨by simp, fun c hc => ?_, fun c hc => ?_⟩
  · obtain rfl : '[' = c := by simpa using hc
    decide
  · rw [List.getLast?_concat] at hc
    rw [← Option.some.inj hc]
    decide

/-- No token of an entry has a comma in it or starts with a quote. -/
theorem of_mem_tokens (hp : p.IsPrintable) (hlead : ∀ c ∈ lead, c = '[')
    (ht : t ∈ p.tokens [] lead isLast) : ',' ∉ t ∧ t.head? ≠ some '"' := by
  obtain ⟨fd, events, revents⟩ := p
  have hclosing : ',' ∉ closing isLast := by cases isLast <;> decide
  have hfd : ',' ∉ fdToken lead ⟨fd, events, revents⟩ ∧
      (fdToken lead ⟨fd, events, revents⟩).head? ≠ some '"' := by
    constructor
    · have hdigits : ',' ∉ Decimal.ofInt fd.toInt :=
        Decimal.not_mem_ofInt rfl (by decide)
      have hopen : ',' ∉ "\x7bfd=".toList := by decide
      have hbrackets : ',' ∉ lead := fun h => absurd (hlead _ h) (by decide)
      simp only [fdToken, List.mem_append, not_or]
      exact ⟨hbrackets, hopen, hdigits⟩
    · cases lead with
      | nil => exact fun h => absurd (Option.some.inj h) (by decide)
      | cons c lead =>
        intro h
        exact absurd ((hlead c List.mem_cons_self).symm.trans (Option.some.inj h)) (by decide)
  have hkeyed : ∀ key value : Text, ',' ∉ key → IsEvents value →
      (∀ u, (key ++ u).head? ≠ some '"') → ∀ ending, ',' ∉ ending →
        ',' ∉ key ++ value ++ ending ∧ (key ++ value ++ ending).head? ≠ some '"' := by
    intro key value hkey hvalue hhead ending hending
    constructor
    · simp only [List.mem_append, not_or]
      exact ⟨⟨hkey, hvalue.not_mem (by decide)⟩, hending⟩
    · rw [List.append_assoc]
      exact hhead _
  have hevents := hkeyed "events=".toList events (by decide) hp.events fun u h =>
    absurd (Option.some.inj h) (by decide)
  cases revents with
  | none =>
    simp only [tokens, List.mem_cons, List.not_mem_nil, or_false] at ht
    rcases ht with rfl | rfl
    · exact hfd
    · exact hevents _ hclosing
  | some r =>
    simp only [tokens, List.mem_cons, List.not_mem_nil, or_false] at ht
    rcases ht with rfl | rfl | rfl
    · exact hfd
    · exact hevents [] (by simp)
    · exact hkeyed "revents=".toList r (by decide) (hp.revents r rfl)
        (fun u h => absurd (Option.some.inj h) (by decide)) _ hclosing

theorem of_mem_arrayTokens (hps : ∀ p ∈ ps, p.IsPrintable) (hlead : ∀ c ∈ lead, c = '[')
    (ht : t ∈ arrayTokens [] lead ps) : ¬ comma <:+: t ∧ t.head? ≠ some '"' := by
  induction ps generalizing lead with
  | nil => cases ht
  | cons p ps ih =>
    obtain ⟨hp, hps⟩ := List.forall_mem_cons.1 hps
    rcases List.mem_append.1 ht with ht | ht
    · obtain ⟨hcomma, hhead⟩ := of_mem_tokens hp hlead ht
      exact ⟨noComma_of_not_mem hcomma, hhead⟩
    · exact ih hps (by simp) ht

/-- A printed array is read back from among the arguments, and the arguments after it are left. -/
theorem takeList_split_text (hps : ∀ p ∈ ps, p.IsPrintable) (hplain : ∀ t ∈ rest, IsPlain t)
    (hrest : ∀ t ∈ rest.head?, ¬ "revents=".toList <+: t) :
    takeList (split ((ArgumentValue.pollFdList ps).text ++ comma ++ joinCommas rest)) =
      .ok (some ps, rest) := by
  show takeList (split (listText ps ++ comma ++ joinCommas rest)) = _
  by_cases hne : ps = []
  · subst hne
    have hsplit : split (joinCommas ["[]".toList] ++ comma ++ joinCommas rest) =
        ["[]".toList] ++ rest :=
      split_joinCommas_append_comma (by simp) (by decide +kernel)
        (List.forall_mem_singleton.2 (by decide)) hplain
    rw [joinCommas_singleton] at hsplit
    rw [show listText [] = "[]".toList from rfl, hsplit]
    rfl
  · have htight : (joinCommas (arrayTokens [] ['['] ps)).Tight := by
      rw [joinCommas_arrayTokens_bracket hne]
      exact tight_listText ps
    rw [← joinCommas_arrayTokens_bracket hne, split_joinCommas_append_comma
      (arrayTokens_ne_nil hne) htight (fun t ht => of_mem_arrayTokens hps (by simp) ht) hplain]
    exact takeList_arrayTokens hps hne (by simp) hrest

/-- One entry with returned events before one without, and the other arguments of the call. -/
theorem takeList_split_text_pair :
    takeList (split ("[\x7bfd=4, events=POLLIN, revents=POLLIN\x7d, " ++
        "\x7bfd=-1, events=POLLIN|POLLPRI\x7d], 2, -1").toList) =
      .ok (some [⟨4, "POLLIN".toList, some "POLLIN".toList⟩, ⟨-1, "POLLIN|POLLPRI".toList, none⟩],
        [['2'], "-1".toList]) := by
  have hps : ∀ p ∈ [(⟨4, "POLLIN".toList, some "POLLIN".toList⟩ : PollFd),
      ⟨-1, "POLLIN|POLLPRI".toList, none⟩], p.IsPrintable := by
    simp only [List.forall_mem_cons, List.not_mem_nil, false_implies, implies_true, and_true]
    exact ⟨⟨by decide, fun r hr => by rw [← Option.some.inj hr]; decide⟩,
      ⟨by decide, fun r hr => by cases hr⟩⟩
  have hplain : ∀ t ∈ [['2'], "-1".toList], IsPlain t := by
    simp only [List.forall_mem_cons, List.not_mem_nil, false_implies, implies_true, and_true]
    exact ⟨⟨by decide +kernel, by decide, by decide +kernel⟩,
      ⟨by decide +kernel, by decide, by decide +kernel⟩⟩
  have hread := takeList_split_text hps hplain (by decide +kernel)
  rwa [show (ArgumentValue.pollFdList [⟨4, "POLLIN".toList, some "POLLIN".toList⟩,
      ⟨-1, "POLLIN|POLLPRI".toList, none⟩]).text ++ comma ++ joinCommas [['2'], "-1".toList] =
    ("[\x7bfd=4, events=POLLIN, revents=POLLIN\x7d, " ++
      "\x7bfd=-1, events=POLLIN|POLLPRI\x7d], 2, -1").toList by decide +kernel] at hread

end PollFd

end SyscallTrace
