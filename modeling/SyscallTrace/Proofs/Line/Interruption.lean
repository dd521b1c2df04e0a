import SyscallTrace.Proofs.Line.Printing
import SyscallTrace.Record

/-!
# Interrupted lines

The line of a complete call, and the two lines that show the same call when it is interrupted
(`Interruption`). All three are told by their text. `Interruption.ofLine_whole`,
`Interruption.ofLine_started` and `Interruption.ofLine_resumed` say which calls are read off them
if a return value starts the text behind the equals sign: the tokens of the two lines are those of
the whole one, and the outcome on the resumed line is that of the whole one.
-/

namespace SyscallTrace

open Text

/-- The text of columns that can stand in front of a call. -/
structure Front (columns : Columns) where
  heading : Heading
  text : Text
  isFront : heading.IsFront columns text

/-- A call that a line shows whole, and a place in its argument list where it is interrupted. A
comma and blanks may be printed on either side of the interruption. -/
structure Interruption (columns : Columns) where
  name : Text
  first : List Text
  others : List Text
  /-- What stands behind the equals sign. -/
  tail : Text
  wholeFront : Front columns
  startedFront : Front columns
  resumedFront : Front columns
  trailer : Text
  leader : Text
  gap : Text
  gap' : Text
  resumedGap : Text
  resumedGap' : Text
  timestamp : Option Timestamp
  isName : IsName name
  isArgument : ∀ a ∈ first ++ others, Token.IsArgument a
  noMark : ¬ CallForm.unfinishedMark <:+: joinCommas others
  isEnding : CallForm.IsEnding tail
  isTrailer : Token.IsTrailer trailer
  isLeader : CallForm.IsLeader leader
  isGap : IsBlankRun gap
  isGap' : IsBlankRun gap'
  isResumedGap : IsBlankRun resumedGap
  isResumedGap' : IsBlankRun resumedGap'
  started_timestamp :
    Record.readTimestamp columns.timestamp startedFront.heading.timestamp = .ok timestamp
  started_pid : startedFront.heading.pid = wholeFront.heading.pid
  resumed_pid : resumedFront.heading.pid = wholeFront.heading.pid

namespace Interruption

variable {columns : Columns} (i : Interruption columns) {contents : Text} {o : Outcome}

/-! ## The lines -/

/-- The whole call. -/
def wholeBody : Text :=
  CallForm.completeText i.name (joinCommas (i.first ++ i.others)) i.gap i.gap' i.tail

/-- The call up to the interruption. -/
def startedBody : Text := CallForm.unfinishedText i.name (joinCommas i.first ++ i.trailer)

/-- The rest of the call. -/
def resumedBody : Text :=
  CallForm.resumedText i.name (i.leader ++ joinCommas i.others) i.resumedGap i.resumedGap' i.tail

def whole : Text := i.wholeFront.text ++ i.wholeBody

def started : Text := i.startedFront.text ++ i.startedBody

def resumed : Text := i.resumedFront.text ++ i.resumedBody

theorem take_whole :
    Heading.take columns i.whole = .ok (some (i.wholeFront.heading, i.wholeBody)) :=
  Heading.take_eq_ok_iff.2 ⟨_, i.wholeFront.isFront, rfl, i.isName.follows _⟩

theorem take_started :
    Heading.take columns i.started = .ok (some (i.startedFront.heading, i.startedBody)) :=
  Heading.take_eq_ok_iff.2 ⟨_, i.startedFront.isFront, rfl, i.isName.follows _⟩

theorem take_resumed :
    Heading.take columns i.resumed = .ok (some (i.resumedFront.heading, i.resumedBody)) :=
  Heading.take_eq_ok_iff.2 ⟨_, i.resumedFront.isFront, rfl,
    Heading.follows_cons (by decide) (by decide) (by decide) _⟩

/-! ## The calls -/

/-- The process and the name of the call. -/
def key : CallKey := (i.wholeFront.heading.pid, i.name)

/-- The text of the return value. -/
def ret : Text := i.tail.takeWhile CallForm.isReturnChar

/-- The text behind the return value. -/
def rest : Text := i.tail.dropWhile CallForm.isReturnChar

def wholeCall (o : Outcome) : Call :=
  ⟨i.wholeFront.heading, i.name, i.first ++ i.others, .complete o⟩

def startedCall : Call := ⟨i.startedFront.heading, i.name, i.first, .unfinished⟩

def resumedCall (o : Outcome) : Call := ⟨i.resumedFront.heading, i.name, i.others, .resumed o⟩

theorem key_startedCall : i.startedCall.key = i.key := congrArg (·, i.name) i.started_pid

theorem key_resumedCall : (i.resumedCall o).key = i.key := congrArg (·, i.name) i.resumed_pid

theorem split_whole : Token.split (joinCommas (i.first ++ i.others)) = i.first ++ i.others := by
  simpa using Token.split_joinCommas i.isArgument isBlanks_nil (.blanks isBlanks_nil)

theorem split_first : Token.split (joinCommas i.first ++ i.trailer) = i.first := by
  have hsplit := Token.split_joinCommas
    (fun a ha => i.isArgument a (List.mem_append_left _ ha)) isBlanks_nil i.isTrailer
  rwa [List.nil_append] at hsplit

theorem split_others :
    Token.split (CallForm.resumedArgs (i.leader ++ joinCommas i.others)) = i.others :=
  CallForm.split_resumedArgs (fun a ha => i.isArgument a (List.mem_append_right _ ha)) i.isLeader

/-! ## Reading the lines -/

/-- The call on the line that is interrupted. -/
theorem ofLine_started (hl : i.started ∈ contents.lines) :
    Call.ofLine columns i.started = .ok (some i.startedCall) := by
  have hargs : '\n' ∉ joinCommas i.first ++ i.trailer := fun hm =>
    not_mem_of_mem_lines hl (List.mem_append_right _ (List.mem_append_right _
      (List.mem_cons_of_mem _ (List.mem_append_left _ hm))))
  have hform : CallForm.ofText? i.startedBody =
      some (.unfinished i.name (joinCommas i.first ++ i.trailer)) :=
    CallForm.ofText?_unfinishedText i.isName.ne_nil (i.isName.not_mem (by decide))
      (fun c hc => i.isName.unblank hc) hargs
  rw [Call.ofLine_eq_of_take (trim_of_mem_lines hl) i.take_started hform]
  show Except.ok (some (Call.mk i.startedFront.heading i.name.trim
    (Token.split (joinCommas i.first ++ i.trailer)) .unfinished)) = _
  rw [i.split_first, i.isName.trim]
  rfl

variable (hret : i.tail.head?.any CallForm.isReturnChar)

include hret

/-- The call on the whole line. -/
theorem ofLine_whole (hl : i.whole ∈ contents.lines) {c? : Option Call}
    (hc : Call.ofLine columns i.whole = .ok c?) :
    ∃ o, Outcome.read columns.elapsed i.ret i.rest = .ok o ∧ c? = some (i.wholeCall o) := by
  have hbody : '\n' ∉ i.wholeBody := fun hm =>
    not_mem_of_mem_lines hl (List.mem_append_right _ hm)
  have htail : '\n' ∉ i.tail := fun hm => hbody (by simp [wholeBody, CallForm.completeText, hm])
  have hprinted : CallForm.IsPrinted i.wholeBody i.name (joinCommas (i.first ++ i.others)) i.ret
      i.rest :=
    CallForm.isPrinted_completeText i.isName.ne_nil (i.isName.not_mem (by decide)) i.isEnding hret
      htail i.isGap i.isGap'
  have hform :=
    (CallForm.ofText?_eq_complete_iff (fun c hc => i.isName.unblank hc) hbody).2 hprinted
  rw [Call.ofLine_eq_of_take (trim_of_mem_lines hl) i.take_whole hform, mapError_eq_ok_iff,
    map_eq_ok_iff] at hc
  obtain ⟨c, hc, rfl⟩ := hc
  obtain ⟨o, ho, hc⟩ := bind_eq_ok_iff.1 hc
  refine ⟨o, ho, ?_⟩
  rw [← pure_eq_ok_iff.1 hc, i.split_whole, i.isName.trim]
  rfl

/-- The call on the line that resumes it. -/
theorem ofLine_resumed (hl : i.resumed ∈ contents.lines)
    (ho : Outcome.read columns.elapsed i.ret i.rest = .ok o) :
    Call.ofLine columns i.resumed = .ok (some (i.resumedCall o)) := by
  have hbody : '\n' ∉ i.resumedBody := fun hm =>
    not_mem_of_mem_lines hl (List.mem_append_right _ hm)
  have hargs : '\n' ∉ i.leader ++ joinCommas i.others := fun hm => hbody <|
    List.mem_append_right _ (List.mem_append_right _ (List.mem_append_right _
      (List.mem_append_left _ hm)))
  have htail : '\n' ∉ i.tail := fun hm => hbody (by simp [resumedBody, CallForm.resumedText, hm])
  have hmark := CallForm.noMark_of_isLeader i.isLeader i.noMark
  have hform := CallForm.ofText?_resumedText (i.isEnding.isTail hret htail) i.isResumedGap
    i.isResumedGap' i.isName.ne_nil (fun c hc => i.isName.unblank hc) hargs
    (CallForm.not_interruptsAgain hmark) fun hend => hmark hend.isInfix
  rw [List.takeWhile_append_dropWhile] at hform
  rw [Call.ofLine_eq_of_take (trim_of_mem_lines hl) i.take_resumed hform, mapError_eq_ok_iff,
    map_eq_ok_iff]
  refine ⟨i.resumedCall o, bind_eq_ok_iff.2 ⟨o, ho, ?_⟩, rfl⟩
  rw [i.split_others, i.isName.trim]
  rfl

end Interruption

end SyscallTrace
