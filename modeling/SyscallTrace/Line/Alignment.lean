import SyscallTrace.Line.Call

/-!
# Alignment of arguments

A few syscalls are printed with arguments that do not match their parameters one to one. Shutting
down a socket shows a number and its meaning, a restarted call shows a remark, and the poll calls
report the returned events after the return value. `Alignment.align` brings the tokens of such a
call in line with its parameters.
-/

namespace SyscallTrace.Alignment

/-- The symbol for the way a socket is shut down. -/
def shutdownSymbol? : Text → Option Text
  | '0' :: _ => some "SHUT_RD".toList
  | '1' :: _ => some "SHUT_WR".toList
  | '2' :: _ => some "SHUT_RDWR".toList
  | _ => none

/-- Writes the second argument as a symbol. -/
def alignShutdown : List Text → List Text
  | fd :: how :: args => fd :: (shutdownSymbol? how).getD how :: args
  | args => args

/-- The returned events of one descriptor, both as printed. -/
structure PollReport where
  fd : Text
  revents : Text
  deriving DecidableEq

/-- A minus sign may stand before the digits of a descriptor. -/
def isDescriptor (t : Text) : Bool :=
  let digits := (t.dropPrefix? ['-']).getD t
  !digits.isEmpty && digits.all Text.isDecimalDigit

/-- Reads a report at the front of a text, and returns the text after it. -/
def takeReport? (t : Text) : Option (PollReport × Text) := do
  let t ← t.dropPrefix? "\x7bfd=".toList
  let (fd, t) ← t.cutFirst? (· == ',')
  let t ← t.dropPrefix? " revents=".toList
  let (revents, t) ← t.cutFirst? (· == '}')
  if isDescriptor fd && !revents.isEmpty then some (⟨fd, revents⟩, t) else none

theorem length_lt_of_cutFirst? {p : Char → Bool} {t a b : Text}
    (h : t.cutFirst? p = some (a, b)) : b.length < t.length := by
  obtain ⟨c, -, -, rfl⟩ := Text.eq_append_of_cutFirst? h
  simp
  omega

theorem length_lt_of_takeReport? {t rest : Text} {r : PollReport}
    (h : takeReport? t = some (r, rest)) : rest.length < t.length := by
  simp only [takeReport?, Option.bind_eq_bind, Option.bind_eq_some_iff] at h
  obtain ⟨t₁, h₁, x, h₂, t₃, h₃, y, h₄, h₅⟩ := h
  obtain ⟨fd, t₂⟩ := x
  obtain ⟨revents, t₄⟩ := y
  have e₁ := congrArg List.length (Text.dropPrefix?_eq_some_iff.1 h₁)
  have e₂ := length_lt_of_cutFirst? h₂
  have e₃ := congrArg List.length (Text.dropPrefix?_eq_some_iff.1 h₃)
  have e₄ := length_lt_of_cutFirst? h₄
  simp only [List.length_append] at e₁ e₃
  split at h₅
  · obtain ⟨-, rfl⟩ := Prod.mk.inj (Option.some.inj h₅)
    simp only at e₂ e₃ e₄ ⊢
    omega
  · cases h₅

/-- The reports in a text, from the left and without overlaps. -/
def reports : Text → List PollReport
  | [] => []
  | c :: t =>
    match _h : takeReport? (c :: t) with
    | some (r, rest) => r :: reports rest
    | none => reports t
termination_by t => t.length
decreasing_by
  · exact length_lt_of_takeReport? _h
  · simp

/-- The token opens the entry of this descriptor. -/
def opensEntry (fd token : Text) : Bool :=
  token.dropWhile (· == '[') == "\x7bfd=".toList ++ fd

/-- Adds the returned events to the first entry of their descriptor that has none. They take over
the bracket that closes the array. -/
def attach (r : PollReport) : List Text → List Text
  | fdToken :: events :: rest =>
    if opensEntry r.fd fdToken &&
        !rest.head?.any fun next => Text.startsWith next "revents=".toList then
      let token := "revents=".toList ++ r.revents ++ ['}']
      match events.dropSuffix? [']'] with
      | some events => fdToken :: events :: (token ++ [']']) :: rest
      | none => fdToken :: events :: token :: rest
    else fdToken :: attach r (events :: rest)
  | args => args

/-- Moves the reported events next to the entries of their descriptors. -/
def alignPoll (remark : Option Text) (args : List Text) : List Text :=
  (remark.elim [] reports).foldl (fun args r => attach r args) args

/-- Brings the tokens of a call in line with its parameters. -/
def align (name : Text) (remark : Option Text) (args : List Text) : List Text :=
  if name.startsWith "shutdown".toList then alignShutdown args
  else if name.startsWith "restart_syscall".toList then []
  else if name = "poll".toList ∨ name = "ppoll".toList then alignPoll remark args
  else args

end Alignment

/-- A call with its tokens in line with its parameters. -/
def Call.aligned (c : Call) : Call :=
  { c with args := Alignment.align c.name c.remark? c.args }

end SyscallTrace
