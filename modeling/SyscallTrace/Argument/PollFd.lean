import SyscallTrace.Argument.CastError

/-!
# Poll descriptors

The array argument of the poll calls: entries with a descriptor, the awaited events and, where the
call reported them, the returned events. `PollFd.takeList` reads the array from the front of the
tokens and `PollFd.listText` prints it.
-/

namespace SyscallTrace

structure PollFd where
  fd : Int64
  events : Text
  revents : Option Text := none
  deriving DecidableEq

namespace PollFd

def text (p : PollFd) : Text :=
  "\x7bfd=".toList ++ Decimal.ofInt p.fd.toInt ++ ", events=".toList ++ p.events ++
    (p.revents.elim [] fun r => ", revents=".toList ++ r) ++ ['}']

/-- The entries in brackets. -/
def listText (list : List PollFd) : Text :=
  ['['] ++ Text.joinCommas (list.map text) ++ [']']

/-- Takes the closing brackets and then the closing braces off the end. -/
def dropClosing (t : Text) : Text :=
  Text.dropEndWhile (· == '}') (t.dropEndWhile (· == ']'))

/-- An entry at the front of the tokens, whether it is the last one, and the tokens after it. -/
structure Entry where
  pollFd : PollFd
  isLast : Bool
  rest : List Text

/-- Adds the returned events to an entry if the next token has them. -/
def withRevents (fd : Int64) (events : Text) (isLast : Bool) (tokens : List Text) : Entry :=
  match tokens with
  | [] => ⟨⟨fd, events, none⟩, isLast, []⟩
  | token :: rest =>
    match token.dropPrefix? "revents=".toList with
    | some value => ⟨⟨fd, events, some (dropClosing value)⟩, isLast || value.endsWith [']'], rest⟩
    | none => ⟨⟨fd, events, none⟩, isLast, token :: rest⟩

/-- Reads the entry at the front of the tokens; `seen` holds the tokens before it. -/
def takeEntry (seen tokens : List Text) : Except CastError Entry :=
  let fault (n : Nat) (f : StructureFault) : Except CastError Entry :=
    .error (.malformed .pollFdList (seen ++ tokens.take n) f)
  match tokens with
  | [] => fault 0 .noClosingBracket
  | fdToken :: tokens =>
    match Text.dropPrefix? (fdToken.dropWhile (· == '[')) "\x7bfd=".toList with
    | none => fault 1 .noDescriptor
    | some fdText =>
      match Decimal.int64? fdText with
      | none => .error (.value fdText .pollFdList)
      | some fd =>
        match tokens with
        | [] => fault 1 .eventsMissing
        | eventsToken :: rest =>
          match (dropClosing eventsToken).dropPrefix? "events=".toList with
          | none => fault 2 .noEvents
          | some events => .ok (withRevents fd events (eventsToken.endsWith [']']) rest)

theorem length_rest_withRevents_le (fd : Int64) (events : Text) (isLast : Bool)
    (tokens : List Text) : (withRevents fd events isLast tokens).rest.length ≤ tokens.length := by
  unfold withRevents
  split
  · simp
  · split <;> simp

theorem length_rest_lt_of_takeEntry {seen tokens : List Text} {e : Entry}
    (h : takeEntry seen tokens = .ok e) : e.rest.length < tokens.length := by
  unfold takeEntry at h
  repeat' split at h
  all_goals try cases h
  have := length_rest_withRevents_le
  grind

/-- Reads entries up to the last one, and returns the tokens after it. -/
def takeEntries (seen tokens : List Text) : Except CastError (List PollFd × List Text) :=
  match _h : takeEntry seen tokens with
  | .error e => .error e
  | .ok e =>
    if e.isLast then .ok ([e.pollFd], e.rest)
    else
      match takeEntries (seen ++ tokens.take (tokens.length - e.rest.length)) e.rest with
      | .error e => .error e
      | .ok (list, rest) => .ok (e.pollFd :: list, rest)
termination_by tokens.length
decreasing_by exact length_rest_lt_of_takeEntry _h

/-- Reads an array of entries from the front of the tokens, and returns the tokens after it. There
is no array where only a pointer was printed. -/
def takeList (tokens : List Text) : Except CastError (Option (List PollFd) × List Text) :=
  match tokens with
  | [] => .error (.malformed .pollFdList [] .noOpeningBracket)
  | first :: rest =>
    if first = "[]".toList then .ok (some [], rest)
    else if first.startsWith "0x".toList ∨ first = "NULL".toList then .ok (none, rest)
    else if first.startsWith ['['] then
      (takeEntries [] tokens).map fun r => (some r.1, r.2)
    else .error (.malformed .pollFdList [first] .noOpeningBracket)

end PollFd

end SyscallTrace
