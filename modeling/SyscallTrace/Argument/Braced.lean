import SyscallTrace.Argument.CastError

/-!
# Braced structures

A structure is printed between braces and was cut at its commas. `Braced.take` collects its tokens
from the front of a list: the first one opens the brace, and the first one that ends in a closing
brace is the last. `raw_append_rest_of_take` says that no token is lost.
-/

namespace SyscallTrace

/-- The list up to its first item that satisfies `p`, which it includes, and the rest. -/
def splitAfter? {α : Type} (p : α → Bool) : List α → Option (List α × List α)
  | [] => none
  | x :: xs =>
    if p x then some ([x], xs) else (splitAfter? p xs).map fun r => (x :: r.1, r.2)

theorem eq_append_of_splitAfter? {α : Type} {p : α → Bool} {xs a b : List α}
    (h : splitAfter? p xs = some (a, b)) : xs = a ++ b := by
  induction xs generalizing a with
  | nil => simp [splitAfter?] at h
  | cons x xs ih =>
    rw [splitAfter?] at h
    split at h
    · obtain ⟨rfl, rfl⟩ : [x] = a ∧ xs = b := by simpa using h
      rfl
    · simp only [Option.map_eq_some_iff] at h
      obtain ⟨r, hr, hab⟩ := h
      obtain ⟨rfl, rfl⟩ : x :: r.1 = a ∧ r.2 = b := by simpa using hab
      simp [← ih hr]

/-- The tokens of a structure and those after it. -/
structure Braced where
  raw : List Text
  rest : List Text

namespace Braced

/-- Takes a closing brace off the last token. -/
def dropClosing : List Text → List Text
  | [] => []
  | [t] => [(t.dropSuffix? ['}']).getD t]
  | t :: ts => t :: dropClosing ts

/-- The tokens without the braces around them. -/
def fields (b : Braced) : List Text :=
  dropClosing (b.raw.modifyHead fun t => (t.dropPrefix? ['{']).getD t)

/-- Takes the tokens of a structure from the front of `tokens`. -/
def take (kind : ArgumentKind) (tokens : List Text) : Except CastError Braced :=
  match tokens with
  | [] => .error (.malformed kind [] .noOpeningBrace)
  | first :: _ =>
    if first.startsWith ['{'] then
      match splitAfter? (fun t => Text.endsWith t ['}']) tokens with
      | some (raw, rest) => .ok ⟨raw, rest⟩
      | none => .error (.malformed kind tokens .noClosingBrace)
    else .error (.malformed kind [first] .noOpeningBrace)

theorem raw_append_rest_of_take {kind : ArgumentKind} {tokens : List Text} {b : Braced}
    (h : take kind tokens = .ok b) : b.raw ++ b.rest = tokens := by
  unfold take at h
  split at h
  · cases h
  · split at h
    · split at h
      · next hs =>
        obtain rfl := Except.ok.inj h
        exact (eq_append_of_splitAfter? hs).symm
      · cases h
    · cases h

end Braced

end SyscallTrace
