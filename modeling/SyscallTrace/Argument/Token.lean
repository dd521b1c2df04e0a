import SyscallTrace.Text.Basic

/-!
# Argument tokens

The text between the parentheses of a call is cut at every ", ", and the pieces of a string literal
are put together again. Structures and arrays stay cut: the readers of structured values collect
their tokens. `joinCommas_mergeLiterals` says that merging keeps the text.
-/

namespace SyscallTrace.Token

/-- The text ends in a quote that is not its only character and that no backslash escapes. -/
def endsInQuote (t : Text) : Bool :=
  t != ['"'] &&
    match t.dropSuffix? ['"'] with
    | none => false
    | some body => (body.reverse.takeWhile (· == '\\')).length % 2 == 0

/-- The token opens a string literal and does not close it. Dots after the closing quote mark a
shortened literal. -/
def isOpenLiteral (t : Text) : Bool :=
  t.startsWith ['"'] && !endsInQuote (t.dropEndWhile (· == '.'))

/-- The token that continues an open literal, if there is one. -/
def continued : Option Text → Text → Text
  | none, t => t
  | some held, t => held ++ Text.comma ++ t

/-- Merges with an open literal held back: each token continues the held one, up to the token that
closes it. -/
def mergeOpen : Option Text → List Text → List Text
  | held, [] => held.toList
  | held, t :: ts =>
    if isOpenLiteral (continued held t) then mergeOpen (some (continued held t)) ts
    else continued held t :: mergeOpen none ts

/-- Puts the pieces of string literals together. A literal that is never closed takes the rest. -/
def mergeLiterals (ts : List Text) : List Text :=
  mergeOpen none ts

/-- The tokens of an argument text. Blanks around it and commas at its end do not count. -/
def split (t : Text) : List Text :=
  let body := t.trim.dropEndWhile (· == ',')
  if body.isEmpty then [] else mergeLiterals body.splitCommas

theorem joinCommas_cons (t : Text) {ts : List Text} (h : ts ≠ []) :
    Text.joinCommas (t :: ts) = t ++ Text.comma ++ Text.joinCommas ts := by
  obtain ⟨u, us, rfl⟩ := List.exists_cons_of_ne_nil h
  simp [Text.joinCommas, List.intercalate, List.intersperse]

theorem mergeOpen_ne_nil {held : Option Text} {ts : List Text} (h : held.isSome ∨ ts ≠ []) :
    mergeOpen held ts ≠ [] := by
  induction ts generalizing held with
  | nil => cases held <;> simp_all [mergeOpen]
  | cons t ts ih =>
    rw [mergeOpen]
    split
    · exact ih (Or.inl rfl)
    · simp

theorem joinCommas_mergeOpen (held : Option Text) (ts : List Text) :
    Text.joinCommas (mergeOpen held ts) = Text.joinCommas (held.toList ++ ts) := by
  induction ts generalizing held with
  | nil => simp [mergeOpen]
  | cons t ts ih =>
    have hjoin : ∀ token, Text.joinCommas (if isOpenLiteral token then mergeOpen (some token) ts
        else token :: mergeOpen none ts) = Text.joinCommas (token :: ts) := by
      intro token
      split
      · simpa using ih (some token)
      · rcases ts with _ | ⟨u, us⟩
        · simp [mergeOpen]
        · rw [joinCommas_cons _ (mergeOpen_ne_nil (Or.inr (by simp))), ih none]
          simp [joinCommas_cons]
    rw [mergeOpen, hjoin]
    cases held with
    | none => rfl
    | some h =>
      rcases ts with _ | ⟨u, us⟩
      · simp [continued, Text.joinCommas, List.intercalate, List.intersperse]
      · simp [continued, joinCommas_cons]

theorem joinCommas_mergeLiterals (ts : List Text) :
    Text.joinCommas (mergeLiterals ts) = Text.joinCommas ts :=
  joinCommas_mergeOpen none ts

end SyscallTrace.Token
