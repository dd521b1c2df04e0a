import SyscallTrace.Text.Blank

/-!
# Texts

A text is the list of its characters, and every piece of a trace is one. This module holds the
cuts that readers are made of: a fixed start or end taken off (`dropPrefix?`, `dropSuffix?`), the
first or last character of a kind (`cutFirst?`, `cutLast?`), the last place where a reader succeeds
(`latest?`), trimming, words, and lists joined by ", ".

The statements beside a cut say that what it returns puts the text together again:
`dropPrefix?_eq_some_iff`, `dropSuffix?_eq_some_iff`, `eq_append_of_cutFirst?`.
-/

namespace SyscallTrace

/-- A text is the list of its characters. -/
abbrev Text := List Char

namespace Text

/-! ## Fixed starts and ends -/

/-- What follows `p` in a text that starts with `p`. -/
def dropPrefix? : Text → Text → Option Text
  | t, [] => some t
  | [], _ :: _ => none
  | c :: t, d :: p => if c = d then dropPrefix? t p else none

/-- What precedes `s` in a text that ends with `s`. -/
def dropSuffix? (t s : Text) : Option Text :=
  (dropPrefix? t.reverse s.reverse).map List.reverse

theorem dropPrefix?_eq_some_iff {t p r : Text} : dropPrefix? t p = some r ↔ t = p ++ r := by
  fun_induction dropPrefix? t p with
  | case1 t => simp [eq_comm]
  | case2 => simp
  | case3 t c p ih => simp [ih]
  | case4 c t d p h => simp [h]

@[simp] theorem dropPrefix?_append (p r : Text) : dropPrefix? (p ++ r) p = some r :=
  dropPrefix?_eq_some_iff.2 rfl

theorem dropSuffix?_eq_some_iff {t s r : Text} : dropSuffix? t s = some r ↔ t = r ++ s := by
  constructor
  · intro h
    obtain ⟨u, hu, rfl⟩ := Option.map_eq_some_iff.1 h
    simpa using congrArg List.reverse (dropPrefix?_eq_some_iff.1 hu)
  · rintro rfl
    simp [dropSuffix?]

@[simp] theorem dropSuffix?_append (r s : Text) : dropSuffix? (r ++ s) s = some r :=
  dropSuffix?_eq_some_iff.2 rfl

/-- The text starts with `p`. -/
def startsWith (t p : Text) : Bool := p.isPrefixOf t

/-- The text ends with `s`. -/
def endsWith (t s : Text) : Bool := s.isSuffixOf t

/-- The text has `p` in it somewhere. -/
def includes : Text → Text → Bool
  | [], p => p.isEmpty
  | c :: t, p => p.isPrefixOf (c :: t) || includes t p

/-! ## Single characters -/

/-- The text before and after the first character that satisfies `p`. -/
def cutFirst? (p : Char → Bool) : Text → Option (Text × Text)
  | [] => none
  | c :: t => if p c then some ([], t) else (cutFirst? p t).map fun x => (c :: x.1, x.2)

/-- The text before and after the last character that satisfies `p`. -/
def cutLast? (p : Char → Bool) (t : Text) : Option (Text × Text) :=
  (cutFirst? p t.reverse).map fun x => (x.2.reverse, x.1.reverse)

theorem eq_append_of_cutFirst? {p : Char → Bool} {t a b : Text}
    (h : cutFirst? p t = some (a, b)) :
    ∃ c, p c ∧ (∀ d ∈ a, p d = false) ∧ t = a ++ c :: b := by
  induction t generalizing a with
  | nil => simp [cutFirst?] at h
  | cons c t ih =>
    by_cases hc : p c
    · obtain ⟨rfl, rfl⟩ : [] = a ∧ t = b := by simpa [cutFirst?, hc] using h
      exact ⟨c, hc, by simp, rfl⟩
    · simp only [cutFirst?, hc, Bool.false_eq_true, if_false, Option.map_eq_some_iff] at h
      obtain ⟨⟨a', b'⟩, hx, hab⟩ := h
      obtain ⟨rfl, rfl⟩ : c :: a' = a ∧ b' = b := by simpa using hab
      obtain ⟨d, hd, ha, rfl⟩ := ih hx
      exact ⟨d, hd, by simpa [hc] using ha, rfl⟩

theorem cutFirst?_append {p : Char → Bool} {a b : Text} {c : Char} (ha : ∀ d ∈ a, p d = false)
    (hc : p c) : cutFirst? p (a ++ c :: b) = some (a, b) := by
  induction a with
  | nil => simp [cutFirst?, hc]
  | cons d a ih =>
    have hd := ha d List.mem_cons_self
    simp [cutFirst?, hd, ih fun e he => ha e (List.mem_cons_of_mem _ he)]

theorem cutFirst?_eq_none_iff {p : Char → Bool} {t : Text} :
    cutFirst? p t = none ↔ ∀ c ∈ t, p c = false := by
  induction t with
  | nil => simp [cutFirst?]
  | cons c t ih => by_cases hc : p c <;> simp [cutFirst?, hc, ih]

/-! ## The last place where a reader succeeds -/

/-- Cuts the text where `f` reads the rest, at the last such place that has no line feed before
it. -/
def latest? {α : Type} (f : Text → Option α) : Text → Option (Text × α)
  | [] => (f []).map fun x => ([], x)
  | c :: t =>
    match if c = '\n' then none else latest? f t with
    | some x => some (c :: x.1, x.2)
    | none => (f (c :: t)).map fun x => ([], x)

/-- What `latest?` returns was read from the rest of the text. -/
theorem exists_of_latest? {α : Type} {f : Text → Option α} {t a : Text} {x : α}
    (h : latest? f t = some (a, x)) : ∃ r, t = a ++ r ∧ f r = some x ∧ '\n' ∉ a := by
  induction t generalizing a with
  | nil =>
    simp only [latest?, Option.map_eq_some_iff] at h
    obtain ⟨y, hy, hax⟩ := h
    obtain ⟨rfl, rfl⟩ : [] = a ∧ y = x := by simpa using hax
    exact ⟨[], rfl, hy, by simp⟩
  | cons c t ih =>
    rw [latest?] at h
    split at h
    · next y hy =>
      obtain ⟨rfl, rfl⟩ : c :: y.1 = a ∧ y.2 = x := by simpa using h
      split at hy
      · cases hy
      · next hc =>
        obtain ⟨r, rfl, hr, hn⟩ := ih hy
        exact ⟨r, rfl, hr, by simpa [Ne.symm hc] using hn⟩
    · simp only [Option.map_eq_some_iff] at h
      obtain ⟨y, hy, hax⟩ := h
      obtain ⟨rfl, rfl⟩ : [] = a ∧ y = x := by simpa using hax
      exact ⟨c :: t, rfl, hy, by simp⟩

/-! ## Trimming -/

/-- Takes the characters that satisfy `p` off the end. -/
def dropEndWhile (p : Char → Bool) (t : Text) : Text :=
  (t.reverse.dropWhile p).reverse

/-- Takes the blanks off the start. -/
def trimStart (t : Text) : Text := t.dropWhile isBlank

/-- Takes the blanks off the end. -/
def trimEnd (t : Text) : Text := t.dropEndWhile isBlank

/-- Takes the blanks off both ends. -/
def trim (t : Text) : Text := t.trimStart.trimEnd

/-- Takes every `c` off both ends. -/
def trimChar (c : Char) (t : Text) : Text :=
  dropEndWhile (· == c) (t.dropWhile (· == c))

/-! ## Pieces -/

/-- The words of a text: its pieces between blanks. -/
def words (t : Text) : List Text :=
  (t.splitOnP isBlank).filter fun w => !w.isEmpty

/-- The first word, empty if there is none. -/
def firstWord (t : Text) : Text := t.words.headD []

/-- The lines of a text, each without the blanks around it. -/
def lines (t : Text) : List Text :=
  (t.splitOn '\n').map trim

/-- The lines put together, with a line feed at the end of each. -/
def unlines (ls : List Text) : Text := ls.flatMap (· ++ ['\n'])

/-- What stands between the items of a list. -/
def comma : Text := ", ".toList

/-- The pieces of a text between the places where ", " occurs, taken from the left. -/
def splitCommas : Text → List Text
  | [] => [[]]
  | ',' :: ' ' :: t => [] :: splitCommas t
  | c :: t => (splitCommas t).modifyHead (c :: ·)

/-- The items with ", " between them. -/
def joinCommas (ts : List Text) : Text := comma.intercalate ts

end Text

end SyscallTrace
