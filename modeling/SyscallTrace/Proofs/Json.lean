import Mathlib.Data.List.Basic
import SyscallTrace.Json
import SyscallTrace.Proofs.Decimal
import SyscallTrace.Proofs.Text.Cuts

/-!
# JSON texts

The compact text of a value determines the value, whatever text follows it (`Json.legible_text`), so
that no two values have the same text (`Json.text_injective`). A text holds no control characters
(`Json.noControls_text`).

* `Text.Legible`: what is written of a value can be told from what is written of another one.
* `Text.Legible.separated`: lists of such values with commas between them.
* `Json.inductionOn`: induction over the values in arrays and objects.
-/

namespace SyscallTrace

namespace Text

/-! ## Forms that can be told apart -/

section

variable {α : Type} {follows : Text → Prop} {write : α → Text} {x : α} {xs ys : List α}
  {r s t : Text} {stop : Char}

/-- What is written of `x` can be told from what is written of any other value, if `follows` holds
of the texts behind them. -/
def Legible (follows : Text → Prop) (write : α → Text) (x : α) : Prop :=
  ∀ ⦃y r s⦄, follows r → follows s → write x ++ r = write y ++ s → x = y ∧ r = s

namespace Legible

theorem injective (h : ∀ x, Legible follows write x) (hnil : follows []) :
    Function.Injective write := fun x _ hxy =>
  (h x hnil hnil (congrArg (· ++ []) hxy)).1

/-- A mark in front of all values changes nothing. -/
theorem cons (h : Legible follows write x) (mark : Char) :
    Legible follows (fun y => mark :: write y) x := fun _ _ _ hr hs heq =>
  h hr hs (List.cons.inj heq).2

/-- The values of a list that ends at a character that none of them starts with. -/
theorem flatMap (hxs : ∀ x ∈ xs, Legible follows write x)
    (hfollows : ∀ (zs : List α) r, follows (zs.flatMap write ++ stop :: r))
    (hstop : ∀ y r s, write y ++ r ≠ stop :: s)
    (h : xs.flatMap write ++ stop :: r = ys.flatMap write ++ stop :: s) : xs = ys ∧ r = s := by
  induction xs generalizing ys with
  | nil =>
    cases ys with
    | nil => exact ⟨rfl, (List.cons.inj h).2⟩
    | cons y ys =>
      rw [List.flatMap_cons, List.append_assoc] at h
      exact absurd h.symm (hstop _ _ _)
  | cons x xs ih =>
    rw [List.flatMap_cons, List.append_assoc] at h
    cases ys with
    | nil => exact absurd h (hstop _ _ _)
    | cons y ys =>
      rw [List.flatMap_cons, List.append_assoc] at h
      obtain ⟨hx, hxs⟩ := List.forall_mem_cons.1 hxs
      obtain ⟨rfl, hrest⟩ := hx (hfollows xs r) (hfollows ys s) h
      obtain ⟨rfl, hrs⟩ := ih hxs hrest
      exact ⟨rfl, hrs⟩

end Legible

/-- What is written of the values of a list, with commas between them. -/
def separated (write : α → Text) : List α → Text
  | [] => []
  | x :: xs => write x ++ xs.flatMap fun y => ',' :: write y

/-- The values of a list with commas between them, up to a character that closes it. -/
theorem Legible.separated (hxs : ∀ x ∈ xs, Legible follows write x) (hstop : stop ≠ ',')
    (hcomma : ∀ r, follows (',' :: r)) (hclose : ∀ r, follows (stop :: r))
    (hopen : ∀ y r s, write y ++ r ≠ stop :: s)
    (h : separated write xs ++ stop :: r = separated write ys ++ stop :: s) :
    xs = ys ∧ r = s := by
  have hfollows : ∀ (zs : List α) r,
      follows ((zs.flatMap fun y => ',' :: write y) ++ stop :: r) := by
    intro zs r
    cases zs with
    | nil => exact hclose r
    | cons z zs => exact hcomma _
  cases xs with
  | nil =>
    cases ys with
    | nil => exact ⟨rfl, (List.cons.inj h).2⟩
    | cons y ys =>
      rw [separated, separated, List.append_assoc] at h
      exact absurd h.symm (hopen _ _ _)
  | cons x xs =>
    cases ys with
    | nil =>
      rw [separated, separated, List.append_assoc] at h
      exact absurd h (hopen _ _ _)
    | cons y ys =>
      -- with one more comma in front, a comma stands before each value
      have hcommas : (x :: xs).flatMap (fun z => ',' :: write z) ++ stop :: r =
          (y :: ys).flatMap (fun z => ',' :: write z) ++ stop :: s := congrArg (',' :: ·) h
      exact flatMap (fun x hx => (hxs x hx).cons ',') hfollows
        (fun _ _ _ heq => hstop (List.cons.inj heq).1.symm) hcommas

/-! ## Texts without control characters -/

/-- The text has no character below the blank. -/
def NoControls (t : Text) : Prop := ∀ c ∈ t, 0x20 ≤ c.toNat

instance : DecidablePred NoControls := List.decidableBAll fun c : Char => 0x20 ≤ c.toNat

theorem noControls_append : NoControls (s ++ t) ↔ NoControls s ∧ NoControls t :=
  List.forall_mem_append

theorem noControls_cons {c : Char} : NoControls (c :: t) ↔ 0x20 ≤ c.toNat ∧ NoControls t :=
  List.forall_mem_cons

theorem noControls_nil : NoControls [] := List.forall_mem_nil _

theorem noControls_enclosed {c d : Char} (hc : 0x20 ≤ c.toNat) (ht : NoControls t)
    (hd : 0x20 ≤ d.toNat) : NoControls (c :: t ++ [d]) :=
  noControls_append.2 ⟨noControls_cons.2 ⟨hc, ht⟩, noControls_cons.2 ⟨hd, noControls_nil⟩⟩

theorem noControls_flatMap (h : ∀ x ∈ xs, NoControls (write x)) :
    NoControls (xs.flatMap write) := by
  intro c hc
  obtain ⟨x, hx, hc⟩ := List.mem_flatMap.1 hc
  exact h x hx c hc

theorem noControls_separated (h : ∀ x ∈ xs, NoControls (write x)) :
    NoControls (separated write xs) := by
  cases xs with
  | nil => exact noControls_nil
  | cons x xs =>
    obtain ⟨hx, hxs⟩ := List.forall_mem_cons.1 h
    refine noControls_append.2 ⟨hx, noControls_flatMap fun y hy => ?_⟩
    exact noControls_cons.2 ⟨by decide, hxs y hy⟩

end

end Text

open Text

namespace Json

/-! ## Numbers -/

/-- A character that numbers are written with. -/
def isNumeral (c : Char) : Bool := c.isDigit || c == '-'

theorem isNumeral_of_mem_ofInt {value : Int} {c : Char} (h : c ∈ Decimal.ofInt value) :
    isNumeral c := by
  rcases Decimal.mem_ofInt h with hdigit | rfl
  · exact Bool.or_eq_true_iff.2 (.inl hdigit)
  · rfl

/-- The text does not go on with a number that stands in front of it. -/
def FollowsValue (t : Text) : Prop := ∀ c ∈ t.head?, isNumeral c = false

theorem followsValue_nil : FollowsValue [] := fun _ h => (nomatch h)

theorem followsValue_cons {c : Char} (h : isNumeral c = false) (t : Text) :
    FollowsValue (c :: t) := fun _ hd => by rwa [← Option.some.inj hd]

theorem ofInt_injective : Function.Injective Decimal.ofInt := fun v w h => by
  have hv := Decimal.signed?_ofInt v
  rw [h, Decimal.signed?_ofInt] at hv
  exact (Option.some.inj hv).symm

theorem legible_ofInt (value : Int) : Legible FollowsValue Decimal.ofInt value := by
  intro other r s hr hs h
  have hrun := congrArg (List.takeWhile isNumeral) h
  rw [takeWhile_append (fun _ hc => isNumeral_of_mem_ofInt hc) hr,
    takeWhile_append (fun _ hc => isNumeral_of_mem_ofInt hc) hs] at hrun
  obtain rfl := ofInt_injective hrun
  exact ⟨rfl, List.append_cancel_left h⟩

theorem noControls_ofInt (value : Int) : NoControls (Decimal.ofInt value) := by
  intro c hc
  rcases Decimal.mem_ofInt hc with hdigit | rfl
  · simp only [Char.isDigit, Bool.and_eq_true, decide_eq_true_eq, ge_iff_le,
      UInt32.le_iff_toNat_le, Char.toNat_val, Char.reduceToNat] at hdigit
    omega
  · decide

/-! ## Strings -/

/-- The character stands for itself in a string. -/
def IsPlain (c : Char) : Prop := 0x20 ≤ c.toNat ∧ c ≠ '"' ∧ c ≠ '\\'

/-- The characters that are escaped. -/
def escapedChars : List Char := '"' :: '\\' :: (List.range 0x20).map Char.ofNat

theorem mem_escapedChars {c : Char} (h : ¬ IsPlain c) : c ∈ escapedChars := by
  by_cases hcontrol : c.toNat < 0x20
  · have hc : c ∈ (List.range 0x20).map Char.ofNat :=
      List.mem_map.2 ⟨c.toNat, List.mem_range.2 hcontrol, Char.ofNat_toNat c⟩
    exact List.mem_cons_of_mem _ (List.mem_cons_of_mem _ hc)
  · by_cases hquote : c = '"'
    · exact hquote ▸ List.mem_cons_self
    · by_cases hslash : c = '\\'
      · exact hslash ▸ List.mem_cons_of_mem _ List.mem_cons_self
      · exact absurd ⟨by omega, hquote, hslash⟩ h

theorem escape_of_isPlain {c : Char} (h : IsPlain c) : escape c = [c] := by
  obtain ⟨hcontrol, hquote, hslash⟩ := h
  unfold escape
  split
  · exact absurd rfl hquote
  · exact absurd rfl hslash
  · exact absurd hcontrol (by decide)
  · exact absurd hcontrol (by decide)
  · exact absurd hcontrol (by decide)
  · exact absurd hcontrol (by decide)
  · exact absurd hcontrol (by decide)
  · exact if_neg (by omega)

theorem exists_escape {c : Char} (h : ¬ IsPlain c) : ∃ t, escape c = '\\' :: t := by
  have hall : escapedChars.all fun d => (escape d).head? == some '\\' := by decide +kernel
  exact List.head?_eq_some_iff.1
    (beq_iff_eq.1 (List.all_eq_true.1 hall c (mem_escapedChars h)))

/-- No escape is the start of another one. -/
theorem eq_of_escape_isPrefix {c d : Char} (hc : ¬ IsPlain c) (hd : ¬ IsPlain d)
    (h : escape c <+: escape d) : c = d := by
  have hall : escapedChars.all fun c => escapedChars.all fun d =>
      !(escape c).isPrefixOf (escape d) || c == d := by decide +kernel
  have hpair := List.all_eq_true.1 (List.all_eq_true.1 hall c (mem_escapedChars hc)) d
    (mem_escapedChars hd)
  rw [List.isPrefixOf_iff_prefix.2 h] at hpair
  exact beq_iff_eq.1 hpair

theorem noControls_escape (c : Char) : NoControls (escape c) := by
  by_cases hc : IsPlain c
  · rw [escape_of_isPlain hc]
    exact noControls_cons.2 ⟨hc.1, noControls_nil⟩
  · have hall : escapedChars.all fun d => NoControls (escape d) := by decide +kernel
    exact of_decide_eq_true (List.all_eq_true.1 hall c (mem_escapedChars hc))

/-- No character of a string is written with a quote at the front. -/
theorem escape_append_ne (c : Char) (r s : Text) : escape c ++ r ≠ '"' :: s := by
  intro h
  by_cases hc : IsPlain c
  · rw [escape_of_isPlain hc] at h
    exact hc.2.1 (List.cons.inj h).1
  · obtain ⟨t, ht⟩ := exists_escape hc
    rw [ht] at h
    exact absurd (List.cons.inj h).1 (by decide)

theorem legible_escape (c : Char) : Legible (fun _ => True) escape c := by
  intro d r s _ _ h
  by_cases hc : IsPlain c
  · by_cases hd : IsPlain d
    · rw [escape_of_isPlain hc, escape_of_isPlain hd] at h
      exact List.cons.inj h
    · obtain ⟨u, hu⟩ := exists_escape hd
      rw [escape_of_isPlain hc, hu] at h
      exact absurd (List.cons.inj h).1 hc.2.2
  · by_cases hd : IsPlain d
    · obtain ⟨t, ht⟩ := exists_escape hc
      rw [escape_of_isPlain hd, ht] at h
      exact absurd (List.cons.inj h).1.symm hd.2.2
    · have heq : c = d :=
        (List.prefix_or_prefix_of_prefix ⟨r, h⟩ (List.prefix_append _ s)).elim
          (eq_of_escape_isPrefix hc hd) fun h => (eq_of_escape_isPrefix hd hc h).symm
      subst heq
      exact ⟨rfl, List.append_cancel_left h⟩

theorem stringText_append (t r : Text) :
    stringText t ++ r = '"' :: (t.flatMap escape ++ '"' :: r) := by
  simp [stringText]

theorem legible_stringText (t : Text) : Legible (fun _ => True) stringText t := by
  intro u r s _ _ h
  rw [stringText_append, stringText_append] at h
  exact Legible.flatMap (fun c _ => legible_escape c) (fun _ _ => trivial) escape_append_ne
    (List.cons.inj h).2

theorem noControls_stringText (t : Text) : NoControls (stringText t) :=
  noControls_enclosed (by decide) (noControls_flatMap fun c _ => noControls_escape c) (by decide)

/-! ## Values -/

/-- Induction over values, with a hypothesis for each value in an array or in an object. -/
@[elab_as_elim]
theorem inductionOn {motive : Json → Prop} (v : Json) (null : motive null)
    (bool : ∀ value, motive (bool value)) (int : ∀ value, motive (int value))
    (string : ∀ t, motive (string t))
    (array : ∀ items, (∀ item ∈ items, motive item) → motive (array items))
    (object : ∀ members, (∀ m ∈ members, motive m.2) → motive (object members)) : motive v :=
  @Json.rec motive (fun items => ∀ item ∈ items, motive item)
    (fun members => ∀ m ∈ members, motive m.2) (fun m => motive m.2) null bool int string array
    object (List.forall_mem_nil _) (fun _ _ h hs => List.forall_mem_cons.2 ⟨h, hs⟩)
    (List.forall_mem_nil _) (fun _ _ h hs => List.forall_mem_cons.2 ⟨h, hs⟩) (fun _ _ h => h) v

/-- The text of one member of an object. -/
def memberText (m : Text × Json) : Text := stringText m.1 ++ ':' :: text m.2

theorem itemsText_eq (items : List Json) : itemsText items = separated text items := by
  induction items with
  | nil => rw [itemsText, separated]
  | cons item items ih =>
    cases items with
    | nil => rw [itemsText, separated, List.flatMap_nil, List.append_nil]
    | cons next items =>
      rw [itemsText, ih]
      · rfl
      · exact List.cons_ne_nil next items

theorem membersText_eq (members : List (Text × Json)) :
    membersText members = separated memberText members := by
  induction members with
  | nil => rw [membersText, separated]
  | cons m members ih =>
    cases members with
    | nil => rw [membersText, separated, List.flatMap_nil, List.append_nil, memberText]
    | cons next members =>
      rw [membersText, ih]
      · rfl
      · exact List.cons_ne_nil next members

/-- The kinds of values. -/
inductive Kind where
  | null
  | bool
  | number
  | string
  | array
  | object

def kind : Json → Kind
  | null => .null
  | bool _ => .bool
  | int _ => .number
  | string _ => .string
  | array _ => .array
  | object _ => .object

/-- The kind of the values whose text starts with a character. -/
def Kind.ofLead? (c : Char) : Option Kind :=
  if isNumeral c then some .number
  else
    match c with
    | 'n' => some .null
    | 't' | 'f' => some .bool
    | '"' => some .string
    | '[' => some .array
    | '{' => some .object
    | _ => none

/-- The text of a value starts with a character that tells its kind. -/
theorem exists_lead (v : Json) : ∃ c r, v.text = c :: r ∧ Kind.ofLead? c = some v.kind := by
  cases v with
  | null => exact ⟨'n', _, by rw [text]; rfl, rfl⟩
  | bool value =>
    cases value with
    | true => exact ⟨'t', _, by rw [text]; rfl, rfl⟩
    | false => exact ⟨'f', _, by rw [text]; rfl, rfl⟩
  | int value =>
    have hne : Decimal.ofInt value ≠ [] := by
      cases value with
      | ofNat n => exact Nat.toDigits_ne_nil
      | negSucc n => exact List.cons_ne_nil _ _
    obtain ⟨c, r, hcr⟩ := List.exists_cons_of_ne_nil hne
    have hlead : c ∈ Decimal.ofInt value := hcr ▸ List.mem_cons_self
    exact ⟨c, r, by rw [text, hcr], if_pos (isNumeral_of_mem_ofInt hlead)⟩
  | string t => exact ⟨'"', _, by rw [text]; rfl, rfl⟩
  | array items => exact ⟨'[', _, by rw [text]; rfl, rfl⟩
  | object members => exact ⟨'{', _, by rw [text]; rfl, rfl⟩

theorem kind_eq_of_append {v w : Json} {r s : Text} (h : v.text ++ r = w.text ++ s) :
    v.kind = w.kind := by
  obtain ⟨c, t, hv, hc⟩ := exists_lead v
  obtain ⟨d, u, hw, hd⟩ := exists_lead w
  rw [hv, hw] at h
  rw [(List.cons.inj h).1, hd] at hc
  exact (Option.some.inj hc).symm

theorem text_append_ne {c : Char} (hc : Kind.ofLead? c = none) (v : Json) (r s : Text) :
    v.text ++ r ≠ c :: s := by
  intro h
  obtain ⟨d, t, hv, hd⟩ := exists_lead v
  rw [hv] at h
  rw [(List.cons.inj h).1, hc] at hd
  cases hd

theorem legible_memberText {m : Text × Json} (h : Legible FollowsValue text m.2) :
    Legible FollowsValue memberText m := by
  rintro ⟨name, value⟩ r s hr hs heq
  rw [memberText, memberText, List.append_assoc, List.append_assoc] at heq
  obtain ⟨hname, hrest⟩ := legible_stringText m.1 trivial trivial heq
  obtain ⟨hvalue, hrs⟩ := h hr hs (List.cons.inj hrest).2
  exact ⟨Prod.ext hname hvalue, hrs⟩

/-- The text of a value determines the value and the text behind it. -/
theorem legible_text (v : Json) : Legible FollowsValue text v := by
  induction v using inductionOn with
  | null =>
    intro w r s _ _ h
    cases w with
    | null => exact ⟨rfl, List.append_cancel_left h⟩
    | _ => cases kind_eq_of_append h
  | bool value =>
    intro w r s _ _ h
    cases w with
    | bool other =>
      cases value <;> cases other
      · exact ⟨rfl, List.append_cancel_left h⟩
      · rw [text, text] at h
        exact absurd (List.cons.inj h).1 (by decide)
      · rw [text, text] at h
        exact absurd (List.cons.inj h).1 (by decide)
      · exact ⟨rfl, List.append_cancel_left h⟩
    | _ => cases kind_eq_of_append h
  | int value =>
    intro w r s hr hs h
    cases w with
    | int other =>
      rw [text, text] at h
      obtain ⟨rfl, hrs⟩ := legible_ofInt value hr hs h
      exact ⟨rfl, hrs⟩
    | _ => cases kind_eq_of_append h
  | string t =>
    intro w r s _ _ h
    cases w with
    | string u =>
      rw [text, text] at h
      obtain ⟨rfl, hrs⟩ := legible_stringText t trivial trivial h
      exact ⟨rfl, hrs⟩
    | _ => cases kind_eq_of_append h
  | array items ih =>
    intro w r s _ _ h
    cases w with
    | array others =>
      rw [text, text, itemsText_eq, itemsText_eq] at h
      simp only [List.cons_append, List.append_assoc, List.nil_append] at h
      obtain ⟨rfl, hrs⟩ := Legible.separated ih (by decide) (followsValue_cons rfl)
        (followsValue_cons rfl) (text_append_ne rfl) (List.cons.inj h).2
      exact ⟨rfl, hrs⟩
    | _ => cases kind_eq_of_append h
  | object members ih =>
    intro w r s _ _ h
    cases w with
    | object others =>
      rw [text, text, membersText_eq, membersText_eq] at h
      simp only [List.cons_append, List.append_assoc, List.nil_append] at h
      have hopen : ∀ m r s, memberText m ++ r ≠ '}' :: s := fun m r s heq =>
        absurd (List.cons.inj heq).1 (by decide)
      obtain ⟨rfl, hrs⟩ := Legible.separated (fun m hm => legible_memberText (ih m hm))
        (by decide) (followsValue_cons rfl) (followsValue_cons rfl) hopen (List.cons.inj h).2
      exact ⟨rfl, hrs⟩
    | _ => cases kind_eq_of_append h

theorem text_injective : Function.Injective text :=
  Legible.injective legible_text followsValue_nil

theorem noControls_text (v : Json) : NoControls v.text := by
  induction v using inductionOn with
  | null => exact (by decide : NoControls "null".toList)
  | bool value =>
    cases value with
    | true => exact (by decide : NoControls "true".toList)
    | false => exact (by decide : NoControls "false".toList)
  | int value =>
    rw [text]
    exact noControls_ofInt value
  | string t =>
    rw [text]
    exact noControls_stringText t
  | array items ih =>
    rw [text, itemsText_eq]
    exact noControls_enclosed (by decide) (noControls_separated ih) (by decide)
  | object members ih =>
    have hmember : ∀ m ∈ members, NoControls (memberText m) := fun m hm =>
      noControls_append.2 ⟨noControls_stringText m.1, noControls_cons.2 ⟨by decide, ih m hm⟩⟩
    rw [text, membersText_eq]
    exact noControls_enclosed (by decide) (noControls_separated hmember) (by decide)

end Json

end SyscallTrace
