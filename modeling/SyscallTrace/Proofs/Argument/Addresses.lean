import SyscallTrace.Argument.SocketAddress
import SyscallTrace.Proofs.Argument.Braces
import SyscallTrace.Proofs.Success

/-!
# The tokens of a socket address

An address that is read is null, or it comes from tokens that `SocketAddress.Framed` describes: the
family behind the opening brace, and the fields up to the closing one
(`SocketAddress.take_eq_ok_some_iff`). The printed form of a family and its fields is the text of
those tokens (`SocketAddress.textOf_eq_of_framed`).
-/

namespace SyscallTrace.SocketAddress

open Braced Text

/-- What stands before the family. -/
def opening : Text := '{' :: "sa_family=".toList

/-- The names that are read as families. -/
def IsFamily (family : Text) : Prop := "AF_".toList <+: family ∨ "PF_".toList <+: family

instance : DecidablePred IsFamily := fun _ => instDecidableOr

/-- The tokens that hold a family and the fields after it. Where no field follows, the closing brace
stands at the family. -/
inductive Framed (family : Text) : List Text → List Text → Prop where
  | alone : Framed family [] [opening ++ family ++ ['}']]
  | before {ts : List Text} (hend : ¬ ['}'] <:+ family) (hts : Closes ts) :
      Framed family (dropClosing ts) ((opening ++ family) :: ts)

variable {a : SocketAddress} {family field p q t u : Text}
  {fields raw rest tokens : List Text} {path : UnixPath}

/-! ## Reading the tokens -/

theorem closing_suffix_opening_iff : ['}'] <:+ opening ++ t ↔ ['}'] <:+ t := by
  constructor
  · exact fun h => suffix_of_suffix_append h (by decide)
  · exact fun h => h.trans (List.suffix_append _ _)

namespace Framed

theorem closes (h : Framed family fields raw) : Closes raw := by
  cases h with
  | alone => exact .last
  | before hend hts => exact .cons (fun h => hend (closing_suffix_opening_iff.1 h)) hts

theorem fields_eq (h : Framed family fields raw) :
    Braced.fields ⟨raw, rest⟩ = ("sa_family=".toList ++ family) :: fields := by
  have hopen : ∀ t, dropPrefix? (opening ++ t) ['{'] = some ("sa_family=".toList ++ t) := fun t =>
    dropPrefix?_append ['{'] ("sa_family=".toList ++ t)
  unfold Braced.fields
  dsimp only
  cases h with
  | alone =>
    rw [List.modifyHead_cons, List.append_assoc, hopen, Option.getD_some, ← List.append_assoc,
      dropClosing_last]
  | before _ hts =>
    rw [List.modifyHead_cons, hopen, Option.getD_some, dropClosing_cons _ hts.ne_nil]

theorem exists_head (h : Framed family fields raw) : ∃ t ts, raw = (opening ++ t) :: ts := by
  cases h with
  | alone => exact ⟨family ++ ['}'], [], by rw [List.append_assoc]⟩
  | before _ hts => exact ⟨family, _, rfl⟩

theorem exists_of_ne_nil (h : Framed family fields raw) (hne : fields ≠ []) :
    ∃ ts, raw = (opening ++ family) :: ts ∧ Closes ts ∧ fields = dropClosing ts := by
  cases h with
  | alone => exact absurd rfl hne
  | before _ hts => exact ⟨_, rfl, hts, rfl⟩

end Framed

/-- The fields of a structure whose first one is a family. -/
theorem framed_of_fields (hopen : ∀ t ∈ raw.head?, ['{'] <+: t) (hclose : Closes raw)
    (h : Braced.fields ⟨raw, rest⟩ = ("sa_family=".toList ++ family) :: fields) :
    Framed family fields raw := by
  obtain ⟨t, ts, rfl⟩ := List.exists_cons_of_ne_nil hclose.ne_nil
  obtain ⟨u, rfl⟩ := hopen t rfl
  unfold Braced.fields at h
  dsimp only at h
  rw [List.modifyHead_cons, dropPrefix?_append, Option.getD_some] at h
  by_cases hts : ts = []
  · subst hts
    have hu : ['}'] <:+ u :=
      suffix_of_suffix_append (p := ['{']) (Closes.singleton_iff.1 hclose) (by decide)
    obtain ⟨v, rfl⟩ := hu
    rw [dropClosing_last] at h
    obtain ⟨rfl, rfl⟩ := List.cons.inj h
    exact .alone
  · obtain ⟨ht, hrest⟩ := (Closes.cons_iff hts).1 hclose
    rw [dropClosing_cons _ hts] at h
    obtain ⟨rfl, rfl⟩ := List.cons.inj h
    exact .before (fun hend => ht (closing_suffix_opening_iff.2 hend)) hrest

theorem readFamily_eq_ok_iff : readFamily field = .ok family ↔
    field = "sa_family=".toList ++ family ∧ IsFamily family := by
  unfold readFamily IsFamily
  rw [← startsWith_iff, ← startsWith_iff, ← Bool.or_eq_true, ← dropPrefix?_eq_some_iff]
  cases field.dropPrefix? "sa_family=".toList with
  | none => simp
  | some t =>
    dsimp only
    rw [Option.some.injEq]
    constructor
    · intro h
      split at h
      · next ht =>
        obtain rfl := Except.ok.inj h
        exact ⟨rfl, ht⟩
      · cases h
    · rintro ⟨rfl, ht⟩
      exact if_pos ht

theorem ofStructure_eq_ok_iff : ofStructure fields = .ok a ↔ ∃ family others,
    fields = ("sa_family=".toList ++ family) :: others ∧ IsFamily family ∧
      ofFields family others = .ok a := by
  unfold ofStructure
  rw [bind_eq_ok_iff]
  constructor
  · rintro ⟨family, hfamily, ha⟩
    obtain ⟨hhead, hname⟩ := readFamily_eq_ok_iff.1 hfamily
    rcases fields with _ | ⟨field, others⟩
    · cases hhead
    · exact ⟨family, others, by rw [← hhead]; rfl, hname, ha⟩
  · rintro ⟨family, others, rfl, hname, ha⟩
    exact ⟨family, readFamily_eq_ok_iff.2 ⟨rfl, hname⟩, ha⟩

theorem take_null_iff (ht : t = "0".toList ∨ t = "NULL".toList) {result} :
    take (t :: rest) = .ok result ↔ result = (some null, rest) := by
  have hptr : ¬ t.startsWith "0x".toList = true := by
    rcases ht with rfl | rfl <;> decide
  unfold take
  dsimp only
  rw [if_neg hptr, if_pos ht, Except.ok.injEq]
  exact eq_comm

theorem take_of_framed (hfamily : IsFamily family) (h : Framed family fields raw)
    (ha : ofFields family fields = .ok a) : take (raw ++ rest) = .ok (some a, rest) := by
  obtain ⟨t, ts, rfl⟩ := h.exists_head
  have hopen : ∀ u ∈ ((opening ++ t) :: ts).head?, ['{'] <+: u := fun u hu => by
    rw [← Option.some.inj hu]
    exact ⟨"sa_family=".toList ++ t, rfl⟩
  have hb : Braced.take .sockaddr ((opening ++ t) :: ts ++ rest) = .ok ⟨(opening ++ t) :: ts, rest⟩ :=
    Braced.take_eq_ok_iff.2 ⟨hopen, h.closes, rfl⟩
  have hs : ofStructure (Braced.fields ⟨(opening ++ t) :: ts, rest⟩) = .ok a :=
    ofStructure_eq_ok_iff.2 ⟨family, fields, h.fields_eq, hfamily, ha⟩
  have hptr : ¬ (opening ++ t).startsWith "0x".toList = true := fun hstart =>
    absurd (List.cons_prefix_cons.1 (startsWith_iff.1 hstart)).1 (by decide)
  have hnull : ¬ (opening ++ t = "0".toList ∨ opening ++ t = "NULL".toList) := by
    rintro (heq | heq)
    all_goals exact absurd (List.cons.inj heq).1 (by decide)
  unfold take
  rw [List.cons_append] at hb ⊢
  dsimp only
  rw [if_neg hptr, if_neg hnull, hb, ok_bind, hs]

/-- No address is read exactly where a pointer stands. -/
theorem take_eq_ok_none_iff : take tokens = .ok (none, rest) ↔
    ∃ t, "0x".toList <+: t ∧ tokens = t :: rest := by
  constructor
  · intro h
    unfold take at h
    split at h
    · cases h
    · next first others =>
      split at h
      · next hptr =>
        obtain ⟨-, rfl⟩ := Prod.mk.inj (Except.ok.inj h)
        exact ⟨first, startsWith_iff.1 hptr, rfl⟩
      · split at h
        · cases h
        · obtain ⟨braced, -, h⟩ := bind_eq_ok_iff.1 h
          split at h <;> cases h
  · rintro ⟨t, ht, rfl⟩
    exact if_pos (startsWith_iff.2 ht)

/-- Every address that is read is null or comes from tokens around its family and fields. -/
theorem take_eq_ok_some_iff : take tokens = .ok (some a, rest) ↔
    (∃ t, (t = "0".toList ∨ t = "NULL".toList) ∧ a = null ∧ tokens = t :: rest) ∨
      ∃ family fields raw, tokens = raw ++ rest ∧ IsFamily family ∧ Framed family fields raw ∧
        ofFields family fields = .ok a := by
  constructor
  · intro h
    unfold take at h
    split at h
    · cases h
    · next first others =>
      split at h
      · cases h
      · split at h
        · next hnull =>
          obtain ⟨ha, rfl⟩ := Prod.mk.inj (Except.ok.inj h)
          exact .inl ⟨first, hnull, (Option.some.inj ha).symm, rfl⟩
        · obtain ⟨⟨raw, rest'⟩, hb, h⟩ := bind_eq_ok_iff.1 h
          obtain ⟨hopen, hclose, htokens⟩ := Braced.take_eq_ok_iff.1 hb
          split at h
          · next address hs =>
            obtain ⟨ha, rfl⟩ := Prod.mk.inj (Except.ok.inj h)
            obtain rfl := Option.some.inj ha
            obtain ⟨family, fields, hfields, hfamily, ha⟩ := ofStructure_eq_ok_iff.1 hs
            exact .inr ⟨family, fields, raw, htokens, hfamily,
              framed_of_fields hopen hclose hfields, ha⟩
          · cases h
  · rintro (⟨t, ht, rfl, rfl⟩ | ⟨family, fields, raw, rfl, hfamily, hframed, ha⟩)
    · exact (take_null_iff ht).2 rfl
    · exact take_of_framed hfamily hframed ha

/-! ## The printed form -/

theorem textOf_cons (hne : fields ≠ []) :
    textOf family fields = opening ++ family ++ comma ++ (joinCommas fields ++ ['}']) := by
  unfold textOf
  rw [Token.joinCommas_cons _ hne]
  simp [opening]

theorem textOf_singleton (hne : fields ≠ []) :
    textOf family [joinCommas fields] = textOf family fields := by
  rw [textOf_cons hne, textOf_cons (by simp), joinCommas_singleton]

/-- A family and its fields are printed as the text of the tokens that hold them. -/
theorem Framed.textOf_eq (h : Framed family fields raw) : textOf family fields = joinCommas raw := by
  cases h with
  | alone =>
    unfold textOf opening
    rw [joinCommas_singleton, joinCommas_singleton]
    simp only [List.cons_append, List.nil_append]
  | before _ hts =>
    rw [textOf_cons hts.dropClosing_ne_nil, Token.joinCommas_cons _ hts.ne_nil, hts.joinCommas_eq]

theorem tight_textOf (family : Text) (fields : List Text) : Tight (textOf family fields) := by
  unfold textOf
  refine ⟨by simp, fun c hc => ?_, fun c hc => ?_⟩
  · obtain rfl : '{' = c := by simpa using hc
    decide
  · rw [List.getLast?_concat] at hc
    rw [← Option.some.inj hc]
    decide

/-! ## The fields -/

theorem unquote?_eq_some_iff {u : Text} : unquote? t = some u ↔ t = '"' :: u ++ ['"'] := by
  unfold unquote?
  rw [Option.bind_eq_some_iff]
  constructor
  · rintro ⟨r, hr, hu⟩
    rw [dropPrefix?_eq_some_iff.1 hr, dropSuffix?_eq_some_iff.1 hu]
    rfl
  · rintro rfl
    exact ⟨u ++ ['"'], dropPrefix?_append ['"'] _, dropSuffix?_append _ _⟩

theorem eq_append_of_dropEither? (h : dropEither? t p q = some u) :
    ∃ key, (key = p ∨ key = q) ∧ t = key ++ u := by
  rcases Option.or_eq_some_iff.1 h with hp | ⟨-, hq⟩
  · exact ⟨p, .inl rfl, dropPrefix?_eq_some_iff.1 hp⟩
  · exact ⟨q, .inr rfl, dropPrefix?_eq_some_iff.1 hq⟩

theorem dropEither?_append (p q u : Text) : dropEither? (p ++ u) p q = some u := by
  unfold dropEither?
  rw [dropPrefix?_append, Option.some_or]

/-- The name of a socket as it stands behind its key. -/
def shown? : UnixPath → Option Text
  | .unnamed => none
  | .pathname path => some ('"' :: path ++ ['"'])
  | .abstract name => some ('@' :: '"' :: name ++ ['"'])

/-- Reads the name of a socket behind its key. -/
def ofShown? (value : Text) : Option UnixPath :=
  match value.dropPrefix? ['@'] with
  | some name => (unquote? name).map .abstract
  | none => (unquote? value).map .pathname

theorem ofShown?_eq_some_iff : ofShown? t = some path ↔ shown? path = some t := by
  unfold ofShown?
  constructor
  · intro h
    split at h
    · next name hname =>
      obtain ⟨u, hu, rfl⟩ := Option.map_eq_some_iff.1 h
      rw [dropPrefix?_eq_some_iff.1 hname, unquote?_eq_some_iff.1 hu]
      rfl
    · obtain ⟨u, hu, rfl⟩ := Option.map_eq_some_iff.1 h
      rw [unquote?_eq_some_iff.1 hu]
      rfl
  · intro h
    cases path with
    | unnamed => cases h
    | pathname path =>
      obtain rfl := Option.some.inj h
      rw [show dropPrefix? ('"' :: path ++ ['"']) ['@'] = none from rfl]
      exact congrArg (Option.map UnixPath.pathname) (unquote?_eq_some_iff.2 rfl)
    | abstract name =>
      obtain rfl := Option.some.inj h
      rw [show dropPrefix? ('@' :: '"' :: name ++ ['"']) ['@'] = some ('"' :: name ++ ['"']) from
        dropPrefix?_append ['@'] _]
      exact congrArg (Option.map UnixPath.abstract) (unquote?_eq_some_iff.2 rfl)

theorem unixPath?_eq (field : Text) : unixPath? field =
    if field = [] ∨ field = "NULL".toList then some .unnamed
    else (dropEither? field "sun_path=".toList "path=".toList).bind ofShown? := rfl

theorem unixPath?_append (h : shown? path = some u) :
    unixPath? ("sun_path=".toList ++ u) = some path := by
  have hfield : ¬ ("sun_path=".toList ++ u = [] ∨ "sun_path=".toList ++ u = "NULL".toList) := by
    rintro (heq | heq)
    · cases heq
    · exact absurd (List.cons.inj heq).1 (by decide)
  rw [unixPath?_eq, if_neg hfield, dropEither?_append, Option.bind_some]
  exact ofShown?_eq_some_iff.2 h

theorem eq_append_of_unixPath? (h : unixPath? field = some path) :
    path = .unnamed ∨ ∃ key shown, (key = "sun_path=".toList ∨ key = "path=".toList) ∧
      shown? path = some shown ∧ field = key ++ shown := by
  rw [unixPath?_eq] at h
  split at h
  · exact .inl (Option.some.inj h).symm
  · obtain ⟨value, hvalue, h⟩ := Option.bind_eq_some_iff.1 h
    obtain ⟨key, hkey, hfield⟩ := eq_append_of_dropEither? hvalue
    exact .inr ⟨key, value, hkey, ofShown?_eq_some_iff.1 h, hfield⟩

theorem text_unix (h : shown? path = some u) :
    (unix family path).text = textOf family ["sun_path=".toList ++ u] := by
  cases path with
  | unnamed => cases h
  | pathname path =>
    obtain rfl := Option.some.inj h
    rfl
  | abstract name =>
    obtain rfl := Option.some.inj h
    rfl

theorem data_append (t : Text) : data ("sa_data=".toList ++ ('"' :: t ++ ['"'])) = .ok t := by
  unfold data
  rw [dropPrefix?_append]
  dsimp only
  rw [unquote?_eq_some_iff.2 rfl]
  rfl

theorem eq_append_of_data (h : data field = .ok t) :
    field = [] ∧ t = [] ∨ field = "sa_data=".toList ++ ('"' :: t ++ ['"']) := by
  unfold data at h
  split at h
  · next quoted hquoted =>
    rw [dropPrefix?_eq_some_iff.1 hquoted, unquote?_eq_some_iff.1 (elim_ok_eq_ok_iff.1 h)]
    exact .inr rfl
  · split at h
    · next hempty => exact .inl ⟨List.isEmpty_iff.1 hempty, (Except.ok.inj h).symm⟩
    · cases h

/-! ## The families -/

theorem ofFields_unix_iff (h : Decoding.ofFamily family = .unix) : ofFields family fields = .ok a ↔
    ∃ path, unixPath? (joinCommas fields) = some path ∧ a = unix family path := by
  unfold ofFields
  rw [h]
  dsimp only
  rw [elim_eq_ok_iff]
  simp only [Except.ok.injEq, eq_comm]

theorem ofFields_unspec_iff (h : Decoding.ofFamily family = .unspec) :
    ofFields family fields = .ok a ↔
      ∃ t, data (joinCommas fields) = .ok t ∧ a = unspec family t := by
  unfold ofFields
  rw [h]
  dsimp only
  rw [map_eq_ok_iff]
  simp only [eq_comm]

theorem ofFields_inet_iff (h : Decoding.ofFamily family = .inet) : ofFields family fields = .ok a ↔
    ∃ p q u port address, fields = [p, q] ∧ port? p = some port ∧ quotedAddress? q = some u ∧
      Ipv4.ofText? u = some address ∧ a = inet family port address := by
  unfold ofFields
  rw [h]
  dsimp only
  unfold ofInet
  constructor
  · intro ha
    split at ha
    · next p q =>
      obtain ⟨port, hport, ha⟩ := bind_eq_ok_iff.1 ha
      obtain ⟨u, hu, ha⟩ := bind_eq_ok_iff.1 ha
      obtain ⟨address, haddress, ha⟩ := bind_eq_ok_iff.1 ha
      exact ⟨p, q, u, port, address, rfl, elim_ok_eq_ok_iff.1 hport, elim_ok_eq_ok_iff.1 hu,
        elim_ok_eq_ok_iff.1 haddress, (Except.ok.inj ha).symm⟩
    · cases ha
  · rintro ⟨p, q, u, port, address, rfl, hport, hu, haddress, rfl⟩
    exact bind_eq_ok_iff.2 ⟨port, elim_ok_eq_ok_iff.2 hport, bind_eq_ok_iff.2
      ⟨u, elim_ok_eq_ok_iff.2 hu, bind_eq_ok_iff.2 ⟨address, elim_ok_eq_ok_iff.2 haddress, rfl⟩⟩⟩

theorem ofFields_netlink_iff (h : Decoding.ofFamily family = .netlink) :
    ofFields family fields = .ok a ↔ ∃ p q pid groups, fields = [p, q] ∧ pid? p = some pid ∧
      groups? q = some groups ∧ a = netlink family pid groups := by
  unfold ofFields
  rw [h]
  dsimp only
  unfold ofNetlink
  constructor
  · intro ha
    split at ha
    · next p q =>
      obtain ⟨pid, hpid, ha⟩ := bind_eq_ok_iff.1 ha
      obtain ⟨groups, hgroups, ha⟩ := bind_eq_ok_iff.1 ha
      exact ⟨p, q, pid, groups, rfl, elim_ok_eq_ok_iff.1 hpid, elim_ok_eq_ok_iff.1 hgroups,
        (Except.ok.inj ha).symm⟩
    · cases ha
  · rintro ⟨p, q, pid, groups, rfl, hpid, hgroups, rfl⟩
    exact bind_eq_ok_iff.2 ⟨pid, elim_ok_eq_ok_iff.2 hpid,
      bind_eq_ok_iff.2 ⟨groups, elim_ok_eq_ok_iff.2 hgroups, rfl⟩⟩

theorem ofFields_verbatim_iff (h : Decoding.ofFamily family = .verbatim) :
    ofFields family fields = .ok a ↔ a = other family fields := by
  unfold ofFields
  rw [h]
  dsimp only
  rw [Except.ok.injEq]
  exact eq_comm

end SyscallTrace.SocketAddress
