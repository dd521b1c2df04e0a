import SyscallTrace.Proofs.Argument.Addresses
import SyscallTrace.Proofs.Decimal

/-!
# Printed socket addresses

What is read from the tokens of any text is printed in a form that is read as the same address
(`SocketAddress.take_split_text`).

* `exists_relabeled`: tokens whose first one gets another key.
* `take_split_of_framed`: an address that is printed as the text of its tokens.
* `take_split_pair`: an address of two fields that hold no comma.
-/

namespace SyscallTrace

open Text

namespace Ipv4

theorem octet?_ofNat : ∀ n < 256, octet? (Decimal.ofNat n) = some (UInt8.ofNat n) := by
  decide +kernel

theorem octet?_toNat (octet : UInt8) : octet? (Decimal.ofNat octet.toNat) = some octet := by
  rw [octet?_ofNat _ octet.toNat_lt, UInt8.ofNat_toNat]

theorem ofText?_text (ip : Ipv4) : ofText? ip.text = some ip := by
  have hpoint : ∀ t ∈ [ip.a, ip.b, ip.c, ip.d].map fun octet => Decimal.ofNat octet.toNat,
      '.' ∉ t := by
    intro t ht hmem
    obtain ⟨octet, -, rfl⟩ := List.mem_map.1 ht
    exact absurd (Decimal.isDigit_of_mem_ofNat hmem) (by decide)
  unfold ofText? text
  rw [List.splitOn_intercalate '.' hpoint (by simp)]
  simp only [List.map_cons, List.map_nil, octet?_toNat]
  rfl

theorem comma_not_mem_text (ip : Ipv4) : ',' ∉ ip.text := by
  have hdigit : ∀ n, ',' ∉ Decimal.ofNat n := fun n hmem =>
    absurd (Decimal.isDigit_of_mem_ofNat hmem) (by decide)
  simp [text, List.intercalate, List.intersperse, hdigit]

end Ipv4

namespace SocketAddress

open Braced Token

variable {a : SocketAddress} {family field groups key p q t u : Text}
  {fields raw rest ts : List Text} {path : UnixPath}

/-! ## Keys -/

/-- What may stand before a value in a field. -/
def IsKey (key : Text) : Prop := key ≠ [] ∧ ∀ c ∈ key, c ≠ ',' ∧ c ≠ '"' ∧ c ≠ '}'

/-- Checks the characters of a key. -/
def isKey (key : Text) : Bool := !key.isEmpty && key.all fun c => c != ',' && c != '"' && c != '}'

theorem isKey_iff : isKey key = true ↔ IsKey key := by
  unfold isKey IsKey
  simp only [Bool.and_eq_true, Bool.not_eq_true', List.isEmpty_eq_false_iff, List.all_eq_true,
    bne_iff_ne, and_assoc]

instance : DecidablePred IsKey := fun _ => decidable_of_iff _ isKey_iff

theorem IsKey.comma_not_mem (h : IsKey key) : ',' ∉ key := fun hmem => (h.2 _ hmem).1 rfl

theorem IsKey.closing_suffix_iff (h : IsKey key) : ['}'] <:+ key ++ t ↔ ['}'] <:+ t :=
  ⟨fun hend => suffix_of_suffix_append hend fun hmem => (h.2 _ hmem).2.2 rfl,
    fun hend => hend.trans (List.suffix_append key t)⟩

theorem IsKey.head?_ne_quote (h : IsKey key) (t : Text) : (key ++ t).head? ≠ some '"' := by
  obtain ⟨hne, hchars⟩ := h
  obtain ⟨c, key, rfl⟩ := List.exists_cons_of_ne_nil hne
  intro hhead
  exact (hchars c List.mem_cons_self).2.1 (Option.some.inj hhead)

/-- A list of items that starts with a key has the key in its first item. -/
theorem IsKey.exists_cons_of_joinCommas (h : IsKey key) (hjoin : joinCommas ts = key ++ u) :
    ∃ v us, ts = (key ++ v) :: us := by
  rcases ts with _ | ⟨t, us⟩
  · exact absurd (List.append_eq_nil_iff.1 hjoin.symm).1 h.1
  have hkey : key <+: joinCommas (t :: us) := ⟨u, hjoin.symm⟩
  by_cases hus : us = []
  · subst hus
    rw [joinCommas_singleton] at hkey
    obtain ⟨v, rfl⟩ := hkey
    exact ⟨v, [], rfl⟩
  · rw [joinCommas_cons t hus, List.append_assoc] at hkey
    obtain ⟨v, hv⟩ := hkey
    rcases List.append_eq_append_iff.1 hv with ⟨x, rfl, -⟩ | ⟨x, rfl, hx⟩
    · exact ⟨x, us, rfl⟩
    · rcases x with _ | ⟨c, x⟩
      · exact ⟨[], us, by simp⟩
      · have hx : ',' :: (' ' :: joinCommas us) = c :: (x ++ v) := hx
        rw [(List.cons.inj hx).1.symm] at h
        exact absurd (by simp) h.comma_not_mem

/-- The same tokens behind another key. -/
theorem exists_relabeled {key' : Text} (hkey : IsKey key) (hjoin : joinCommas ts = key ++ u)
    (hm : IsMerged ts) (hts : Closes ts) (hkey' : IsKey key') :
    ∃ us, IsMerged us ∧ Closes us ∧ joinCommas us = key' ++ u := by
  obtain ⟨v, us, rfl⟩ := hkey.exists_cons_of_joinCommas hjoin
  have hcomma : ¬ comma <:+: key' ++ v := by
    rw [comma_infix_append_iff hkey'.comma_not_mem, ← comma_infix_append_iff hkey.comma_not_mem]
    exact hm.1.noComma (hkey.head?_ne_quote v)
  refine ⟨(key' ++ v) :: us, ⟨isToken_of_noComma hcomma, fun _ =>
    isOpenLiteral_eq_false_of_head? (hkey'.head?_ne_quote v), hm.2.2⟩, ?_, ?_⟩
  · exact hts.replaceHead (by rw [hkey.closing_suffix_iff, hkey'.closing_suffix_iff])
  · by_cases hus : us = []
    · subst hus
      rw [joinCommas_singleton] at hjoin ⊢
      rw [List.append_cancel_left hjoin]
    · rw [joinCommas_cons _ hus, List.append_assoc, List.append_assoc] at hjoin ⊢
      rw [List.append_cancel_left hjoin]

/-! ## Families -/

/-- A family that makes a token behind the opening brace. -/
structure IsPlainFamily (family : Text) : Prop where
  isFamily : IsFamily family
  noComma : ¬ comma <:+: family

theorem noComma_opening_iff : ¬ comma <:+: opening ++ t ↔ ¬ comma <:+: t :=
  not_congr (comma_infix_append_iff (by decide +kernel))

theorem head?_opening (t : Text) : (opening ++ t).head? ≠ some '"' :=
  fun h => absurd (Option.some.inj h) (by decide)

theorem Framed.noComma (h : Framed family fields raw) (hm : IsMerged raw) :
    ¬ comma <:+: family := by
  cases h with
  | alone =>
    have htoken := hm.1
    rw [List.append_assoc] at htoken
    have hcomma := noComma_opening_iff.1 (htoken.noComma (head?_opening _))
    rwa [comma_infix_concat_iff (by decide)] at hcomma
  | before _ _ => exact noComma_opening_iff.1 (hm.1.noComma (head?_opening family))

/-- The name of a family that is decoded does not end in a closing brace. -/
theorem noClose_of_decoding (h : Decoding.ofFamily family ≠ .verbatim) : ¬ ['}'] <:+ family := by
  intro hclose
  have hnot : ∀ s : Text, s ≠ [] → ¬ ['}'] <:+ s → family.endsWith s = false := by
    intro s hne hs
    rw [← Bool.not_eq_true, endsWith_iff]
    exact fun hend => hs (List.suffix_of_suffix_length_le hclose hend (List.length_pos_of_ne_nil hne))
  refine h ?_
  unfold Decoding.ofFamily
  rw [hnot "_FILE".toList, hnot "_LOCAL".toList, hnot "_UNIX".toList, hnot "_UNSPEC".toList,
    hnot "_INET".toList, hnot "_NETLINK".toList]
  · rfl
  all_goals decide +kernel

/-! ## Addresses from their printed form -/

/-- An address that is printed as the text of its tokens is read from them. -/
theorem take_split_of_framed (hfamily : IsFamily family) (h : Framed family fields raw)
    (ha : ofFields family fields = .ok a) (htext : a.text = textOf family fields)
    (hm : IsMerged (raw ++ rest)) (hrest : ∀ t ∈ rest, t.Tight) :
    take (split (joinCommas (a.text :: rest))) = .ok (some a, rest) := by
  have htight : Tight (joinCommas (a.text :: rest)) := Tight.joinCommas (by simp) <|
    List.forall_mem_cons.2 ⟨htext ▸ tight_textOf family fields, hrest⟩
  have hraw : raw ≠ [] := h.closes.ne_nil
  have hjoin : joinCommas (a.text :: rest) = joinCommas (raw ++ rest) := by
    rw [htext, h.textOf_eq]
    by_cases hne : rest = []
    · rw [hne, joinCommas_singleton, List.append_nil]
    · rw [joinCommas_cons _ hne, joinCommas_append hraw hne]
  rw [split_of_tight htight, hjoin, hm.mergeLiterals_joinCommas (by simp [hraw])]
  exact take_of_framed hfamily h ha

theorem take_split_self (hfamily : IsFamily family) (h : Framed family fields raw)
    (ha : ofFields family fields = .ok a) (htext : a.text = textOf family fields)
    (hm : IsMerged raw) : take (split a.text) = .ok (some a, []) := by
  rw [← joinCommas_singleton a.text]
  exact take_split_of_framed hfamily h ha htext (by rwa [List.append_nil]) (by simp)

/-- An address of two fields that hold no comma. -/
theorem take_split_pair (hfamily : IsPlainFamily family)
    (hdecoded : Decoding.ofFamily family ≠ .verbatim) (ha : ofFields family [p, q] = .ok a)
    (htext : a.text = textOf family [p, q]) (hp : ¬ comma <:+: p) (hq : ¬ comma <:+: q)
    (hheadp : p.head? ≠ some '"') (hheadq : q.head? ≠ some '"') (hclose : ¬ ['}'] <:+ p)
    (hrest : ∀ t ∈ rest, IsPlain t) :
    take (split (joinCommas (a.text :: rest))) = .ok (some a, rest) := by
  have hframed : Framed family [p, q] [opening ++ family, p, q ++ ['}']] := by
    have hts : Closes [p, q ++ ['}']] := .cons hclose .last
    have hfields : dropClosing [p, q ++ ['}']] = [p, q] := by
      rw [dropClosing_cons p (by simp), dropClosing_last]
    exact hfields ▸ Framed.before (noClose_of_decoding hdecoded) hts
  have hm : IsMerged ([opening ++ family, p, q ++ ['}']] ++ rest) := by
    refine isMerged_of_noComma fun t ht => ?_
    rcases List.mem_append.1 ht with ht | ht
    · simp only [List.mem_cons, List.not_mem_nil, or_false] at ht
      rcases ht with rfl | rfl | rfl
      · exact ⟨noComma_opening_iff.2 hfamily.noComma, head?_opening family⟩
      · exact ⟨hp, hheadp⟩
      · refine ⟨by rwa [comma_infix_concat_iff (by decide)], ?_⟩
        rw [List.head?_append]
        cases q with
        | nil => decide
        | cons c q => exact hheadq
    · exact ⟨(hrest t ht).noComma, (hrest t ht).noQuote⟩
  exact take_split_of_framed hfamily.isFamily hframed ha htext hm fun t ht => (hrest t ht).toTight

theorem take_split_inet (hfamily : IsPlainFamily family)
    (hdecoding : Decoding.ofFamily family = .inet) (port : UInt16) (address : Ipv4)
    (hrest : ∀ t ∈ rest, IsPlain t) :
    take (split (joinCommas ((inet family port address).text :: rest))) =
      .ok (some (inet family port address), rest) := by
  have hport : port? ("sin_port=htons(".toList ++ Decimal.ofNat port.toNat ++ [')']) =
      some port := by
    unfold port?
    rw [List.append_assoc, dropPrefix?_append, Option.bind_eq_bind, Option.bind_some,
      dropSuffix?_append, Option.bind_some, Decimal.uint16?_ofNat]
  have haddress : quotedAddress?
      ("sin_addr=inet_addr(\"".toList ++ address.text ++ "\")".toList) = some address.text := by
    unfold quotedAddress?
    rw [List.append_assoc, dropPrefix?_append, Option.bind_eq_bind, Option.bind_some,
      dropSuffix?_append]
  have hdigits : ',' ∉ Decimal.ofNat port.toNat := fun hmem =>
    absurd (Decimal.isDigit_of_mem_ofNat hmem) (by decide)
  refine take_split_pair hfamily (by rw [hdecoding]; decide)
    ((ofFields_inet_iff hdecoding).2 ⟨_, _, _, port, address, rfl, hport, haddress,
      address.ofText?_text, rfl⟩) rfl ?_ ?_ ?_ ?_ ?_ hrest
  · rw [comma_infix_concat_iff (by decide), comma_infix_append_iff (by decide +kernel)]
    exact noComma_of_not_mem hdigits
  · refine noComma_of_not_mem ?_
    rw [List.mem_append, List.mem_append, not_or, not_or]
    exact ⟨⟨by decide +kernel, address.comma_not_mem_text⟩, by decide +kernel⟩
  · exact fun h => absurd (Option.some.inj h) (by decide)
  · exact fun h => absurd (Option.some.inj h) (by decide)
  · exact fun h => absurd (List.cons.inj (List.append_inj' h.choose_spec rfl).2).1 (by decide)

theorem take_split_netlink (hfamily : IsPlainFamily family)
    (hdecoding : Decoding.ofFamily family = .netlink) (pid : UInt32) (hgroups : ¬ comma <:+: groups)
    (hrest : ∀ t ∈ rest, IsPlain t) :
    take (split (joinCommas ((netlink family pid groups).text :: rest))) =
      .ok (some (netlink family pid groups), rest) := by
  have hpid : pid? ("nl_pid=".toList ++ Decimal.ofNat pid.toNat) = some pid := by
    unfold pid?
    rw [dropEither?_append, Option.bind_some, Decimal.uint32?_ofNat]
  have hdigits : ∀ c ∈ Decimal.ofNat pid.toNat, c.isDigit := fun _ =>
    Decimal.isDigit_of_mem_ofNat
  refine take_split_pair hfamily (by rw [hdecoding]; decide)
    ((ofFields_netlink_iff hdecoding).2 ⟨_, _, pid, groups, rfl, hpid, dropEither?_append _ _ _,
      rfl⟩) rfl ?_ ?_ ?_ ?_ ?_ hrest
  · rw [comma_infix_append_iff (by decide +kernel)]
    exact noComma_of_not_mem fun hmem => absurd (hdigits _ hmem) (by decide)
  · rwa [comma_infix_append_iff (by decide +kernel)]
  · exact fun h => absurd (Option.some.inj h) (by decide)
  · exact fun h => absurd (Option.some.inj h) (by decide)
  · intro hclose
    have hmem := hclose.mem List.mem_cons_self
    rcases List.mem_append.1 hmem with hmem | hmem
    · exact absurd hmem (by decide +kernel)
    · exact absurd (hdigits _ hmem) (by decide)

/-- What stands behind the key of the last of two fields has no comma, as no literal is open
there. -/
theorem Framed.noComma_of_key (h : Framed family [p, key ++ t] raw) (hm : IsMerged raw)
    (hkey : IsKey key) : ¬ comma <:+: t := by
  obtain ⟨ts, rfl, hts, hfields⟩ := h.exists_of_ne_nil (by simp)
  have htokens : ts = [p] ++ [key ++ t ++ ['}']] := hts.eq_append_of_dropClosing hfields.symm
  have htoken : IsToken (key ++ (t ++ ['}'])) := by
    rw [htokens, List.append_assoc] at hm
    exact hm.2.2.2.2.1
  have hcomma := htoken.noComma (hkey.head?_ne_quote _)
  rwa [comma_infix_append_iff hkey.comma_not_mem, comma_infix_concat_iff (by decide)] at hcomma

/-! ## What is printed for what was read -/

section

variable (hfamily : IsFamily family) (h : Framed family fields raw) (hm : IsMerged raw)

include hfamily h hm

theorem take_split_unix (hdecoding : Decoding.ofFamily family = .unix)
    (hpath : unixPath? (joinCommas fields) = some path) :
    take (split (unix family path).text) = .ok (some (unix family path), []) := by
  rcases eq_append_of_unixPath? hpath with rfl | ⟨key, shown, hkey, hshown, hjoin⟩
  · have hfield : ofFields family [] = .ok (unix family .unnamed) :=
      (ofFields_unix_iff hdecoding).2 ⟨.unnamed, rfl, rfl⟩
    refine take_split_self hfamily .alone hfield rfl (isMerged_of_noComma fun t ht => ?_)
    rw [List.mem_singleton.1 ht, comma_infix_concat_iff (by decide)]
    exact ⟨noComma_opening_iff.2 (h.noComma hm), by rw [List.append_assoc]; exact head?_opening _⟩
  · have hkey : IsKey key := by
      rcases hkey with rfl | rfl <;> decide +kernel
    have hne : fields ≠ [] := by
      rintro rfl
      exact hkey.1 (List.append_eq_nil_iff.1 hjoin.symm).1
    obtain ⟨ts, rfl, hts, rfl⟩ := h.exists_of_ne_nil hne
    have htext : joinCommas ts = key ++ (shown ++ ['}']) := by
      rw [hts.joinCommas_eq, hjoin, List.append_assoc]
    -- the printed form has the tokens that were read, behind the other key
    have hsun : IsKey "sun_path=".toList := by decide +kernel
    obtain ⟨us, hus, hclose, htext'⟩ := exists_relabeled hkey htext hm.2.2 hts hsun
    have hjoin' : joinCommas (dropClosing us) = "sun_path=".toList ++ shown := by
      rw [hclose.joinCommas_eq, ← List.append_assoc] at htext'
      exact List.append_cancel_right htext'
    have hframed : Framed family (dropClosing us) ((opening ++ family) :: us) :=
      .before (noClose_of_decoding (by rw [hdecoding]; decide)) hclose
    refine take_split_self hfamily hframed ((ofFields_unix_iff hdecoding).2
      ⟨path, by rw [hjoin']; exact unixPath?_append hshown, rfl⟩) ?_
      ⟨hm.1, fun _ => isOpenLiteral_eq_false_of_head? (head?_opening family), hus⟩
    rw [text_unix hshown, ← hjoin', textOf_singleton hclose.dropClosing_ne_nil]

theorem take_split_unspec (hdecoding : Decoding.ofFamily family = .unspec)
    (ht : data (joinCommas fields) = .ok t) :
    take (split (unspec family t).text) = .ok (some (unspec family t), []) := by
  rcases eq_append_of_data ht with ⟨-, rfl⟩ | hjoin
  · -- data that were left out are printed as an empty literal
    have hts : Closes ["sa_data=\"\"".toList ++ ['}']] := .last
    have hclose : ¬ ['}'] <:+ family := noClose_of_decoding (by rw [hdecoding]; decide)
    have hframed := Framed.before hclose hts
    rw [dropClosing_last] at hframed
    refine take_split_self hfamily hframed ((ofFields_unspec_iff hdecoding).2
      ⟨[], by rw [joinCommas_singleton]; exact data_append [], rfl⟩) rfl (isMerged_of_noComma ?_)
    rw [List.forall_mem_cons, List.forall_mem_singleton]
    exact ⟨⟨noComma_opening_iff.2 (h.noComma hm), head?_opening family⟩, by decide +kernel⟩
  · have hne : fields ≠ [] := by
      rintro rfl
      cases hjoin
    refine take_split_self hfamily h ((ofFields_unspec_iff hdecoding).2 ⟨t, ht, rfl⟩) ?_ hm
    rw [← textOf_singleton hne, hjoin]
    rfl

end

/-- What is read from the tokens of a text is printed in a form that is read as the same address,
and whole. -/
theorem take_split_text (blob : Text) (i : Nat)
    (h : take ((split blob).drop i) = .ok (some a, rest)) :
    take (split a.text) = .ok (some a, []) := by
  have hmerged : IsMerged ((split blob).drop i) := by
    have hall := isMerged_split blob
    rw [← List.take_append_drop i (split blob)] at hall
    exact hall.of_append_right
  rcases take_eq_ok_some_iff.1 h with ⟨-, -, rfl, -⟩ | ⟨family, fields, raw, htokens, hfamily, hraw, ha⟩
  · have hsplit : split null.text = ["NULL".toList] := by decide +kernel
    rw [hsplit]
    exact (take_null_iff (.inr rfl)).2 rfl
  rw [htokens] at hmerged
  have hm := hmerged.of_append_left
  have hplain : IsPlainFamily family := ⟨hfamily, hraw.noComma hm⟩
  cases hdecoding : Decoding.ofFamily family with
  | unix =>
    obtain ⟨path, hpath, rfl⟩ := (ofFields_unix_iff hdecoding).1 ha
    exact take_split_unix hfamily hraw hm hdecoding hpath
  | unspec =>
    obtain ⟨t, ht, rfl⟩ := (ofFields_unspec_iff hdecoding).1 ha
    exact take_split_unspec hfamily hraw hm hdecoding ht
  | inet =>
    obtain ⟨_, _, _, port, address, -, -, -, -, rfl⟩ := (ofFields_inet_iff hdecoding).1 ha
    rw [← joinCommas_singleton (inet family port address).text]
    exact take_split_inet hplain hdecoding port address (by simp)
  | netlink =>
    obtain ⟨p, q, pid, groups, rfl, -, hgroups, rfl⟩ := (ofFields_netlink_iff hdecoding).1 ha
    rw [← joinCommas_singleton (netlink family pid groups).text]
    refine take_split_netlink hplain hdecoding pid ?_ (by simp)
    obtain ⟨key, hkey, rfl⟩ := eq_append_of_dropEither? hgroups
    refine hraw.noComma_of_key hm ?_
    rcases hkey with rfl | rfl <;> decide +kernel
  | verbatim =>
    obtain rfl := (ofFields_verbatim_iff hdecoding).1 ha
    exact take_split_self hfamily hraw ha rfl hm

/-- The arguments of a call with the name of a socket behind the short key. -/
def bindArgs : Text := "3, \x7bsa_family=AF_UNIX, path=@\"a, b\"\x7d, 16".toList

theorem take_split_text_bind :
    take ((split bindArgs).drop 1) =
        .ok (some (unix "AF_UNIX".toList (.abstract "a, b".toList)), [['1', '6']]) ∧
      take (split "\x7bsa_family=AF_UNIX, sun_path=@\"a, b\"\x7d".toList) =
        .ok (some (unix "AF_UNIX".toList (.abstract "a, b".toList)), []) := by
  have hread : take ((split bindArgs).drop 1) =
      .ok (some (unix "AF_UNIX".toList (.abstract "a, b".toList)), [['1', '6']]) := by
    decide +kernel
  have hagain := take_split_text bindArgs 1 hread
  rw [show (unix "AF_UNIX".toList (.abstract "a, b".toList)).text =
    "\x7bsa_family=AF_UNIX, sun_path=@\"a, b\"\x7d".toList by decide +kernel] at hagain
  exact ⟨hread, hagain⟩

end SocketAddress

end SyscallTrace
