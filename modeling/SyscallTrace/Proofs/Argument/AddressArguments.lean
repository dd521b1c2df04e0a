import SyscallTrace.Proofs.Argument.AddressText

/-!
# Socket addresses among the arguments

A printed address is followed by its length. The two are read back exactly if the name or the data
of the address neither end in a comma with its blank nor hold a closing brace before one
(`SocketAddress.take_split_text_iff`): at such a comma the closing quote is taken for an opening
one, and at such a brace the structure is taken to end.

* `openAfter_quotedText_iff`: when the closing quote is taken for an opening one.
* `innerClose_infix_quotedText_iff`: where the structure is taken to end.
-/

namespace SyscallTrace

open Text

theorem Decimal.isPlain_of_signed? {t : Text} {v : Int} (h : signed? t = some v) :
    Token.IsPlain t := by
  have hchar : ∀ c ∈ t, isBlank c = false ∧ c ≠ ',' ∧ c ≠ '"' := by
    intro c hc
    rcases mem_of_signed? h hc with hdigit | rfl | rfl
    · have halnum : c.isAlphanum := by simp [Char.isAlphanum, hdigit]
      refine ⟨isBlank_eq_false_of_isAlphanum halnum, ?_, ?_⟩
      all_goals
        rintro rfl
        exact absurd hdigit (by decide)
    · decide
    · decide
  refine ⟨⟨?_, fun c hc => ?_, fun c hc => ?_⟩, fun hhead => ?_, ?_⟩
  · rintro rfl
    cases h
  · have hplain := hchar c (List.mem_of_head? hc)
    exact ⟨hplain.1, hplain.2.1⟩
  · have hplain := hchar c (List.mem_of_getLast? hc)
    exact ⟨hplain.1, hplain.2.1⟩
  · exact (hchar _ (List.mem_of_head? hhead)).2.2 rfl
  · exact noComma_of_not_mem fun hmem => (hchar _ hmem).2.1 rfl

namespace SocketAddress

open Braced Token

variable {a : SocketAddress} {body family key length : Text} {v : Int}

/-! ## Addresses with a quoted part -/

/-- The text of an address up to the quote that opens its only field. -/
def quotedStart (family key : Text) : Text := opening ++ family ++ comma ++ key

/-- The text of an address whose only field is quoted. -/
def quotedText (family key body : Text) : Text := textOf family [key ++ '"' :: body ++ ['"']]

theorem quotedText_eq (family key body : Text) :
    quotedText family key body = quotedStart family key ++ '"' :: body ++ '"' :: ['}'] := by
  unfold quotedText quotedStart
  rw [textOf_cons (by simp), joinCommas_singleton]
  simp only [List.append_assoc, List.cons_append, List.nil_append]

theorem head?_quotedStart (t : Text) : (quotedStart family key ++ t).head? ≠ some '"' := by
  unfold quotedStart
  rw [List.append_assoc, List.append_assoc, List.append_assoc]
  exact head?_opening _

theorem not_comma_suffix_quotedStart (hkey : IsKey key) : ¬ comma <:+ quotedStart family key := by
  unfold quotedStart
  rw [comma_suffix_append_iff, not_or]
  exact ⟨hkey.1, fun h => hkey.comma_not_mem (h.mem List.mem_cons_self)⟩

section

variable (hfamily : IsKey family) (hkey : IsKey key)

include hfamily hkey

theorem not_mem_quotedStart : '"' ∉ quotedStart family key ∧ '}' ∉ quotedStart family key := by
  have hopening : '"' ∉ opening ++ comma ∧ '}' ∉ opening ++ comma := by decide +kernel
  unfold quotedStart
  simp only [List.mem_append, not_or] at hopening ⊢
  exact ⟨⟨⟨⟨hopening.1.1, fun h => (hfamily.2 _ h).2.1 rfl⟩, hopening.1.2⟩,
      fun h => (hkey.2 _ h).2.1 rfl⟩,
    ⟨⟨hopening.2.1, fun h => (hfamily.2 _ h).2.2 rfl⟩, hopening.2.2⟩,
      fun h => (hkey.2 _ h).2.2 rfl⟩

theorem not_commaQuote_infix_quotedStart (hbody : LiteralBody body) :
    ¬ comma ++ ['"'] <:+: quotedStart family key ++ '"' :: body := by
  rw [commaQuote_infix_append_iff, not_or, not_or]
  exact ⟨fun h => (not_mem_quotedStart hfamily hkey).1 (h.mem (by simp)),
    not_comma_suffix_quotedStart hkey, hbody.noCommaQuote⟩

/-- The closing quote opens a literal exactly if it stands after a comma. -/
theorem openAfter_quotedText_iff (hbody : LiteralBody body) :
    openAfter none (quotedText family key body) = none ↔ ¬ comma <:+ body := by
  rw [quotedText_eq, openAfter_quote_iff (head?_quotedStart _)
    (not_commaQuote_infix_quotedStart hfamily hkey hbody) (by decide) (by decide),
    comma_suffix_append_quote_iff]
  exact and_iff_right (by simp)

theorem split_quotedText (hbody : LiteralBody body) (hend : ¬ comma <:+ body) :
    split (quotedText family key body) = splitCommas (quotedText family key body) := by
  have htight : Tight (quotedText family key body) := tight_textOf _ _
  rw [split_of_tight htight, mergeLiterals_of_noQuote]
  · rw [quotedText_eq, List.append_assoc]
    exact head?_quotedStart _
  · rw [quotedText_eq, commaQuote_infix_append_iff, comma_suffix_append_quote_iff, not_or, not_or]
    exact ⟨not_commaQuote_infix_quotedStart hfamily hkey hbody, hend, by decide +kernel⟩

/-- A closing brace stands before a comma only inside of the quotes. -/
theorem innerClose_infix_quotedText_iff :
    innerClose <:+: quotedText family key body ↔ innerClose <:+: body := by
  have hquote : '"' ∉ innerClose := by decide +kernel
  rw [quotedText_eq]
  constructor
  · intro h
    rcases infix_append_cons h hquote with h | h
    · rcases infix_append_cons h hquote with h | h
      · exact absurd (h.mem (by decide +kernel)) (not_mem_quotedStart hfamily hkey).2
      · exact h
    · exact absurd h (by decide +kernel)
  · intro h
    exact h.trans ⟨quotedStart family key ++ ['"'], '"' :: ['}'], by simp⟩

/-- The pieces of the text of an address hold its family and its quoted field, if no brace inside of
the quotes ends them early. -/
theorem exists_framed_quotedText (hend : ¬ ['}'] <:+ family) (hinner : ¬ innerClose <:+: body) :
    ∃ fields, Framed family fields (splitCommas (quotedText family key body)) ∧
      joinCommas fields = key ++ '"' :: body ++ ['"'] := by
  have htext : quotedText family key body =
      opening ++ family ++ comma ++ (key ++ '"' :: body ++ ['"'] ++ ['}']) := by
    unfold quotedText
    rw [textOf_cons (by simp), joinCommas_singleton]
  have hclose : Closes (splitCommas (quotedText family key body)) := by
    rw [closes_splitCommas_iff, innerClose_infix_quotedText_iff hfamily hkey, quotedText_eq]
    exact ⟨⟨quotedStart family key ++ '"' :: body ++ ['"'], by simp⟩, hinner⟩
  have hhead : splitCommas (opening ++ family) = [opening ++ family] :=
    splitCommas_eq_singleton (noComma_opening_iff.2 (noComma_of_not_mem hfamily.comma_not_mem))
  rw [htext, splitCommas_append_comma, hhead, List.singleton_append] at hclose ⊢
  have hts := ((Closes.cons_iff (splitCommas_ne_nil _)).1 hclose).2
  refine ⟨_, .before hend hts, ?_⟩
  have hjoin := hts.joinCommas_eq
  rw [joinCommas_splitCommas] at hjoin
  exact (List.append_cancel_right hjoin).symm

end

/-- A printed address with a quoted part is read back from the arguments exactly if its closing
quote does not stand after a comma, and no closing brace before one. -/
theorem take_split_quotedText_iff (hfamily : IsFamily family) (hplain : IsKey family)
    (hkey : IsKey key) (hbody : LiteralBody body) (htext : a.text = quotedText family key body)
    (hread : ∀ fields, joinCommas fields = key ++ '"' :: body ++ ['"'] →
      ofFields family fields = .ok a) (hlength : IsPlain length) :
    take (split (a.text ++ comma ++ length)) = .ok (some a, [length]) ↔
      ¬ comma <:+ body ∧ ¬ innerClose <:+: body := by
  have htight : Tight (quotedText family key body) := tight_textOf _ _
  have hargs : ∀ b ∈ [length], IsArgument b := List.forall_mem_singleton.2 (.inr hlength)
  have hsuffix := suffix_split_iff htight (by simp) hargs
  have hsplit := split_append_of_openAfter htight (by simp) hargs
  rw [joinCommas_singleton] at hsuffix hsplit
  rw [openAfter_quotedText_iff hplain hkey hbody] at hsuffix hsplit
  rw [htext]
  constructor
  · intro h
    rcases take_eq_ok_some_iff.1 h with ⟨-, -, rfl, -⟩ | ⟨_, _, raw, htokens, -, hraw, -⟩
    · exact absurd (List.cons.inj htext).1 (by decide)
    have hend : ¬ comma <:+ body := hsuffix.1 ⟨raw, htokens.symm⟩
    refine ⟨hend, ?_⟩
    rw [hsplit hend, split_quotedText hplain hkey hbody hend] at htokens
    have hclose := hraw.closes
    rw [← List.append_cancel_right htokens, closes_splitCommas_iff,
      innerClose_infix_quotedText_iff hplain hkey] at hclose
    exact hclose.2
  · rintro ⟨hend, hinner⟩
    have hfinal : ¬ ['}'] <:+ family := fun h => (hplain.2 _ (h.mem (by simp))).2.2 rfl
    obtain ⟨fields, hframed, hjoin⟩ := exists_framed_quotedText hplain hkey hfinal hinner
    rw [hsplit hend, split_quotedText hplain hkey hbody hend]
    exact take_of_framed hfamily hframed (hread fields hjoin)

/-! ## All decoded addresses -/

/-- The families whose sockets have a name in the file system or outside of it. -/
def unixFamilies : List Text := ["AF_FILE".toList, "AF_LOCAL".toList, "AF_UNIX".toList]

/-- Digits to the base 16, behind "0x" or as they are. -/
def IsHexadecimal (t : Text) : Prop :=
  ∃ digits, (t = digits ∨ t = "0x".toList ++ digits) ∧
    ∀ c ∈ digits, c ∈ "0123456789abcdefABCDEF".toList

/-- The addresses that are decoded, with the texts that stand between quotes as they are printed. -/
inductive IsDecoded : SocketAddress → Prop where
  | pathname {family path : Text} (hfamily : family ∈ unixFamilies) (hpath : LiteralBody path) :
      IsDecoded (unix family (.pathname path))
  | abstract {family name : Text} (hfamily : family ∈ unixFamilies) (hname : LiteralBody name) :
      IsDecoded (unix family (.abstract name))
  | unspec {data : Text} (hdata : LiteralBody data) : IsDecoded (unspec "AF_UNSPEC".toList data)
  | inet (port : UInt16) (address : Ipv4) : IsDecoded (inet "AF_INET".toList port address)
  | netlink (pid : UInt32) {groups : Text} (hgroups : IsHexadecimal groups) :
      IsDecoded (netlink "AF_NETLINK".toList pid groups)

/-- What is printed between quotes: a name or data. -/
def quoted? : SocketAddress → Option Text
  | unix _ (.pathname path) => some path
  | unix _ (.abstract name) => some name
  | unspec _ data => some data
  | _ => none

theorem of_mem_unixFamilies : ∀ family ∈ unixFamilies,
    IsFamily family ∧ IsKey family ∧ Decoding.ofFamily family = .unix := by
  decide +kernel

theorem IsHexadecimal.noComma {t : Text} (h : IsHexadecimal t) : ¬ comma <:+: t := by
  obtain ⟨digits, ht, hdigits⟩ := h
  have hcomma : ',' ∉ digits := fun hmem => absurd (hdigits _ hmem) (by decide +kernel)
  rcases ht with rfl | rfl
  · exact noComma_of_not_mem hcomma
  · rw [comma_infix_append_iff (by decide)]
    exact noComma_of_not_mem hcomma

theorem take_split_unix_iff {mark : Text} {path : UnixPath} (hfamily : family ∈ unixFamilies)
    (hmark : mark = [] ∨ mark = ['@']) (hbody : LiteralBody body)
    (hshown : shown? path = some (mark ++ '"' :: body ++ ['"'])) (hlength : IsPlain length) :
    take (split ((unix family path).text ++ comma ++ length)) =
        .ok (some (unix family path), [length]) ↔ ¬ comma <:+ body ∧ ¬ innerClose <:+: body := by
  obtain ⟨hname, hplain, hdecoding⟩ := of_mem_unixFamilies family hfamily
  have hkey : IsKey ("sun_path=".toList ++ mark) := by
    rcases hmark with rfl | rfl <;> decide +kernel
  refine take_split_quotedText_iff hname hplain hkey hbody ?_ (fun fields hjoin => ?_) hlength
  · rw [text_unix hshown]
    unfold quotedText
    simp only [List.append_assoc]
  · rw [List.append_assoc, List.append_assoc, ← List.append_assoc mark] at hjoin
    exact (ofFields_unix_iff hdecoding).2 ⟨path, by rw [hjoin]; exact unixPath?_append hshown, rfl⟩

/-- A printed address and the length after it are read back exactly if what the address has between
quotes neither ends in a comma nor holds a closing brace before one. -/
theorem take_split_text_iff (ha : IsDecoded a) (hlength : Decimal.signed? length = some v) :
    take (split (a.text ++ comma ++ length)) = .ok (some a, [length]) ↔
      ∀ body ∈ a.quoted?, ¬ comma <:+ body ∧ ¬ innerClose <:+: body := by
  have hplain := Decimal.isPlain_of_signed? hlength
  have hrest : ∀ t ∈ [length], IsPlain t := List.forall_mem_singleton.2 hplain
  have hjoin : ∀ t, joinCommas [t, length] = t ++ comma ++ length := fun t => by
    rw [joinCommas_cons t (by simp), joinCommas_singleton]
  cases ha with
  | pathname hfamily hpath =>
    simp only [quoted?, Option.mem_def, Option.some.injEq, forall_eq']
    exact take_split_unix_iff hfamily (.inl rfl) hpath rfl hplain
  | abstract hfamily hname =>
    simp only [quoted?, Option.mem_def, Option.some.injEq, forall_eq']
    exact take_split_unix_iff hfamily (.inr rfl) hname rfl hplain
  | @unspec data hdata =>
    have hfamily : IsFamily "AF_UNSPEC".toList ∧ IsKey "AF_UNSPEC".toList := by decide +kernel
    have hkey : IsKey "sa_data=".toList := by decide +kernel
    simp only [quoted?, Option.mem_def, Option.some.injEq, forall_eq']
    refine take_split_quotedText_iff hfamily.1 hfamily.2 hkey hdata rfl (fun fields hfields => ?_)
      hplain
    rw [List.append_assoc] at hfields
    exact (ofFields_unspec_iff (by decide +kernel)).2
      ⟨data, by rw [hfields]; exact data_append data, rfl⟩
  | inet port address =>
    have hfamily : IsPlainFamily "AF_INET".toList := ⟨by decide +kernel, by decide +kernel⟩
    rw [← hjoin, take_split_inet hfamily (by decide +kernel) port address hrest]
    exact iff_of_true rfl (by simp [quoted?])
  | netlink pid hgroups =>
    have hfamily : IsPlainFamily "AF_NETLINK".toList := ⟨by decide +kernel, by decide +kernel⟩
    rw [← hjoin, take_split_netlink hfamily (by decide +kernel) pid hgroups.noComma hrest]
    exact iff_of_true rfl (by simp [quoted?])

/-- The address of a file whose name has a brace and a comma in it, next to each other or not. -/
def fileAddress (path : Text) : SocketAddress := unix "AF_UNIX".toList (.pathname path)

theorem isDecoded_fileAddress : IsDecoded (fileAddress "/tmp/a, b\x7d".toList) ∧
    IsDecoded (fileAddress "/tmp/a\x7d, b".toList) :=
  ⟨.pathname (by decide) (literalBody_of_not_mem (by decide) (by decide)),
    .pathname (by decide) (literalBody_of_not_mem (by decide) (by decide))⟩

theorem take_split_text_iff_file :
    take (split "\x7bsa_family=AF_UNIX, sun_path=\"/tmp/a, b\x7d\"\x7d, 16".toList) =
      .ok (some (fileAddress "/tmp/a, b\x7d".toList), [['1', '6']]) := by
  have hiff := take_split_text_iff isDecoded_fileAddress.1
    (show Decimal.signed? ['1', '6'] = some 16 by decide +kernel)
  rw [show (fileAddress "/tmp/a, b\x7d".toList).text ++ comma ++ ['1', '6'] =
    "\x7bsa_family=AF_UNIX, sun_path=\"/tmp/a, b\x7d\"\x7d, 16".toList by decide +kernel] at hiff
  exact hiff.2 (by decide +kernel)

/-- The structure is taken to end at a brace in the name of the file. -/
theorem take_split_text_ends_early :
    IsDecoded (fileAddress "/tmp/a\x7d, b".toList) ∧
      (fileAddress "/tmp/a\x7d, b".toList).text ++ comma ++ ['1', '6'] =
        "\x7bsa_family=AF_UNIX, sun_path=\"/tmp/a\x7d, b\"\x7d, 16".toList ∧
      take (split "\x7bsa_family=AF_UNIX, sun_path=\"/tmp/a\x7d, b\"\x7d, 16".toList) =
        .error (.malformed .sockaddr
          ["\x7bsa_family=AF_UNIX".toList, "sun_path=\"/tmp/a\x7d".toList] .badUnixPath) :=
  ⟨isDecoded_fileAddress.2, by decide +kernel, by decide +kernel⟩

end SocketAddress

end SyscallTrace
