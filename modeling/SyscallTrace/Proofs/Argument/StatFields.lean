import Mathlib.Data.Bool.AllAny
import SyscallTrace.Argument.StatBuffer
import SyscallTrace.Proofs.Argument.Braces
import SyscallTrace.Proofs.Argument.Consumption

/-!
# Printed stat buffers

The number of a device has a comma in it, at which its field is cut. The halves are put together
again in the field `st_dev`, and stay apart in the field `st_rdev`. So a printed file status is read
back if it has no number of the device that a file stands for, and has too many fields otherwise
(`StatBuffer.take_printed_fields`).
-/

namespace SyscallTrace

namespace StatBuffer

open Text Token

/-! ## Printed fields -/

/-- A field of a file status, with the number of a device or with any other value. -/
inductive Field where
  | device (name major minor : Text)
  | plain (name value : Text)

namespace Field

def name : Field → Text
  | device name _ _ => name
  | plain name _ => name

def value : Field → Text
  | device _ major minor => "makedev(".toList ++ major ++ comma ++ minor ++ [')']
  | plain _ value => value

def text (f : Field) : Text := f.name ++ '=' :: f.value

/-- The fields that hold the number of a device. -/
def deviceNames : List Text := ["st_dev".toList, "st_rdev".toList]

/-- The fields with these names, and only they, hold the number of a device. Its halves, decimal or
hexadecimal, are made of letters and digits. -/
inductive IsPrinted : Field → Prop
  | device {name major minor : Text} (hname : name ∈ deviceNames)
      (hmajor : ∀ c ∈ major, c.isAlphanum) (hminor : ∀ c ∈ minor, c.isAlphanum) :
      IsPrinted (device name major minor)
  | plain {name value : Text} (hname : name ∉ deviceNames)
      (hchars : ∀ c ∈ name, c ∉ ['=', ',', '"', '{', '}']) (hvalue : ¬ comma <:+: value)
      (hsigns : ∀ c ∈ value, c ∉ ['"', '{', '}']) : IsPrinted (plain name value)

instance : DecidablePred IsPrinted
  | device name major minor =>
    decidable_of_iff (name ∈ deviceNames ∧ major.all Char.isAlphanum ∧ minor.all Char.isAlphanum)
      ⟨fun h => .device h.1 (List.all_eq_true.1 h.2.1) (List.all_eq_true.1 h.2.2), fun h => by
        cases h with
        | device hname hmajor hminor =>
          exact ⟨hname, List.all_eq_true.2 hmajor, List.all_eq_true.2 hminor⟩⟩
  | plain name value =>
    decidable_of_iff (name ∉ deviceNames ∧ (name.all fun c => c ∉ ['=', ',', '"', '{', '}']) ∧
        ¬ Text.includes value comma ∧ value.all fun c => c ∉ ['"', '{', '}'])
      ⟨fun h => .plain h.1 (List.all_iff_forall_prop.1 h.2.1) (includes_iff.not.1 h.2.2.1)
        (List.all_iff_forall_prop.1 h.2.2.2), fun h => by
        cases h with
        | plain hname hchars hvalue hsigns =>
          exact ⟨hname, List.all_iff_forall_prop.2 hchars, includes_iff.not.2 hvalue,
            List.all_iff_forall_prop.2 hsigns⟩⟩

/-- The halves of a number stay apart unless the field is the one that is put together again. -/
def isCut : Field → Bool
  | device name _ _ => name != "st_dev".toList
  | plain _ _ => false

/-- What becomes of a field. -/
def kept (f : Field) : List Text := if f.isCut then splitCommas f.text else [f.text]

end Field

variable {f : Field} {fields : List Field} {t u : Text} {ts rest : List Text}

theorem not_mem_of_isAlphanum {c : Char} (hc : c.isAlphanum = false)
    (ht : ∀ d ∈ t, d.isAlphanum) : c ∉ t := fun hmem => by
  rw [ht c hmem] at hc
  cases hc

namespace Field.IsPrinted

theorem not_mem_name (h : f.IsPrinted) {c : Char} (hc : c ∈ ['=', ',', '"', '{', '}']) :
    c ∉ f.name := fun hmem => by
  cases h with
  | device hname =>
    have hall : ∀ name ∈ deviceNames, name.all fun c => c ∉ ['=', ',', '"', '{', '}'] := by decide
    exact List.all_iff_forall_prop.1 (hall _ hname) c hmem hc
  | plain _ hchars => exact hchars c hmem hc

theorem not_mem_value (h : f.IsPrinted) {c : Char} (hc : c ∈ ['"', '{', '}']) :
    c ∉ f.value := by
  cases h with
  | device _ hmajor hminor =>
    have hall : ∀ c ∈ ['"', '{', '}'], c.isAlphanum = false ∧ c ∉ "makedev(".toList ∧
        c ∉ comma ∧ c ∉ [')'] := List.all_iff_forall_prop.1 (by decide)
    obtain ⟨hsign, hopen, hcomma, hclose⟩ := hall c hc
    unfold value
    dsimp only
    rw [List.mem_append, List.mem_append, List.mem_append, List.mem_append]
    rintro ((((hmem | hmem) | hmem) | hmem) | hmem)
    · exact hopen hmem
    · exact not_mem_of_isAlphanum hsign hmajor hmem
    · exact hcomma hmem
    · exact not_mem_of_isAlphanum hsign hminor hmem
    · exact hclose hmem
  | plain _ _ _ hsigns => exact fun hmem => hsigns c hmem hc

theorem not_mem_text (h : f.IsPrinted) {c : Char} (hc : c ∈ ['"', '{', '}']) : c ∉ f.text := by
  have hall : ∀ c ∈ ['"', '{', '}'], c ∈ ['=', ',', '"', '{', '}'] ∧ c ≠ '=' :=
    List.all_iff_forall_prop.1 (by decide)
  obtain ⟨hname, hsign⟩ := hall c hc
  simp only [text, List.mem_append, List.mem_cons, not_or]
  exact ⟨h.not_mem_name hname, hsign, h.not_mem_value hc⟩

end Field.IsPrinted

/-! ## Merging the halves -/

theorem mergeDevices_cons (h : opensDevice t = false) :
    mergeDevices (t :: ts) = t :: mergeDevices ts := by
  cases ts with
  | nil => rfl
  | cons u ts =>
    rw [mergeDevices, h]
    rfl

theorem mergeDevices_halves (h : opensDevice t = true) :
    mergeDevices (t :: u :: ts) = (t ++ comma ++ u) :: mergeDevices ts := by
  rw [mergeDevices, if_pos h]

theorem opensDevice_eq_false (h : ¬ "st_dev=".toList <+: t) : opensDevice t = false := by
  unfold opensDevice
  rw [Bool.and_eq_false_iff]
  refine .inl ?_
  rw [← Bool.not_eq_true, startsWith_iff]
  exact fun hstart => h (List.IsPrefix.trans ⟨"makedev(".toList, rfl⟩ hstart)

/-- The name of a field is what stands before its first equals sign. -/
theorem cutFirst?_field (hname : '=' ∉ t) (u : Text) :
    (t ++ '=' :: u).cutFirst? (· == '=') = some (t, u) := by
  refine cutFirst?_append (fun c hc => beq_eq_false_iff_ne.2 ?_) rfl
  rintro rfl
  exact hname hc

theorem stDev_prefix_iff (hname : '=' ∉ t) :
    "st_dev=".toList <+: t ++ '=' :: u ↔ t = "st_dev".toList := by
  constructor
  · rintro ⟨v, hv⟩
    have hcut := cutFirst?_field (t := "st_dev".toList) (by decide) v
    rw [show "st_dev".toList ++ '=' :: v = "st_dev=".toList ++ v from rfl, hv,
      cutFirst?_field hname] at hcut
    exact congrArg Prod.fst (Option.some.inj hcut)
  · rintro rfl
    exact ⟨u, rfl⟩

section

variable {name major minor : Text} (hname : name ∈ Field.deviceNames)
  (hmajor : ∀ c ∈ major, c.isAlphanum)

include hname hmajor

/-- The first half of a number asks for the second one in one of the fields only. -/
theorem opensDevice_half : opensDevice (name ++ '=' :: ("makedev(".toList ++ major)) =
    !(Field.device name major minor).isCut := by
  simp only [Field.deviceNames, List.mem_cons, List.not_mem_nil, or_false] at hname
  rcases hname with rfl | rfl
  · have hends : ¬ [')'] <:+ "st_dev=makedev(".toList ++ major := fun h =>
      (List.mem_append.1 (h.mem List.mem_cons_self)).elim (by decide)
        (not_mem_of_isAlphanum (by decide) hmajor)
    show opensDevice ("st_dev=makedev(".toList ++ major) = true
    unfold opensDevice
    rw [Bool.and_eq_true, startsWith_iff, Bool.not_eq_true', ← Bool.not_eq_true, endsWith_iff]
    exact ⟨List.prefix_append _ _, hends⟩
  · exact opensDevice_eq_false fun h => absurd ((stDev_prefix_iff (by decide)).1 h) (by decide)

theorem splitCommas_device (hminor : ∀ c ∈ minor, c.isAlphanum) :
    splitCommas (Field.device name major minor).text =
      [name ++ '=' :: ("makedev(".toList ++ major), minor ++ [')']] := by
  have hnames : ∀ name ∈ Field.deviceNames, ',' ∉ name := by decide
  have hhead : ',' ∉ name ++ '=' :: ("makedev(".toList ++ major) := by
    simp only [List.mem_append, List.mem_cons, not_or]
    exact ⟨hnames name hname, by decide, by decide, not_mem_of_isAlphanum (by decide) hmajor⟩
  have hlast : ',' ∉ minor ++ [')'] := by
    rw [List.mem_append, not_or]
    exact ⟨not_mem_of_isAlphanum (by decide) hminor, by decide⟩
  have htext : (Field.device name major minor).text =
      name ++ '=' :: ("makedev(".toList ++ major) ++ comma ++ (minor ++ [')']) := by
    unfold Field.text Field.name Field.value
    dsimp only
    generalize "makedev(".toList = key
    simp
  rw [htext, splitCommas_append_comma, splitCommas_eq_singleton (noComma_of_not_mem hhead),
    splitCommas_eq_singleton (noComma_of_not_mem hlast)]
  rfl

end

theorem splitCommas_plain {name value : Text} (hname : ',' ∉ name) (hvalue : ¬ comma <:+: value) :
    splitCommas (Field.plain name value).text = [(Field.plain name value).text] := by
  have hopen : ',' ∉ name ++ ['='] := by simp [hname]
  have htext : (Field.plain name value).text = name ++ ['='] ++ value := by
    rw [List.append_assoc]
    rfl
  rw [htext]
  exact splitCommas_eq_singleton fun h => hvalue ((comma_infix_append_iff hopen).1 h)

/-- What is cut off a field is put to it again, unless it stays apart. -/
theorem mergeDevices_text (hf : f.IsPrinted) (ts : List Text) :
    mergeDevices (splitCommas f.text ++ ts) = f.kept ++ mergeDevices ts := by
  unfold Field.kept
  cases hf with
  | @device name major minor hname hmajor hminor =>
    have hpieces := splitCommas_device hname hmajor hminor
    have hhalf : opensDevice (name ++ '=' :: ("makedev(".toList ++ major)) =
        !(Field.device name major minor).isCut := opensDevice_half hname hmajor
    have htext := joinCommas_splitCommas (Field.device name major minor).text
    rw [hpieces] at htext ⊢
    generalize name ++ '=' :: ("makedev(".toList ++ major) = half at hhalf htext ⊢
    rw [List.cons_append, List.cons_append, List.nil_append]
    cases hcut : (Field.device name major minor).isCut with
    | true =>
      rw [hcut, Bool.not_true] at hhalf
      have hlast : opensDevice (minor ++ [')']) = false := opensDevice_eq_false fun h =>
        (List.mem_append.1 (h.mem (show '=' ∈ "st_dev=".toList by decide))).elim
          (not_mem_of_isAlphanum (by decide) hminor) (by decide)
      rw [mergeDevices_cons hhalf, mergeDevices_cons hlast, if_pos rfl]
      rfl
    | false =>
      rw [hcut, Bool.not_false] at hhalf
      rw [joinCommas_cons _ (by simp), joinCommas_singleton] at htext
      rw [mergeDevices_halves hhalf, htext, if_neg (by simp)]
      rfl
  | @plain name value hname hchars hvalue hsigns =>
    have hcomma : ',' ∉ name := fun h => hchars _ h (by decide)
    have hsign : '=' ∉ name := fun h => hchars _ h (by decide)
    have hopen : opensDevice (Field.plain name value).text = false :=
      opensDevice_eq_false fun h => hname <| by
        simp [(stDev_prefix_iff hsign).1 h, Field.deviceNames]
    rw [splitCommas_plain hcomma hvalue]
    exact mergeDevices_cons hopen

/-- The fields are told apart, except for the halves that stay apart. -/
theorem mergeDevices_splitCommas (hfields : ∀ f ∈ fields, f.IsPrinted) :
    mergeDevices (fields.flatMap fun f => splitCommas f.text) = fields.flatMap Field.kept := by
  induction fields with
  | nil => rfl
  | cons f fs ih =>
    obtain ⟨hf, hfs⟩ := List.forall_mem_cons.1 hfields
    rw [List.flatMap_cons, List.flatMap_cons, mergeDevices_text hf, ih hfs]

/-! ## What is kept -/

theorem length_kept (hf : f.IsPrinted) : f.kept.length = 1 + if f.isCut then 1 else 0 := by
  unfold Field.kept
  cases hf with
  | device hname hmajor hminor =>
    rw [splitCommas_device hname hmajor hminor]
    split <;> rfl
  | plain => rfl

/-- There is one field too many for each number whose halves stay apart. -/
theorem length_flatMap_kept (hfields : ∀ f ∈ fields, f.IsPrinted) :
    (fields.flatMap Field.kept).length = fields.length + fields.countP Field.isCut := by
  induction fields with
  | nil => rfl
  | cons f fs ih =>
    obtain ⟨hf, hfs⟩ := List.forall_mem_cons.1 hfields
    rw [List.flatMap_cons, List.length_append, length_kept hf, ih hfs, List.countP_cons,
      List.length_cons]
    omega

theorem flatMap_kept (h : ∀ f ∈ fields, f.isCut = false) :
    fields.flatMap Field.kept = fields.map Field.text := by
  have hone : ∀ f ∈ fields, f.kept = [f.text] := fun f hf => by
    unfold Field.kept
    rw [h f hf, if_neg (by simp)]
  rw [List.flatMap_congr hone, List.map_eq_flatMap]

/-- The value of a field is found under its name. -/
theorem get?_text (hfields : ∀ f ∈ fields, f.IsPrinted) (name : Text) :
    get? ⟨fields.map Field.text⟩ name = (fields.find? (·.name == name)).map Field.value := by
  unfold get?
  induction fields with
  | nil => rfl
  | cons f fs ih =>
    obtain ⟨hf, hfs⟩ := List.forall_mem_cons.1 hfields
    have hcut : f.text.cutFirst? (· == '=') = some (f.name, f.value) :=
      cutFirst?_field (hf.not_mem_name (by decide)) f.value
    dsimp only at ih ⊢
    rw [List.map_cons, List.findSome?_cons, hcut, List.find?_cons, Option.filter_some]
    dsimp only
    cases hname : f.name == name with
    | true => rfl
    | false => exact ih hfs

/-! ## Reading -/

/-- The text between the braces. -/
def fieldsText (fields : List Field) : Text := joinCommas (fields.map Field.text)

theorem not_mem_fieldsText (hfields : ∀ f ∈ fields, f.IsPrinted) {c : Char}
    (hc : c ∈ ['"', '{', '}']) : c ∉ fieldsText fields := by
  have hall : ∀ c ∈ ['"', '{', '}'], c ≠ ',' ∧ c ≠ ' ' := List.all_iff_forall_prop.1 (by decide)
  refine not_mem_joinCommas (hall c hc).1 (hall c hc).2 fun t ht => ?_
  obtain ⟨f, hf, rfl⟩ := List.mem_map.1 ht
  exact (hfields f hf).not_mem_text hc

/-- What is read between the braces. -/
theorem mergeDevices_braced (hfields : ∀ f ∈ fields, f.IsPrinted) (hne : fields ≠ []) :
    mergeDevices (Braced.fields ⟨splitCommas ('{' :: fieldsText fields ++ ['}']), rest⟩) =
      fields.flatMap Field.kept := by
  rw [Braced.fields_splitCommas (not_mem_fieldsText hfields (by decide)), fieldsText,
    splitCommas_joinCommas (by simpa using hne), List.flatMap_map, mergeDevices_splitCommas hfields]

/-- A structure is no pointer. -/
theorem take_of_braced {tokens : List Text} {b : Braced} (h : Braced.take .stat tokens = .ok b) :
    take tokens = if (mergeDevices b.fields).length = fieldCount then
        .ok (some ⟨mergeDevices b.fields⟩, b.rest)
      else .error (.malformed .stat b.raw
        (.fieldCount fieldCount (mergeDevices b.fields).length)) := by
  have hpointer : tokens.head?.any isPointer = false := by
    obtain ⟨hopen, hclose, htokens⟩ := Braced.take_eq_ok_iff.1 h
    obtain ⟨u, us, hraw⟩ := List.exists_cons_of_ne_nil hclose.ne_nil
    obtain ⟨t, rfl⟩ := hopen u (by rw [hraw]; rfl)
    rw [htokens, hraw]
    rfl
  unfold take
  rw [hpointer, if_neg (by simp), h]
  rfl

/-- Any number of fields: a number whose halves stay apart counts as two. -/
theorem take_split_fields (hfields : ∀ f ∈ fields, f.IsPrinted) (hne : fields ≠ [])
    (hrest : ∀ t ∈ rest, IsPlain t) :
    take (split (text ⟨fields.map Field.text⟩ ++ comma ++ joinCommas rest)) =
      if fields.length + fields.countP Field.isCut = fieldCount then
        .ok (some ⟨fields.flatMap Field.kept⟩, rest)
      else .error (.malformed .stat (splitCommas (text ⟨fields.map Field.text⟩))
        (.fieldCount fieldCount (fields.length + fields.countP Field.isCut))) := by
  have hbraced : Braced.take .stat (split ('{' :: fieldsText fields ++ ['}'] ++ comma ++
      joinCommas rest)) = .ok ⟨splitCommas ('{' :: fieldsText fields ++ ['}']), rest⟩ :=
    Braced.take_split (not_mem_fieldsText hfields (by decide))
      (not_mem_fieldsText hfields (by decide)) hrest
  show take (split ('{' :: fieldsText fields ++ ['}'] ++ comma ++ joinCommas rest)) = _
  rw [take_of_braced hbraced, mergeDevices_braced hfields hne, length_flatMap_kept hfields]
  rfl

/-- A file status among the arguments of a call is read field by field exactly if it has no number
whose halves stay apart. Each of these makes one field too many. -/
theorem take_printed_fields (hfields : ∀ f ∈ fields, f.IsPrinted)
    (hlen : fields.length = fieldCount) (hrest : ∀ t ∈ rest, IsPlain t) :
    take (split (text ⟨fields.map Field.text⟩ ++ comma ++ joinCommas rest)) =
      (if fields.any Field.isCut then
        .error (.malformed .stat (splitCommas (text ⟨fields.map Field.text⟩))
          (.fieldCount fieldCount (fieldCount + fields.countP Field.isCut)))
      else .ok (some ⟨fields.map Field.text⟩, rest)) ∧
    ∀ name, get? ⟨fields.map Field.text⟩ name =
      (fields.find? (·.name == name)).map Field.value := by
  refine ⟨?_, get?_text hfields⟩
  have hne : fields ≠ [] := by
    rintro rfl
    cases hlen
  rw [take_split_fields hfields hne hrest, hlen]
  by_cases hcut : fields.any Field.isCut
  · have hpos : 0 < fields.countP Field.isCut :=
      List.countP_pos_iff.2 (List.any_eq_true.1 hcut)
    rw [if_neg (by omega), if_pos hcut]
  · have hwhole : ∀ f ∈ fields, f.isCut = false := fun f hf => by
      rw [← Bool.not_eq_true]
      exact fun h => hcut (List.any_eq_true.2 ⟨f, hf, h⟩)
    have hzero : fields.countP Field.isCut = 0 := by
      rw [List.countP_eq_zero]
      simpa using hwhole
    rw [if_neg hcut, hzero, Nat.add_zero, if_pos rfl, flatMap_kept hwhole]

/-! ### A regular file and the null device -/

/-- A file status of which one field depends on the kind of the file. -/
def statusFields (f : Field) : List Field :=
  [.device "st_dev".toList ['0'] ['4'], .plain "st_ino".toList ['5'],
    .plain "st_mode".toList "0644".toList, .plain "st_nlink".toList ['1'],
    .plain "st_uid".toList ['0'], .plain "st_gid".toList ['0'],
    .plain "st_blksize".toList "4096".toList, .plain "st_blocks".toList ['0'], f,
    .plain "st_atime".toList ['7'], .plain "st_atime_nsec".toList ['0'],
    .plain "st_mtime".toList ['8'], .plain "st_mtime_nsec".toList ['0'],
    .plain "st_ctime".toList ['9'], .plain "st_ctime_nsec".toList ['0']]

def regularFields : List Field := statusFields (.plain "st_size".toList "1234".toList)

def nullFields : List Field := statusFields (.device "st_rdev".toList "0x1".toList ['3'])

theorem isPlain_descriptor : ∀ t ∈ [['7']], IsPlain t :=
  List.forall_mem_singleton.2 ⟨by decide +kernel, by decide, by decide +kernel⟩

theorem take_printed_fields_regular :
    take (split (text ⟨regularFields.map Field.text⟩ ++ comma ++ ['7'])) =
      .ok (some ⟨regularFields.map Field.text⟩, [['7']]) ∧
    get? ⟨regularFields.map Field.text⟩ "st_dev".toList = some "makedev(0, 4)".toList := by
  have hfields : ∀ f ∈ regularFields, f.IsPrinted := by decide +kernel
  obtain ⟨hread, hget⟩ := take_printed_fields hfields rfl isPlain_descriptor
  rw [if_neg (by decide +kernel)] at hread
  exact ⟨hread, (hget _).trans (by decide +kernel)⟩

/-- The number of the null device makes one field too many. -/
theorem take_printed_fields_null :
    (∀ f ∈ nullFields, f.IsPrinted) ∧ nullFields.length = fieldCount ∧ (∀ t ∈ [['7']], IsPlain t) ∧
      take (split (text ⟨nullFields.map Field.text⟩ ++ comma ++ ['7'])) =
        .error (.malformed .stat (splitCommas (text ⟨nullFields.map Field.text⟩))
          (.fieldCount fieldCount 16)) := by
  have hfields : ∀ f ∈ nullFields, f.IsPrinted := by decide +kernel
  have hread := take_split_fields hfields (by simp [nullFields, statusFields]) isPlain_descriptor
  rw [if_neg (by decide +kernel)] at hread
  exact ⟨hfields, rfl, isPlain_descriptor, hread⟩

end StatBuffer

end SyscallTrace
