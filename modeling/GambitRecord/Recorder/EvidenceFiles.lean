import Mathlib.Data.List.DropRight
import Mathlib.Data.List.Nodup
import GambitRecord.Library.DigitText
import GambitRecord.Library.Utf16
import GambitRecord.Recorder.Takes

/-! # The names of evidence files

`evidence_filename` and the files that recordings and replay saves open. A name
tells the kind of the file, the local second and what `sanitize_filename` leaves
of the target, and nothing else, and the volume compares names in upper case:
openings that agree in these lead to one file.
-/

namespace GambitRecord.Recorder
open Library Library.DigitText Library.Runs

/-- The members of a `SYSTEMTIME` that a name shows. -/
structure SystemTime where
  wYear : UInt16
  wMonth : UInt16
  wDay : UInt16
  wHour : UInt16
  wMinute : UInt16
  wSecond : UInt16
  deriving DecidableEq

def SystemTime.members (now : SystemTime) : List UInt16 :=
  [now.wYear, now.wMonth, now.wDay, now.wHour, now.wMinute, now.wSecond]

inductive Evidence where
  | record | replay
  deriving DecidableEq

def Evidence.suffix : Evidence → Bytes
  | .record => Utf8.bytes "record"
  | .replay => Utf8.bytes "replay"

def invalid : Bytes := [60, 62, 58, 34, 47, 92, 124, 63, 42]

def sanitize_filename (value : Bytes) : Bytes :=
  let value := value.map fun c => if c < 32 ∨ c ∈ invalid then 95 else c
  let value := value.rdropWhile fun c => c = 32 ∨ c = 46
  let value := if value.isEmpty then Utf8.bytes "unknown" else value
  value.take 80

def field (width : ℕ) (n : UInt16) : Bytes := Utf8.encode (padded width n.toNat)

def hyphen : UInt8 := 45

def underscore : UInt8 := 95

def timestamp_for_filename (now : SystemTime) : Bytes :=
  field 4 now.wYear ++ hyphen :: (field 2 now.wMonth ++ hyphen :: (field 2 now.wDay ++ underscore ::
    (field 2 now.wHour ++ hyphen :: (field 2 now.wMinute ++ hyphen :: field 2 now.wSecond))))

/-- The part of a name that the metadata give. -/
def target_part (metadata : EvidenceMetadata) : Bytes :=
  if metadata.target_name.isEmpty then []
  else
    underscore :: sanitize_filename metadata.target_name ++
      if 0 ≤ metadata.target_id then
        Utf8.bytes "_ID" ++ Utf8.encode (decimal metadata.target_id.toInt.toNat)
      else []

def stem (now : SystemTime) (metadata : EvidenceMetadata) (kind : Evidence) : Bytes :=
  timestamp_for_filename now ++ target_part metadata ++ underscore :: kind.suffix ++
    Utf8.bytes ".mp4"

def isSlash (u : UInt16) : Bool := u = 47 ∨ u = 92

def isPlain (b : UInt8) : Bool := b ≠ 47 ∧ b ≠ 92

/-- `operator/` with a name. -/
def divide (directory name : WidePath) : WidePath :=
  if directory.getLast?.all isSlash then directory ++ name else directory ++ 92 :: name

/-- ASCII in UTF-16. -/
def toWide (bytes : Bytes) : WidePath := bytes.map UInt8.toUInt16

def IsAscii (bytes : Bytes) : Prop := ∀ b ∈ bytes, b < 128

instance : DecidablePred IsAscii := fun bytes => inferInstanceAs (Decidable (∀ b ∈ bytes, b < 128))

/-- How the process converts file names: ASCII is itself at both ends of a name, and only a slash is
a slash. -/
structure NarrowNames where
  page : CodePage
  left : ∀ s bytes, IsAscii s →
    page.decode (s ++ bytes) = (page.decode bytes).map fun units => toWide s ++ units
  right : ∀ bytes s, IsAscii s →
    page.decode (bytes ++ s) = (page.decode bytes).map fun units => units ++ toWide s
  slash : ∀ bytes units, page.decode bytes = some units → bytes.all isPlain →
    ∀ u ∈ units, isSlash u = false

def asciiUpper (u : UInt16) : UInt16 := if 97 ≤ u ∧ u ≤ 122 then u - 32 else u

/-- The upper case in which the volume compares paths. Of ASCII, only letters are the upper case of
anything beyond it. -/
structure Volume where
  upper : UInt16 → UInt16
  ascii : ∀ u, u < 128 → upper u = asciiUpper u
  beyond : ∀ u, 128 ≤ u → upper u < 128 → 65 ≤ upper u ∧ upper u ≤ 90

/-- The file that a path leads to. -/
def Volume.file (volume : Volume) (path : WidePath) : WidePath := path.map volume.upper

def isDigitUnit (u : UInt16) : Bool := 48 ≤ u ∧ u ≤ 57

theorem toUInt16_injective : Function.Injective UInt8.toUInt16 := by
  intro a b h
  have hnat := congrArg UInt16.toNat h
  rw [UInt8.toNat_toUInt16, UInt8.toNat_toUInt16] at hnat
  exact UInt8.toNat_inj.mp hnat

theorem field_injective {width : ℕ} {m n : UInt16}
    (h : toWide (field width m) = toWide (field width n)) : m = n := by
  have hdecode := congrArg Utf8.decode (List.map_injective_iff.mpr toUInt16_injective h)
  rw [field, field, Utf8.decode_encode, Utf8.decode_encode, Option.some_inj] at hdecode
  exact UInt16.toNat_inj.mp (padded_injective hdecode)

def isDigitByte (b : UInt8) : Bool := 48 ≤ b ∧ b ≤ 57

theorem isDigitByte_of_mem {digits : Text} (h : ∀ c ∈ digits, c.isDigit) {b : UInt8}
    (hb : b ∈ Utf8.encode digits) : isDigitByte b := by
  rcases List.mem_flatMap.mp hb with ⟨c, hc, hbyte⟩
  have hdigit := h c hc
  rw [Char.isDigit, Bool.and_eq_true, decide_eq_true_eq, decide_eq_true_eq] at hdigit
  have hlow : 48 ≤ c.toNat := hdigit.1
  have hhigh : c.toNat ≤ 57 := hdigit.2
  rw [Utf8.utf8EncodeChar_of_lt (by omega), List.mem_singleton] at hbyte
  have hnat : b.toNat = c.toNat := by
    rw [hbyte, UInt8.toNat_ofNat']
    omega
  rw [isDigitByte, decide_eq_true_eq, UInt8.le_iff_toNat_le, UInt8.le_iff_toNat_le, hnat]
  exact ⟨hlow, hhigh⟩

theorem isDigitByte_field {width : ℕ} {n : UInt16} : ∀ b ∈ field width n, isDigitByte b :=
  fun _ => isDigitByte_of_mem fun _ => isDigit_of_mem_padded

theorem isDigitUnit_field {width : ℕ} {n : UInt16} :
    ∀ u ∈ toWide (field width n), isDigitUnit u := by
  intro u hu
  obtain ⟨b, hb, rfl⟩ := List.mem_map.mp hu
  have hdigit := isDigitByte_field b hb
  rw [isDigitByte, decide_eq_true_eq, UInt8.le_iff_toNat_le, UInt8.le_iff_toNat_le] at hdigit
  rw [isDigitUnit, decide_eq_true_eq, UInt16.le_iff_toNat_le, UInt16.le_iff_toNat_le,
    UInt8.toNat_toUInt16]
  exact hdigit

/-- What a run of digits is followed by tells where it ends. -/
theorem append_cons_inj {a a' r r' : WidePath} {c c' : UInt16} (ha : ∀ u ∈ a, isDigitUnit u)
    (ha' : ∀ u ∈ a', isDigitUnit u) (hc : ¬ isDigitUnit c) (hc' : ¬ isDigitUnit c')
    (h : a ++ c :: r = a' ++ c' :: r') : a = a' ∧ r = r' := by
  have htake := congrArg (List.takeWhile isDigitUnit) h
  rw [List.takeWhile_append_of_pos ha, List.takeWhile_append_of_pos ha',
    List.takeWhile_cons_of_neg hc, List.takeWhile_cons_of_neg hc', List.append_nil,
    List.append_nil] at htake
  rw [htake] at h
  exact ⟨htake, (List.cons.inj (List.append_cancel_left h)).2⟩

/-- A time stamp can be told from what follows it. -/
theorem timestamp_inj {now now' : SystemTime} {r r' : WidePath}
    (h : toWide (timestamp_for_filename now) ++ underscore.toUInt16 :: r =
      toWide (timestamp_for_filename now') ++ underscore.toUInt16 :: r') : now = now' ∧ r = r' := by
  have hhyphen : ¬ isDigitUnit hyphen.toUInt16 := by decide
  have hunderscore : ¬ isDigitUnit underscore.toUInt16 := by decide
  simp only [timestamp_for_filename, toWide, List.map_append, List.map_cons, List.append_assoc,
    List.cons_append] at h
  obtain ⟨hyear, h⟩ := append_cons_inj isDigitUnit_field isDigitUnit_field hhyphen hhyphen h
  obtain ⟨hmonth, h⟩ := append_cons_inj isDigitUnit_field isDigitUnit_field hhyphen hhyphen h
  obtain ⟨hday, h⟩ := append_cons_inj isDigitUnit_field isDigitUnit_field hunderscore hunderscore h
  obtain ⟨hhour, h⟩ := append_cons_inj isDigitUnit_field isDigitUnit_field hhyphen hhyphen h
  obtain ⟨hminute, h⟩ := append_cons_inj isDigitUnit_field isDigitUnit_field hhyphen hhyphen h
  obtain ⟨hsecond, h⟩ :=
    append_cons_inj isDigitUnit_field isDigitUnit_field hunderscore hunderscore h
  refine ⟨?_, h⟩
  cases now
  cases now'
  rw [SystemTime.mk.injEq]
  exact ⟨field_injective hyear, field_injective hmonth, field_injective hday,
    field_injective hhour, field_injective hminute, field_injective hsecond⟩

theorem isPlain_sanitize_filename (value : Bytes) : (sanitize_filename value).all isPlain := by
  have hmap : ∀ b ∈ value.map fun c => if c < 32 ∨ c ∈ invalid then (95 : UInt8) else c,
      isPlain b := by
    intro b hb
    obtain ⟨c, -, rfl⟩ := List.mem_map.mp hb
    by_cases hc : c < 32 ∨ c ∈ invalid
    · rw [if_pos hc]
      decide
    · rw [if_neg hc, isPlain, decide_eq_true_eq]
      constructor <;> rintro rfl <;> exact hc (by decide)
  have hunknown : (Utf8.bytes "unknown").all isPlain := by decide +kernel
  rw [List.all_eq_true]
  intro b hb
  rw [sanitize_filename] at hb
  have hkept := List.mem_of_mem_take hb
  split_ifs at hkept
  · exact List.all_eq_true.mp hunknown b hkept
  · exact hmap b ((List.rdropWhile_prefix _ _).subset hkept)

theorem isPlain_of_isDigitByte {bytes : Bytes} (h : ∀ b ∈ bytes, isDigitByte b) :
    bytes.all isPlain := by
  rw [List.all_eq_true]
  intro b hb
  rw [isPlain, decide_eq_true_eq]
  constructor <;> rintro rfl <;> exact absurd (h _ hb) (by decide)

theorem isPlain_stem (now : SystemTime) (metadata : EvidenceMetadata) (kind : Evidence) :
    (stem now metadata kind).all isPlain := by
  have hfield : ∀ width n, (field width n).all isPlain := fun _ _ =>
    isPlain_of_isDigitByte isDigitByte_field
  have hid : (Utf8.encode (decimal metadata.target_id.toInt.toNat)).all isPlain :=
    isPlain_of_isDigitByte fun _ => isDigitByte_of_mem fun _ => isDigit_of_mem_decimal
  have hlabel : (Utf8.bytes "_ID").all isPlain := by decide +kernel
  have hend : (underscore :: kind.suffix ++ Utf8.bytes ".mp4").all isPlain := by
    cases kind <;> decide +kernel
  have hhyphen : isPlain hyphen := by decide
  have hunderscore : isPlain underscore := by decide
  have htarget : (target_part metadata).all isPlain := by
    rw [target_part]
    split_ifs
    · rfl
    · simp only [List.cons_append, List.all_cons, List.all_append, hunderscore,
        isPlain_sanitize_filename, hlabel, hid, Bool.and_true]
    · simp only [List.append_nil, List.all_cons, hunderscore, isPlain_sanitize_filename,
        Bool.and_true]
  rw [stem, List.append_assoc, List.all_append, List.all_append, htarget, hend, Bool.and_true,
    Bool.and_true]
  simp only [timestamp_for_filename, List.all_append, List.all_cons, hfield, hhyphen, hunderscore,
    Bool.and_true]

def file_name (path : WidePath) : WidePath := path.rtakeWhile fun u => !isSlash u

theorem file_name_divide {directory name : WidePath} (h : ∀ u ∈ name, isSlash u = false) :
    file_name (divide directory name) = name := by
  have hfront : ∀ front : WidePath, front.getLast?.all isSlash →
      file_name (front ++ name) = name := by
    intro front hslash
    have hname : ∀ u ∈ name.reverse, (!isSlash u) = true := by
      intro u hu
      rw [h u (List.mem_reverse.mp hu)]
      rfl
    have hstop : front.reverse.takeWhile (fun u => !isSlash u) = [] := by
      cases hlast : front.reverse with
      | nil => rfl
      | cons u rest =>
        have hu : isSlash u := by
          rw [← List.head?_reverse, hlast] at hslash
          exact hslash
        rw [List.takeWhile_cons_of_neg (by rw [hu]; decide)]
    rw [file_name, List.rtakeWhile, List.reverse_append, List.takeWhile_append_of_pos hname, hstop,
      List.append_nil, List.reverse_reverse]
  rw [divide]
  by_cases hslash : directory.getLast?.all isSlash
  · rw [if_pos hslash]
    exact hfront directory hslash
  · rw [if_neg hslash, ← List.singleton_append, ← List.append_assoc]
    apply hfront
    rw [List.getLast?_concat]
    decide

namespace Volume
variable (volume : Volume)

/-- ASCII other than letters is in upper case, and nothing else has its upper case. -/
theorem upper_eq_iff {u v : UInt16} (hv : v < 128) (hletter : ¬ (65 ≤ v ∧ v ≤ 90))
    (hsmall : ¬ (97 ≤ v ∧ v ≤ 122)) : volume.upper u = v ↔ u = v := by
  have hself : volume.upper v = v := by rw [volume.ascii v hv, asciiUpper, if_neg hsmall]
  constructor
  · intro h
    by_cases hu : u < 128
    · rw [volume.ascii u hu, asciiUpper] at h
      by_cases hlower : 97 ≤ u ∧ u ≤ 122
      · -- A small letter has a capital one as its upper case.
        rw [if_pos hlower] at h
        refine absurd ?_ hletter
        rw [← h]
        simp only [UInt16.le_iff_toNat_le] at hlower ⊢
        have hsub : (u - 32).toNat = u.toNat - 32 :=
          UInt16.toNat_sub_of_le _ _ (UInt16.le_iff_toNat_le.mpr (le_trans (by decide) hlower.1))
        rw [hsub]
        obtain ⟨hlow, hhigh⟩ := hlower
        change 97 ≤ u.toNat at hlow
        change u.toNat ≤ 122 at hhigh
        change 65 ≤ u.toNat - 32 ∧ u.toNat - 32 ≤ 90
        omega
      · rwa [if_neg hlower] at h
    · rw [← h] at hv hletter
      exact absurd (volume.beyond u (UInt16.not_lt.mp hu) hv) hletter
  · rintro rfl
    exact hself

@[simp] theorem isSlash_upper (u : UInt16) : isSlash (volume.upper u) = isSlash u := by
  have hslash : volume.upper u = 47 ↔ u = 47 :=
    volume.upper_eq_iff (by decide) (by decide) (by decide)
  have hbackslash : volume.upper u = 92 ↔ u = 92 :=
    volume.upper_eq_iff (by decide) (by decide) (by decide)
  simp only [isSlash, hslash, hbackslash]

theorem file_append (a b : WidePath) : volume.file (a ++ b) = volume.file a ++ volume.file b :=
  List.map_append

theorem file_wide {bytes : Bytes}
    (h : ∀ b ∈ bytes, b < 128 ∧ ¬ (65 ≤ b ∧ b ≤ 90) ∧ ¬ (97 ≤ b ∧ b ≤ 122)) :
    volume.file (toWide bytes) = toWide bytes := by
  rw [file, toWide, List.map_map, List.map_inj_left]
  intro b hb
  obtain ⟨hascii, hcapital, hsmall⟩ := h b hb
  refine (volume.upper_eq_iff ?_ ?_ ?_).mpr rfl
  · rw [UInt16.lt_iff_toNat_lt, UInt8.toNat_toUInt16]
    exact UInt8.lt_iff_toNat_lt.mp hascii
  · rw [UInt16.le_iff_toNat_le, UInt16.le_iff_toNat_le, UInt8.toNat_toUInt16]
    rwa [UInt8.le_iff_toNat_le, UInt8.le_iff_toNat_le] at hcapital
  · rw [UInt16.le_iff_toNat_le, UInt16.le_iff_toNat_le, UInt8.toNat_toUInt16]
    rwa [UInt8.le_iff_toNat_le, UInt8.le_iff_toNat_le] at hsmall

theorem file_divide (directory name : WidePath) :
    volume.file (divide directory name) = divide (volume.file directory) (volume.file name) := by
  have hlast : (volume.file directory).getLast?.all isSlash = directory.getLast?.all isSlash := by
    rw [file, List.getLast?_map]
    cases directory.getLast? with
    | none => rfl
    | some u => exact volume.isSlash_upper u
  have hslash : volume.upper 92 = 92 :=
    (volume.upper_eq_iff (by decide) (by decide) (by decide)).mpr rfl
  rw [divide, divide, hlast]
  split_ifs
  · exact List.map_append
  · rw [file, List.map_append, List.map_cons, hslash]
    rfl

end Volume

/-- What follows the target in a name. -/
def ending (kind : Evidence) : Bytes := underscore :: kind.suffix ++ Utf8.bytes ".mp4"

theorem stem_eq (now : SystemTime) (metadata : EvidenceMetadata) (kind : Evidence) :
    stem now metadata kind =
      timestamp_for_filename now ++ (target_part metadata ++ ending kind) := by
  simp only [stem, ending, List.append_assoc, List.cons_append]

theorem plain_timestamp (now : SystemTime) : ∀ b ∈ timestamp_for_filename now,
    b < 128 ∧ ¬ (65 ≤ b ∧ b ≤ 90) ∧ ¬ (97 ≤ b ∧ b ≤ 122) := by
  have hfield : ∀ width n, ∀ b ∈ field width n,
      b < 128 ∧ ¬ (65 ≤ b ∧ b ≤ 90) ∧ ¬ (97 ≤ b ∧ b ≤ 122) := by
    intro width n b hb
    have hdigit := isDigitByte_field b hb
    rw [isDigitByte, decide_eq_true_eq] at hdigit
    simp only [UInt8.le_iff_toNat_le, UInt8.lt_iff_toNat_lt] at hdigit ⊢
    obtain ⟨hlow, hhigh⟩ := hdigit
    change 48 ≤ b.toNat at hlow
    change b.toNat ≤ 57 at hhigh
    change b.toNat < 128 ∧ ¬ (65 ≤ b.toNat ∧ b.toNat ≤ 90) ∧ ¬ (97 ≤ b.toNat ∧ b.toNat ≤ 122)
    omega
  have hhyphen : hyphen < 128 ∧ ¬ (65 ≤ hyphen ∧ hyphen ≤ 90) ∧ ¬ (97 ≤ hyphen ∧ hyphen ≤ 122) := by
    decide
  have hunderscore : underscore < 128 ∧ ¬ (65 ≤ underscore ∧ underscore ≤ 90) ∧
      ¬ (97 ≤ underscore ∧ underscore ≤ 122) := by
    decide
  simp only [timestamp_for_filename, List.forall_mem_append, List.forall_mem_cons]
  exact ⟨hfield _ _, hhyphen, hfield _ _, hhyphen, hfield _ _, hunderscore, hfield _ _, hhyphen,
    hfield _ _, hhyphen, hfield _ _⟩

theorem isAscii_ending (kind : Evidence) : IsAscii (ending kind) := by
  cases kind <;> decide +kernel

namespace NarrowNames

variable (names : NarrowNames)

/-- The path of a new file, if its name converts. -/
def evidence_filename (directory : WidePath) (now : SystemTime) (metadata : EvidenceMetadata)
    (kind : Evidence) : Option WidePath :=
  (names.page.decode (stem now metadata kind)).map (divide directory)

variable {names}

theorem decode_stem (now : SystemTime) (metadata : EvidenceMetadata) (kind : Evidence) :
    names.page.decode (stem now metadata kind) =
      (names.page.decode (target_part metadata)).map fun part =>
        toWide (timestamp_for_filename now) ++ (part ++ toWide (ending kind)) := by
  rw [stem_eq, names.left _ _ fun b hb => (plain_timestamp now b hb).1,
    names.right _ _ (isAscii_ending kind), Option.map_map]
  rfl

/-- The target in a name is missing, or begins with the underscore. -/
theorem target_part_cases {metadata : EvidenceMetadata} {part : WidePath}
    (h : names.page.decode (target_part metadata) = some part) :
    part = [] ∨ ∃ rest, part = underscore.toUInt16 :: rest := by
  rw [target_part] at h
  split_ifs at h
  · rw [names.page.decode_encode _ _ names.page.encode_nil, Option.some_inj] at h
    exact .inl h.symm
  all_goals
    have hone : IsAscii [underscore] := List.forall_mem_singleton.mpr (by decide)
    rw [List.cons_append, ← List.singleton_append, names.left _ _ hone] at h
    obtain ⟨rest, -, rfl⟩ := Option.map_eq_some_iff.mp h
    exact .inr ⟨rest, rfl⟩

theorem evidence_filename_ne_nil {directory path : WidePath} {now : SystemTime}
    {metadata : EvidenceMetadata} {kind : Evidence}
    (h : names.evidence_filename directory now metadata kind = some path) : path ≠ [] := by
  rw [evidence_filename, decode_stem, Option.map_map] at h
  obtain ⟨part, -, rfl⟩ := Option.map_eq_some_iff.mp h
  simp only [Function.comp_apply, divide, ending, toWide]
  split_ifs <;> simp

theorem file_part_ending (volume : Volume) {metadata : EvidenceMetadata} {part : WidePath}
    (kind : Evidence) (h : names.page.decode (target_part metadata) = some part) :
    ∃ rest, volume.file (part ++ toWide (ending kind)) = underscore.toUInt16 :: rest := by
  have hunderscore : volume.upper underscore.toUInt16 = underscore.toUInt16 :=
    (volume.upper_eq_iff (by decide) (by decide) (by decide)).mpr rfl
  rcases target_part_cases h with rfl | ⟨rest, rfl⟩
  · exact ⟨_, by rw [List.nil_append, ending, toWide, Volume.file, List.cons_append,
      List.map_cons, List.map_cons, hunderscore]⟩
  · exact ⟨_, by rw [List.cons_append, Volume.file, List.map_cons, hunderscore]⟩

/-- The two kinds of names differ in upper case, too. -/
theorem ending_injective (volume : Volume) {kind kind' : Evidence}
    (h : volume.file (toWide (ending kind)) = volume.file (toWide (ending kind'))) :
    kind = kind' := by
  have hupper (kind : Evidence) :
      volume.file (toWide (ending kind)) = (toWide (ending kind)).map asciiUpper := by
    refine List.map_congr_left fun u hu => volume.ascii u ?_
    obtain ⟨b, hb, rfl⟩ := List.mem_map.mp hu
    rw [UInt16.lt_iff_toNat_lt, UInt8.toNat_toUInt16]
    exact UInt8.lt_iff_toNat_lt.mp (isAscii_ending kind b hb)
  have hdiffer : (toWide (ending .record)).map asciiUpper ≠
      (toWide (ending .replay)).map asciiUpper := by
    decide +kernel
  rw [hupper, hupper] at h
  cases kind with
  | record =>
    cases kind' with
    | record => rfl
    | replay => exact absurd h hdiffer
  | replay =>
    cases kind' with
    | record => exact absurd h.symm hdiffer
    | replay => rfl

/-- A name as the volume compares it tells the second, the target and the kind. -/
theorem name_inj (volume : Volume) {now now' : SystemTime}
    {metadata metadata' : EvidenceMetadata} {kind kind' : Evidence} {part part' : WidePath}
    (hpart : names.page.decode (target_part metadata) = some part)
    (hpart' : names.page.decode (target_part metadata') = some part')
    (h : volume.file (toWide (timestamp_for_filename now) ++ (part ++ toWide (ending kind))) =
      volume.file (toWide (timestamp_for_filename now') ++ (part' ++ toWide (ending kind')))) :
    now = now' ∧ volume.file part = volume.file part' ∧ kind = kind' := by
  obtain ⟨rest, hrest⟩ := file_part_ending volume kind hpart
  obtain ⟨rest', hrest'⟩ := file_part_ending volume kind' hpart'
  rw [volume.file_append, volume.file_append _ (part' ++ _), volume.file_wide (plain_timestamp now),
    volume.file_wide (plain_timestamp now'), hrest, hrest'] at h
  obtain ⟨hnow, hsame⟩ := timestamp_inj h
  have htail : volume.file part ++ volume.file (toWide (ending kind)) =
      volume.file part' ++ volume.file (toWide (ending kind')) := by
    rw [← volume.file_append, ← volume.file_append, hrest, hrest', hsame]
  have hlength : (volume.file (toWide (ending kind))).length =
      (volume.file (toWide (ending kind'))).length := by
    simp only [Volume.file, toWide, List.length_map]
    cases kind <;> cases kind' <;> decide +kernel
  obtain ⟨htarget, hend⟩ := List.append_inj' htail hlength
  exact ⟨hnow, htarget, ending_injective volume hend⟩

end NarrowNames

/-- A file that is to be opened: its kind, the local time, and the metadata at hand. -/
structure Naming where
  kind : Evidence
  now : SystemTime
  metadata : EvidenceMetadata

/-- One worker: its recording, the replay saves under way, the files it opened so far, and the
paths it gave to the upload queue. -/
structure Recorders where
  session : RecordingSession := {}
  saving : List EvidenceMetadata := []
  opened : List Naming := []
  jobs : List WidePath := []

inductive Recorders.Event where
  | record_start (metadata : EvidenceMetadata) (description : StreamDescription)
  | sample (sample : EncodedSample) (now : SystemTime) (opens writes : Bool)
  | record_stop (finalizes upload : Bool)
  | replay_save (metadata : EvidenceMetadata)
  | replay_written (metadata : EvidenceMetadata) (now : SystemTime)

namespace Recorders

/-- The names for a process, the volume of its files, and the two directories. -/
structure Setup where
  names : NarrowNames
  volume : Volume
  directory : Evidence → WidePath

variable (setup : Setup)

def path (naming : Naming) : Option WidePath :=
  setup.names.evidence_filename (setup.directory naming.kind) naming.now naming.metadata naming.kind

/-- The file that is found at the path. -/
def file (naming : Naming) : Option WidePath := (path setup naming).map setup.volume.file

/-- What is left of the target in a name, in upper case. -/
def target (naming : Naming) : Option WidePath :=
  (setup.names.page.decode (target_part naming.metadata)).map setup.volume.file

/-- The same second and the same target, as far as a name keeps it. -/
def Alike (a b : Naming) : Prop :=
  a.kind = b.kind ∧ a.now = b.now ∧ target setup a = target setup b

instance (a b : Naming) : Decidable (Alike setup a b) := inferInstanceAs (Decidable (_ ∧ _ ∧ _))

/-- The file that an event opens, if its name converts. -/
def naming (s : Recorders) : Event → Option Naming
  | .sample sample now _ _ =>
    if s.session.state = .WaitingForKeyframe ∧ sample.isVideoKeyframe then
      some ⟨.record, now, s.session.pending_metadata⟩
    else none
  | .replay_written metadata now =>
    if metadata ∈ s.saving then some ⟨.replay, now, metadata⟩ else none
  | _ => none

def filename (naming : Naming) : Option Filename :=
  (path setup naming).attach.map fun p => ⟨p.val, NarrowNames.evidence_filename_ne_nil p.property⟩

def opened_by (s : Recorders) (e : Event) : List Naming :=
  ((s.naming e).filter fun naming => (path setup naming).isSome).toList

def react (s : Recorders) : Event → Option Recorders
  | .record_start metadata description =>
    some { s with session := (s.session.start metadata description).1 }
  | .sample sample now opens writes =>
    let filename := filename setup ⟨.record, now, s.session.pending_metadata⟩
    some { s with
      session := s.session.on_sample setup.names.page sample ⟨filename, opens, writes⟩ }
  | .record_stop finalizes upload =>
    let (session, path) := s.session.stop setup.names.page finalizes
    some { s with
      session
      jobs := if upload then s.jobs ++ (path.filter fun path => path ≠ []).toList else s.jobs }
  | .replay_save metadata => some { s with saving := s.saving ++ [metadata] }
  | .replay_written metadata _ =>
    if metadata ∈ s.saving then some { s with saving := s.saving.erase metadata } else none

def machine : Machine Recorders Event where
  init := {}
  step s e := (s.react setup e).map fun t => { t with opened := s.opened ++ s.opened_by setup e }

/-- No two openings lead to one file, and the path of a job leads to that of one of them. -/
structure Distinct (s : Recorders) : Prop where
  opened : (s.opened.map (file setup)).Nodup
  jobs : ∀ job ∈ s.jobs, (s.opened.map (file setup)).count (some (setup.volume.file job)) = 1

/-- The file that an event opens is not like an earlier one. -/
def Apart (s : Recorders) (e : Event) : Prop :=
  ∀ new ∈ s.naming e, ∀ old ∈ s.opened, ¬ Alike setup old new

instance (s : Recorders) (e : Event) : Decidable (s.Apart setup e) :=
  inferInstanceAs (Decidable (∀ new ∈ s.naming e, ∀ old ∈ s.opened, ¬ Alike setup old new))

variable {setup}

/-- A file is its directory, its second, its target and its kind, in upper case. -/
theorem file_eq (naming : Naming) :
    file setup naming = (target setup naming).map fun target =>
      divide (setup.volume.file (setup.directory naming.kind))
        (toWide (timestamp_for_filename naming.now) ++
          (target ++ setup.volume.file (toWide (ending naming.kind)))) := by
  rw [file, path, NarrowNames.evidence_filename, NarrowNames.decode_stem, target, Option.map_map,
    Option.map_map, Option.map_map]
  refine congrArg (Option.map · _) (funext fun part => ?_)
  simp only [Function.comp_apply]
  rw [setup.volume.file_divide, setup.volume.file_append, setup.volume.file_append,
    setup.volume.file_wide (plain_timestamp naming.now)]

theorem file_eq_of_alike {a b : Naming} (h : Alike setup a b) : file setup a = file setup b := by
  obtain ⟨hkind, hnow, htarget⟩ := h
  rw [file_eq, file_eq, hkind, hnow, htarget]

/-- One file has one name, whatever the directories. -/
theorem alike_of_file {a b : Naming} {found : WidePath} (ha : file setup a = some found)
    (hb : file setup b = some found) : Alike setup a b := by
  have hname {c : Naming} (hc : file setup c = some found) :
      ∃ part, setup.names.page.decode (target_part c.metadata) = some part ∧
        file_name found = setup.volume.file
          (toWide (timestamp_for_filename c.now) ++ (part ++ toWide (ending c.kind))) := by
    rw [file, path, NarrowNames.evidence_filename, Option.map_map] at hc
    obtain ⟨name, hdecode, rfl⟩ := Option.map_eq_some_iff.mp hc
    have hplain := setup.names.slash _ _ hdecode (isPlain_stem c.now c.metadata c.kind)
    rw [NarrowNames.decode_stem] at hdecode
    obtain ⟨part, hpart, rfl⟩ := Option.map_eq_some_iff.mp hdecode
    refine ⟨part, hpart, ?_⟩
    rw [Function.comp_apply, setup.volume.file_divide]
    refine file_name_divide fun u hu => ?_
    obtain ⟨v, hv, rfl⟩ := List.mem_map.mp hu
    rw [setup.volume.isSlash_upper]
    exact hplain v hv
  obtain ⟨part, hpart, hfound⟩ := hname ha
  obtain ⟨part', hpart', hfound'⟩ := hname hb
  obtain ⟨hnow, htarget, hkind⟩ :=
    NarrowNames.name_inj setup.volume hpart hpart' (hfound.symm.trans hfound')
  refine ⟨hkind, hnow, ?_⟩
  rw [target, target, hpart, hpart', Option.map_some, Option.map_some, htarget]

end Recorders

namespace RecordingSession

theorem write_sample_path (session : RecordingSession) (sample : EncodedSample) (sink : Sink) :
    (session.write_sample sample sink).1.path = session.path := by
  rw [write_sample]
  by_cases hle : session.base_pts ≤ sample.pts
  · rw [if_pos hle]
    dsimp only
    split <;> rfl
  · rw [if_neg hle]

theorem begin_recording_path (page : CodePage) (session : RecordingSession) (sample : EncodedSample)
    (sink : Sink) : (session.begin_recording page sample sink).1.path =
      (sink.filename.map Filename.path).getD session.path := by
  rw [begin_recording]
  cases sink.filename with
  | none => rfl
  | some filename =>
    dsimp only
    split <;> rfl

theorem take_sample_path (page : CodePage) (session : RecordingSession) (sample : EncodedSample)
    (sink : Sink) : (session.take_sample page sample sink).1.path =
      if session.state = .WaitingForKeyframe ∧ sample.isVideoKeyframe then
        (sink.filename.map Filename.path).getD session.path
      else session.path := by
  rw [take_sample]
  cases hstate : session.state with
  | WaitingForKeyframe =>
    by_cases hkey : sample.isVideoKeyframe
    · simp only [hkey, not_true_eq_false, if_false, and_self, if_true]
      rw [← begin_recording_path page session sample sink]
      split_ifs
      · rfl
      · rw [write_sample_path]
    · simp only [hkey, not_false_eq_true, if_true, Bool.false_eq_true, and_false, if_false]
  | Recording =>
    rw [if_neg (show ¬ (RecordingState.Recording = .WaitingForKeyframe ∧
      sample.isVideoKeyframe) from fun h => RecordingState.noConfusion h.1)]
    exact write_sample_path session sample sink
  | Stopped => exact (if_neg fun h => RecordingState.noConfusion h.1).symm
  | Stopping => exact (if_neg fun h => RecordingState.noConfusion h.1).symm
  | Error => exact (if_neg fun h => RecordingState.noConfusion h.1).symm

theorem on_sample_path (page : CodePage) (session : RecordingSession) (sample : EncodedSample)
    (sink : Sink) : (session.on_sample page sample sink).path =
      if session.state = .WaitingForKeyframe ∧ sample.isVideoKeyframe then
        (sink.filename.map Filename.path).getD session.path
      else session.path := by
  rw [← take_sample_path page session sample sink, on_sample]
  split_ifs <;> rfl

theorem start_path (session : RecordingSession) (metadata : EvidenceMetadata)
    (description : StreamDescription) : (session.start metadata description).1.path = session.path ∨
      (session.start metadata description).1.path = [] := by
  rw [start]
  cases session.claim with
  | none => exact .inl rfl
  | some claimed => exact .inr rfl

theorem stop_path (page : CodePage) (session : RecordingSession) (finalizes : Bool) :
    (session.stop page finalizes).1.path = session.path ∧
      ∀ path ∈ (session.stop page finalizes).2, path = [] ∨ path = session.path := by
  have hbegin : session.begin_stop.path = session.path := by
    rw [begin_stop]
    split_ifs <;> rfl
  rw [stop]
  by_cases hstopped : session.state = .Stopped
  · rw [if_pos hstopped]
    exact ⟨rfl, fun path hpath => .inl (Option.some.inj hpath).symm⟩
  · rw [if_neg hstopped, end_stop]
    split_ifs
    · exact ⟨hbegin, fun path hpath => .inl (Option.some.inj hpath).symm⟩
    · refine ⟨hbegin, fun path hpath => .inr ?_⟩
      rcases Option.map_eq_some_iff.mp hpath with ⟨bytes, -, rfl⟩
      exact hbegin

end RecordingSession

namespace Recorders

variable (setup) in
/-- Whatever the worker knows of a path it has from a file it opened. -/
structure Inv (s : Recorders) : Prop where
  named : ∀ a ∈ s.opened, (path setup a).isSome
  session : s.session.path = [] ∨ some s.session.path ∈ s.opened.map (path setup)
  jobs : ∀ job ∈ s.jobs, some job ∈ s.opened.map (path setup)

variable {setup : Setup}

theorem filename_path (naming : Naming) :
    (filename setup naming).map Filename.path = path setup naming := by
  rw [filename, Option.map_map]
  exact Option.attach_map_subtype_val (path setup naming)

theorem session_step {s t : Recorders} {e : Event} (hstep : s.react setup e = some t) :
    t.session.path = s.session.path ∨ t.session.path = [] ∨
      some t.session.path ∈ (s.opened_by setup e).map (path setup) := by
  cases e with
  | record_start metadata description =>
    cases hstep
    rcases s.session.start_path metadata description with hsame | hnil
    · exact .inl hsame
    · exact .inr (.inl hnil)
  | sample sample now opens writes =>
    cases hstep
    dsimp only
    rw [RecordingSession.on_sample_path, filename_path]
    by_cases hopens : s.session.state = .WaitingForKeyframe ∧ sample.isVideoKeyframe
    · rw [if_pos hopens]
      cases hpath : path setup ⟨.record, now, s.session.pending_metadata⟩ with
      | none => exact .inl rfl
      | some p =>
        have hopened : s.opened_by setup (.sample sample now opens writes) =
            [⟨.record, now, s.session.pending_metadata⟩] := by
          simp [opened_by, naming, hopens, hpath]
        rw [hopened, List.map_singleton, hpath]
        exact .inr (.inr (List.mem_singleton.mpr rfl))
    · rw [if_neg hopens]
      exact .inl rfl
  | record_stop finalizes upload =>
    cases hstep
    exact .inl (s.session.stop_path setup.names.page finalizes).1
  | replay_save metadata =>
    cases hstep
    exact .inl rfl
  | replay_written metadata now =>
    rw [react] at hstep
    split_ifs at hstep
    cases hstep
    exact .inl rfl

theorem jobs_step {s t : Recorders} {e : Event} (hstep : s.react setup e = some t) :
    ∀ job ∈ t.jobs, job ∈ s.jobs ∨ job ≠ [] ∧ job = s.session.path := by
  cases e with
  | record_start metadata description =>
    cases hstep
    exact fun job hjob => .inl hjob
  | sample sample now opens writes =>
    cases hstep
    exact fun job hjob => .inl hjob
  | record_stop finalizes upload =>
    cases hstep
    intro job hjob
    dsimp only at hjob
    cases upload with
    | false => exact .inl hjob
    | true =>
      rcases List.mem_append.mp hjob with hold | hnew
      · exact .inl hold
      · obtain ⟨hpath, hne⟩ := Option.filter_eq_some_iff.mp (Option.mem_toList.mp hnew)
        rw [decide_eq_true_eq] at hne
        have hjob := (s.session.stop_path setup.names.page finalizes).2 job hpath
        exact .inr ⟨hne, hjob.resolve_left hne⟩
  | replay_save metadata =>
    cases hstep
    exact fun job hjob => .inl hjob
  | replay_written metadata now =>
    rw [react] at hstep
    split_ifs at hstep
    cases hstep
    exact fun job hjob => .inl hjob

theorem inv_step {s t : Recorders} {e : Event} (hI : s.Inv setup)
    (hstep : (machine setup).step s e = some t) : t.Inv setup := by
  obtain ⟨u, hreact, rfl⟩ := Option.map_eq_some_iff.mp hstep
  have hnamed : ∀ a ∈ s.opened_by setup e, (path setup a).isSome := by
    intro a ha
    exact (Option.filter_eq_some_iff.mp (Option.mem_toList.mp ha)).2
  refine ⟨List.forall_mem_append.mpr ⟨hI.named, hnamed⟩, ?_, ?_⟩
  · rw [List.map_append, List.mem_append]
    rcases session_step hreact with hsame | hnil | hnew
    · rw [hsame]
      exact hI.session.imp_right .inl
    · exact .inl hnil
    · exact .inr (.inr hnew)
  · intro job hjob
    rw [List.map_append, List.mem_append]
    rcases jobs_step hreact job hjob with hold | ⟨hne, rfl⟩
    · exact .inl (hI.jobs job hold)
    · exact .inl (hI.session.resolve_left hne)

/-- A file that is opened apart from the earlier ones is a new one, and one that is not is one of
them. -/
theorem nodup_append_iff {s : Recorders} {e : Event} (hI : s.Inv setup)
    (h : (s.opened.map (file setup)).Nodup) :
    ((s.opened ++ s.opened_by setup e).map (file setup)).Nodup ↔ s.Apart setup e := by
  rw [Apart, opened_by, List.map_append]
  cases hnaming : s.naming e with
  | none => simpa using h
  | some new =>
    cases hpath : path setup new with
    | none =>
      have hnone : Option.filter (fun naming => (path setup naming).isSome) (some new) = none := by
        simp [hpath]
      rw [hnone, Option.toList_none, List.map_nil, List.append_nil]
      refine iff_of_true h ?_
      rintro _ ⟨⟩ old hold halike
      have hsome := hI.named old hold
      have hfile := file_eq_of_alike halike
      rw [file, file, hpath, Option.map_none, Option.map_eq_none_iff] at hfile
      rw [hfile] at hsome
      cases hsome
    | some p =>
      have hfile : file setup new = some (setup.volume.file p) := by
        rw [file, hpath, Option.map_some]
      have hsome : Option.filter (fun naming => (path setup naming).isSome) (some new) =
          some new := by
        simp [hpath]
      rw [hsome, Option.toList_some, List.map_singleton, ← List.concat_eq_append,
        List.nodup_concat, and_iff_left h]
      constructor
      · rintro hnew _ ⟨⟩ old hold halike
        exact hnew (List.mem_map.mpr ⟨old, hold, file_eq_of_alike halike⟩)
      · intro hapart hmem
        obtain ⟨old, hold, hsame⟩ := List.mem_map.mp hmem
        exact hapart new rfl old hold (alike_of_file (hsame.trans hfile) hfile)

theorem nodup_runFrom_iff {s t : Recorders} {events : List Event} (hI : s.Inv setup)
    (hrun : (machine setup).runFrom s events = some t) :
    (t.opened.map (file setup)).Nodup ↔
      (s.opened.map (file setup)).Nodup ∧ (machine setup).Along (Apart setup) s events := by
  induction events generalizing s with
  | nil =>
    cases hrun
    exact (and_iff_left trivial).symm
  | cons e events ih =>
    rcases (machine setup).runFrom_cons.mp hrun with ⟨m, hm, hrest⟩
    obtain ⟨u, hreact, hu⟩ := Option.map_eq_some_iff.mp hm
    have hopened : m.opened = s.opened ++ s.opened_by setup e := by rw [← hu]
    rw [ih (inv_step hI hm) hrest, hopened, Machine.along_cons]
    constructor
    · rintro ⟨hnodup, halong⟩
      have hbefore : (s.opened.map (file setup)).Nodup := by
        rw [List.map_append] at hnodup
        exact hnodup.of_append_left
      refine ⟨hbefore, (nodup_append_iff hI hbefore).mp hnodup, ?_⟩
      intro t ht
      cases hm.symm.trans ht
      exact halong
    · rintro ⟨hbefore, hapart, halong⟩
      exact ⟨(nodup_append_iff hI hbefore).mpr hapart, halong m hm⟩

theorem inv_init : (machine setup).init.Inv setup := by
  refine ⟨?_, .inl rfl, ?_⟩
  · intro a ha
    cases ha
  · intro job hjob
    cases hjob

/-- A process on Windows-1251. -/
def windowsNames : NarrowNames where
  page := CodePage.windows1251
  left := CodePage.Table.decode_ascii_append
  right := CodePage.Table.decode_append_ascii
  slash := by
    intro bytes units hdecode hplain u hu
    rw [isSlash, decide_eq_false_iff_not]
    rintro (rfl | rfl)
    · have hmem : (47 : UInt8) ∈ bytes :=
        CodePage.Table.mem_of_mem_decode (by decide +kernel) hdecode (by decide) hu
      exact absurd (List.all_eq_true.mp hplain 47 hmem) (by decide)
    · have hmem : (92 : UInt8) ∈ bytes :=
        CodePage.Table.mem_of_mem_decode (by decide +kernel) hdecode (by decide) hu
      exact absurd (List.all_eq_true.mp hplain 92 hmem) (by decide)

/-- The upper case of Latin and Russian letters. -/
def windowsVolume : Volume where
  upper u := if 0x430 ≤ u ∧ u ≤ 0x44F then u - 32 else asciiUpper u
  ascii u hu := by
    have hlow : u.toNat < 128 := UInt16.lt_iff_toNat_lt.mp hu
    refine if_neg fun h => ?_
    have hhigh : 0x430 ≤ u.toNat := UInt16.le_iff_toNat_le.mp h.1
    omega
  beyond u hu hlow := by
    have hlarge : 128 ≤ u.toNat := UInt16.le_iff_toNat_le.mp hu
    have hsmall := UInt16.lt_iff_toNat_lt.mp hlow
    change _ < 128 at hsmall
    rw [asciiUpper] at hsmall
    split_ifs at hsmall with hrussian hlatin
    · have hfrom : 0x430 ≤ u.toNat := UInt16.le_iff_toNat_le.mp hrussian.1
      have hle : (32 : UInt16) ≤ u := UInt16.le_iff_toNat_le.mpr (le_trans (by decide) hfrom)
      rw [UInt16.toNat_sub_of_le _ _ hle] at hsmall
      change u.toNat - 32 < 128 at hsmall
      omega
    · have hto : u.toNat ≤ 122 := UInt16.le_iff_toNat_le.mp hlatin.2
      omega
    · omega

def gameSetup : Setup where
  names := windowsNames
  volume := windowsVolume
  directory
    | .record => Utf16.units "C:\\game\\grecord\\records"
    | .replay => Utf16.units "C:\\game\\grecord\\replays"

/-- Names that differ in letter case alone are alike. -/
example :
    Alike gameSetup ⟨.record, ⟨2026, 9, 4, 23, 15, 7⟩, { target_name := Utf8.bytes "Kate" }⟩
      ⟨.record, ⟨2026, 9, 4, 23, 15, 7⟩, { target_name := Utf8.bytes "KATE" }⟩ := by
  decide +kernel

/-- A recording of a keyframe at some second of a minute, given to the queue. -/
def recording (second : UInt16) : List Event :=
  [.record_start {} {}, .sample ⟨.video, 0, 1, true, []⟩ ⟨2026, 9, 4, 23, 15, second⟩ true true,
    .record_stop true true]

theorem twoSeconds_accepted : ((machine gameSetup).run (recording 7 ++ recording 8)).isSome := by
  decide +kernel

theorem oneSecond_accepted : ((machine gameSetup).run (recording 7 ++ recording 7)).isSome := by
  decide +kernel

def Event.now : Event → Option SystemTime
  | .sample _ now _ _ => some now
  | .replay_written _ now => some now
  | _ => none

def ClockSteady (events : List Event) : Prop :=
  (events.filterMap Event.now).Pairwise fun a b => a.members ≤ b.members

end Recorders
end GambitRecord.Recorder
