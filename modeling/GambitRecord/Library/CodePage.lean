import Mathlib.Data.List.GetD
import Mathlib.Data.List.Nodup
import GambitRecord.Library.Utf16
import GambitRecord.Library.Utf8

/-! # Code pages

The conversions between UTF-16 text and the bytes of a process's ANSI code page.
A character without a place in the page fails to convert; what converts is read
back as it was.
-/

namespace Library

structure CodePage where
  encode : List UInt16 → Option Bytes
  decode : Bytes → Option (List UInt16)
  decode_encode : ∀ units bytes, encode units = some bytes → decode bytes = some units
  encode_nil : encode [] = some []

namespace CodePage

/-- The units at the bytes from 128 on in a page of single bytes over ASCII. -/
structure Table where
  upper : List UInt16
  length_upper : upper.length = 128

namespace Table
variable (table : Table)

def encodeUnit (u : UInt16) : Option UInt8 :=
  if u < 128 then some u.toUInt8
  else if u ∈ table.upper then some (UInt8.ofNat (128 + table.upper.idxOf u))
  else none

def decodeByte (b : UInt8) : UInt16 :=
  if b < 128 then b.toUInt16 else table.upper.getD (b.toNat - 128) 0

theorem decodeByte_of_encodeUnit {u : UInt16} {b : UInt8} (h : table.encodeUnit u = some b) :
    table.decodeByte b = u := by
  unfold encodeUnit at h
  by_cases hu : u < 128
  · rw [if_pos hu, Option.some_inj] at h
    subst h
    have hlt : u.toNat < 128 := by simpa [UInt16.lt_iff_toNat_lt] using hu
    have hb : u.toUInt8 < 128 := by
      rw [UInt8.lt_iff_toNat_lt, UInt16.toNat_toUInt8]
      exact Nat.lt_of_le_of_lt (Nat.mod_le _ _) hlt
    rw [decodeByte, if_pos hb]
    apply UInt16.toNat_inj.mp
    rw [UInt8.toNat_toUInt16, UInt16.toNat_toUInt8]
    omega
  · rw [if_neg hu] at h
    by_cases hmem : u ∈ table.upper
    · rw [if_pos hmem, Option.some_inj] at h
      subst h
      have hidx : table.upper.idxOf u < 128 := by
        simpa [table.length_upper] using List.idxOf_lt_length_of_mem hmem
      have hnat : (UInt8.ofNat (128 + table.upper.idxOf u)).toNat = 128 + table.upper.idxOf u := by
        rw [UInt8.toNat_ofNat']
        omega
      have hb : ¬ UInt8.ofNat (128 + table.upper.idxOf u) < 128 := by
        rw [UInt8.lt_iff_toNat_lt, hnat]
        simp
      rw [decodeByte, if_neg hb, hnat, Nat.add_sub_cancel_left,
        List.getD_eq_getElem _ _ (List.idxOf_lt_length_of_mem hmem), List.getElem_idxOf]
    · rw [if_neg hmem] at h
      cases h

theorem map_decodeByte_of_encode {units : List UInt16} {bytes : Bytes}
    (h : units.mapM table.encodeUnit = some bytes) : bytes.map table.decodeByte = units := by
  induction units generalizing bytes with
  | nil =>
    cases h
    rfl
  | cons u us ih =>
    simp only [List.mapM_cons, Option.bind_eq_bind, Option.bind_eq_some_iff] at h
    rcases h with ⟨b, hb, bs, hbs, hbytes⟩
    cases hbytes
    rw [List.map_cons, ih hbs, table.decodeByte_of_encodeUnit hb]

/-- Where the upper half has no unit twice and none of ASCII, every byte is read back. -/
theorem encodeUnit_decodeByte (hnodup : table.upper.Nodup) (hupper : table.upper.all (128 ≤ ·))
    (b : UInt8) : table.encodeUnit (table.decodeByte b) = some b := by
  by_cases hb : b < 128
  · have hlt : b.toNat < 128 := UInt8.lt_iff_toNat_lt.mp hb
    have hunit : b.toUInt16 < 128 := by
      rw [UInt16.lt_iff_toNat_lt, UInt8.toNat_toUInt16]
      exact hlt
    rw [decodeByte, if_pos hb, encodeUnit, if_pos hunit]
    simp
  · have hlt : b.toNat - 128 < table.upper.length := by
      have := b.toNat_lt
      rw [table.length_upper]
      omega
    have hle : 128 ≤ b.toNat := Nat.le_of_not_lt fun h => hb (UInt8.lt_iff_toNat_lt.mpr h)
    have hhigh := of_decide_eq_true (List.all_eq_true.mp hupper _ (List.getElem_mem hlt))
    rw [decodeByte, if_neg hb, List.getD_eq_getElem _ _ hlt, encodeUnit,
      if_neg (UInt16.not_lt.mpr hhigh), if_pos (List.getElem_mem hlt), hnodup.idxOf_getElem]
    refine congrArg some (UInt8.toNat_inj.mp ?_)
    rw [UInt8.toNat_ofNat']
    have := b.toNat_lt
    omega

theorem mapM_encodeUnit_decodeByte (hnodup : table.upper.Nodup)
    (hupper : table.upper.all (128 ≤ ·)) (bytes : Bytes) :
    (bytes.map table.decodeByte).mapM table.encodeUnit = some bytes := by
  induction bytes with
  | nil => rfl
  | cons b bytes ih =>
    rw [List.map_cons, List.mapM_cons, table.encodeUnit_decodeByte hnodup hupper, ih]
    rfl

def page : CodePage where
  encode units := units.mapM table.encodeUnit
  decode bytes := some (bytes.map table.decodeByte)
  decode_encode _ _ h := congrArg some (table.map_decodeByte_of_encode h)
  encode_nil := rfl

variable {table}

theorem map_decodeByte_ascii {text : Bytes} (h : ∀ b ∈ text, b < 128) :
    text.map table.decodeByte = text.map UInt8.toUInt16 :=
  List.map_congr_left fun b hb => if_pos (h b hb)

/-- ASCII is itself at the beginning of a text, and at its end. -/
theorem decode_ascii_append (text bytes : Bytes) (h : ∀ b ∈ text, b < 128) :
    table.page.decode (text ++ bytes) =
      (table.page.decode bytes).map fun units => text.map UInt8.toUInt16 ++ units := by
  change some ((text ++ bytes).map table.decodeByte) = _
  rw [List.map_append, map_decodeByte_ascii h]
  rfl

theorem decode_append_ascii (bytes text : Bytes) (h : ∀ b ∈ text, b < 128) :
    table.page.decode (bytes ++ text) =
      (table.page.decode bytes).map fun units => units ++ text.map UInt8.toUInt16 := by
  change some ((bytes ++ text).map table.decodeByte) = _
  rw [List.map_append, map_decodeByte_ascii h]
  rfl

/-- A unit of ASCII comes from itself only. -/
theorem mem_of_mem_decode (hupper : table.upper.all (128 ≤ ·)) {bytes : Bytes}
    {units : List UInt16} (h : table.page.decode bytes = some units) {c : UInt8} (hc : c < 128)
    (hmem : c.toUInt16 ∈ units) : c ∈ bytes := by
  cases h
  obtain ⟨b, hb, hunit⟩ := List.mem_map.mp hmem
  rw [decodeByte] at hunit
  split_ifs at hunit with hlow
  · have hnat := congrArg UInt16.toNat hunit
    rw [UInt8.toNat_toUInt16, UInt8.toNat_toUInt16] at hnat
    rwa [← UInt8.toNat_inj.mp hnat]
  · have hlt : b.toNat - 128 < table.upper.length := by
      have := b.toNat_lt
      rw [table.length_upper]
      omega
    rw [List.getD_eq_getElem _ _ hlt] at hunit
    have hle := of_decide_eq_true (List.all_eq_true.mp hupper _ (List.getElem_mem hlt))
    rw [hunit, UInt16.le_iff_toNat_le, UInt8.toNat_toUInt16] at hle
    rw [UInt8.lt_iff_toNat_lt] at hc
    exact absurd hle (Nat.not_le_of_lt hc)

end Table

namespace Table
variable {table : Table}

theorem encode_append {us vs : List UInt16} {a b : Bytes} (hus : table.page.encode us = some a)
    (hvs : table.page.encode vs = some b) : table.page.encode (us ++ vs) = some (a ++ b) := by
  change us.mapM table.encodeUnit = some a at hus
  change vs.mapM table.encodeUnit = some b at hvs
  change (us ++ vs).mapM table.encodeUnit = some (a ++ b)
  rw [List.mapM_append, hus, hvs]
  rfl

theorem encode_ascii {text : List Char} (h : ∀ c ∈ text, c.toNat < 128) :
    table.page.encode (Utf16.encode text) = some (Utf8.encode text) := by
  induction text with
  | nil => rfl
  | cons c text ih =>
    rw [List.forall_mem_cons] at h
    have hone : table.page.encode (Utf16.encodeChar c) = some (String.utf8EncodeChar c) := by
      have hunit : UInt16.ofNat c.toNat < 128 := by
        rw [UInt16.lt_iff_toNat_lt, UInt16.toNat_ofNat']
        change c.toNat % 65536 < 128
        omega
      have hbyte : (UInt16.ofNat c.toNat).toUInt8 = UInt8.ofNat c.toNat := by
        apply UInt8.toNat_inj.mp
        rw [UInt16.toNat_toUInt8, UInt16.toNat_ofNat', UInt8.toNat_ofNat']
        omega
      rw [Utf16.encodeChar, if_pos (by omega), Utf8.utf8EncodeChar_of_lt h.1, ← hbyte]
      change [UInt16.ofNat c.toNat].mapM table.encodeUnit = _
      rw [List.mapM_cons, encodeUnit, if_pos hunit]
      rfl
    rw [Utf16.encode, List.flatMap_cons, Utf8.encode_cons]
    exact encode_append hone (ih h.2)

/-- A table of characters of the first plane that are all different and above ASCII. -/
structure Plain (table : Table) : Prop where
  nodup : table.upper.Nodup
  high : table.upper.all (128 ≤ ·)
  whole : table.upper.all fun u => ¬ Utf16.isHigh u ∧ ¬ Utf16.isLow u

/-- Every text in the page is read as characters, and these are written as it was. -/
theorem Plain.exists_text (h : table.Plain) (bytes : Bytes) :
    ∃ units text, table.page.decode bytes = some units ∧ Utf16.decode units = some text ∧
      table.page.encode (Utf16.encode text) = some bytes := by
  have hunit : ∀ u ∈ bytes.map table.decodeByte, ¬ Utf16.isHigh u ∧ ¬ Utf16.isLow u := by
    intro u hu
    obtain ⟨b, -, rfl⟩ := List.mem_map.mp hu
    have hb := b.toNat_lt
    rw [decodeByte]
    by_cases hlow : b < 128
    · have hlt : b.toNat < 128 := UInt8.lt_iff_toNat_lt.mp hlow
      rw [if_pos hlow]
      simp only [Utf16.isHigh, Utf16.isLow, UInt8.toNat_toUInt16, decide_eq_true_eq]
      omega
    · have hlt : b.toNat - 128 < table.upper.length := by
        rw [table.length_upper]
        omega
      rw [if_neg hlow, List.getD_eq_getElem _ _ hlt]
      exact of_decide_eq_true (List.all_eq_true.mp h.whole _ (List.getElem_mem hlt))
  have hdecode := Utf16.decode_plain hunit
  refine ⟨_, _, rfl, hdecode, ?_⟩
  rw [Utf16.encode_of_decode hdecode]
  exact table.mapM_encodeUnit_decodeByte h.nodup h.high bytes

end Table

def windows1251 : CodePage := Table.page
  { upper :=
      [0x0402, 0x0403, 0x201A, 0x0453, 0x201E, 0x2026, 0x2020, 0x2021,
        0x20AC, 0x2030, 0x0409, 0x2039, 0x040A, 0x040C, 0x040B, 0x040F,
        0x0452, 0x2018, 0x2019, 0x201C, 0x201D, 0x2022, 0x2013, 0x2014,
        0x0098, 0x2122, 0x0459, 0x203A, 0x045A, 0x045C, 0x045B, 0x045F,
        0x00A0, 0x040E, 0x045E, 0x0408, 0x00A4, 0x0490, 0x00A6, 0x00A7,
        0x0401, 0x00A9, 0x0404, 0x00AB, 0x00AC, 0x00AD, 0x00AE, 0x0407,
        0x00B0, 0x00B1, 0x0406, 0x0456, 0x0491, 0x00B5, 0x00B6, 0x00B7,
        0x0451, 0x2116, 0x0454, 0x00BB, 0x0458, 0x0405, 0x0455, 0x0457,
        0x0410, 0x0411, 0x0412, 0x0413, 0x0414, 0x0415, 0x0416, 0x0417,
        0x0418, 0x0419, 0x041A, 0x041B, 0x041C, 0x041D, 0x041E, 0x041F,
        0x0420, 0x0421, 0x0422, 0x0423, 0x0424, 0x0425, 0x0426, 0x0427,
        0x0428, 0x0429, 0x042A, 0x042B, 0x042C, 0x042D, 0x042E, 0x042F,
        0x0430, 0x0431, 0x0432, 0x0433, 0x0434, 0x0435, 0x0436, 0x0437,
        0x0438, 0x0439, 0x043A, 0x043B, 0x043C, 0x043D, 0x043E, 0x043F,
        0x0440, 0x0441, 0x0442, 0x0443, 0x0444, 0x0445, 0x0446, 0x0447,
        0x0448, 0x0449, 0x044A, 0x044B, 0x044C, 0x044D, 0x044E, 0x044F]
    length_upper := rfl }

theorem windows1251_plain : ∃ table : Table, windows1251 = table.page ∧ table.Plain :=
  ⟨_, rfl, by decide +kernel, by decide +kernel, by decide +kernel⟩

end CodePage
end Library
