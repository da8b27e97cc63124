import GambitRecord.Library.LittleEndian
import Mathlib.Data.List.Infix

/-! # Streams of NAL units

The two framings of an H.264 access unit: start codes, with emulation prevention
inside the units, and big-endian length prefixes.
-/

namespace Library.NalUnits

abbrev Nal := List UInt8

/-- `nal_unit_type`, the low five bits of the header. -/
def unitType (nal : Nal) : UInt8 := nal.headD 0 &&& 0x1f

inductive StartCode where
  | short
  | long
  deriving DecidableEq

def StartCode.bytes : StartCode → List UInt8
  | .short => [0, 0, 1]
  | .long => [0, 0, 0, 1]

def annexB (units : List (StartCode × Nal)) : List UInt8 :=
  units.flatMap fun u => u.1.bytes ++ u.2

/-- A length as four bytes, the most significant one first. -/
def lengthField (n : ℕ) : List UInt8 := (LittleEndian.encode 4 n).reverse

def lengthPrefixed (units : List Nal) : List UInt8 :=
  units.flatMap fun u => lengthField u.length ++ u

/-- Emulation prevention: behind two zero bytes comes none below 3, and 3 only ahead of a byte that
needs it; a unit does not end with a zero byte. -/
structure Escaped (nal : Nal) : Prop where
  guarded : ∀ before c rest, nal = before ++ 0 :: 0 :: c :: rest →
    3 ≤ c ∧ (c = 3 → ∀ d ∈ rest.head?, d ≤ 3)
  last : nal.getLast? ≠ some 0

@[simp] theorem annexB_nil : annexB [] = [] := rfl

@[simp] theorem annexB_cons (code : StartCode) (nal : Nal) (units : List (StartCode × Nal)) :
    annexB ((code, nal) :: units) = code.bytes ++ (nal ++ annexB units) := by
  rw [annexB, List.flatMap_cons, List.append_assoc]
  rfl

@[simp] theorem lengthPrefixed_nil : lengthPrefixed [] = [] := rfl

@[simp] theorem lengthPrefixed_cons (nal : Nal) (units : List Nal) :
    lengthPrefixed (nal :: units) = lengthField nal.length ++ (nal ++ lengthPrefixed units) := by
  rw [lengthPrefixed, List.flatMap_cons, List.append_assoc]
  rfl

theorem annexB_ne_nil {units : List (StartCode × Nal)} (h : units ≠ []) : annexB units ≠ [] := by
  cases units with
  | nil => exact absurd rfl h
  | cons u units =>
    obtain ⟨code, nal⟩ := u
    cases code <;> simp [StartCode.bytes]

/-- A length field is four bytes, which read back as the length. -/
theorem lengthField_eq {n : ℕ} (h : n < 2 ^ 32) :
    ∃ a b c d, lengthField n = [a, b, c, d] ∧ LittleEndian.decode [d, c, b, a] = n := by
  have hlength : (LittleEndian.encode 4 n).length = 4 := LittleEndian.length_encode 4 n
  have hdecode : LittleEndian.decode (LittleEndian.encode 4 n) = n := LittleEndian.decode_encode h
  obtain ⟨d, c, b, a, hfield⟩ := List.length_eq_four.mp hlength
  rw [hfield] at hdecode
  exact ⟨a, b, c, d, by rw [lengthField, hfield]; rfl, hdecode⟩

theorem lengthField_decode (a b c d : UInt8) :
    lengthField (LittleEndian.decode [d, c, b, a]) = [a, b, c, d] := by
  have hencode : LittleEndian.encode 4 (LittleEndian.decode [d, c, b, a]) = [d, c, b, a] :=
    LittleEndian.encode_decode [d, c, b, a]
  rw [lengthField, hencode]
  rfl

theorem decode_lt (a b c d : UInt8) : LittleEndian.decode [d, c, b, a] < 2 ^ 32 := by
  have hlt : LittleEndian.decode [d, c, b, a] < 256 ^ 4 := LittleEndian.decode_lt [d, c, b, a]
  omega

/-- What a unit guards against stays out of its ends. -/
theorem Escaped.of_suffix {nal suffix : Nal} (h : Escaped nal) (hsuffix : suffix <:+ nal) :
    Escaped suffix := by
  obtain ⟨front, rfl⟩ := hsuffix
  constructor
  · intro before c rest hsplit
    apply h.guarded (front ++ before) c rest
    rw [hsplit, List.append_assoc]
  · intro hlast
    apply h.last
    rw [List.getLast?_append, hlast]
    rfl

end Library.NalUnits
