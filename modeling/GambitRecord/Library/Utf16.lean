import Mathlib.Data.List.Basic

/-! # UTF-16 over unit lists

Text as 16-bit units, with pairs of surrogates for the characters beyond the
basic plane. Units that decode are the encoding of what they decode to.
-/

namespace Library.Utf16

def encodeChar (c : Char) : List UInt16 :=
  if c.toNat < 0x10000 then [UInt16.ofNat c.toNat]
  else
    [UInt16.ofNat (0xD800 + (c.toNat - 0x10000) / 0x400),
      UInt16.ofNat (0xDC00 + (c.toNat - 0x10000) % 0x400)]

def encode (text : List Char) : List UInt16 := text.flatMap encodeChar

/-- The units of a string constant, kept folded in proofs. -/
@[irreducible] def units (constant : String) : List UInt16 := encode constant.toList

def isHigh (u : UInt16) : Bool := 0xD800 ≤ u.toNat ∧ u.toNat < 0xDC00

def isLow (u : UInt16) : Bool := 0xDC00 ≤ u.toNat ∧ u.toNat < 0xE000

/-- The number of the character behind a pair of surrogates. -/
def pair (high low : UInt16) : ℕ := 0x10000 + (high.toNat - 0xD800) * 0x400 + (low.toNat - 0xDC00)

def decode : List UInt16 → Option (List Char)
  | [] => some []
  | [u] => if isHigh u ∨ isLow u then none else some [Char.ofNat u.toNat]
  | u :: v :: us =>
    if isHigh u then
      if isLow v then (decode us).map fun cs => Char.ofNat (pair u v) :: cs else none
    else if isLow u then none
    else (decode (v :: us)).map fun cs => Char.ofNat u.toNat :: cs

/-- The characters of any units: a surrogate without its partner becomes U+FFFD. -/
def decodeLossy : List UInt16 → List Char
  | [] => []
  | [u] => [if isHigh u ∨ isLow u then '\uFFFD' else Char.ofNat u.toNat]
  | u :: v :: us =>
    if isHigh u ∧ isLow v then Char.ofNat (pair u v) :: decodeLossy us
    else (if isHigh u ∨ isLow u then '\uFFFD' else Char.ofNat u.toNat) :: decodeLossy (v :: us)

@[simp] theorem decodeLossy_eq_nil {units : List UInt16} : decodeLossy units = [] ↔ units = [] := by
  match units with
  | [] => simp [decodeLossy]
  | [u] => simp [decodeLossy]
  | u :: v :: us =>
    rw [decodeLossy]
    split_ifs <;> simp

theorem toNat_ofNat {n : ℕ} (h : n < 0xD800 ∨ 0xDFFF < n ∧ n < 0x110000) :
    (Char.ofNat n).toNat = n := by
  have hvalid : n.isValidChar := h
  rw [Char.ofNat, dif_pos hvalid]
  rfl

theorem encodeChar_unit {u : UInt16} (hhigh : ¬ isHigh u) (hlow : ¬ isLow u) :
    encodeChar (Char.ofNat u.toNat) = [u] := by
  have hlt := u.toNat_lt
  simp only [isHigh, isLow, decide_eq_true_eq] at hhigh hlow
  rw [encodeChar, toNat_ofNat (by omega), if_pos (by omega), UInt16.ofNat_toNat]

theorem encodeChar_pair {high low : UInt16} (hhigh : isHigh high) (hlow : isLow low) :
    encodeChar (Char.ofNat (pair high low)) = [high, low] := by
  simp only [isHigh, isLow, decide_eq_true_eq] at hhigh hlow
  have hpair : pair high low = 0x10000 + (high.toNat - 0xD800) * 0x400 + (low.toNat - 0xDC00) := rfl
  have hfirst : 0xD800 + (pair high low - 0x10000) / 0x400 = high.toNat := by omega
  have hsecond : 0xDC00 + (pair high low - 0x10000) % 0x400 = low.toNat := by omega
  rw [encodeChar, toNat_ofNat (by omega), if_neg (by omega), hfirst, hsecond, UInt16.ofNat_toNat,
    UInt16.ofNat_toNat]

theorem encode_of_decode {units : List UInt16} {cs : List Char} (h : decode units = some cs) :
    encode cs = units := by
  induction units using decode.induct generalizing cs with
  | case1 =>
    cases h
    rfl
  | case2 u hsurrogate => simp [decode, hsurrogate] at h
  | case3 u hsurrogate =>
    rw [decode, if_neg hsurrogate, Option.some_inj] at h
    rw [not_or] at hsurrogate
    rw [← h, encode, List.flatMap_singleton, encodeChar_unit hsurrogate.1 hsurrogate.2]
  | case4 u v us hhigh hlow ih =>
    rw [decode, if_pos hhigh, if_pos hlow, Option.map_eq_some_iff] at h
    rcases h with ⟨ds, hds, rfl⟩
    rw [encode, List.flatMap_cons, encodeChar_pair hhigh hlow, ← encode, ih hds]
    rfl
  | case5 u v us hhigh hlow => simp [decode, hhigh, hlow] at h
  | case6 u v us hhigh hlow => simp [decode, hhigh, hlow] at h
  | case7 u v us hhigh hlow ih =>
    rw [decode, if_neg hhigh, if_neg hlow, Option.map_eq_some_iff] at h
    rcases h with ⟨ds, hds, rfl⟩
    rw [encode, List.flatMap_cons, encodeChar_unit hhigh hlow, ← encode, ih hds]
    rfl

theorem toNat_unit {c : Char} (h : c.toNat < 0x10000) : (UInt16.ofNat c.toNat).toNat = c.toNat := by
  rw [UInt16.toNat_ofNat']
  omega

theorem decode_unit {c : Char} (h : c.toNat < 0x10000) (us : List UInt16) :
    decode (UInt16.ofNat c.toNat :: us) = (decode us).map (c :: ·) := by
  have hvalid : c.toNat < 0xD800 ∨ 0xDFFF < c.toNat ∧ c.toNat < 0x110000 := c.valid
  have hhigh : ¬ isHigh (UInt16.ofNat c.toNat) := by
    simp only [isHigh, toNat_unit h, decide_eq_true_eq]
    omega
  have hlow : ¬ isLow (UInt16.ofNat c.toNat) := by
    simp only [isLow, toNat_unit h, decide_eq_true_eq]
    omega
  have hchar : Char.ofNat (UInt16.ofNat c.toNat).toNat = c := by
    rw [toNat_unit h, Char.ofNat_toNat]
  cases us with
  | nil =>
    change decode [UInt16.ofNat c.toNat] = some [c]
    rw [decode, if_neg (not_or.mpr ⟨hhigh, hlow⟩), hchar]
  | cons v us => rw [decode, if_neg hhigh, if_neg hlow, hchar]

theorem decode_pair {c : Char} (h : ¬ c.toNat < 0x10000) (us : List UInt16) :
    decode (UInt16.ofNat (0xD800 + (c.toNat - 0x10000) / 0x400) ::
      UInt16.ofNat (0xDC00 + (c.toNat - 0x10000) % 0x400) :: us) = (decode us).map (c :: ·) := by
  have hvalid : c.toNat < 0xD800 ∨ 0xDFFF < c.toNat ∧ c.toNat < 0x110000 := c.valid
  have hfirst : (UInt16.ofNat (0xD800 + (c.toNat - 0x10000) / 0x400)).toNat =
      0xD800 + (c.toNat - 0x10000) / 0x400 := by
    rw [UInt16.toNat_ofNat']
    omega
  have hsecond : (UInt16.ofNat (0xDC00 + (c.toNat - 0x10000) % 0x400)).toNat =
      0xDC00 + (c.toNat - 0x10000) % 0x400 := by
    rw [UInt16.toNat_ofNat']
    omega
  generalize UInt16.ofNat (0xD800 + (c.toNat - 0x10000) / 0x400) = high at hfirst ⊢
  generalize UInt16.ofNat (0xDC00 + (c.toNat - 0x10000) % 0x400) = low at hsecond ⊢
  have hhigh : isHigh high := by
    simp only [isHigh, decide_eq_true_eq]
    omega
  have hlow : isLow low := by
    simp only [isLow, decide_eq_true_eq]
    omega
  have hpair : pair high low = c.toNat := by
    have hnumber : pair high low =
        0x10000 + (high.toNat - 0xD800) * 0x400 + (low.toNat - 0xDC00) := rfl
    omega
  rw [decode, if_pos hhigh, if_pos hlow, hpair, Char.ofNat_toNat]

@[simp] theorem decode_encode (text : List Char) : decode (encode text) = some text := by
  induction text with
  | nil => rfl
  | cons c text ih =>
    rw [encode, List.flatMap_cons, ← encode, encodeChar]
    by_cases h : c.toNat < 0x10000
    · rw [if_pos h, List.singleton_append, decode_unit h, ih]
      rfl
    · rw [if_neg h, List.cons_append, List.singleton_append, decode_pair h, ih]
      rfl

/-- Units that are no surrogates are the characters of their numbers. -/
theorem decode_plain {units : List UInt16} (h : ∀ u ∈ units, ¬ isHigh u ∧ ¬ isLow u) :
    decode units = some (units.map fun u => Char.ofNat u.toNat) := by
  induction units with
  | nil => rfl
  | cons u us ih =>
    rw [List.forall_mem_cons] at h
    cases us with
    | nil =>
      rw [decode, if_neg (not_or.mpr h.1)]
      rfl
    | cons v us =>
      rw [decode, if_neg h.1.1, if_neg h.1.2, ih h.2]
      rfl

end Library.Utf16
