import Mathlib.Data.List.Basic

/-! # UTF-8 over byte lists

Whole byte strings are read character by character with the core library's
decoder. A byte string is valid exactly when it is the encoding of some text.
-/

namespace Library

abbrev Bytes := List UInt8

instance lawfulBEq_bytes : LawfulBEq Bytes := inferInstance

namespace Utf8

def decodeChar (bytes : List UInt8) : Option Char := bytes.toByteArray.utf8DecodeChar? 0

def encode (text : List Char) : List UInt8 := text.flatMap String.utf8EncodeChar

/-- The bytes of a string constant, kept folded in proofs. -/
@[irreducible] def bytes (constant : String) : Bytes := encode constant.toList

/-- The fuel is the number of bytes: every character takes at least one. -/
def decodeFuel : ℕ → List UInt8 → Option (List Char)
  | _, [] => some []
  | 0, _ :: _ => none
  | n + 1, b :: bs =>
    (decodeChar (b :: bs)).bind fun c =>
      (decodeFuel n ((b :: bs).drop c.utf8Size)).map fun cs => c :: cs

def decode (bytes : List UInt8) : Option (List Char) := decodeFuel bytes.length bytes

/-- The characters before the first byte that begins none. -/
def decodePrefix : ℕ → List UInt8 → List Char
  | _, [] => []
  | 0, _ :: _ => []
  | n + 1, b :: bs =>
    match decodeChar (b :: bs) with
    | none => []
    | some c => c :: decodePrefix n ((b :: bs).drop c.utf8Size)

def Valid (bytes : List UInt8) : Prop := (decode bytes).isSome

instance : DecidablePred Valid := fun bytes => inferInstanceAs (Decidable ((decode bytes).isSome))

@[simp] theorem encode_nil : encode [] = [] := rfl

theorem encode_cons (c : Char) (cs : List Char) :
    encode (c :: cs) = String.utf8EncodeChar c ++ encode cs := rfl

@[simp] theorem encode_append (cs ds : List Char) : encode (cs ++ ds) = encode cs ++ encode ds :=
  List.flatMap_append

theorem utf8EncodeChar_ne_nil (c : Char) : String.utf8EncodeChar c ≠ [] := by
  intro h
  have hlen := String.length_utf8EncodeChar c
  rw [h] at hlen
  exact absurd hlen (Nat.ne_of_lt c.utf8Size_pos)

theorem decodeChar_encode (c : Char) (rest : List UInt8) :
    decodeChar (String.utf8EncodeChar c ++ rest) = some c := by
  rw [decodeChar, List.toByteArray_append]
  exact ByteArray.utf8DecodeChar?_utf8EncodeChar_append

/-- What decodes starts with the character's own bytes. -/
theorem encode_of_decodeChar {bytes : List UInt8} {c : Char} (h : decodeChar bytes = some c) :
    bytes = String.utf8EncodeChar c ++ bytes.drop c.utf8Size := by
  rcases ByteArray.exists_of_utf8DecodeChar?_eq_some h with ⟨rest, hrest⟩
  have hbytes : bytes = String.utf8EncodeChar c ++ rest.data.toList := by
    have := congrArg (fun b => b.data.toList) hrest
    simpa using this
  rw [hbytes, List.drop_left' (String.length_utf8EncodeChar c)]

theorem decodeFuel_encode (cs : List Char) {n : ℕ} (h : (encode cs).length ≤ n) :
    decodeFuel n (encode cs) = some cs := by
  induction cs generalizing n with
  | nil => cases n <;> rfl
  | cons c cs ih =>
    rw [encode_cons] at h ⊢
    cases hb : String.utf8EncodeChar c ++ encode cs with
    | nil => exact absurd (List.append_eq_nil_iff.mp hb).1 (utf8EncodeChar_ne_nil c)
    | cons b bs =>
      have hlen := congrArg List.length hb
      have hpos := c.utf8Size_pos
      rw [List.length_append, String.length_utf8EncodeChar] at h hlen
      rw [List.length_cons] at hlen
      cases n with
      | zero => omega
      | succ n =>
        rw [decodeFuel, ← hb, decodeChar_encode, Option.bind_some,
          List.drop_left' (String.length_utf8EncodeChar c), ih (by omega), Option.map_some]

@[simp] theorem decode_encode (cs : List Char) : decode (encode cs) = some cs :=
  decodeFuel_encode cs (Nat.le_refl _)

theorem encode_of_decodeFuel {n : ℕ} {bytes : List UInt8} {cs : List Char}
    (h : decodeFuel n bytes = some cs) : encode cs = bytes := by
  induction n generalizing bytes cs with
  | zero =>
    cases bytes with
    | nil => cases h; rfl
    | cons b bs => cases h
  | succ n ih =>
    cases bytes with
    | nil => cases h; rfl
    | cons b bs =>
      simp only [decodeFuel, Option.bind_eq_some_iff, Option.map_eq_some_iff] at h
      rcases h with ⟨c, hc, ds, hds, rfl⟩
      rw [encode_cons, ih hds]
      exact (encode_of_decodeChar hc).symm

/-- Decoding is the inverse of encoding on everything it accepts. -/
theorem encode_of_decode {bytes : List UInt8} {cs : List Char} (h : decode bytes = some cs) :
    encode cs = bytes := encode_of_decodeFuel h

theorem encode_decodePrefix_prefix (n : ℕ) (bytes : List UInt8) :
    encode (decodePrefix n bytes) <+: bytes := by
  induction n generalizing bytes with
  | zero => cases bytes <;> exact List.nil_prefix
  | succ n ih =>
    cases bytes with
    | nil => exact List.nil_prefix
    | cons b bs =>
      cases hc : decodeChar (b :: bs) with
      | none =>
        simp only [decodePrefix, hc]
        exact List.nil_prefix
      | some c =>
        simp only [decodePrefix, hc]
        rw [encode_cons]
        nth_rewrite 2 [encode_of_decodeChar hc]
        exact (List.prefix_append_right_inj _).mpr (ih _)

theorem decodePrefix_of_decodeFuel {n : ℕ} {bytes : List UInt8} {cs : List Char}
    (h : decodeFuel n bytes = some cs) : decodePrefix n bytes = cs := by
  induction n generalizing bytes cs with
  | zero =>
    cases bytes with
    | nil => cases h; rfl
    | cons b bs => cases h
  | succ n ih =>
    cases bytes with
    | nil => cases h; rfl
    | cons b bs =>
      simp only [decodeFuel, Option.bind_eq_some_iff, Option.map_eq_some_iff] at h
      rcases h with ⟨c, hc, ds, hds, rfl⟩
      simp only [decodePrefix, hc, ih hds]

theorem bytes_inj {a b : String} : bytes a = bytes b ↔ a = b := by
  constructor
  · intro h
    unfold bytes at h
    have hdecode := congrArg decode h
    rw [decode_encode, decode_encode, Option.some_inj] at hdecode
    exact String.toList_injective hdecode
  · rintro rfl
    rfl

theorem valid_iff {bytes : List UInt8} : Valid bytes ↔ ∃ cs, encode cs = bytes := by
  constructor
  · intro h
    rcases Option.isSome_iff_exists.mp h with ⟨cs, hcs⟩
    exact ⟨cs, encode_of_decode hcs⟩
  · rintro ⟨cs, rfl⟩
    simp [Valid]

@[simp] theorem valid_encode (cs : List Char) : Valid (encode cs) := valid_iff.mpr ⟨cs, rfl⟩

@[simp] theorem valid_bytes (constant : String) : Valid (bytes constant) := by
  unfold bytes
  exact valid_encode _

@[simp] theorem valid_nil : Valid [] := valid_encode []

theorem Valid.append {a b : List UInt8} (ha : Valid a) (hb : Valid b) : Valid (a ++ b) := by
  obtain ⟨cs, rfl⟩ := valid_iff.mp ha
  obtain ⟨ds, rfl⟩ := valid_iff.mp hb
  rw [← encode_append]
  exact valid_encode _

/-- A byte below 128 stands for itself only. -/
theorem toNat_of_mem_utf8EncodeChar {c : Char} {b : UInt8} (h : b ∈ String.utf8EncodeChar c)
    (hb : b.toNat < 128) : c.toNat = b.toNat := by
  have hhigh : ∀ n : ℕ, 128 ≤ n → n < 256 → b ≠ UInt8.ofNat n := by
    rintro n hlo hn rfl
    rw [UInt8.toNat_ofNat'] at hb
    omega
  simp only [String.utf8EncodeChar] at h
  split_ifs at h with hascii
  · rw [List.mem_singleton] at h
    rw [h, UInt8.toNat_ofNat']
    change c.val.toNat = c.val.toNat % 2 ^ 8
    omega
  all_goals
    simp (disch := omega) only [List.mem_cons, List.not_mem_nil, hhigh, or_false] at h

theorem eq_newline_of_mem_utf8EncodeChar {c : Char} (h : 10 ∈ String.utf8EncodeChar c) :
    c = '\n' := Char.toNat_inj.mp (toNat_of_mem_utf8EncodeChar h (by decide))

theorem newline_mem_encode {text : List Char} (h : 10 ∈ encode text) : '\n' ∈ text := by
  rcases List.mem_flatMap.mp h with ⟨c, hc, hmem⟩
  rw [← eq_newline_of_mem_utf8EncodeChar hmem]
  exact hc

theorem exists_of_encode_append {cs text : List Char} {rest : List UInt8}
    (h : encode text = encode cs ++ rest) : ∃ ds, text = cs ++ ds ∧ encode ds = rest := by
  induction cs generalizing text with
  | nil => exact ⟨text, rfl, h⟩
  | cons c cs ih =>
    cases text with
    | nil =>
      have hnil := List.append_eq_nil_iff.mp h.symm
      rw [encode_cons] at hnil
      exact absurd (List.append_eq_nil_iff.mp hnil.1).1 (utf8EncodeChar_ne_nil c)
    | cons d text =>
      rw [encode_cons, encode_cons, List.append_assoc] at h
      have hchar := congrArg decodeChar h
      rw [decodeChar_encode, decodeChar_encode, Option.some_inj] at hchar
      rw [hchar, List.append_cancel_left_eq] at h
      rcases ih h with ⟨ds, rfl, hds⟩
      exact ⟨ds, by rw [hchar, List.cons_append], hds⟩

theorem utf8EncodeChar_of_lt {c : Char} (h : c.toNat < 128) :
    String.utf8EncodeChar c = [UInt8.ofNat c.toNat] := by
  have hascii : c.val.toNat ≤ 127 := Nat.le_of_lt_succ h
  simp only [String.utf8EncodeChar, hascii, if_true]
  rfl

theorem encode_ascii {text : List Char} (h : ∀ c ∈ text, c.toNat < 128) :
    encode text = text.map fun c => UInt8.ofNat c.toNat := by
  induction text with
  | nil => rfl
  | cons c text ih =>
    rw [List.forall_mem_cons] at h
    rw [encode_cons, utf8EncodeChar_of_lt h.1, ih h.2]
    rfl

theorem take_encode_ascii {text : List Char} (h : ∀ c ∈ text, c.toNat < 128) (n : ℕ) :
    (encode text).take n = encode (text.take n) := by
  rw [encode_ascii h, encode_ascii fun c hc => h c (List.mem_of_mem_take hc), List.map_take]

theorem drop_encode_ascii {text : List Char} (h : ∀ c ∈ text, c.toNat < 128) (n : ℕ) :
    (encode text).drop n = encode (text.drop n) := by
  rw [encode_ascii h, encode_ascii fun c hc => h c (List.mem_of_mem_drop hc), List.map_drop]

/-- A byte below 128 is in an encoded text only as its character. -/
theorem ascii_mem_encode {text : List Char} {c : Char} (hc : c.toNat < 128)
    (h : UInt8.ofNat c.toNat ∈ encode text) : c ∈ text := by
  obtain ⟨d, hd, hmem⟩ := List.mem_flatMap.mp h
  have hbyte : (UInt8.ofNat c.toNat).toNat = c.toNat := by
    rw [UInt8.toNat_ofNat']
    omega
  have hdc := toNat_of_mem_utf8EncodeChar hmem (by omega)
  rw [hbyte] at hdc
  rwa [← Char.toNat_inj.mp hdc]

/-- An encoded text that ends in a byte below 128 ends in its character. -/
theorem exists_of_encode_concat {cs : List Char} {front : List UInt8} {c : Char}
    (hc : c.toNat < 128) (h : encode cs = front ++ [UInt8.ofNat c.toNat]) :
    ∃ ds, cs = ds ++ [c] ∧ encode ds = front := by
  rcases List.eq_nil_or_concat' cs with rfl | ⟨ds, d, rfl⟩
  · simp at h
  · have hone : encode [d] = String.utf8EncodeChar d := List.append_nil _
    rw [encode_append, hone] at h
    have hlast := congrArg List.getLast? h
    rw [List.getLast?_append_of_ne_nil _ (utf8EncodeChar_ne_nil d), List.getLast?_concat] at hlast
    have hmem := List.mem_of_getLast? hlast
    have hbyte : (UInt8.ofNat c.toNat).toNat = c.toNat := by
      rw [UInt8.toNat_ofNat']
      omega
    have hd := toNat_of_mem_utf8EncodeChar hmem (by omega)
    have hdc : d = c := Char.toNat_inj.mp (hd.trans hbyte)
    rw [hdc, utf8EncodeChar_of_lt hc] at h
    exact ⟨ds, by rw [hdc], (List.append_inj' h rfl).1⟩

/-- Up to a byte below 128 is up to its character. -/
theorem dropWhile_ne_encode {c : Char} (hc : c.toNat < 128) (text : List Char) :
    (encode text).dropWhile (· ≠ UInt8.ofNat c.toNat) = encode (text.dropWhile (· ≠ c)) := by
  have hbyte : (UInt8.ofNat c.toNat).toNat = c.toNat := by
    rw [UInt8.toNat_ofNat']
    omega
  induction text with
  | nil => rfl
  | cons d text ih =>
    by_cases hdc : d = c
    · rw [encode_cons, hdc, utf8EncodeChar_of_lt hc, List.singleton_append,
        List.dropWhile_cons_of_neg (by simp), List.dropWhile_cons_of_neg (by simp), encode_cons,
        utf8EncodeChar_of_lt hc, List.singleton_append]
    · have hother : ∀ b ∈ String.utf8EncodeChar d, decide (b ≠ UInt8.ofNat c.toNat) = true := by
        intro b hb
        apply decide_eq_true
        rintro rfl
        exact hdc (Char.toNat_inj.mp
          ((toNat_of_mem_utf8EncodeChar hb (by omega)).trans hbyte))
      rw [encode_cons, List.dropWhile_append_of_pos hother, ih,
        List.dropWhile_cons_of_pos (by simpa using hdc)]

theorem dropWhile_eq_encode {c : Char} (hc : c.toNat < 128) (text : List Char) :
    (encode text).dropWhile (· = UInt8.ofNat c.toNat) = encode (text.dropWhile (· = c)) := by
  have hbyte : (UInt8.ofNat c.toNat).toNat = c.toNat := by
    rw [UInt8.toNat_ofNat']
    omega
  induction text with
  | nil => rfl
  | cons d text ih =>
    by_cases hdc : d = c
    · rw [encode_cons, hdc, utf8EncodeChar_of_lt hc, List.singleton_append,
        List.dropWhile_cons_of_pos (by simp), List.dropWhile_cons_of_pos (by simp), ih]
    · rw [List.dropWhile_cons_of_neg (by simpa using hdc), encode_cons]
      obtain ⟨b, bs, hbytes⟩ := List.exists_cons_of_ne_nil (utf8EncodeChar_ne_nil d)
      have hb : b ≠ UInt8.ofNat c.toNat := by
        rintro rfl
        have hmem : UInt8.ofNat c.toNat ∈ String.utf8EncodeChar d := by
          rw [hbytes]
          exact List.mem_cons_self
        exact hdc (Char.toNat_inj.mp
          ((toNat_of_mem_utf8EncodeChar hmem (by omega)).trans hbyte))
      rw [hbytes, List.cons_append, List.dropWhile_cons_of_neg (by simpa using hb)]

end Utf8
end Library
