import Mathlib.Data.List.Basic
import Mathlib.Algebra.Order.Group.Nat

/-! # Bits of bytes, most significant first

A byte is the list of its eight bits, a byte string the concatenation. The
shifts of a byte are described by what they do to that list.
-/

namespace Library.Bits

def ofByte (b : UInt8) : List Bool := List.ofFn fun i : Fin 8 => b.toBitVec.getMsbD i

def ofBytes (bytes : List UInt8) : List Bool := bytes.flatMap ofByte

/-- The left shift of a byte: what passes its top is lost. -/
def shiftLeft (b : UInt8) (n : ℕ) : UInt8 := ⟨b.toBitVec <<< n⟩

def shiftRight (b : UInt8) (n : ℕ) : UInt8 := ⟨b.toBitVec >>> n⟩

@[simp] theorem length_ofByte (b : UInt8) : (ofByte b).length = 8 := List.length_ofFn

@[simp] theorem getElem_ofByte (b : UInt8) (i : ℕ) (h : i < (ofByte b).length) :
    (ofByte b)[i] = b.toBitVec.getMsbD i := List.getElem_ofFn ..

@[simp] theorem ofBytes_nil : ofBytes [] = [] := rfl

@[simp] theorem ofBytes_cons (b : UInt8) (bytes : List UInt8) :
    ofBytes (b :: bytes) = ofByte b ++ ofBytes bytes := List.flatMap_cons ..

@[simp] theorem ofBytes_append (a b : List UInt8) : ofBytes (a ++ b) = ofBytes a ++ ofBytes b :=
  List.flatMap_append ..

@[simp] theorem length_ofBytes (bytes : List UInt8) : (ofBytes bytes).length = 8 * bytes.length := by
  induction bytes with
  | nil => rfl
  | cons b bytes ih =>
    rw [ofBytes_cons, List.length_append, length_ofByte, ih, List.length_cons]
    omega

theorem ofByte_injective {a b : UInt8} (h : ofByte a = ofByte b) : a = b := by
  apply UInt8.toBitVec_inj.mp
  apply BitVec.eq_of_getMsbD_eq
  intro i hi
  have ha : i < (ofByte a).length := by simpa using hi
  have hb : i < (ofByte b).length := by simpa using hi
  have hget := congrArg (fun bits => bits[i]?) h
  simp only [List.getElem?_eq_getElem ha, List.getElem?_eq_getElem hb, getElem_ofByte,
    Option.some_inj] at hget
  exact hget

theorem ofBytes_injective {a b : List UInt8} (h : ofBytes a = ofBytes b) : a = b := by
  induction a generalizing b with
  | nil =>
    have hlength := congrArg List.length h
    rw [length_ofBytes, length_ofBytes, List.length_nil] at hlength
    exact (List.length_eq_zero_iff.mp (by omega)).symm
  | cons x a ih =>
    cases b with
    | nil => simpa using congrArg List.length h
    | cons y b =>
      rw [ofBytes_cons, ofBytes_cons] at h
      obtain ⟨hxy, hab⟩ := List.append_inj h (by simp)
      rw [ofByte_injective hxy, ih hab]

theorem drop_ofBytes (bytes : List UInt8) (n : ℕ) :
    (ofBytes bytes).drop (8 * n) = ofBytes (bytes.drop n) := by
  induction n generalizing bytes with
  | zero => rfl
  | succ n ih =>
    cases bytes with
    | nil => simp
    | cons b bytes =>
      rw [ofBytes_cons, List.drop_succ_cons, ← ih bytes, Nat.mul_succ, Nat.add_comm,
        ← List.drop_drop, List.drop_left' (length_ofByte b)]

theorem take_ofBytes (bytes : List UInt8) (n : ℕ) :
    (ofBytes bytes).take (8 * n) = ofBytes (bytes.take n) := by
  induction n generalizing bytes with
  | zero => rfl
  | succ n ih =>
    cases bytes with
    | nil => simp
    | cons b bytes =>
      rw [ofBytes_cons, List.take_succ_cons, ofBytes_cons, ← ih bytes, Nat.mul_succ,
        List.take_append, length_ofByte, List.take_of_length_le (by simp)]
      congr 2

/-- Two bytes joined across a boundary: the end of the first and the start of the second. -/
theorem ofByte_or_shift (high low : UInt8) {m : ℕ} (hm : m < 8) :
    ofByte (shiftLeft high m ||| shiftRight low (8 - m)) =
      (ofByte high).drop m ++ (ofByte low).take m := by
  apply List.ext_getElem
  · simp
    omega
  · intro i hi _
    rw [length_ofByte] at hi
    rw [getElem_ofByte, List.getElem_append]
    simp only [shiftLeft, shiftRight, UInt8.toBitVec_or, BitVec.getMsbD_or,
      BitVec.getMsbD_shiftLeft, BitVec.getMsbD_ushiftRight]
    by_cases h : i < ((ofByte high).drop m).length
    · have hlt : i + m < 8 := by
        rw [List.length_drop, length_ofByte] at h
        omega
      have hsmall : i < 8 - m := by omega
      simp [hi, hsmall, Nat.add_comm m i]
    · have hge : 8 ≤ i + m := by
        rw [List.length_drop, length_ofByte] at h
        omega
      have hnot : ¬ i < 8 - m := by omega
      have hhigh : high.toBitVec.getMsbD (i + m) = false := BitVec.getMsbD_of_ge _ _ hge
      simp [hi, hnot, hhigh]

theorem ofByte_shiftLeft (b : UInt8) {m : ℕ} (hm : m ≤ 8) :
    ofByte (shiftLeft b m) = (ofByte b).drop m ++ List.replicate m false := by
  apply List.ext_getElem
  · simp
    omega
  · intro i hi _
    rw [length_ofByte] at hi
    rw [getElem_ofByte, List.getElem_append]
    simp only [shiftLeft, BitVec.getMsbD_shiftLeft]
    by_cases h : i + m < 8
    · have hsmall : i < 8 - m := by omega
      simp [hsmall, Nat.add_comm m i]
    · have hnot : ¬ i < 8 - m := by omega
      have hgone : b.toBitVec.getMsbD (i + m) = false :=
        BitVec.getMsbD_of_ge _ _ (Nat.le_of_not_lt h)
      simp [hnot, hgone]

theorem ofByte_shiftRight (b : UInt8) {m : ℕ} (hm : m ≤ 8) :
    ofByte (shiftRight b m) = List.replicate m false ++ (ofByte b).take (8 - m) := by
  apply List.ext_getElem
  · simp
    omega
  · intro i hi _
    rw [length_ofByte] at hi
    rw [getElem_ofByte, List.getElem_append]
    simp only [shiftRight, BitVec.getMsbD_ushiftRight]
    by_cases h : i < m
    · simp [h]
    · simp [h, hi]

theorem getMsbD_mask : ∀ m < 8, ∀ i < 8,
    (shiftRight 0x80 m).toBitVec.getMsbD i = decide (i = m) := by
  decide

theorem and_mask_ne_zero (b : UInt8) {m : ℕ} (hm : m < 8) :
    b &&& shiftRight 0x80 m ≠ 0 ↔ b.toBitVec.getMsbD m = true := by
  have hbit : ∀ i < 8, (b &&& shiftRight 0x80 m).toBitVec.getMsbD i =
      (b.toBitVec.getMsbD i && decide (i = m)) := by
    intro i hi
    rw [UInt8.toBitVec_and, BitVec.getMsbD_and, getMsbD_mask m hm i hi]
  constructor
  · intro hne
    by_contra hclear
    rw [Bool.not_eq_true] at hclear
    apply hne
    apply UInt8.toBitVec_inj.mp
    apply BitVec.eq_of_getMsbD_eq
    intro i hi
    rw [hbit i hi]
    by_cases him : i = m
    · simp [him, hclear]
    · simp [him]
  · intro hset hzero
    have hfalse := hbit m hm
    rw [hzero, hset] at hfalse
    simp at hfalse

theorem ofByte_of_lt {n : ℕ} (h : n < 16) :
    ofByte (UInt8.ofNat n) = List.replicate 4 false ++ (ofByte (UInt8.ofNat n)).drop 4 := by
  have hall : ∀ m < 16, ofByte (UInt8.ofNat m) =
      List.replicate 4 false ++ (ofByte (UInt8.ofNat m)).drop 4 := by
    decide
  exact hall n h

/-- An accumulated disjunction is 0 exactly when all that goes into it is. -/
theorem foldl_or_eq_zero {ι : Type*} {f : ι → Int32} {l : List ι} {start : Int32} :
    l.foldl (fun acc i => acc ||| f i) start = 0 ↔ start = 0 ∧ ∀ i ∈ l, f i = 0 := by
  induction l generalizing start with
  | nil => simp
  | cons i l ih => rw [List.foldl_cons, ih, Int32.or_eq_zero_iff, List.forall_mem_cons, and_assoc]

theorem int32_ofNat_eq_iff {m n : ℕ} : Int32.ofNat m = Int32.ofNat n ↔ m % 2 ^ 32 = n % 2 ^ 32 := by
  rw [← Int32.toBitVec_inj, Int32.toBitVec_ofNat', Int32.toBitVec_ofNat', ← BitVec.toNat_inj,
    BitVec.toNat_ofNat, BitVec.toNat_ofNat]

end Library.Bits
