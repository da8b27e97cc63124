import Mathlib.Algebra.Order.Group.Nat
import Mathlib.Algebra.Order.Ring.Int

/-! # Little-endian integers

Fixed-width integers as bytes, least significant first, and two's complement.
-/

namespace Library.LittleEndian

/-- The low `8 * n` bits of a number. -/
def encode : ℕ → ℕ → List UInt8
  | 0, _ => []
  | n + 1, v => UInt8.ofNat v :: encode n (v / 256)

def decode : List UInt8 → ℕ
  | [] => 0
  | b :: bs => b.toNat + 256 * decode bs

/-- Two's complement of 64 bits. -/
def ofInt64 (v : ℤ) : ℕ := (BitVec.ofInt 64 v).toNat

def toInt64 (n : ℕ) : ℤ := (BitVec.ofNat 64 n).toInt

@[simp] theorem length_encode (n v : ℕ) : (encode n v).length = n := by
  induction n generalizing v with
  | zero => rfl
  | succ n ih => rw [encode, List.length_cons, ih]

theorem decode_encode {n v : ℕ} (h : v < 256 ^ n) : decode (encode n v) = v := by
  induction n generalizing v with
  | zero =>
    rw [pow_zero] at h
    rw [encode, decode, Nat.lt_one_iff.mp h]
  | succ n ih =>
    rw [pow_succ, mul_comm] at h
    rw [encode, decode, ih (Nat.div_lt_of_lt_mul h), UInt8.toNat_ofNat']
    exact Nat.mod_add_div v 256

theorem encode_decode (bytes : List UInt8) : encode bytes.length (decode bytes) = bytes := by
  induction bytes with
  | nil => rfl
  | cons b bytes ih =>
    have hb : b.toNat < 256 := b.toNat_lt
    have hlow : UInt8.ofNat (b.toNat + 256 * decode bytes) = b := by
      rw [← UInt8.toNat_inj, UInt8.toNat_ofNat']
      omega
    have hhigh : (b.toNat + 256 * decode bytes) / 256 = decode bytes := by
      omega
    rw [decode, List.length_cons, encode, hlow, hhigh, ih]

theorem decode_lt (bytes : List UInt8) : decode bytes < 256 ^ bytes.length := by
  induction bytes with
  | nil => exact Nat.one_pos
  | cons b bytes ih =>
    have hb : b.toNat < 256 := b.toNat_lt
    rw [decode, List.length_cons, pow_succ]
    omega

theorem ofInt64_lt (v : ℤ) : ofInt64 v < 256 ^ 8 := (BitVec.ofInt 64 v).isLt

theorem toInt64_ofInt64 {v : ℤ} (hl : -2 ^ 63 ≤ v) (hu : v < 2 ^ 63) :
    toInt64 (ofInt64 v) = v := by
  rw [toInt64, ofInt64, BitVec.ofNat_toNat, BitVec.setWidth_eq, BitVec.toInt_ofInt]
  exact Int.bmod_eq_of_le (by omega) (by omega)

end Library.LittleEndian
