import Mathlib.Algebra.Order.Group.Nat
import Mathlib.Data.Nat.Log
import Mathlib.Tactic.SplitIfs

/-! # Rounding of natural numbers to binary64

The double nearest to a natural number, ties to the even significand. Every
double from `2 ^ 53` on that this rounding yields is itself a natural number,
so the result is given as one; overflow to infinity is not distinguished from
the large values next to it.
-/

namespace Library.Binary64

/-- The largest integer below which every integer is a double, `2 ^ 53 - 1`. -/
def maxSafe : ℕ := 2 ^ 53 - 1

/-- The quotient of `n` by `2 ^ k`, rounded to nearest with ties to even. -/
def roundQuotient (n k : ℕ) : ℕ :=
  if 2 ^ k < 2 * (n % 2 ^ k) ∨ 2 ^ k = 2 * (n % 2 ^ k) ∧ n / 2 ^ k % 2 = 1 then n / 2 ^ k + 1
  else n / 2 ^ k

/-- The double nearest to `n`. -/
def round (n : ℕ) : ℕ :=
  if n ≤ maxSafe then n else roundQuotient n (Nat.log 2 n - 52) * 2 ^ (Nat.log 2 n - 52)

theorem round_of_le {n : ℕ} (h : n ≤ maxSafe) : round n = n := if_pos h

theorem le_roundQuotient (n k : ℕ) : n / 2 ^ k ≤ roundQuotient n k := by
  rw [roundQuotient]
  split_ifs
  · exact Nat.le_succ _
  · exact le_rfl

/-- Rounding never comes down to a safe integer. -/
theorem round_le_maxSafe_iff {n : ℕ} : round n ≤ maxSafe ↔ n ≤ maxSafe := by
  constructor
  · intro h
    by_contra hlarge
    have hpow : 2 ^ 53 ≤ n := by
      rw [maxSafe] at hlarge
      omega
    have hlog : 53 ≤ Nat.log 2 n := Nat.le_log_of_pow_le (by decide) hpow
    have hsplit : 2 ^ Nat.log 2 n = 2 ^ 52 * 2 ^ (Nat.log 2 n - 52) := by
      rw [← Nat.pow_add]
      congr 1
      omega
    have hquotient : 2 ^ 52 ≤ n / 2 ^ (Nat.log 2 n - 52) := by
      rw [Nat.le_div_iff_mul_le (Nat.two_pow_pos _), ← hsplit]
      exact Nat.pow_log_le_self 2 (by omega)
    have hround : 2 ^ 53 ≤ round n := by
      calc
        2 ^ 53 ≤ 2 ^ Nat.log 2 n := Nat.pow_le_pow_right (by decide) hlog
        _ = 2 ^ 52 * 2 ^ (Nat.log 2 n - 52) := hsplit
        _ ≤ roundQuotient n (Nat.log 2 n - 52) * 2 ^ (Nat.log 2 n - 52) :=
          Nat.mul_le_mul_right _ (hquotient.trans (le_roundQuotient n _))
        _ = round n := (if_neg hlarge).symm
    rw [maxSafe] at h
    omega
  · intro h
    rwa [round_of_le h]

end Library.Binary64
