import Mathlib.Tactic.Ring

/-!
# Multiplication by adding and shifting

Two numbers of `w` bits are multiplied in one register of twice the width,
which holds the multiplier at first.  A round adds the multiplicand to the
upper half if the lowest bit is set, and then shifts the register, with the
carry of the addition, down by one.

After `k` rounds the register is the product with the `k` bits of the
multiplier that have been shifted out, above the bits that have not
(`partialProduct`).
-/

namespace CompE.Library.ShiftAdd

/-- The register after `k` rounds. -/
def partialProduct (w a b k : Nat) : Nat :=
  a * (b % 2 ^ k) * 2 ^ (w - k) + b / 2 ^ k

theorem partialProduct_zero (w a b : Nat) : partialProduct w a b 0 = b := by
  simp [partialProduct, Nat.mod_one]

theorem partialProduct_last {w b : Nat} (a : Nat) (h : b < 2 ^ w) :
    partialProduct w a b w = a * b := by
  rw [partialProduct, Nat.mod_eq_of_lt h, Nat.div_eq_of_lt h, Nat.sub_self,
    Nat.pow_zero, Nat.mul_one, Nat.add_zero]

/-- The bits of a number up to the next one. -/
theorem mod_two_pow_succ (b k : Nat) :
    b % 2 ^ (k + 1) = b % 2 ^ k + b / 2 ^ k % 2 * 2 ^ k := by
  rw [Nat.pow_succ, Nat.mod_mul, Nat.mul_comm (2 ^ k)]

theorem div_two_pow_succ (b k : Nat) : b / 2 ^ (k + 1) = b / 2 ^ k / 2 := by
  rw [Nat.pow_succ, Nat.div_div_eq_div_mul]

/-- The lowest bit is the next one of the multiplier. -/
theorem partialProduct_mod_two {w k : Nat} (a b : Nat) (h : k < w) :
    partialProduct w a b k % 2 = b / 2 ^ k % 2 := by
  obtain ⟨d, hWidth⟩ : ∃ d, w - k = d + 1 := ⟨w - k - 1, by omega⟩
  have hUpper : a * (b % 2 ^ k) * 2 ^ (w - k) =
      2 * (a * (b % 2 ^ k) * 2 ^ d) := by
    rw [hWidth, Nat.pow_succ]
    ring
  rw [partialProduct, hUpper, Nat.mul_add_mod]

/-- One round. -/
theorem partialProduct_succ {w k : Nat} (a b : Nat) (h : k < w) :
    partialProduct w a b (k + 1) =
      (partialProduct w a b k +
        partialProduct w a b k % 2 * (a * 2 ^ w)) / 2 := by
  obtain ⟨d, hWidth⟩ : ∃ d, w = k + (d + 1) := ⟨w - k - 1, by omega⟩
  have hHere : w - k = d + 1 := by omega
  have hNext : w - (k + 1) = d := by omega
  have hSum : partialProduct w a b k +
      partialProduct w a b k % 2 * (a * 2 ^ w) =
        2 * (a * (b % 2 ^ (k + 1)) * 2 ^ d) + b / 2 ^ k := by
    rw [partialProduct_mod_two a b h, partialProduct, hHere,
      mod_two_pow_succ, hWidth, Nat.pow_add 2 k, Nat.pow_succ 2 d]
    ring
  rw [hSum, Nat.mul_add_div Nat.two_pos, partialProduct, hNext,
    div_two_pow_succ]

end CompE.Library.ShiftAdd
