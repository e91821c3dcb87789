import Mathlib.Algebra.Order.Group.Nat

/-! # Unsigned 32-bit arithmetic

A C `unsigned int` is a natural number here. Only the operations which can leave the
range are reduced, each by the function below which the source's operator stands for.
-/

namespace MiniWebSrv.Word

/-- The number of `unsigned int` values. -/
def size32 : Nat := 4294967296

/-- `~(unsigned int)0` -/
def max32 : Nat := size32 - 1

/-- The value which an `unsigned int` keeps of `n`. -/
def u32 (n : Nat) : Nat := n % size32

/-- The value which an `unsigned long long` keeps of `n`. -/
def u64 (n : Nat) : Nat := n % 18446744073709551616

/-- `a - b` on `unsigned int`. -/
def sub32 (a b : Nat) : Nat := u32 (a + size32 - b)

theorem u32_lt (n : Nat) : u32 n < size32 := Nat.mod_lt n (by decide)

theorem u32_of_lt {n : Nat} (h : n < size32) : u32 n = n := Nat.mod_eq_of_lt h

theorem sub32_of_le {a b : Nat} (le : b ≤ a) (h : a < size32) : sub32 a b = a - b := by
  simp only [sub32, u32, size32] at *
  omega

/-- `ROUNDUP_POWEROFTWO`: clears the low bits of the sum. -/
def roundUpPowerOfTwo (val pow : Nat) : Nat :=
  let sum := u32 (val + (2 ^ pow - 1))
  sum - sum % 2 ^ pow

/-- Rounding up never loses bytes, as long as the sum stays in range. -/
theorem le_roundUpPowerOfTwo {val pow : Nat} (h : val + (2 ^ pow - 1) < size32) :
    val ≤ roundUpPowerOfTwo val pow := by
  have pos : 0 < 2 ^ pow := Nat.two_pow_pos pow
  have low := Nat.mod_lt (val + (2 ^ pow - 1)) pos
  simp only [roundUpPowerOfTwo, u32_of_lt h]
  omega

theorem roundUpPowerOfTwo_lt (val pow : Nat) : roundUpPowerOfTwo val pow < size32 := by
  have := u32_lt (val + (2 ^ pow - 1))
  simp only [roundUpPowerOfTwo]
  omega

end MiniWebSrv.Word
