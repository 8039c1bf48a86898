import Mathlib.Data.Nat.Notation
import Mathlib.Data.Int.Notation
import Mathlib.Tactic.Ring

/-!
# The machine words of the 32-bit build

`uint32_t`, `size_t` and `uintptr_t` are naturals below `2 ^ 32`, `int` and `long` are integers
from `-2 ^ 31` to `2 ^ 31 - 1`. Sums and products of unsigned values are wrapped by `u32`; `i32`
and `toU32` are the conversions between the two kinds, and `long` wraps a signed sum.
-/

namespace RpiBoot

/-- Wrap to `uint32_t`. -/
def u32 (n : ℕ) : ℕ := n % 2 ^ 32

/-- Convert an unsigned word to `int`. -/
def i32 (n : ℕ) : ℤ := if u32 n < 2 ^ 31 then (u32 n : ℤ) else (u32 n : ℤ) - 2 ^ 32

/-- Convert an `int` to an unsigned word. -/
def toU32 (z : ℤ) : ℕ := (z % 2 ^ 32).toNat

/-- Wrap to `long`. -/
def long (z : ℤ) : ℤ := i32 (toU32 z)

/-- The difference of two unsigned words. -/
def sub32 (m n : ℕ) : ℕ := u32 (m + 2 ^ 32 - u32 n)

/-- A division as the processor does it. -/
def checkedDiv (m n : ℕ) : Option ℕ := if n = 0 then none else some (m / n)

theorem u32_lt (n : ℕ) : u32 n < 2 ^ 32 := Nat.mod_lt _ (by decide)

theorem u32_of_lt {n : ℕ} (h : n < 2 ^ 32) : u32 n = n := Nat.mod_eq_of_lt h

@[simp] theorem u32_zero : u32 0 = 0 := rfl

@[simp] theorem u32_u32 (n : ℕ) : u32 (u32 n) = u32 n := Nat.mod_mod _ _

theorem i32_of_lt {n : ℕ} (h : n < 2 ^ 31) : i32 n = n := by
  rw [i32, u32_of_lt (by omega), if_pos h]

theorem i32_lt (n : ℕ) : i32 n < 2 ^ 31 := by
  have := u32_lt n
  unfold i32; split_ifs <;> omega

theorem le_i32 (n : ℕ) : -2 ^ 31 ≤ i32 n := by
  have := u32_lt n
  unfold i32; split_ifs <;> omega

theorem toU32_natCast {n : ℕ} (h : n < 2 ^ 32) : toU32 (n : ℤ) = n := by
  unfold toU32; omega

theorem toU32_of_neg {z : ℤ} (h₁ : -2 ^ 31 ≤ z) (h₂ : z < 0) : (toU32 z : ℤ) = z + 2 ^ 32 := by
  unfold toU32; omega

theorem toU32_lt (z : ℤ) : toU32 z < 2 ^ 32 := by unfold toU32; omega

theorem i32_toU32 {z : ℤ} (h₁ : -2 ^ 31 ≤ z) (h₂ : z < 2 ^ 31) : i32 (toU32 z) = z := by
  unfold i32 u32 toU32
  split_ifs <;> omega

theorem long_of_range {z : ℤ} (h₁ : -2 ^ 31 ≤ z) (h₂ : z < 2 ^ 31) : long z = z := i32_toU32 h₁ h₂

theorem sub32_of_le {m n : ℕ} (h : n ≤ m) (hm : m < 2 ^ 32) : sub32 m n = m - n := by
  unfold sub32 u32; omega

theorem checkedDiv_eq_some {m n q : ℕ} : checkedDiv m n = some q ↔ n ≠ 0 ∧ m / n = q := by
  rw [checkedDiv, Option.ite_none_left_eq_some, Option.some.injEq]

end RpiBoot
