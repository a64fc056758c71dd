import Mathlib.Data.Int.Notation
import Mathlib.Data.Nat.Notation
import Mathlib.Tactic.Common

/-!
# Machine integers as numbers

Unsigned 32-bit values are natural numbers below `2 ^ 32`; `uadd` and `usub` wrap. Signed 32-bit
values are integers in the balanced range of `Int.bmod`.
-/

namespace Maiccu.Lib

/-- `2 ^ 32`, the modulus of `unsigned int`. -/
@[irreducible] def word : ℕ := 4294967296

theorem word_eq : word = 4294967296 := by unfold word; rfl

/-- Addition of `unsigned int`. -/
@[irreducible] def uadd (a b : ℕ) : ℕ := (a + b) % word

/-- Subtraction of `unsigned int`. -/
@[irreducible] def usub (a b : ℕ) : ℕ := (a + (word - b % word)) % word

/-- An `int` expression reduced to 32 bits. -/
def toInt32 (x : ℤ) : ℤ := x.bmod word

theorem usub_lt (a b : ℕ) : usub a b < word := by
  unfold usub
  exact Nat.mod_lt _ (by rw [word_eq]; decide)

theorem uadd_of_lt {a b : ℕ} (h : a + b < word) : uadd a b = a + b := by
  unfold uadd
  exact Nat.mod_eq_of_lt h

theorem usub_of_le {a b : ℕ} (h : b ≤ a) (ha : a < word) : usub a b = a - b := by
  rw [word_eq] at *
  unfold usub
  rw [word_eq]
  omega

theorem neg_le_toInt32 (x : ℤ) : -2147483648 ≤ toInt32 x := by
  have h := Int.le_bmod (x := x) (m := word) (by rw [word_eq]; decide)
  unfold toInt32
  rw [word_eq] at *
  omega

theorem toInt32_lt (x : ℤ) : toInt32 x < 2147483648 := by
  have h := Int.bmod_lt (x := x) (m := word) (by rw [word_eq]; decide)
  unfold toInt32
  rw [word_eq] at *
  omega

theorem toInt32_of_range {x : ℤ} (h : -2147483648 ≤ x) (h' : x < 2147483648) : toInt32 x = x := by
  apply Int.bmod_eq_of_le
  · rw [word_eq]; omega
  · rw [word_eq]; omega

theorem toInt32_sub_toInt32 (a b : ℤ) : toInt32 (toInt32 a - toInt32 b) = toInt32 (a - b) := by
  unfold toInt32
  rw [Int.bmod_sub_bmod, Int.sub_bmod_bmod]

theorem toInt32_toInt32_add (a b : ℤ) : toInt32 (toInt32 a + b) = toInt32 (a + b) := by
  unfold toInt32
  rw [Int.bmod_add_bmod]

theorem toInt32_sub_emod (a b : ℤ) : toInt32 (a - b % word) = toInt32 (a - b) := by
  unfold toInt32
  rw [← Int.sub_bmod_bmod, Int.emod_bmod, Int.sub_bmod_bmod]

end Maiccu.Lib
