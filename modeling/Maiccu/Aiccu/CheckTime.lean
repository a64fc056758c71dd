import Maiccu.Lib.CText
import Maiccu.Lib.Word

/-!
# Clocks

`tic_checktime` of `tic.c`, which the TIC login and the AYIYA receiver share, and `atoi`. `time_t`
has 64 bits and `int` has 32, so every conversion to `int` wraps.
-/

namespace Maiccu.Tic

open Maiccu.Lib List

/-- `CLOCK_OFF`, the number of seconds a clock may be off. -/
def clockOff : ℤ := 120

/-- `currTime` is the value of `time(NULL)`. -/
def ticChecktime (currTime epochtime : ℤ) : ℤ :=
  let i :=
    if -clockOff ≤ currTime ∨ -clockOff ≤ epochtime then
      toInt32 (toInt32 (toInt32 currTime + clockOff * 2) -
        toInt32 (toInt32 epochtime + clockOff * 2))
    else toInt32 (toInt32 currTime - toInt32 epochtime)
  let i := if i < 0 then toInt32 (-i) else i
  if clockOff < i then i else 0

def clockDiff (currTime epochtime : ℤ) : ℤ := toInt32 (currTime - epochtime)

theorem clockDiff_shift (a b c : ℤ) :
    toInt32 (toInt32 (toInt32 a + c) - toInt32 (toInt32 b + c)) = clockDiff a b := by
  rw [toInt32_toInt32_add, toInt32_toInt32_add, toInt32_sub_toInt32, clockDiff]
  congr 1
  omega

theorem ticChecktime_eq (a b : ℤ) : ticChecktime a b =
    if clockOff < (if clockDiff a b < 0 then toInt32 (-clockDiff a b) else clockDiff a b)
    then (if clockDiff a b < 0 then toInt32 (-clockDiff a b) else clockDiff a b) else 0 := by
  simp only [ticChecktime, clockDiff_shift]
  rw [toInt32_sub_toInt32, ← clockDiff, ite_self]

theorem ticChecktime_zero {a b : ℤ} : ticChecktime a b = 0 ↔
    (-clockOff ≤ clockDiff a b ∧ clockDiff a b ≤ clockOff) ∨ clockDiff a b = -2147483648 := by
  have hlow := neg_le_toInt32 (a - b)
  have hhigh := toInt32_lt (a - b)
  rw [ticChecktime_eq]
  unfold clockDiff clockOff
  generalize toInt32 (a - b) = d at *
  by_cases hd : d = -2147483648
  · subst hd
    have hneg : toInt32 2147483648 = -2147483648 := by
      unfold toInt32
      rw [word_eq]
      decide
    simp [hneg]
  · have hneg : toInt32 (-d) = -d := toInt32_of_range (by omega) (by omega)
    split_ifs <;> omega

/-- The one difference too many is its own negative. -/
theorem checktime_within_iff (currTime epochtime : ℤ) : (ticChecktime currTime epochtime = 0 ↔
      -120 ≤ clockDiff currTime epochtime ∧ clockDiff currTime epochtime ≤ 120) ↔
      clockDiff currTime epochtime ≠ -2147483648 := by
  rw [ticChecktime_zero]
  unfold clockOff
  omega

theorem clock_off_by_half : ticChecktime 0 2147483648 = 0 ∧
    clockDiff 0 2147483648 = -2147483648 := by
  decide +kernel

/-! ## Reading a number -/

/-- `isspace` of the C locale. -/
def isSpace (c : UInt8) : Bool := c = 32 || (9 ≤ c && c ≤ 13)

def isDigit (c : UInt8) : Bool := 48 ≤ c && c ≤ 57

variable (s : List UInt8)

def decimal : ℕ := readDec (s.takeWhile isDigit)

/-- `strtol` for base ten: it saturates at the bounds of `long`. -/
def strtol : ℤ :=
  match s.dropWhile isSpace with
  | 45 :: ds => max (-9223372036854775808) (-(decimal ds : ℤ))
  | 43 :: ds => min 9223372036854775807 (decimal ds : ℤ)
  | ds => min 9223372036854775807 (decimal ds : ℤ)

/-- The value of `strtol` cut to an `int`. -/
def atoi : ℤ := toInt32 (strtol s)

theorem strtol_of_digits {s : List UInt8} (hs : ∀ c ∈ s, isDigit c = true) :
    strtol s = min 9223372036854775807 (decimal s : ℤ) := by
  have hspace : s.dropWhile isSpace = s := by
    cases s with
    | nil => rfl
    | cons c t =>
      refine dropWhile_cons_of_neg ?_
      have hc := hs c mem_cons_self
      revert hc
      unfold isDigit isSpace
      grind
  unfold strtol
  rw [hspace]
  split
  · exact nomatch hs 45 mem_cons_self
  · exact nomatch hs 43 mem_cons_self
  · rfl

example : strtol [32, 45, 49, 50, 120] = -12 := by decide

end Maiccu.Tic
