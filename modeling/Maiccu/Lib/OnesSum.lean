import Mathlib.Data.Nat.ModEq
import Maiccu.Lib.Bytes

/-!
# Ones' complement checksums

The checksum of a byte string is the complement of the ones' complement sum of its 16-bit words in
network order. The plain sum of the words is folded at the end (`fold`); a sum folded at each step,
or kept in the other byte order, is the same by `eq_fold`: a number below `2 ^ 16` is known by its
residue modulo `0xffff` and by whether it is zero.
-/

namespace Maiccu.Lib

/-- The sum of the 16-bit words of a byte string; a last odd byte is followed by zero. -/
def wordSum : List UInt8 → ℕ
  | [] => 0
  | [a] => 256 * a.toNat
  | a :: b :: r => 256 * a.toNat + b.toNat + wordSum r

/-- The ones' complement sum for a plain sum. -/
def fold (n : ℕ) : ℕ := if n = 0 then 0 else (n - 1) % 0xffff + 1

def onesChecksum (b : List UInt8) : ℕ := 0xffff - fold (wordSum b)

def swap16 (n : ℕ) : ℕ := n % 256 * 256 + n / 256

variable {m n : ℕ} {a b : List UInt8}

theorem eq_fold (hle : m ≤ 0xffff) (hmod : m ≡ n [MOD 0xffff]) (hzero : m = 0 ↔ n = 0) :
    m = fold n := by
  unfold Nat.ModEq at hmod
  unfold fold
  split_ifs with hn
  · exact hzero.mpr hn
  · have hm : m ≠ 0 := fun h => hn (hzero.mp h)
    omega

theorem swap16_modEq (n : ℕ) : swap16 n ≡ 256 * n [MOD 0xffff] := by
  unfold swap16 Nat.ModEq
  omega

theorem swap16_le (h : n ≤ 0xffff) : swap16 n ≤ 0xffff := by
  unfold swap16
  omega

theorem swap16_complement (h : n ≤ 0xffff) : swap16 (0xffff - n) = 0xffff - swap16 n := by
  obtain ⟨hi, lo, rfl, hlo, hhi⟩ : ∃ hi lo, n = 256 * hi + lo ∧ lo ≤ 255 ∧ hi ≤ 255 :=
    ⟨n / 256, n % 256, by omega, by omega, by omega⟩
  have hcompl : 0xffff - (256 * hi + lo) = 256 * (255 - hi) + (255 - lo) := by omega
  unfold swap16
  omega

theorem swap16_eq_zero_iff (h : n ≤ 0xffff) : swap16 n = 0 ↔ n = 0 := by
  unfold swap16
  omega

theorem be_two (n : ℕ) : be 2 n = [UInt8.ofNat (n / 256), UInt8.ofNat n] := by
  simp [be]

theorem be_swap16 (h : n ≤ 0xffff) : be 2 (swap16 n) = [UInt8.ofNat n, UInt8.ofNat (n / 256)] := by
  have hhigh : swap16 n / 256 = n % 256 := by
    unfold swap16
    omega
  have hlow : swap16 n % 256 = n / 256 % 256 := by
    unfold swap16
    omega
  rw [be_two, hhigh]
  congr 1
  · apply UInt8.toNat_inj.mp
    exact Nat.mod_mod n 256
  · congr 1
    apply UInt8.toNat_inj.mp
    exact hlow

theorem wordSum_be_append (h : n ≤ 0xffff) (b : List UInt8) :
    wordSum (be 2 n ++ b) = n + wordSum b := by
  rw [be_two]
  show 256 * (UInt8.ofNat (n / 256)).toNat + (UInt8.ofNat n).toNat + wordSum b = _
  rw [UInt8.toNat_ofNat', UInt8.toNat_ofNat']
  omega

theorem wordSum_append (ha : Even a.length) : wordSum (a ++ b) = wordSum a + wordSum b := by
  fun_induction wordSum a with
  | case1 => rw [List.nil_append, Nat.zero_add]
  | case2 x => exact absurd ha (show ¬ Even 1 by decide)
  | case3 x y r ih =>
    have hr : Even r.length := by
      simpa [Nat.even_add_one] using ha
    rw [List.cons_append, List.cons_append, wordSum, ih hr]
    omega

theorem fold_add_complement (n : ℕ) : fold (n + (0xffff - fold n)) = 0xffff := by
  by_cases hn : n = 0
  · subst hn
    rfl
  · have hfold : fold n = (n - 1) % 0xffff + 1 := if_neg hn
    have hmod := Nat.mod_lt (n - 1) (show 0 < 0xffff by decide)
    have hsum : n + (0xffff - ((n - 1) % 0xffff + 1)) - 1 = 0xfffe +
        0xffff * ((n - 1) / 0xffff) := by
      omega
    rw [fold, if_neg (by omega), hfold, hsum, Nat.add_mul_mod_self_left]

end Maiccu.Lib
