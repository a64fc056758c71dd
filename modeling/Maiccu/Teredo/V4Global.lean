import Maiccu.Teredo.Packets

/-!
# Global IPv4 addresses

The masks of `is_ipv4_global_unicast` (`v4global.c`) against the ranges that are named beside them.
-/

namespace Maiccu.Teredo

open Maiccu.Lib

/-- The address `a.b.c.d` is in none of the ranges, of which one is `192.88.t.0/24`. -/
def OutsideRanges (t a b c d : ℕ) : Prop :=
  a ≠ 0 ∧ a ≠ 10 ∧ a ≠ 127 ∧ ¬(a = 169 ∧ b = 254) ∧ ¬(a = 172 ∧ 16 ≤ b ∧ b ≤ 31) ∧
    ¬(a = 192 ∧ b = 168) ∧ ¬(a = 192 ∧ b = 88 ∧ c = t) ∧ ¬(224 ≤ a ∧ a ≤ 239) ∧
    ¬(a = 255 ∧ b = 255 ∧ c = 255 ∧ d = 255)

/-- A mask of `k` ones above `s` zeros. -/
theorem and_mask_eq_iff (x s k c : ℕ) :
    x &&& (2 ^ k - 1) <<< s = c <<< s ↔ x / 2 ^ s % 2 ^ k = c := by
  have hand : x &&& (2 ^ k - 1) <<< s = (x >>> s &&& (2 ^ k - 1)) <<< s := by
    apply Nat.eq_of_testBit_eq
    intro i
    by_cases hi : s ≤ i
    · simp [Nat.testBit_shiftLeft, hi, Bool.and_comm]
    · simp [Nat.testBit_shiftLeft, hi]
  rw [hand, Nat.and_two_pow_sub_one_eq_mod, Nat.shiftRight_eq_div_pow, Nat.shiftLeft_eq,
    Nat.shiftLeft_eq, Nat.mul_left_inj (Nat.two_pow_pos s).ne']

theorem isIpv4GlobalUnicast_iff (a b c d : UInt8) :
    isIpv4GlobalUnicast (bytes [a, b, c, d]) = true ↔
      OutsideRanges 98 a.toNat b.toNat c.toNat d.toNat := by
  have ha := a.toNat_lt
  have hb := b.toNat_lt
  have hc := c.toNat_lt
  have hd := d.toNat_lt
  have hsum : (ntohl (bytes [a, b, c, d])).toNat =
      a.toNat * 2 ^ 24 + b.toNat * 2 ^ 16 + c.toNat * 2 ^ 8 + d.toNat := by
    show ofBe [a, b, c, d] % 2 ^ 32 = _
    simp only [ofBe, List.foldl_cons, List.foldl_nil]
    omega
  unfold isIpv4GlobalUnicast
  simp only [bne_iff_ne, ne_eq, Bool.and_eq_true, Bool.ite_eq_true_distrib, Bool.false_eq_true,
    ← UInt32.toNat_inj, UInt32.toNat_and, UInt32.reduceToNat]
  generalize (ntohl (bytes [a, b, c, d])).toNat = x at *
  generalize a.toNat = a at *
  generalize b.toNat = b at *
  generalize c.toNat = c at *
  generalize d.toNat = d at *
  have hmask := and_mask_eq_iff x
  have h31 : x &&& 2147483648 = 0 ↔ a < 128 := (hmask 31 1 0).trans (by omega)
  have h30 : x &&& 1073741824 = 0 ↔ a / 64 % 2 = 0 := (hmask 30 1 0).trans (by omega)
  have h29 : x &&& 536870912 = 0 ↔ a / 32 % 2 = 0 := (hmask 29 1 0).trans (by omega)
  have h28 : x &&& 268435456 = 0 ↔ a / 16 % 2 = 0 := (hmask 28 1 0).trans (by omega)
  have h0 : x &&& 4278190080 = 0 ↔ a = 0 := (hmask 24 8 0).trans (by omega)
  have h10 : x &&& 4278190080 = 167772160 ↔ a = 10 := (hmask 24 8 10).trans (by omega)
  have h127 : x &&& 4278190080 = 2130706432 ↔ a = 127 := (hmask 24 8 127).trans (by omega)
  have h169 : x &&& 4294901760 = 2851995648 ↔ a = 169 ∧ b = 254 :=
    (hmask 16 16 43518).trans (by omega)
  have h172 : x &&& 4293918720 = 2886729728 ↔ a = 172 ∧ 16 ≤ b ∧ b ≤ 31 :=
    (hmask 20 12 2753).trans (by omega)
  have h192 : x &&& 4294901760 = 3232235520 ↔ a = 192 ∧ b = 168 :=
    (hmask 16 16 49320).trans (by omega)
  have h98 : x &&& 4294967040 = 3227017728 ↔ a = 192 ∧ b = 88 ∧ c = 98 :=
    (hmask 8 24 12605538).trans (by omega)
  have h255 : x = 4294967295 ↔ a = 255 ∧ b = 255 ∧ c = 255 ∧ d = 255 := by omega
  simp only [h31, h30, h29, h28, h0, h10, h127, h169, h172, h192, h98, h255]
  unfold OutsideRanges
  -- which of the four first bits is a zero
  split_ifs with hA hB hC hD
  · clear * - hA
    grind
  · have : 128 ≤ a ∧ a < 192 := by omega
    clear * - this
    grind
  · have : 192 ≤ a ∧ a < 224 := by omega
    clear * - this
    grind
  · have : 224 ≤ a ∧ a < 240 := by omega
    clear * - this
    grind
  · have : 240 ≤ a := by omega
    clear * - this
    grind

/-- The test keeps to the ranges but for `192.88.98.0/24`, which it has in the place of
`192.88.99.0/24`. -/
theorem ipv4_global_documented_iff (a b c d : UInt8) :
    (isIpv4GlobalUnicast (bytes [a, b, c, d]) = true ↔
      OutsideRanges 99 a.toNat b.toNat c.toNat d.toNat) ↔
      ¬(a = 192 ∧ b = 88 ∧ (c = 98 ∨ c = 99)) := by
  rw [isIpv4GlobalUnicast_iff]
  unfold OutsideRanges
  simp only [← UInt8.toNat_inj]
  show _ ↔ ¬(a.toNat = 192 ∧ b.toNat = 88 ∧ (c.toNat = 98 ∨ c.toNat = 99))
  grind

theorem relay_anycast_accepted :
    isIpv4GlobalUnicast (bytes [192, 88, 99, 1]) = true ∧ ¬OutsideRanges 99 192 88 99 1 ∧
      isIpv4GlobalUnicast (bytes [192, 88, 98, 1]) = false ∧ OutsideRanges 99 192 88 98 1 := by
  refine ⟨by decide, ?_, by decide, ?_⟩
  · simp [OutsideRanges]
  · simp [OutsideRanges]

end Maiccu.Teredo
