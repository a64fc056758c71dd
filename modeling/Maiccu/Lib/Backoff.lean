import Mathlib.Algebra.Order.Ring.Nat

/-!
# Waits that are doubled

After a failure one tries again, the first time at once, and then after a delay that is doubled
after every `k` failures up to a maximum.
-/

namespace Maiccu.Lib

/-- The wait with the number `i`, from 0, for the delay `r` and its maximum `m`. -/
def backoff (k r m i : ℕ) : ℕ := if i = 0 then 0 else min (r * 2 ^ (i / k)) m

structure Backoff (k r m : ℕ) (ws : List ℕ) : Prop where
  first : ∀ w, ws[0]? = some w → w = 0
  doubled : ∀ i w, 0 < i → ws[i]? = some w → w = min (r * 2 ^ (i / k)) m
  ordered : ws.Pairwise (· ≤ ·)
  bounded : ∀ w ∈ ws, w ≤ m

variable {k r m i j : ℕ}

theorem backoff_mono (h : i ≤ j) : backoff k r m i ≤ backoff k r m j := by
  unfold backoff
  split_ifs with hi hj
  · rfl
  · exact Nat.zero_le _
  · omega
  · have hpow : 2 ^ (i / k) ≤ 2 ^ (j / k) :=
      Nat.pow_le_pow_right (by decide) (Nat.div_le_div_right h)
    exact min_le_min_right m (Nat.mul_le_mul_left r hpow)

theorem backoff_le : backoff k r m i ≤ m := by
  unfold backoff
  split_ifs
  · exact Nat.zero_le m
  · exact min_le_right _ _

theorem backoff_pos (hr : 0 < r) (hm : 0 < m) (hi : i ≠ 0) : 0 < backoff k r m i := by
  unfold backoff
  rw [if_neg hi, lt_min_iff]
  exact ⟨Nat.mul_pos hr (Nat.two_pow_pos _), hm⟩

theorem backoff_of_lt (hle : r ≤ m) (hi : i ≠ 0) (hlt : i < k) : backoff k r m i = r := by
  unfold backoff
  rw [if_neg hi, Nat.div_eq_of_lt hlt, pow_zero, mul_one, min_eq_left hle]

theorem lt_backoff (hk : 0 < k) (hr : 0 < r) (hlt : r < m) (hi : k ≤ i) : r < backoff k r m i := by
  have hpow : 2 ^ 1 ≤ 2 ^ (i / k) := Nat.pow_le_pow_right (by decide) (Nat.div_pos hi hk)
  have hmul := Nat.mul_le_mul_left r hpow
  unfold backoff
  rw [if_neg (by omega)]
  omega

theorem backoff_of_steady (h : min (r * 2) m = r) (k i : ℕ) :
    backoff k r m i = if i = 0 then 0 else r := by
  have hpow : ∀ n, min (r * 2 ^ n) m = r := by
    intro n
    induction n with
    | zero => omega
    | succ n ih =>
      rw [pow_succ, ← Nat.mul_assoc]
      omega
  unfold backoff
  rw [hpow]

theorem backoff_iff {ws : List ℕ} :
    Backoff k r m ws ↔ ∀ i w, ws[i]? = some w → w = backoff k r m i := by
  constructor
  · intro h i w hw
    unfold backoff
    split_ifs with hi
    · rw [hi] at hw
      exact h.first w hw
    · exact h.doubled i w (Nat.pos_of_ne_zero hi) hw
  · intro h
    refine ⟨fun w hw => h 0 w hw, fun i w hi hw => ?_, ?_, fun w hw => ?_⟩
    · have hw' := h i w hw
      unfold backoff at hw'
      rwa [if_neg (Nat.ne_of_gt hi)] at hw'
    · rw [List.pairwise_iff_getElem]
      intro i j hi hj hij
      rw [h i _ (List.getElem?_eq_getElem hi), h j _ (List.getElem?_eq_getElem hj)]
      exact backoff_mono hij.le
    · obtain ⟨i, hi⟩ := List.getElem?_of_mem hw
      rw [h i w hi]
      exact backoff_le

theorem forall_getElem?_cons {α : Type*} {p : ℕ → α → Prop} {x : α} {xs : List α} :
    (∀ j y, (x :: xs)[j]? = some y → p j y) ↔ p 0 x ∧ ∀ j y, xs[j]? = some y → p (j + 1) y := by
  constructor
  · exact fun h => ⟨h 0 x rfl, fun j y hy => h (j + 1) y hy⟩
  · rintro ⟨h₀, h⟩ j y hy
    cases j with
    | zero =>
      cases hy
      exact h₀
    | succ j => exact h j y hy

end Maiccu.Lib
