import Mathlib.Data.List.GetD
import Mathlib.Data.Vector.Basic
import Mathlib.Tactic.Ring

/-!
# Byte strings and numbers in network order

Byte strings of a fixed length, fields of a byte string, and numbers written with the most
significant byte or nibble first.
-/

namespace Maiccu.Lib

open List

abbrev Bytes (n : ℕ) := List.Vector UInt8 n

def bytes (b : List UInt8) : Bytes b.length := ⟨b, rfl⟩

/-- The `len` bytes of `b` from `off` on. -/
def slice (b : List UInt8) (off len : ℕ) : List UInt8 := (b.drop off).take len

variable {a b : List UInt8} {off len : ℕ}

theorem slice_append_of_le (h : off + len ≤ a.length) (b : List UInt8) :
    slice (a ++ b) off len = slice a off len := by
  unfold slice
  rw [drop_append_of_le_length (by omega),
    take_append_of_le_length (by rw [length_drop]; omega)]

theorem slice_append_right (h : a.length = off) (len : ℕ) :
    slice (a ++ b) off len = b.take len := by
  unfold slice
  rw [drop_left' h]

@[simp] theorem slice_length (h : off + len ≤ b.length) : (slice b off len).length = len := by
  unfold slice
  rw [length_take, length_drop]
  omega

theorem slice_append_drop (b : List UInt8) (off len : ℕ) :
    slice b off len ++ b.drop (off + len) = b.drop off := by
  unfold slice
  rw [← drop_drop, take_append_drop]

theorem slice_eq_drop (h : b.length ≤ off + len) : slice b off len = b.drop off := by
  unfold slice
  rw [take_of_length_le]
  rw [length_drop]
  omega

/-- The `n` bytes of `b` from `off` on; bytes past the end read as zero. -/
def field (b : List UInt8) (off n : ℕ) : Bytes n := List.Vector.ofFn fun i => b.getD (off + i) 0

theorem field_take {n m : ℕ} (h : off + n ≤ m) : field (b.take m) off n = field b off n := by
  unfold field
  congr 1
  funext i
  have hi : off + i < m := by omega
  simp only [getD_eq_getElem?_getD, getElem?_take_of_lt hi]

section Fields

variable {n : ℕ}

theorem toList_field (h : off + n ≤ b.length) : (field b off n).toList = slice b off n := by
  unfold field slice
  rw [List.Vector.toList_ofFn]
  apply ext_getElem
  · rw [length_ofFn, length_take, length_drop]
    omega
  · intro i hi hi'
    have hlt : off + i < b.length := by
      rw [length_ofFn] at hi
      omega
    simp [hlt]

theorem field_append_left (h : off + n ≤ a.length) (b : List UInt8) :
    field (a ++ b) off n = field a off n := by
  unfold field
  congr 1
  funext i
  exact getD_append _ _ _ _ (by omega)

theorem field_append_right (h : a.length ≤ off) (b : List UInt8) :
    field (a ++ b) off n = field b (off - a.length) n := by
  unfold field
  congr 1
  funext i
  rw [getD_append_right _ _ _ _ (by omega)]
  congr 1
  omega

@[simp] theorem field_toList {v : Bytes n} : field v.toList 0 n = v := by
  apply List.Vector.ext
  intro i
  have hi : i.val < v.toList.length := by
    rw [v.toList_length]
    exact i.isLt
  unfold field
  rw [List.Vector.get_ofFn, Nat.zero_add, getD_eq_getElem _ _ hi]
  exact (List.Vector.get_eq_get_toList v i).symm

end Fields

def setField {n : ℕ} (a : Bytes n) (off : ℕ) (b : List UInt8) : Bytes n :=
  List.Vector.ofFn fun i =>
    if off ≤ i ∧ i < off + b.length then b.getD (i - off) 0 else a.get i

section SetField

variable {n m k : ℕ} {a : Bytes n}

variable {i : ℕ}

theorem getD_field (hi : i < n) : (field b off n).toList.getD i 0 = b.getD (off + i) 0 := by
  unfold field
  rw [List.Vector.toList_ofFn, getD_eq_getElem _ _ (by simpa using hi), List.getElem_ofFn]

theorem getD_setField (hi : i < n) : (setField a off b).toList.getD i 0 =
    if off ≤ i ∧ i < off + b.length then b.getD (i - off) 0 else a.toList.getD i 0 := by
  unfold setField
  rw [List.Vector.toList_ofFn, getD_eq_getElem _ _ (by simpa using hi), List.getElem_ofFn]
  split_ifs with h
  · rfl
  · rw [getD_eq_getElem _ _ (by rw [a.toList_length]; exact hi)]
    exact List.Vector.get_eq_get_toList a ⟨i, hi⟩

theorem field_field (h : k + m ≤ n) : field (field b off n).toList k m = field b (off + k) m := by
  unfold field
  congr 1
  funext i
  rw [Nat.add_assoc]
  exact getD_field (show k + i < n by omega)

theorem field_add {c : List UInt8} (h : field b off n = field c off n)
    (h' : field b (off + n) m = field c (off + n) m) :
    field b off (n + m) = field c off (n + m) := by
  unfold field
  congr 1
  funext i
  by_cases hi : i < n
  · rw [← getD_field hi, ← getD_field hi, h]
  · have hm : i.val - n < m := by omega
    have hoff : off + i.val = off + n + (i - n) := by omega
    rw [hoff, ← getD_field hm, ← getD_field hm, h']

theorem field_setField_part {l : ℕ} (c : Bytes l) (h : off + l ≤ n) (hk : k + m ≤ l) :
    field (setField a off c.toList).toList (off + k) m = field c.toList k m := by
  unfold field
  congr 1
  funext i
  rw [getD_setField (by omega), if_pos (by rw [c.toList_length]; omega)]
  congr 1
  omega

theorem field_setField {c : Bytes m} (h : off + m ≤ n) :
    field (setField a off c.toList).toList off m = c :=
  (field_setField_part c h (Nat.zero_add m).le).trans field_toList

theorem field_setField_of_disjoint (h : k + m ≤ n) (hd : k + m ≤ off ∨ off + b.length ≤ k) :
    field (setField a off b).toList k m = field a.toList k m := by
  unfold field
  congr 1
  funext i
  rw [getD_setField (by omega), if_neg (by omega)]

end SetField

/-! ## Numbers -/

/-- The lowest `k` bytes of `x`, the most significant first. -/
def be : ℕ → ℕ → List UInt8
  | 0, _ => []
  | k + 1, x => UInt8.ofNat (x / 256 ^ k) :: be k x

def ofBe (b : List UInt8) : ℕ := b.foldl (fun n x => 256 * n + x.toNat) 0

@[simp] theorem be_length (k x : ℕ) : (be k x).length = k := by
  induction k with
  | zero => rfl
  | succ k ih => rw [be, length_cons, ih]

theorem foldl_ofBe (b : List UInt8) (n : ℕ) :
    b.foldl (fun n x => 256 * n + x.toNat) n = n * 256 ^ b.length + ofBe b := by
  induction b generalizing n with
  | nil => simp [ofBe]
  | cons x b ih =>
    unfold ofBe
    rw [foldl_cons, foldl_cons, ih, ih (256 * 0 + x.toNat), length_cons]
    ring

theorem ofBe_cons (x : UInt8) (b : List UInt8) :
    ofBe (x :: b) = x.toNat * 256 ^ b.length + ofBe b := by
  unfold ofBe
  rw [foldl_cons, foldl_ofBe, mul_zero, zero_add]
  rfl

theorem ofBe_be {k x : ℕ} : ofBe (be k x) = x % 256 ^ k := by
  induction k with
  | zero => simp [be, ofBe, Nat.mod_one]
  | succ k ih =>
    rw [be, ofBe_cons, ih, be_length, pow_succ, Nat.mod_mul, UInt8.toNat_ofNat']
    ring

def nibbles (hi lo : Fin 16) : UInt8 := UInt8.ofNat (16 * hi + lo)

def hiNibble (b : UInt8) : Fin 16 := ⟨b.toNat / 16, by have := b.toNat_lt; omega⟩

def loNibble (b : UInt8) : Fin 16 := ⟨b.toNat % 16, by omega⟩

theorem nibbles_toNat (hi lo : Fin 16) : (nibbles hi lo).toNat = 16 * hi + lo := by
  unfold nibbles
  rw [UInt8.toNat_ofNat_of_lt']
  have := hi.isLt
  have := lo.isLt
  show 16 * hi.val + lo.val < 256
  omega

@[simp] theorem hiNibble_nibbles (hi lo : Fin 16) : hiNibble (nibbles hi lo) = hi := by
  ext
  show (nibbles hi lo).toNat / 16 = hi
  rw [nibbles_toNat]
  omega

@[simp] theorem loNibble_nibbles (hi lo : Fin 16) : loNibble (nibbles hi lo) = lo := by
  ext
  show (nibbles hi lo).toNat % 16 = lo
  rw [nibbles_toNat]
  omega

end Maiccu.Lib
