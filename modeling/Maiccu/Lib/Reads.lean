import Maiccu.Lib.Bytes

/-!
# What a computation reads

A computation on a buffer that also returns the parts of the buffer it has read, each as an offset
and a length. `Within n` says that all of them are among the first `n` bytes. A computation on a
part of the buffer is shifted to where the part begins.
-/

namespace Maiccu.Lib

open List

universe u

structure Reads (α : Type u) where
  val : α
  spans : List (ℕ × ℕ)

namespace Reads

variable {α β : Type u} {x : Reads α} {f : α → Reads β} {n m off len : ℕ}

instance : Monad Reads where
  pure a := ⟨a, []⟩
  bind x f := ⟨(f x.val).val, x.spans ++ (f x.val).spans⟩

/-- The first `n` bytes are all that is read. -/
def Within (n : ℕ) (x : Reads α) : Prop := ∀ s ∈ x.spans, s.1 + s.2 ≤ n

instance (n : ℕ) (x : Reads α) : Decidable (x.Within n) := inferInstanceAs (Decidable (∀ s ∈ _, _))

/-- The same computation on a part of a buffer that begins at `k`. -/
abbrev shift (k : ℕ) (x : Reads α) : Reads α := ⟨x.val, x.spans.map fun s => (k + s.1, s.2)⟩

@[simp] theorem val_pure (a : α) : (pure a : Reads α).val = a := rfl

@[simp] theorem val_bind (x : Reads α) (f : α → Reads β) : (x >>= f).val = (f x.val).val := rfl

theorem val_ite {p : Prop} [Decidable p] (x y : Reads α) :
    (if p then x else y).val = if p then x.val else y.val := by
  split_ifs <;> rfl

@[simp] theorem within_pure {a : α} : (pure a : Reads α).Within n := fun _ hs =>
    absurd hs not_mem_nil

@[simp] theorem within_bind : (x >>= f).Within n ↔ x.Within n ∧ (f x.val).Within n :=
  forall_mem_append

theorem Within.mono (h : x.Within n) (hle : n ≤ m) : x.Within m := fun s hs => (h s hs).trans hle

theorem Within.shift {k : ℕ} (h : x.Within m) (hle : k + m ≤ n) : (x.shift k).Within n := by
  intro s hs
  obtain ⟨t, ht, rfl⟩ := mem_map.mp hs
  have := h t ht
  show k + t.1 + t.2 ≤ n
  omega

theorem within_ite {p : Prop} [Decidable p] {y : Reads α} :
    (if p then x else y).Within n ↔ (p → x.Within n) ∧ (¬p → y.Within n) := by
  split_ifs with h
  · simp [h]
  · simp [h]

end Reads

/-! ## Bytes -/

section Bytes

variable {b : List UInt8} {n i off len : ℕ}

abbrev readByte (b : List UInt8) (i : ℕ) : Reads UInt8 := ⟨b.getD i 0, [(i, 1)]⟩

abbrev readField (b : List UInt8) (off n : ℕ) : Reads (Bytes n) := ⟨field b off n, [(off, n)]⟩

abbrev readSlice (b : List UInt8) (off len : ℕ) : Reads (List UInt8) :=
  ⟨slice b off len, [(off, len)]⟩

@[simp] theorem val_readByte (b : List UInt8) (i : ℕ) : (readByte b i).val = b.getD i 0 := rfl

@[simp] theorem val_readField (b : List UInt8) (off n : ℕ) :
    (readField b off n).val = field b off n := rfl

@[simp] theorem val_readSlice (b : List UInt8) (off len : ℕ) :
    (readSlice b off len).val = slice b off len := rfl

@[simp] theorem within_readByte : (readByte b i).Within n ↔ i + 1 ≤ n := forall_mem_singleton

@[simp] theorem within_readField : (readField b off len).Within n ↔ off + len ≤ n :=
  forall_mem_singleton

@[simp] theorem within_readSlice : (readSlice b off len).Within n ↔ off + len ≤ n :=
  forall_mem_singleton

end Bytes

end Maiccu.Lib
