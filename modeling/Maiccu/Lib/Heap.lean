import Maiccu.Lib.CText

/-!
# A heap of strings

The blocks have the numbers 0, 1, 2 … in the order of their allocation. The number of a block that
is freed is not used again, so a pointer into it can be told from one into a later block.
-/

namespace Maiccu.Lib

open Option List

/-- What is in the blocks that were allocated so far; nothing in a block that is freed. -/
structure Heap where
  blocks : List (Option (List UInt8))

structure Ptr where
  block : ℕ
  pos : ℕ
  deriving DecidableEq

namespace Heap

variable {h h' h'' : Heap} {b c : ℕ} {s : List UInt8} {p : Ptr}

def size (h : Heap) : ℕ := h.blocks.length

def bytes (h : Heap) (b : ℕ) : Option (List UInt8) := h.blocks[b]?.join

def Live (h : Heap) (b : ℕ) : Prop := (h.bytes b).isSome = true

instance (h : Heap) (b : ℕ) : Decidable (h.Live b) := inferInstanceAs (Decidable (_ = true))

/-- The new block has the number `h.size`. -/
def alloc (h : Heap) (s : List UInt8) : Heap := ⟨h.blocks ++ [some s]⟩

def free (h : Heap) (b : ℕ) : Heap := ⟨h.blocks.set b none⟩

def write (h : Heap) (b : ℕ) (s : List UInt8) : Heap := ⟨h.blocks.set b (some s)⟩

def text (h : Heap) (p : Ptr) : Option (List UInt8) :=
  (h.bytes p.block).bind fun s => if 0 ∈ s.drop p.pos then some (cString (s.drop p.pos)) else none

def lowerAt (h : Heap) (p : Ptr) : Option Heap :=
  (h.bytes p.block).bind fun s =>
    (h.text p).map fun t =>
      h.write p.block (s.take p.pos ++ (t.map lower ++ s.drop (p.pos + t.length)))

theorem bytes_eq_some : h.bytes b = some s ↔ h.blocks[b]? = some (some s) := by
  exact join_eq_some_iff

theorem lt_size (hb : h.bytes b = some s) : b < h.size := by
  obtain ⟨hlt, -⟩ := List.getElem?_eq_some_iff.mp (bytes_eq_some.mp hb)
  exact hlt

theorem Live.lt_size (hb : h.Live b) : b < h.size := by
  obtain ⟨s, hs⟩ := isSome_iff_exists.mp hb
  exact Heap.lt_size hs

theorem bytes_alloc_size (h : Heap) (s : List UInt8) : (h.alloc s).bytes h.size = some s := by
  rw [bytes_eq_some]
  exact getElem?_concat_length

theorem live_alloc : (h.alloc s).Live h.size := by
  unfold Live
  rw [bytes_alloc_size]
  rfl

theorem bytes_alloc (hb : h.bytes b = some s) (t : List UInt8) : (h.alloc t).bytes b = some s := by
  rw [bytes_eq_some] at hb ⊢
  unfold alloc
  rw [getElem?_append_left (List.getElem?_eq_some_iff.mp hb).1]
  exact hb

theorem bytes_write (hb : h.Live b) : (h.write b s).bytes b = some s := by
  rw [bytes_eq_some]
  exact getElem?_set_self hb.lt_size

theorem bytes_write_of_ne (hne : b ≠ c) (s : List UInt8) : (h.write b s).bytes c = h.bytes c := by
  unfold bytes write
  rw [getElem?_set_ne hne]

theorem bytes_free_of_ne (hne : b ≠ c) : (h.free b).bytes c = h.bytes c := by
  unfold bytes free
  rw [getElem?_set_ne hne]

theorem Live.free_of_ne (hc : h.Live c) (hne : b ≠ c) : (h.free b).Live c := by
  unfold Live
  rw [bytes_free_of_ne hne]
  exact hc

theorem size_alloc (h : Heap) (s : List UInt8) : (h.alloc s).size = h.size + 1 :=
  length_append

theorem size_free (h : Heap) (b : ℕ) : (h.free b).size = h.size := length_set

/-! ## Heaps that grow -/

/-- Each block that is live stays live and keeps its size. -/
structure Grows (h h' : Heap) : Prop where
  size_le : h.size ≤ h'.size
  bytes : ∀ b s, h.bytes b = some s → ∃ s', h'.bytes b = some s' ∧ s'.length = s.length

theorem Grows.refl (h : Heap) : h.Grows h := ⟨le_rfl, fun _ s hs => ⟨s, hs, rfl⟩⟩

theorem Grows.trans (h₁ : h.Grows h') (h₂ : h'.Grows h'') : h.Grows h'' := by
  refine ⟨h₁.size_le.trans h₂.size_le, fun b s hs => ?_⟩
  obtain ⟨s', hs', hlength'⟩ := h₁.bytes b s hs
  obtain ⟨s'', hs'', hlength''⟩ := h₂.bytes b s' hs'
  exact ⟨s'', hs'', hlength''.trans hlength'⟩

theorem Grows.live (hgrows : h.Grows h') (hb : h.Live b) : h'.Live b := by
  obtain ⟨s, hs⟩ := isSome_iff_exists.mp hb
  obtain ⟨s', hs', -⟩ := hgrows.bytes b s hs
  exact isSome_iff_exists.mpr ⟨s', hs'⟩

theorem grows_alloc : h.Grows (h.alloc s) := by
  refine ⟨?_, fun b t ht => ⟨t, bytes_alloc ht s, rfl⟩⟩
  rw [size_alloc]
  exact Nat.le_succ _

variable {t : List UInt8}

theorem grows_write (hb : h.bytes b = some s) (hlength : t.length = s.length) :
    h.Grows (h.write b t) := by
  refine ⟨length_set.ge, fun c u hu => ?_⟩
  by_cases hne : b = c
  · subst hne
    rw [hb, some_inj] at hu
    subst hu
    exact ⟨t, bytes_write (isSome_iff_exists.mpr ⟨_, hb⟩), hlength⟩
  · exact ⟨u, (bytes_write_of_ne hne t).trans hu, rfl⟩

theorem Grows.free (hgrows : h.Grows h') (hb : h.size ≤ b) : h.Grows (h'.free b) := by
  refine ⟨?_, fun c t ht => ?_⟩
  · rw [size_free]
    exact hgrows.size_le
  · obtain ⟨t', ht', hlength⟩ := hgrows.bytes c t ht
    refine ⟨t', ?_, hlength⟩
    rw [bytes_free_of_ne ((lt_size ht).trans_le hb).ne']
    exact ht'

theorem Grows.free_alloc (hgrows : (h.alloc s).Grows h') : h.Grows (h'.free h.size) :=
  (grows_alloc.trans hgrows).free le_rfl

theorem text_eq_some (ht : h.text p = some t) :
    ∃ s, h.bytes p.block = some s ∧ 0 ∈ s.drop p.pos ∧ t = cString (s.drop p.pos) := by
  obtain ⟨s, hs, hif⟩ := bind_eq_some_iff.mp ht
  split_ifs at hif with hzero
  exact ⟨s, hs, hzero, (some_inj.mp hif).symm⟩

theorem lowerAt_grows (hlower : h.lowerAt p = some h') : h.Grows h' := by
  obtain ⟨s, hs, hmap⟩ := bind_eq_some_iff.mp hlower
  obtain ⟨t, ht, rfl⟩ := map_eq_some_iff.mp hmap
  obtain ⟨s', hs', hzero, rfl⟩ := text_eq_some ht
  rw [hs, some_inj] at hs'
  subst hs'
  refine grows_write hs ?_
  have hle : (cString (s.drop p.pos)).length ≤ (s.drop p.pos).length :=
    (takeWhile_sublist _).length_le
  have hpos : 0 < (s.drop p.pos).length := length_pos_of_mem hzero
  rw [length_drop] at hle hpos
  simp only [length_append, length_take, length_map, length_drop]
  omega

end Heap

end Maiccu.Lib
