import Mathlib.Data.List.DropRight

/-!
# Records ended by a separator

Every occurrence of the separator ends a record of a stream; `unfinished` is what follows the last
one. `FitsFrom`: no piece of a stream, added to the unfinished record it arrives after, reaches the
limit while a separator is still to come.
-/

namespace Maiccu.Lib

open List

variable {α : Type*} [DecidableEq α] (sep : α)

def records (s : List α) : List (List α) := (s.splitOn sep).dropLast

/-- What follows the last separator of `s`. -/
def unfinished (s : List α) : List α := s.rtakeWhile (fun x => decide (x ≠ sep))

variable {s b c : List α} {lim : ℕ} {cs : List (List α)}

theorem records_of_notMem (h : sep ∉ s) : records sep s = [] := by
  unfold records
  rw [splitOn_eq_singleton h]
  rfl

theorem records_append_cons {l : List α} (h : sep ∉ l) (r : List α) :
    records sep (l ++ sep :: r) = l :: records sep r := by
  unfold records
  rw [splitOn_append_cons_self_of_not_mem h]
  exact dropLast_cons_of_ne_nil (splitOn_ne_nil sep r)

variable {a : List α}

theorem unfinished_append_of_notMem (h : sep ∉ b) :
    unfinished sep (a ++ b) = unfinished sep a ++ b := by
  have hall : ∀ x ∈ b.reverse, decide (x ≠ sep) = true := fun x hx =>
    decide_eq_true fun heq => h (heq ▸ mem_reverse.mp hx)
  unfold unfinished rtakeWhile
  rw [reverse_append, takeWhile_append_of_pos hall, reverse_append, reverse_reverse]

theorem unfinished_of_notMem (h : sep ∉ s) : unfinished sep s = s :=
  unfinished_append_of_notMem sep (a := []) h

theorem unfinished_append_cons (l r : List α) :
    unfinished sep (l ++ sep :: r) = unfinished sep r := by
  unfold unfinished rtakeWhile
  rw [reverse_append, reverse_cons, append_assoc, singleton_append, takeWhile_append,
    takeWhile_cons_of_neg (by simp), append_nil]
  split_ifs with hall
  · rw [(List.takeWhile_prefix _).eq_of_length hall]
  · rfl

theorem unfinished_append_of_mem (h : sep ∈ b) : unfinished sep (a ++ b) = unfinished sep b := by
  obtain ⟨u, w, rfl⟩ := append_of_mem h
  rw [← append_assoc, unfinished_append_cons, unfinished_append_cons]

theorem unfinished_append_congr {a' : List α} (h : unfinished sep a = unfinished sep a')
    (b : List α) : unfinished sep (a ++ b) = unfinished sep (a' ++ b) := by
  by_cases hb : sep ∈ b
  · rw [unfinished_append_of_mem sep hb, unfinished_append_of_mem sep hb]
  · rw [unfinished_append_of_notMem sep hb, unfinished_append_of_notMem sep hb, h]

/-! ## Streams in pieces -/

/-- The pieces `cs` that arrive after `c`: while a separator is still to come, the unfinished
record and the next piece together stay below `lim`. -/
def FitsFrom (lim : ℕ) (c : List α) (cs : List (List α)) : Prop :=
  ∀ k (hk : k < cs.length), sep ∈ (cs.drop k).flatten →
    (unfinished sep (c ++ (cs.take k).flatten)).length + cs[k].length < lim

theorem fitsFrom_nil : FitsFrom sep lim c [] := by
  intro k hk
  exact absurd hk (Nat.not_lt_zero k)

theorem fitsFrom_cons {x : List α} : FitsFrom sep lim c (x :: cs) ↔
      (sep ∈ x ++ cs.flatten → (unfinished sep c).length + x.length < lim) ∧
        FitsFrom sep lim (c ++ x) cs := by
  constructor
  · intro h
    refine ⟨fun hm => ?_, fun k hk hm => ?_⟩
    · have := h 0 (by simp) (by simpa using hm)
      simpa only [take_zero, flatten_nil, append_nil, getElem_cons_zero] using this
    · have := h (k + 1) (by simpa using hk) (by simpa using hm)
      simpa [append_assoc] using this
  · rintro ⟨h0, h⟩ k hk hm
    cases k with
    | zero =>
      have := h0 (by simpa using hm)
      simpa only [take_zero, flatten_nil, append_nil, getElem_cons_zero] using this
    | succ k =>
      have := h k (by simpa using hk) (by simpa using hm)
      simpa [append_assoc] using this

theorem fitsFrom_congr {c' : List α} (h : unfinished sep c = unfinished sep c')
    (cs : List (List α)) : FitsFrom sep lim c cs ↔ FitsFrom sep lim c' cs := by
  refine forall_congr' fun k => forall_congr' fun _ => ?_
  rw [unfinished_append_congr sep h]

theorem fitsFrom_of_notMem (c : List α) (h : sep ∉ cs.flatten) : FitsFrom sep lim c cs := by
  intro k _ hm
  refine absurd ?_ h
  obtain ⟨l, hl, hs⟩ := mem_flatten.mp hm
  exact mem_flatten.mpr ⟨l, mem_of_mem_drop hl, hs⟩

end Maiccu.Lib
