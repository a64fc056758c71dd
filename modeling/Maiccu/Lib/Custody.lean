import Mathlib.Data.List.Perm.Basic

/-!
# Where the items of a queue are

Items that were accepted wait in a queue, or in a batch that was detached from it. Batches are
emitted one at a time; what is still in the queue at the end is freed. `Custody.all` lists all
places, and each move is a permutation of it: nothing is lost, and nothing is in two places.
-/

namespace Maiccu.Lib

open List

structure Custody (α : Type) where
  queued : List α
  detached : List (List α)
  emitted : List (List α)
  freed : List α

namespace Custody

variable {α : Type} (c : Custody α)

def all : List α := c.queued ++ (c.detached.flatten ++ (c.emitted.flatten ++ c.freed))

def accept (x : α) : Custody α := { c with queued := x :: c.queued }

def detach : Custody α := { c with queued := [], detached := c.detached ++ [c.queued] }

/-- The `i`-th batch is emitted. -/
def emit (i : ℕ) (batch : List α) : Custody α :=
  { c with detached := c.detached.eraseIdx i, emitted := c.emitted ++ [batch] }

def free : Custody α := { c with queued := [], freed := c.queued ++ c.freed }

theorem all_accept (x : α) : (c.accept x).all = x :: c.all := rfl

theorem all_detach : c.detach.all ~ c.all := by
  unfold all detach
  rw [nil_append, flatten_concat, append_assoc]
  exact perm_append_comm_assoc _ _ _

variable {c}

theorem all_emit {i : ℕ} {batch : List α} (h : c.detached[i]? = some batch) :
    (c.emit i batch).all ~ c.all := by
  obtain ⟨hi, rfl⟩ := List.getElem?_eq_some_iff.mp h
  have hflat := (getElem_cons_eraseIdx_perm hi).flatten
  refine List.Perm.append_left _ ?_
  calc (c.detached.eraseIdx i).flatten ++ ((c.emitted ++ [c.detached[i]]).flatten ++ c.freed)
      = (c.detached.eraseIdx i).flatten ++ (c.emitted.flatten ++ (c.detached[i] ++ c.freed)) := by
        rw [flatten_concat, append_assoc]
    _ ~ c.detached[i] ++ ((c.detached.eraseIdx i).flatten ++ (c.emitted.flatten ++ c.freed)) := by
        refine (List.Perm.append_left _ (perm_append_comm_assoc _ _ _)).trans ?_
        exact perm_append_comm_assoc _ _ _
    _ ~ c.detached.flatten ++ (c.emitted.flatten ++ c.freed) := by
        rw [← append_assoc]
        exact hflat.append_right _

variable (c)

theorem all_free : c.free.all ~ c.all := by
  unfold all free
  rw [nil_append, ← append_assoc, ← append_assoc c.detached.flatten]
  exact perm_append_comm_assoc _ _ _

end Custody

end Maiccu.Lib
