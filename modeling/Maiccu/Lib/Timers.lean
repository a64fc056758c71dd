import Mathlib.Tactic.Common

/-!
# Timers of a run loop

Timers that fire once. A timer is known by the number of timers that were made before it. It is
scheduled when it is made, and no longer when it was invalidated or has fired; a timer that is not
scheduled does not fire. It never comes back (`Timers.Gone`).
-/

namespace Maiccu.Lib

structure Timers where
  /-- How many timers were made. -/
  made : ℕ
  /-- Those that can still fire. -/
  scheduled : List ℕ
  lt_made : ∀ t ∈ scheduled, t < made

namespace Timers

variable {r : Timers} {t u : ℕ}

def empty : Timers := ⟨0, [], List.forall_mem_nil _⟩

/-- The new timer is `r.made`. -/
def schedule (r : Timers) : Timers where
  made := r.made + 1
  scheduled := r.scheduled ++ [r.made]
  lt_made := by
    intro t ht
    rcases List.mem_append.mp ht with ht | ht
    · exact Nat.lt_succ_of_lt (r.lt_made t ht)
    · rw [List.mem_singleton.mp ht]
      exact Nat.lt_succ_self _

def invalidate (r : Timers) (t : ℕ) : Timers where
  made := r.made
  scheduled := r.scheduled.filter (· ≠ t)
  lt_made := fun u hu => r.lt_made u (List.mem_filter.mp hu).1

theorem mem_schedule : t ∈ r.schedule.scheduled ↔ t ∈ r.scheduled ∨ t = r.made := by
  unfold schedule
  rw [List.mem_append, List.mem_singleton]

theorem mem_invalidate : u ∈ (r.invalidate t).scheduled ↔ u ∈ r.scheduled ∧ u ≠ t := by
  unfold invalidate
  rw [List.mem_filter, decide_eq_true_eq]

def Gone (r : Timers) (t : ℕ) : Prop := t < r.made ∧ t ∉ r.scheduled

theorem Gone.schedule (h : r.Gone t) : r.schedule.Gone t := by
  refine ⟨Nat.lt_succ_of_lt h.1, fun hmem => ?_⟩
  rcases mem_schedule.mp hmem with hmem | rfl
  · exact h.2 hmem
  · exact Nat.lt_irrefl _ h.1

theorem Gone.invalidate (h : r.Gone t) (u : ℕ) : (r.invalidate u).Gone t :=
  ⟨h.1, fun hmem => h.2 (mem_invalidate.mp hmem).1⟩

end Timers

end Maiccu.Lib
