import Mathlib.Init

/-!
# Runs of a labelled system

A system is a relation that says which step, with which label, leads from one state to another.
`Run step s₀ es s`: the steps with the labels `es`, in this order, lead from `s₀` to `s`.
-/

namespace Maiccu.Lib

variable {S E : Type*} {step : S → E → S → Prop} {s₀ s s' : S} {e : E} {es : List E}

inductive Run (step : S → E → S → Prop) (s₀ : S) : List E → S → Prop where
  | start : Run step s₀ [] s₀
  | next {es : List E} {s s' : S} {e : E} :
      Run step s₀ es s → step s e s' → Run step s₀ (es ++ [e]) s'

/-- What holds at the start and is kept by each step holds after a run. The property may speak of
the history, and a step may use that the run so far exists. -/
@[elab_as_elim]
theorem Run.induct {p : List E → S → Prop} (hrun : Run step s₀ es s) (hstart : p [] s₀)
    (hnext : ∀ es s e s', Run step s₀ es s → p es s → step s e s' → p (es ++ [e]) s') : p es s := by
  induction hrun with
  | start => exact hstart
  | next hrun hstep ih => exact hnext _ _ _ _ hrun ih hstep

@[elab_as_elim]
theorem Run.invariant {p : S → Prop} (hrun : Run step s₀ es s) (hstart : p s₀)
    (hnext : ∀ s e s', p s → step s e s' → p s') : p s :=
  hrun.induct hstart fun _ _ _ _ _ h hstep => hnext _ _ _ h hstep

theorem Run.head (hrun : Run step s es s') (hstep : step s₀ e s) : Run step s₀ (e :: es) s' := by
  induction hrun with
  | start => exact Run.next .start hstep
  | next _ hnext ih => exact Run.next ih hnext

theorem run_of_foldlM {f : S → E → Option S} (hf : ∀ s e s', f s e = some s' → step s e s')
    (h : es.foldlM f s₀ = some s) : Run step s₀ es s := by
  induction es generalizing s₀ with
  | nil =>
    cases h
    exact .start
  | cons e es ih =>
    rw [List.foldlM_cons, Option.bind_eq_bind, Option.bind_eq_some_iff] at h
    obtain ⟨s₁, h₁, h₂⟩ := h
    exact (ih h₂).head (hf _ _ _ h₁)

theorem run_foldl (f : S → E → S) (es : List E) (s₀ : S) :
    Run (fun s e s' => s' = f s e) s₀ es (es.foldl f s₀) := by
  induction es generalizing s₀ with
  | nil => exact .start
  | cons e es ih => exact (ih (f s₀ e)).head rfl

end Maiccu.Lib
