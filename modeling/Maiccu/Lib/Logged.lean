import Mathlib.Data.List.Basic

/-!
# Computations with a log

A computation works on a state, writes events to a log, and ends with a result or with a fault. The
log is there in both cases: what is done before a fault is done. The rules say what the log and the
result of two computations in a row come to.
-/

namespace Maiccu.Lib

/-- A computation on states `S` with events `E` and faults `F`. -/
def Logged (S E F α : Type) := S → List E × Except F (α × S)

namespace Logged

variable {S E F α β : Type}

/-- What the rest of a computation adds to the log so far. -/
def andThen (log : List E) (r : Except F (α × S)) (f : α → Logged S E F β) :
    List E × Except F (β × S) :=
  match r with
  | .error e => (log, .error e)
  | .ok (a, s) => (log ++ (f a s).1, (f a s).2)

instance : Monad (Logged S E F) where
  pure a := fun s => ([], .ok (a, s))
  bind m f := fun s => andThen (m s).1 (m s).2 f

def emit (e : E) : Logged S E F Unit := fun s => ([e], .ok ((), s))

def throw (e : F) : Logged S E F α := fun _ => ([], .error e)

def step (f : S → α × S) : Logged S E F α := fun s => ([], .ok (f s))

def when (c : Prop) [Decidable c] (m : Logged S E F Unit) : Logged S E F Unit :=
  if c then m else pure ()

def log (m : Logged S E F α) (s : S) : List E := (m s).1

def result (m : Logged S E F α) (s : S) : Except F (α × S) := (m s).2

variable {m : Logged S E F α} {f : α → Logged S E F β} {s s' s'' : S} {a : α} {b : β} {e : E}
  {fault : F}

@[simp] theorem log_pure (a : α) (s : S) : (pure a : Logged S E F α).log s = [] := rfl

@[simp] theorem result_pure (a : α) (s : S) : (pure a : Logged S E F α).result s = .ok (a, s) := rfl

@[simp] theorem result_step (f : S → α × S) (s : S) :
    (step f : Logged S E F α).result s = .ok (f s) := rfl

theorem log_bind_of_ok (h : m.result s = .ok (a, s')) (f : α → Logged S E F β) :
    (m >>= f).log s = m.log s ++ (f a).log s' := by
  show (andThen (m.log s) (m.result s) f).1 = _
  rw [h]
  rfl

theorem result_bind_of_ok (h : m.result s = .ok (a, s')) :
    (m >>= f).result s = (f a).result s' := by
  show (andThen (m.log s) (m.result s) f).2 = _
  rw [h]
  rfl

theorem log_bind_of_error (h : m.result s = .error fault) (f : α → Logged S E F β) :
    (m >>= f).log s = m.log s := by
  show (andThen (m.log s) (m.result s) f).1 = _
  rw [h]
  rfl

theorem result_bind_of_error (h : m.result s = .error fault) (f : α → Logged S E F β) :
    (m >>= f).result s = .error fault := by
  show (andThen (m.log s) (m.result s) f).2 = _
  rw [h]
  rfl

theorem result_cases (m : Logged S E F α) (s : S) :
    (∃ fault, m.result s = .error fault) ∨ ∃ a s', m.result s = .ok (a, s') := by
  rcases m.result s with fault | ⟨a, s'⟩
  · exact .inl ⟨fault, rfl⟩
  · exact .inr ⟨a, s', rfl⟩

def faultOf (m : Logged S E F α) (s : S) : Option F :=
  match m.result s with
  | .error fault => some fault
  | .ok _ => none

theorem result_of_faultOf (h : m.faultOf s = some fault) : m.result s = .error fault := by
  unfold faultOf at h
  split at h
  · rename_i hresult
    rw [hresult, Option.some_inj.mp h]
  · cases h

theorem mem_log_bind :
    e ∈ (m >>= f).log s ↔ e ∈ m.log s ∨ ∃ a s', m.result s = .ok (a, s') ∧ e ∈ (f a).log s' := by
  rcases result_cases m s with ⟨fault, h⟩ | ⟨a, s', h⟩
  · rw [log_bind_of_error h, h]
    simp
  · rw [log_bind_of_ok h, h]
    simp

theorem result_bind_eq_error : (m >>= f).result s = .error fault ↔ m.result s = .error fault ∨
        ∃ a s', m.result s = .ok (a, s') ∧ (f a).result s' = .error fault := by
  rcases result_cases m s with ⟨fault', h⟩ | ⟨a, s', h⟩
  · rw [result_bind_of_error h, h]
    simp
  · rw [result_bind_of_ok h, h]
    simp

theorem result_bind_eq_ok : (m >>= f).result s = .ok (b, s'') ↔
      ∃ a s', m.result s = .ok (a, s') ∧ (f a).result s' = .ok (b, s'') := by
  rcases result_cases m s with ⟨fault', h⟩ | ⟨a, s', h⟩
  · rw [result_bind_of_error h, h]
    simp
  · rw [result_bind_of_ok h, h]
    simp

theorem pure_bind_eq (a : α) (f : α → Logged S E F β) : pure a >>= f = f a := rfl

theorem throw_bind_eq (e : F) (f : α → Logged S E F β) : (throw e >>= f) = throw e := rfl

theorem log_step_bind (g : S → α × S) (f : α → Logged S E F β) (s : S) :
    (step g >>= f).log s = (f (g s).1).log (g s).2 := rfl

theorem result_step_bind (g : S → α × S) (f : α → Logged S E F β) (s : S) :
    (step g >>= f).result s = (f (g s).1).result (g s).2 := rfl

/-! ## Properties of all runs -/

def Emits (p : E → Prop) (m : Logged S E F α) : Prop := ∀ s, ∀ e ∈ m.log s, p e

variable {p : E → Prop}

theorem emits_pure (a : α) : Emits p (pure a : Logged S E F α) := nofun

theorem emits_throw (e : F) : Emits p (throw e : Logged S E F α) := nofun

theorem emits_step {f : S → α × S} : Emits p (step f : Logged S E F α) := nofun

theorem emits_emit (he : p e) : Emits p (emit e : Logged S E F Unit) := by
  intro s e' he'
  cases List.mem_singleton.mp he'
  exact he

theorem Emits.bind (hm : Emits p m) (hf : ∀ a, Emits p (f a)) : Emits p (m >>= f) := by
  intro s e he
  rcases mem_log_bind.mp he with he | ⟨a, s', -, he⟩
  · exact hm s e he
  · exact hf a s' e he

theorem emits_when {c : Prop} [Decidable c] {m : Logged S E F Unit} (hm : c → Emits p m) :
    Emits p (when c m) := by
  unfold when
  split_ifs with hc
  · exact hm hc
  · exact emits_pure ()

/-- The computation ends without a fault and does not change the state. -/
def Runs (m : Logged S E F Unit) : Prop := ∀ s, m.result s = .ok ((), s)

theorem runs_emit : Runs (emit e : Logged S E F Unit) := fun _ => rfl

theorem Runs.result_bind {m : Logged S E F Unit} (hm : Runs m) (f : Unit → Logged S E F β) (s : S) :
    (m >>= f).result s = (f ()).result s := result_bind_of_ok (hm s)

theorem Runs.log_bind {m : Logged S E F Unit} (hm : Runs m) (f : Unit → Logged S E F β) (s : S) :
    (m >>= f).log s = m.log s ++ (f ()).log s := log_bind_of_ok (hm s) f

theorem Runs.bind {m : Logged S E F Unit} {f : Unit → Logged S E F Unit} (hm : Runs m)
    (hf : Runs (f ())) : Runs (m >>= f) := fun s => (hm.result_bind f s).trans (hf s)

theorem runs_when {c : Prop} [Decidable c] {m : Logged S E F Unit} (hm : c → Runs m) :
    Runs (when c m) := by
  unfold when
  split_ifs with hc
  · exact hm hc
  · exact fun s => rfl

/-- All events have the property `p`, the result and the state after it the property `q`, and a
fault the property `u`. -/
structure Safe (p : E → Prop) (u : F → Prop) (q : α → S → Prop) (m : Logged S E F α) (s : S) :
    Prop where
  log : ∀ e ∈ m.log s, p e
  fault : ∀ fault, m.result s = .error fault → u fault
  result : ∀ a s', m.result s = .ok (a, s') → q a s'

variable {u : F → Prop} {q : α → S → Prop} {r : β → S → Prop}

theorem safe_pure (hq : q a s) : Safe p u q (pure a : Logged S E F α) s := by
  refine ⟨nofun, nofun, fun a' s' h => ?_⟩
  cases h
  exact hq

theorem safe_step {f : S → α × S} (hq : q (f s).1 (f s).2) :
    Safe p u q (step f : Logged S E F α) s := by
  refine ⟨nofun, nofun, fun a' s' h => ?_⟩
  rw [result_step, Except.ok.injEq] at h
  rw [h] at hq
  exact hq

theorem safe_throw (hu : u fault) : Safe p u q (throw fault : Logged S E F α) s := by
  refine ⟨nofun, fun fault' h => ?_, nofun⟩
  cases h
  exact hu

theorem Safe.bind (hm : Safe p u q m s) (hf : ∀ a s', q a s' → Safe p u r (f a) s') :
    Safe p u r (m >>= f) s := by
  constructor
  · intro e he
    rcases mem_log_bind.mp he with he | ⟨a, s', hm', he⟩
    · exact hm.log e he
    · exact (hf a s' (hm.result a s' hm')).log e he
  · intro fault h
    rcases result_bind_eq_error.mp h with h | ⟨a, s', hm', hf'⟩
    · exact hm.fault fault h
    · exact (hf a s' (hm.result a s' hm')).fault fault hf'
  · intro b s'' h
    obtain ⟨a, s', hm', hf'⟩ := result_bind_eq_ok.mp h
    exact (hf a s' (hm.result a s' hm')).result b s'' hf'

theorem Safe.mono {q' : α → S → Prop} (hm : Safe p u q m s) (hq : ∀ a s', q a s' → q' a s') :
    Safe p u q' m s :=
  ⟨hm.log, hm.fault, fun a s' h => hq a s' (hm.result a s' h)⟩

end Logged

end Maiccu.Lib
