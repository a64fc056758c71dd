import Mathlib.Data.Finset.Basic

/-!
# Locks

A mutex and a lock for readers and a writer. A program says by its place in the code which locks it
holds; `Mutex.Step` and `RwLock.Step` relate what a step does to the lock to what it does to its
place. If every step is such a step, the places and the locks always agree (`hold_eq`).
-/

namespace Maiccu.Lib

open Function

variable {T : Type*} [DecidableEq T] {t u : T}

/-! ## A mutex -/

structure Mutex (T : Type*) where
  owner : Option T
  deriving DecidableEq

namespace Mutex

variable {m m' : Mutex T} {b : Bool}

def hold (m : Mutex T) (t : T) : Bool := decide (m.owner = some t)

/-- Taking the mutex; `none` means that the thread waits. -/
def lock (m : Mutex T) (t : T) : Option (Mutex T) :=
  if m.owner = none then some ⟨some t⟩ else none

/-- A step of the thread `t`, which holds the mutex before and after as the two flags say. -/
inductive Step (t : T) : Bool → Mutex T → Bool → Mutex T → Prop where
  | keep (b : Bool) (m : Mutex T) : Step t b m b m
  | lock {m m' : Mutex T} : m.lock t = some m' → Step t false m true m'
  | unlock (m : Mutex T) : Step t true m false ⟨none⟩

omit [DecidableEq T] in
theorem lock_eq_some (h : m.lock t = some m') : m.owner = none ∧ m' = ⟨some t⟩ := by
  unfold lock at h
  split_ifs at h with howner
  cases h
  exact ⟨howner, rfl⟩

theorem Step.hold_eq (h : Step t (m.hold t) m b m') : m'.hold = update m.hold t b := by
  generalize hb : m.hold t = b₀ at h
  cases h with
  | keep =>
    rw [← hb]
    exact (update_eq_self t _).symm
  | lock hlock =>
    obtain ⟨howner, rfl⟩ := lock_eq_some hlock
    funext u
    by_cases hu : u = t
    · subst hu
      simp [hold]
    · rw [update_of_ne hu]
      simp [hold, howner, Ne.symm hu]
  | unlock =>
    funext u
    by_cases hu : u = t
    · subst hu
      simp [hold]
    · rw [update_of_ne hu]
      have howner : m.owner = some t := of_decide_eq_true hb
      simp [hold, howner, Ne.symm hu]

theorem Step.agree {H H' : T → Bool} (hs : Step t (H t) m b m') (hH : H = m.hold)
    (hH' : H' = update H t b) : H' = m'.hold := by
  subst hH
  rw [hH', hs.hold_eq]

theorem hold_unique (ht : m.hold t = true) (hu : m.hold u = true) : t = u := by
  have ht' : m.owner = some t := of_decide_eq_true ht
  have hu' : m.owner = some u := of_decide_eq_true hu
  exact Option.some.inj (ht'.symm.trans hu')

theorem lock_eq_none (ht : m.hold t = true) : m.lock u = none := by
  have ht' : m.owner = some t := of_decide_eq_true ht
  unfold lock
  rw [ht', if_neg (by simp)]

end Mutex

/-! ## Readers and a writer -/

/-- A writer holds the lock alone. With no reader the lock is free. -/
inductive RwLock (T : Type*) where
  | write (t : T)
  | read (ts : Finset T)

/-- How a thread holds the lock. -/
inductive RwHold where
  | none
  | reading
  | writing
  deriving DecidableEq

namespace RwLock

variable {l l' : RwLock T} {h : RwHold}

def hold : RwLock T → T → RwHold
  | .write t, u => if u = t then .writing else .none
  | .read ts, u => if u ∈ ts then .reading else .none

def rdlock (t : T) : RwLock T → Option (RwLock T)
  | .write _ => none
  | .read ts => some (.read (insert t ts))

def wrlock (t : T) : RwLock T → Option (RwLock T)
  | .write _ => none
  | .read ts => if ts = ∅ then some (.write t) else none

def unlock (t : T) : RwLock T → RwLock T
  | .write _ => .read ∅
  | .read ts => .read (ts.erase t)

/-- A step of the thread `t`, which holds the lock before and after as the two values say. -/
inductive Step (t : T) : RwHold → RwLock T → RwHold → RwLock T → Prop where
  | keep (h : RwHold) (l : RwLock T) : Step t h l h l
  | rdlock {l l' : RwLock T} : l.rdlock t = some l' → Step t .none l .reading l'
  | wrlock {l l' : RwLock T} : l.wrlock t = some l' → Step t .none l .writing l'
  | unlock {h : RwHold} (l : RwLock T) : h ≠ .none → Step t h l .none (l.unlock t)

theorem hold_rdlock (h : l.rdlock t = some l') : l'.hold = update l.hold t .reading := by
  cases l with
  | write v => cases h
  | read ts =>
    cases h
    funext u
    by_cases hu : u = t
    · subst hu
      simp [hold]
    · simp [hold, hu]

theorem hold_wrlock (h : l.wrlock t = some l') : l'.hold = update l.hold t .writing := by
  cases l with
  | write v => cases h
  | read ts =>
    rw [wrlock] at h
    split_ifs at h with hts
    cases h
    funext u
    by_cases hu : u = t
    · subst hu
      simp [hold]
    · simp [hold, hu, hts]

theorem hold_unlock (h : l.hold t ≠ .none) : (l.unlock t).hold = update l.hold t .none := by
  funext u
  cases l with
  | write v =>
    have ht : t = v := by
      by_contra hne
      exact h (if_neg hne)
    by_cases hu : u = t
    · subst hu
      simp [hold, unlock]
    · simp [hold, unlock, ← ht, hu]
  | read ts =>
    by_cases hu : u = t
    · subst hu
      simp [hold, unlock]
    · simp [hold, unlock, hu]

theorem Step.hold_eq (hs : Step t (l.hold t) l h l') : l'.hold = update l.hold t h := by
  generalize hb : l.hold t = h₀ at hs
  cases hs with
  | keep =>
    rw [← hb]
    exact (update_eq_self t _).symm
  | rdlock hl => exact hold_rdlock hl
  | wrlock hl => exact hold_wrlock hl
  | unlock _ hne => exact hold_unlock (by rwa [hb])

theorem Step.agree {H H' : T → RwHold} (hs : Step t (H t) l h l') (hH : H = l.hold)
    (hH' : H' = update H t h) : H' = l'.hold := by
  subst hH
  rw [hH', hs.hold_eq]

theorem hold_of_writing (ht : l.hold t = .writing) (hne : u ≠ t) : l.hold u = .none := by
  cases l with
  | write v =>
    have htv : t = v := by
      by_contra htv
      rw [hold, if_neg htv] at ht
      cases ht
    rw [hold, if_neg (by rwa [← htv])]
  | read ts =>
    rw [hold] at ht
    split_ifs at ht

end RwLock

end Maiccu.Lib
