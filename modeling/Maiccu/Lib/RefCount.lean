import Mathlib.Algebra.BigOperators.Group.Finset.Basic
import Mathlib.Algebra.Order.BigOperators.Group.Finset
import Mathlib.Data.Fintype.BigOperators
import Maiccu.Lib.Run

/-!
# Counted references

Objects `D` that threads `T` refer to. A thread that takes or drops a reference reads the counter of
the object in one step and writes it in another, and who brings it to zero frees the object.
`Counted.Step` has the steps in which no counter is read while another thread is about to write it.
-/

namespace Maiccu.Lib

open Function

/-- What a thread has to do with the objects. -/
inductive Ref (D : Type*) where
  | out
  /-- The counter was read, to take a reference. -/
  | grab (d : D) (v : ℤ)
  | hold (d : D)
  /-- The counter was read, to drop the reference. -/
  | drop (d : D) (v : ℤ)
  /-- The counter is zero, and the thread is about to free the object. -/
  | free (d : D)
  deriving DecidableEq

namespace Ref

variable {D : Type*} {r : Ref D} {d : D} {v : ℤ}

def object : Ref D → Option D
  | .out => none
  | .grab d _ | .hold d | .drop d _ | .free d => some d

/-- The thread has read `v` from the counter of `d` and is about to write it. -/
def Loaded (r : Ref D) (d : D) (v : ℤ) : Prop := r = .grab d v ∨ r = .drop d v

theorem Loaded.object (h : r.Loaded d v) : r.object = some d := by
  rcases h with rfl | rfl <;> rfl

variable [DecidableEq D]

/-- The references that the counter of `d` counts. -/
def weight (d : D) : Ref D → ℕ
  | .hold e | .drop e _ => if e = d then 1 else 0
  | _ => 0

def last (d : D) : Ref D → ℕ
  | .free e => if e = d then 1 else 0
  | _ => 0

theorem weight_of_object_ne (h : r.object ≠ some d) : r.weight d = 0 := by
  cases r <;> first | rfl | exact if_neg fun he => h (congrArg some he)

theorem last_of_object_ne (h : r.object ≠ some d) : r.last d = 0 := by
  cases r <;> first | rfl | exact if_neg fun he => h (congrArg some he)

end Ref

structure Counted (T D : Type*) where
  ref : T → Ref D
  count : D → ℤ
  made : D → Bool
  /-- How often an object was freed. -/
  frees : D → ℕ

namespace Counted

variable {T D : Type*} {s s' : Counted T D} {t u : T} {d : D} {v : ℤ}

def Live (s : Counted T D) (d : D) : Prop := s.made d = true ∧ s.frees d = 0

def Quiet (s : Counted T D) (d : D) : Prop := ∀ t v, ¬ (s.ref t).Loaded d v

section Step

variable [DecidableEq T] [DecidableEq D]

/-- One step. A counter is read only when it is quiet. -/
inductive Step (s : Counted T D) : Counted T D → Prop where
  /-- A reference is taken from the thread `u`, which keeps its own. -/
  | grab {t u : T} {d : D} : s.ref t = .out → s.ref u = .hold d → s.Quiet d →
      Step s { s with ref := update s.ref t (.grab d (s.count d)) }
  | grabbed {t : T} {d : D} {v : ℤ} : s.ref t = .grab d v →
      Step s { s with
        ref := update s.ref t (.hold d)
        count := update s.count d (v + 1) }
  | drop {t : T} {d : D} : s.ref t = .hold d → s.Quiet d →
      Step s { s with ref := update s.ref t (.drop d (s.count d)) }
  | dropped {t : T} {d : D} {v : ℤ} : s.ref t = .drop d v →
      Step s { s with
        ref := update s.ref t (if v - 1 = 0 then .free d else .out)
        count := update s.count d (v - 1) }
  | free {t : T} {d : D} : s.ref t = .free d →
      Step s { s with
        ref := update s.ref t .out
        frees := update s.frees d (s.frees d + 1) }
  | make {t : T} {d : D} : s.ref t = .out → s.made d = false →
      Step s { s with
        ref := update s.ref t (.hold d)
        count := update s.count d 1
        made := update s.made d true }
  /-- An object that is given up while it is made. -/
  | scrap {d : D} (v : ℤ) : s.made d = false →
      Step s { s with
        count := update s.count d v
        made := update s.made d true
        frees := update s.frees d (s.frees d + 1) }

omit [DecidableEq D] in
theorem update_frame {e : D} {r : Ref D} (he : e ≠ d)
    (ht : (s.ref t).object = none ∨ (s.ref t).object = some d)
    (hr : r.object = none ∨ r.object = some d) (u : T) :
    update s.ref t r u = s.ref u ∨
      (s.ref u).object ≠ some e ∧ (update s.ref t r u).object ≠ some e := by
  by_cases hu : u = t
  · subst hu
    rw [update_self]
    refine .inr ⟨fun hobject => ?_, fun hobject => ?_⟩
    · rw [hobject] at ht
      simp [he] at ht
    · rw [hobject] at hr
      simp [he] at hr
  · exact .inl (update_of_ne hu _ _)

end Step

/-! ## Counting -/

section Total

variable [Fintype T] (f : Ref D → ℕ) (ref : T → Ref D)

def total : ℕ := ∑ t, f (ref t)

theorem le_total (t : T) : f (ref t) ≤ total f ref :=
  Finset.single_le_sum (f := fun t => f (ref t)) (fun _ _ => Nat.zero_le _) (Finset.mem_univ t)

theorem exists_of_total_ne_zero {f : Ref D → ℕ} {ref : T → Ref D} (h : total f ref ≠ 0) :
    ∃ t, f (ref t) ≠ 0 := by
  obtain ⟨t, -, ht⟩ := Finset.exists_ne_zero_of_sum_ne_zero h
  exact ⟨t, ht⟩

variable [DecidableEq T]

theorem add_le_total (f : Ref D → ℕ) (ref : T → Ref D) (h : t ≠ u) :
    f (ref t) + f (ref u) ≤ total f ref := by
  rw [← Finset.sum_pair (f := fun t => f (ref t)) h]
  exact Finset.sum_le_sum_of_subset (Finset.subset_univ _)

theorem total_update (f : Ref D → ℕ) (ref : T → Ref D) (t : T) (r : Ref D) :
    total f (update ref t r) + f (ref t) = total f ref + f r := by
  have hcomp : (fun u => f (update ref t r u)) =
      update (fun u => f (ref u)) t (f r) := comp_update f ref t r
  unfold total
  rw [hcomp, Finset.sum_update_of_mem (Finset.mem_univ t),
    ← Finset.add_sum_erase _ (fun u => f (ref u)) (Finset.mem_univ t),
      Finset.sdiff_singleton_eq_erase]
  omega

end Total

/-! ## The invariant -/

section Inv

variable [Fintype T] [DecidableEq D]

structure Inv (s : Counted T D) (d : D) : Prop where
  /-- No thread refers to an object that is not there. -/
  live : ∀ t, (s.ref t).object = some d → s.Live d
  count : s.Live d → s.count d = total (Ref.weight d) s.ref
  /-- Exactly one thread is about to free an object with no references. -/
  last : s.Live d → total (Ref.last d) s.ref = if s.count d = 0 then 1 else 0
  loaded : ∀ t v, (s.ref t).Loaded d v → s.count d = v
  alone : ∀ t u v w, (s.ref t).Loaded d v → (s.ref u).Loaded d w → t = u
  grab : ∀ t v, s.ref t = .grab d v → 0 < v
  once : s.frees d ≤ 1
  unmade : s.made d = false → s.frees d = 0

section

variable (h : s.Inv d)
include h

theorem Inv.referred (hd : s.Live d) : ∃ t, (s.ref t).object = some d := by
  by_cases hcount : s.count d = 0
  · have hlast := h.last hd
    rw [if_pos hcount] at hlast
    obtain ⟨t, ht⟩ := exists_of_total_ne_zero (hlast.trans_ne one_ne_zero)
    exact ⟨t, by_contra fun hne => ht (Ref.last_of_object_ne hne)⟩
  · have hweight : total (Ref.weight d) s.ref ≠ 0 := by
      have := h.count hd
      omega
    obtain ⟨t, ht⟩ := exists_of_total_ne_zero hweight
    exact ⟨t, by_contra fun hne => ht (Ref.weight_of_object_ne hne)⟩

/-- **Freed exactly once.** An object that was made was freed once if no thread refers to it, and
not at all otherwise. -/
theorem Inv.frees_eq (hmade : s.made d = true) :
    s.frees d ≤ 1 ∧ (s.frees d = 0 ↔ ∃ t, (s.ref t).object = some d) :=
  ⟨h.once, fun hd => h.referred ⟨hmade, hd⟩, fun ⟨t, ht⟩ => (h.live t ht).2⟩

theorem Inv.live_of_hold (ht : s.ref t = .hold d) : s.Live d :=
  h.live t (by rw [ht]; rfl)

theorem Inv.count_pos (hw : (s.ref t).weight d ≠ 0) : 0 < s.count d := by
  have hd := h.live t (by_contra fun hne => hw (Ref.weight_of_object_ne hne))
  have hcount := h.count hd
  have hle := le_total (Ref.weight d) s.ref t
  omega

theorem Inv.count_pos_of_hold (ht : s.ref t = .hold d) : 0 < s.count d :=
  h.count_pos (by rw [ht]; simp [Ref.weight])

theorem Inv.count_pos_of_drop (ht : s.ref t = .drop d v) : 0 < s.count d :=
  h.count_pos (by rw [ht]; simp [Ref.weight])

theorem Inv.count_of_free (ht : s.ref t = .free d) : s.count d = 0 := by
  have hlast := h.last (h.live t (by rw [ht]; rfl))
  have hle := le_total (Ref.last d) s.ref t
  by_contra hne
  rw [if_neg hne] at hlast
  rw [ht, hlast] at hle
  simp [Ref.last] at hle

theorem Inv.frame (hcount : s'.count d = s.count d) (hmade : s'.made d = s.made d)
    (hfrees : s'.frees d = s.frees d)
    (href : ∀ u, s'.ref u = s.ref u ∨ (s.ref u).object ≠ some d ∧ (s'.ref u).object ≠ some d) :
    s'.Inv d := by
  have hobject : ∀ u, (s'.ref u).object = some d → s'.ref u = s.ref u :=
    fun u hu => (href u).resolve_right fun hne => hne.2 hu
  have hlive : s'.Live d ↔ s.Live d := by rw [Live, Live, hmade, hfrees]
  have htotal : ∀ f : Ref D → ℕ, (∀ r : Ref D, r.object ≠ some d → f r = 0) →
      total f s'.ref = total f s.ref := by
    intro f hf
    refine Finset.sum_congr rfl fun u _ => ?_
    rcases href u with heq | ⟨hne, hne'⟩
    · rw [heq]
    · rw [hf _ hne, hf _ hne']
  have hweight := htotal (Ref.weight d) fun _ => Ref.weight_of_object_ne
  have hlast := htotal (Ref.last d) fun _ => Ref.last_of_object_ne
  exact
    { live := fun t ht => hlive.mpr (h.live t (by rw [← hobject t ht]; exact ht))
      count := fun hd => by rw [hcount, hweight, h.count (hlive.mp hd)]
      last := fun hd => by rw [hlast, hcount, h.last (hlive.mp hd)]
      loaded := fun t v ht => by
        rw [hobject t ht.object] at ht
        rw [hcount, h.loaded t v ht]
      alone := fun t u v w ht hu => by
        rw [hobject t ht.object] at ht
        rw [hobject u hu.object] at hu
        exact h.alone t u v w ht hu
      grab := fun t v ht => by
        rw [hobject t (by rw [ht]; rfl)] at ht
        exact h.grab t v ht
      once := by rw [hfrees]; exact h.once
      unmade := fun hd => by
        rw [hfrees]
        exact h.unmade (by rw [← hmade]; exact hd) }

theorem Inv.object_ne (hmade : s.made d = false) (t : T) : (s.ref t).object ≠ some d := by
  intro ht
  have hd := (h.live t ht).1
  rw [hmade] at hd
  cases hd

end

theorem total_eq_zero (h : ∀ t, (s.ref t).object ≠ some d) :
    total (Ref.weight d) s.ref = 0 ∧ total (Ref.last d) s.ref = 0 :=
  ⟨Finset.sum_eq_zero fun t _ => Ref.weight_of_object_ne (h t),
    Finset.sum_eq_zero fun t _ => Ref.last_of_object_ne (h t)⟩

theorem inv_of_dead (hobject : ∀ t, (s.ref t).object ≠ some d) (hfrees : s.frees d = 1)
    (hmade : s.made d = true) : s.Inv d where
  live t ht := absurd ht (hobject t)
  count hd := absurd (hfrees.symm.trans hd.2) one_ne_zero
  last hd := absurd (hfrees.symm.trans hd.2) one_ne_zero
  loaded t _ ht := absurd ht.object (hobject t)
  alone t _ _ _ ht := absurd ht.object (hobject t)
  grab t _ ht := absurd (by rw [ht]; rfl) (hobject t)
  once := hfrees.le
  unmade hd := by
    rw [hmade] at hd
    cases hd

variable [DecidableEq T]

theorem Inv.alone_of_free (h : s.Inv d) (ht : s.ref t = .free d) (hu : (s.ref u).object = some d) :
    u = t := by
  have hzero := h.count_of_free ht
  by_contra hne
  cases hr : s.ref u with
  | out =>
    rw [hr] at hu
    cases hu
  | grab e v =>
    rw [hr] at hu
    cases hu
    have hv := h.loaded u v (.inl hr)
    have hpos := h.grab u v hr
    omega
  | hold e =>
    rw [hr] at hu
    cases hu
    have hpos := h.count_pos_of_hold hr
    omega
  | drop e v =>
    rw [hr] at hu
    cases hu
    have hpos := h.count_pos_of_drop hr
    omega
  | free e =>
    have hd := h.live u hu
    rw [hr] at hu
    cases hu
    have hlast := h.last hd
    rw [if_pos hzero] at hlast
    have htwo := add_le_total (Ref.last d) s.ref hne
    rw [ht, hr] at htwo
    simp [Ref.last] at htwo
    omega

/-! ## Steps -/

theorem Inv.counter {r : Ref D} {c : D → ℤ} (h : s.Inv d) (hd : s.Live d) (hpos : 0 < s.count d)
    (hothers : ∀ u v, u ≠ t → ¬ (s.ref u).Loaded d v)
    (hcount : c d + (s.ref t).weight d = s.count d + r.weight d) (hold : (s.ref t).last d = 0)
    (hlast : r.last d = if c d = 0 then 1 else 0) (hloaded : ∀ v, r.Loaded d v → c d = v)
    (hgrab : ∀ v, r = .grab d v → 0 < v) :
    Inv { s with ref := update s.ref t r, count := c } d := by
  have hself : ∀ {u v}, (update s.ref t r u).Loaded d v → u = t ∧ r.Loaded d v := by
    intro u v hu
    by_cases hut : u = t
    · subst hut
      rw [update_self] at hu
      exact ⟨rfl, hu⟩
    · rw [update_of_ne hut] at hu
      exact absurd hu (hothers u v hut)
  have hweight := total_update (Ref.weight d) s.ref t r
  have hlasts := total_update (Ref.last d) s.ref t r
  exact
    { live := fun _ _ => hd
      count := fun _ => by
        show c d = total (Ref.weight d) (update s.ref t r)
        have := h.count hd
        omega
      last := fun _ => by
        show total (Ref.last d) (update s.ref t r) = if c d = 0 then 1 else 0
        have hnone := h.last hd
        rw [if_neg hpos.ne'] at hnone
        omega
      loaded := fun u v hu => hloaded v (hself hu).2
      alone := fun u u' v w hu hu' => (hself hu).1.trans (hself hu').1.symm
      grab := fun u v hu => by
        have hr : update s.ref t r u = .grab d v := hu
        rw [(hself (.inl hr)).1, update_self] at hr
        exact hgrab v hr
      once := h.once
      unmade := h.unmade }

theorem Inv.make (h : s.Inv d) (ht : s.ref t = .out) (hmade : s.made d = false) : Inv { s with
      ref := update s.ref t (.hold d)
      count := update s.count d 1
      made := update s.made d true } d := by
  obtain ⟨hweight, hlast⟩ := total_eq_zero (h.object_ne hmade)
  have hweight' := total_update (Ref.weight d) s.ref t (.hold d)
  have hlast' := total_update (Ref.last d) s.ref t (.hold d)
  have hone : (Ref.hold d).weight d = 1 := if_pos rfl
  have hzero : (Ref.hold d).last d = 0 := rfl
  have hloaded : ∀ u v, ¬ (update s.ref t (.hold d) u).Loaded d v := by
    intro u v hu
    by_cases hut : u = t
    · subst hut
      rw [update_self] at hu
      rcases hu with hu | hu <;> cases hu
    · rw [update_of_ne hut] at hu
      exact h.object_ne hmade u hu.object
  exact
    { live := fun _ _ => ⟨update_self .., h.unmade hmade⟩
      count := fun _ => by
        show update s.count d 1 d = total (Ref.weight d) (update s.ref t (.hold d))
        rw [update_self]
        rw [ht, show (Ref.out : Ref D).weight d = 0 from rfl] at hweight'
        omega
      last := fun _ => by
        show total (Ref.last d) (update s.ref t (.hold d)) =
          if update s.count d 1 d = 0 then 1 else 0
        rw [update_self, if_neg one_ne_zero]
        omega
      loaded := fun u v hu => absurd hu (hloaded u v)
      alone := fun u _ v _ hu => absurd hu (hloaded u v)
      grab := fun u v hu => absurd (.inl hu) (hloaded u v)
      once := h.once
      unmade := fun _ => h.unmade hmade }

theorem Inv.step (h : ∀ d, s.Inv d) (hs : Step s s') (e : D) : s'.Inv e := by
  cases hs with
  | @grab t u d ht hu hquiet =>
    by_cases he : e = d
    · subst he
      have hpos := (h e).count_pos_of_hold hu
      exact (h e).counter ((h e).live_of_hold hu) hpos (fun u v _ => hquiet u v)
        (by rw [ht]; simp [Ref.weight]) (by rw [ht]; rfl) (by rw [if_neg hpos.ne']; rfl)
        (by simp [Ref.Loaded]) (by rintro v ⟨⟩; exact hpos)
    · exact (h e).frame rfl rfl rfl (update_frame he (.inl (by rw [ht]; rfl)) (.inr rfl))
  | @grabbed t d v ht =>
    by_cases he : e = d
    · subst he
      have hpos := (h e).grab t v ht
      have hcount := (h e).loaded t v (.inl ht)
      exact (h e).counter ((h e).live t (by rw [ht]; rfl)) (hcount ▸ hpos)
        (fun u w hne hu => hne ((h e).alone u t w v hu (.inl ht)))
        (by rw [ht, hcount]; simp [Ref.weight]) (by rw [ht]; rfl)
        (by rw [update_self, if_neg (by omega)]; rfl) (by simp [Ref.Loaded]) (by simp)
    · exact (h e).frame (update_of_ne he _ _) rfl rfl
        (update_frame he (.inr (by rw [ht]; rfl)) (.inr rfl))
  | @drop t d ht hquiet =>
    by_cases he : e = d
    · subst he
      have hpos := (h e).count_pos_of_hold ht
      exact (h e).counter ((h e).live_of_hold ht) hpos (fun u v _ => hquiet u v)
        (by rw [ht]; simp [Ref.weight]) (by rw [ht]; rfl) (by rw [if_neg hpos.ne']; rfl)
        (by simp [Ref.Loaded]) (by simp)
    · exact (h e).frame rfl rfl rfl (update_frame he (.inr (by rw [ht]; rfl)) (.inr rfl))
  | @dropped t d v ht =>
    by_cases he : e = d
    · subst he
      have hpos := (h e).count_pos_of_drop ht
      have hcount := (h e).loaded t v (.inr ht)
      refine (h e).counter ((h e).live t (by rw [ht]; rfl)) hpos
        (fun u w hne hu => hne ((h e).alone u t w v hu (.inr ht))) ?_ (by rw [ht]; rfl) ?_ ?_ ?_
      · rw [ht, hcount]
        split_ifs <;> simp [Ref.weight]
      · rw [update_self]
        split_ifs
        · exact if_pos rfl
        · rfl
      · split_ifs <;> simp [Ref.Loaded]
      · split_ifs <;> simp
    · refine (h e).frame (update_of_ne he _ _) rfl rfl
        (update_frame he (.inr (by rw [ht]; rfl)) ?_)
      split_ifs
      · exact .inr rfl
      · exact .inl rfl
  | @free t d ht =>
    by_cases he : e = d
    · subst he
      have hd := (h e).live t (by rw [ht]; rfl)
      refine inv_of_dead (fun u hu => ?_) ?_ hd.1
      · have hobject : (update s.ref t .out u).object = some e := hu
        by_cases hut : u = t
        · rw [hut, update_self] at hobject
          cases hobject
        · rw [update_of_ne hut] at hobject
          exact hut ((h e).alone_of_free ht hobject)
      · show update s.frees e (s.frees e + 1) e = 1
        rw [update_self, hd.2]
    · exact (h e).frame rfl rfl (update_of_ne he _ _)
        (update_frame he (.inr (by rw [ht]; rfl)) (.inl rfl))
  | @make t d ht hmade =>
    by_cases he : e = d
    · subst he
      exact (h e).make ht hmade
    · exact (h e).frame (update_of_ne he _ _) (update_of_ne he _ _) rfl
        (update_frame he (.inl (by rw [ht]; rfl)) (.inr rfl))
  | @scrap d v hmade =>
    by_cases he : e = d
    · subst he
      refine inv_of_dead ((h e).object_ne hmade) ?_ (update_self ..)
      show update s.frees e (s.frees e + 1) e = 1
      rw [update_self, (h e).unmade hmade]
    · exact (h e).frame (update_of_ne he _ _) (update_of_ne he _ _) (update_of_ne he _ _)
        fun _ => .inl rfl

end Inv

end Counted

end Maiccu.Lib
