import Mathlib.Algebra.Order.Group.Nat

/-!
# A limiter with a counter and one time

A limiter counts what it grants, up to a maximum, and keeps the time of the last one. One is granted
at once when the count is zero, and otherwise if more than a gap has passed. At the maximum none is
granted, or (with a period) only after more than the period, and the count then starts again. Times
are machine words whose differences wrap, so the time kept at first may be anything.
-/

namespace Maiccu.Lib

open List

structure Limits where
  max : ℕ
  gap : ℕ
  period : Option ℕ
  max_pos : 0 < max
  gap_le : ∀ d ∈ period, gap ≤ d

structure Limiter where
  count : ℕ
  last : UInt64

inductive LimiterCall where
  | ask (now : UInt64)
  | touch (now : UInt64)

def LimiterCall.now : LimiterCall → UInt64
  | .ask now => now
  | .touch now => now

def along {S C T : Type} (give : S → C → List T) (run : S → C → S) : S → List C → List T
  | _, [] => []
  | s, c :: cs => give s c ++ along give run (run s c) cs

namespace Limiter

variable (lim : Limits) (s : Limiter)

def grant (now : UInt64) : Option ℕ :=
  if s.count = 0 then some 0
  else if lim.max ≤ s.count then
    match lim.period with
    | none => none
    | some d => if (now - s.last).toNat ≤ d then none else some 0
  else if (now - s.last).toNat ≤ lim.gap then none
  else some s.count

def step : LimiterCall → Limiter
  | .ask now =>
    match s.grant lim now with
    | none => s
    | some n => ⟨n + 1, now⟩
  | .touch now => { s with last := now }

def grantedAt : LimiterCall → List UInt64
  | .ask now => if (s.grant lim now).isSome then [now] else []
  | .touch _ => []

def granted : Limiter → List LimiterCall → List UInt64 := along (grantedAt lim) (step lim)

def Ordered (cs : List LimiterCall) : Prop := cs.Pairwise fun c c' => c.now ≤ c'.now

def Before (cs : List LimiterCall) : Prop := ∀ c ∈ cs, s.last ≤ c.now

end Limiter

namespace Limiter

variable {lim : Limits} {s : Limiter} {now : UInt64} {n : ℕ} {c : LimiterCall}
  {cs : List LimiterCall}

theorem elapsed_of_le (h : s.last ≤ now) : (now - s.last).toNat = now.toNat - s.last.toNat :=
  UInt64.toNat_sub_of_le _ _ h

section

variable (h : s.grant lim now = some n)
include h

theorem grant_cases : (n = s.count ∧ n < lim.max ∧ (s.count ≠ 0 → lim.gap < (now - s.last).toNat)) ∨
      (n = 0 ∧ s.count ≠ 0 ∧ lim.max ≤ s.count ∧ ∃ d ∈ lim.period, d < (now - s.last).toNat) := by
  unfold grant at h
  split_ifs at h with h₀ hmax hgap
  · left
    have hn := Option.some.inj h
    exact ⟨by omega, by rw [← hn]; exact lim.max_pos, fun hne => absurd h₀ hne⟩
  · right
    cases hd : lim.period with
    | none => simp [hd] at h
    | some d =>
      simp only [hd] at h
      split_ifs at h with hle
      exact ⟨(Option.some.inj h).symm, h₀, hmax, d, rfl, not_le.mp hle⟩
  · left
    have hn := Option.some.inj h
    exact ⟨hn.symm, by omega, fun _ => not_le.mp hgap⟩

theorem lt_max_of_grant : n < lim.max := by
  rcases grant_cases h with ⟨-, hn, -⟩ | ⟨rfl, -⟩
  · exact hn
  · exact lim.max_pos

theorem step_ask_some : s.step lim (.ask now) = ⟨n + 1, now⟩ := by
  simp only [step, h]

end

theorem step_ask_none (h : s.grant lim now = none) : s.step lim (.ask now) = s := by
  simp only [step, h]

theorem granted_ask_some (h : s.grant lim now = some n) :
    granted lim s (.ask now :: cs) = now :: granted lim ⟨n + 1, now⟩ cs := by
  rw [granted, along, grantedAt, h, step_ask_some h]
  rfl

theorem granted_ask_none (h : s.grant lim now = none) :
    granted lim s (.ask now :: cs) = granted lim s cs := by
  rw [granted, along, grantedAt, h, step_ask_none h]
  rfl

theorem Ordered.tail (h : Ordered (c :: cs)) : Ordered cs := (pairwise_cons.mp h).2

theorem Ordered.head (h : Ordered (c :: cs)) (k : ℕ) : Before ⟨k, c.now⟩ cs :=
  (pairwise_cons.mp h).1

theorem Before.tail (h : s.Before (c :: cs)) : s.Before cs :=
  fun c' hc' => h c' (mem_cons_of_mem c hc')

theorem lt_of_mem_granted (hcount : s.count ≠ 0) (hbefore : s.Before cs) (hcs : Ordered cs) :
    ∀ a ∈ granted lim s cs, s.last.toNat + lim.gap < a.toNat := by
  induction cs generalizing s with
  | nil => exact nofun
  | cons c cs ih =>
    have hle : s.last ≤ c.now := hbefore c mem_cons_self
    have hle' : s.last.toNat + lim.gap ≤ c.now.toNat + lim.gap :=
      Nat.add_le_add_right (UInt64.le_iff_toNat_le.mp hle) _
    cases c with
    | touch now =>
      intro a ha
      exact hle'.trans_lt (ih (s := ⟨s.count, now⟩) hcount (hcs.head _) hcs.tail a ha)
    | ask now =>
      replace hle : s.last ≤ now := hle
      cases hg : s.grant lim now with
      | none =>
        rw [granted_ask_none hg]
        exact ih hcount hbefore.tail hcs.tail
      | some n =>
        rw [granted_ask_some hg, forall_mem_cons]
        have hgap : lim.gap < (now - s.last).toNat := by
          rcases grant_cases hg with ⟨-, -, hgap⟩ | ⟨-, -, -, d, hd, hlt⟩
          · exact hgap hcount
          · exact lt_of_le_of_lt (lim.gap_le d hd) hlt
        rw [elapsed_of_le hle] at hgap
        refine ⟨by omega, fun a ha => ?_⟩
        exact hle'.trans_lt
          (ih (Nat.succ_ne_zero n) (hcs.head _) hcs.tail a ha)

theorem granted_spaced (hcs : Ordered cs) :
    (granted lim s cs).Pairwise fun a b => a.toNat + lim.gap < b.toNat := by
  induction cs generalizing s with
  | nil => exact List.Pairwise.nil
  | cons c cs ih =>
    cases c with
    | touch now => exact ih hcs.tail
    | ask now =>
      cases hg : s.grant lim now with
      | none =>
        rw [granted_ask_none hg]
        exact ih hcs.tail
      | some n =>
        rw [granted_ask_some hg, pairwise_cons]
        exact ⟨lt_of_mem_granted (Nat.succ_ne_zero n) (hcs.head _) hcs.tail, ih hcs.tail⟩

def inWindow (t d : ℕ) (l : List UInt64) : ℕ :=
  l.countP fun a => decide (t ≤ a.toNat ∧ a.toNat ≤ t + d)

variable {l : List UInt64}

theorem inWindow_cons_of_mem {t d : ℕ} (h : t ≤ now.toNat ∧ now.toNat ≤ t + d) :
    inWindow t d (now :: l) = inWindow t d l + 1 :=
  countP_cons_of_pos (by simpa using h)

theorem inWindow_cons_of_notMem {t d : ℕ}
    (h : ¬ (t ≤ now.toNat ∧ now.toNat ≤ t + d)) : inWindow t d (now :: l) = inWindow t d l :=
  countP_cons_of_neg (by simpa using h)

/-- **The maximum.** A window that is not longer than the period has no more than the maximum. If
the time kept is in the window, what was counted is taken off. -/
theorem inWindow_granted_le {t d : ℕ} (hd : ∀ e ∈ lim.period, d ≤ e) (hcs : Ordered cs) :
    inWindow t d (granted lim s cs) ≤ lim.max ∧
      (s.Before cs → t ≤ s.last.toNat → inWindow t d (granted lim s cs) ≤ lim.max - s.count) := by
  induction cs generalizing s with
  | nil => exact ⟨Nat.zero_le _, fun _ _ => Nat.zero_le _⟩
  | cons c cs ih =>
    cases c with
    | touch now =>
      obtain ⟨hmax, hleft⟩ := ih hcs.tail
      refine ⟨hmax, fun hbefore ht => hleft (hcs.head _) (ht.trans ?_)⟩
      exact UInt64.le_iff_toNat_le.mp (hbefore _ mem_cons_self)
    | ask now =>
      cases hg : s.grant lim now with
      | none =>
        rw [granted_ask_none hg]
        exact ⟨(ih hcs.tail).1, fun hbefore => (ih hcs.tail).2 hbefore.tail⟩
      | some n =>
        rw [granted_ask_some hg]
        obtain ⟨hmax, hleft⟩ := ih (s := ⟨n + 1, now⟩) hcs.tail
        have hn := lt_max_of_grant hg
        by_cases hin : t ≤ now.toNat ∧ now.toNat ≤ t + d
        · rw [inWindow_cons_of_mem hin]
          have hrest := hleft (hcs.head _) hin.1
          simp only at hrest
          refine ⟨by omega, fun hbefore ht => ?_⟩
          rcases grant_cases hg with ⟨hcount, -⟩ | ⟨-, -, -, e, he, hlt⟩
          · omega
          · -- a count that starts again is more than a period after the time kept
            have hle : s.last ≤ now := hbefore _ mem_cons_self
            rw [elapsed_of_le hle] at hlt
            have := hd e he
            omega
        · rw [inWindow_cons_of_notMem hin]
          refine ⟨hmax, fun hbefore ht => ?_⟩
          have hle := UInt64.le_iff_toNat_le.mp (hbefore _ mem_cons_self)
          -- the window is over
          have hnone : inWindow t d (granted lim ⟨n + 1, now⟩ cs) = 0 := by
            rw [inWindow, countP_eq_zero]
            intro a ha
            have hlt := lt_of_mem_granted (Nat.succ_ne_zero n) (hcs.head _)
              hcs.tail a ha
            simp only [LimiterCall.now] at hle hlt
            simp only [decide_eq_true_eq]
            omega
          omega

/-! ## Systems with a limiter in them -/

/-- The calls `C` of a system are questions to a limiter that is a view of its state. Other calls
leave it alone. -/
structure Viewed {S C : Type} (lim : Limits) (give : S → C → List UInt64) (run : S → C → S)
    (view : S → Limiter) (toCall : C → Option LimiterCall) : Prop where
  other : ∀ s c, toCall c = none → give s c = [] ∧ view (run s c) = view s
  call : ∀ s c k, toCall c = some k →
    give s c = (view s).grantedAt lim k ∧ view (run s c) = (view s).step lim k

theorem Viewed.along_eq {S C : Type} {give : S → C → List UInt64} {run : S → C → S}
    {view : S → Limiter} {toCall : C → Option LimiterCall} (h : Viewed lim give run view toCall)
    {s : S} {cs : List C} : along give run s cs = granted lim (view s) (cs.filterMap toCall) := by
  induction cs generalizing s with
  | nil => rfl
  | cons c cs ih =>
    rw [along, ih]
    cases hc : toCall c with
    | none =>
      obtain ⟨hgive, hview⟩ := h.other s c hc
      rw [filterMap_cons_none hc, hgive, hview, nil_append]
    | some k =>
      obtain ⟨hgive, hview⟩ := h.call s c k hc
      rw [filterMap_cons_some hc, hgive, hview]
      rfl

end Limiter

end Maiccu.Lib
