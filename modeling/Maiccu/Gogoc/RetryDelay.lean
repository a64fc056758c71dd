import Maiccu.Gogoc.ServerWalk
import Maiccu.Lib.Backoff

/-!
# The delay before a retry

The switch of `tspMain` leaves the counter `consec_retry` and the delay `effective_retry_delay`,
sets the counter to 0, or sets both so that a wait is forced; the end of the loop reads the counter.
-/

namespace Maiccu.Gogoc

open Maiccu.Lib

/-- What `gogocvalidation.cc` and `gogocconfig.cc` check of the two delays. -/
structure Conf.DelaysValid (conf : Conf) : Prop where
  delay : 0 ≤ conf.retryDelay ∧ conf.retryDelay ≤ 3600
  delayMax : 0 ≤ conf.retryDelayMax ∧ conf.retryDelayMax ≤ 3600
  ordered : conf.retryDelay ≤ conf.retryDelayMax

/-! ## The counter and the delay -/

/-- `consec_retry` and `effective_retry_delay`. -/
structure Delay where
  count : UInt8
  seconds : UInt16

/-- What an attempt does to them before it comes to the wait. -/
inductive Touch where
  | keep
  /-- `consec_retry = 0` -/
  | reset
  /-- `effective_retry_delay = c.retry_delay; consec_retry = 1` -/
  | force
  deriving DecidableEq

def Touch.count : Touch → UInt8 → UInt8
  | .keep, c => c
  | .reset, _ => 0
  | .force, _ => 1

def Touch.apply (conf : Conf) : Touch → Delay → Delay
  | .keep, d => d
  | .reset, d => { d with count := 0 }
  | .force, _ => ⟨1, toUInt16 conf.retryDelay⟩

/-- One touch after another: the last one that is not `keep` counts. -/
def Touch.and : Touch → Touch → Touch
  | t, .keep => t
  | _, .reset => .reset
  | _, .force => .force

/-- The seconds count only while the counter is not 0. -/
def Delay.Same (d d' : Delay) : Prop := d.count = d'.count ∧ (0 < d.count → d.seconds = d'.seconds)

theorem Delay.Same.trans {d₁ d₂ d₃ : Delay} (h : d₁.Same d₂) (h' : d₂.Same d₃) : d₁.Same d₃ :=
  ⟨h.1.trans h'.1, fun hc => (h.2 hc).trans (h'.2 (h.1 ▸ hc))⟩

variable {d d' : Delay} {conf conf' : Conf} {t : Touch}

theorem Touch.apply_same (h : d.Same d') : (t.apply conf d).Same (t.apply conf d') := by
  cases t with
  | keep => exact h
  | reset => exact ⟨rfl, fun hc => absurd hc (UInt8.lt_irrefl 0)⟩
  | force => exact ⟨rfl, fun _ => rfl⟩

theorem Touch.apply_and {u : Touch} :
    (u.apply conf (t.apply conf d)).Same ((t.and u).apply conf d) := by
  cases u with
  | keep => exact ⟨rfl, fun _ => rfl⟩
  | reset => exact ⟨rfl, fun hc => absurd hc (UInt8.lt_irrefl 0)⟩
  | force => exact ⟨rfl, fun _ => rfl⟩

theorem Touch.count_apply : (t.apply conf d).count = t.count d.count := by
  cases t with
  | keep | reset | force => rfl

def Delay.next (conf : Conf) (d : Delay) : Delay where
  count := d.count + 1
  seconds :=
    if 0 < d.count then
      if d.count % 3 = 0 then
        if conf.retryDelayMax < (2 * d.seconds).toNat then toUInt16 conf.retryDelayMax
        else 2 * d.seconds
      else d.seconds
    else toUInt16 conf.retryDelay

theorem Delay.Same.next_eq (h : d.Same d') : d.next conf = d'.next conf := by
  unfold Delay.next
  rw [← h.1]
  by_cases hc : 0 < d.count
  · rw [h.2 hc]
  · rw [if_neg hc, if_neg hc]

def Delay.wait (conf : Conf) (d : Delay) : ℕ :=
  if 0 < d.count then (d.next conf).seconds.toNat else 0

theorem Delay.Same.wait_eq (h : d.Same d') (conf : Conf) : d.wait conf = d'.wait conf := by
  unfold Delay.wait
  rw [h.next_eq, h.1]

def waits (conf : Conf) : Delay → List Touch → List ℕ
  | _, [] => []
  | d, t :: ts => (t.apply conf d).wait conf :: waits conf ((t.apply conf d).next conf) ts

def counts : UInt8 → List Touch → List UInt8
  | _, [] => []
  | c, t :: ts => t.count c :: counts (t.count c + 1) ts

/-! ## The loop -/

variable (s : Main)

def Main.delay : Delay := ⟨s.consecRetry, s.effectiveRetryDelay⟩

theorem waitRetry_delay : s.waitRetry.delay = s.delay.next s.conf := by
  unfold Main.waitRetry Main.delay Delay.next
  dsimp only
  split_ifs <;> rfl

def Main.touch : Status → Touch
  | .keepaliveTimeout | .socketIo | .tunnelIo | .keepaliveError => .reset
  | .tspServerTooBusy => .force
  | .authenticationFailure | .failSocketConnect =>
    if s.conf.bootMode ∨ s.quickCycle ∨ s.readLastServer then .keep else .force
  | _ => .keep

variable (a : Attempt)

def Main.touched : Touch :=
  match s.chooseTransport with
  | none => .keep
  | some s₁ => (s₁.afterSession a).touch (s₁.session a).status

/-- The attempts of one round: what is done to the variables before each wait, and the seconds that
are waited for. `pending` is what was done since the last wait. -/
def Main.retries (s : Main) (pending : Touch) : List Attempt → Option (List Touch × List ℕ)
  | [] => some ([], [])
  | a :: as =>
    match s.attempt a with
    | .again s' => s'.retries (pending.and (s.touched a)) as
    | .wait s' =>
      (s'.waitRetry.retries .keep as).map fun (ts, ws) =>
        (pending.and (s.touched a) :: ts, s'.delay.wait s'.conf :: ws)
    | .endRound _ => none
    | .quit => none
    | .fault => none

theorem onStatus_delay (status : Status) :
    (s.onStatus a status).All fun s' => s'.delay = (s.touch status).apply s.conf s.delay := by
  refine onStatus_same.imp fun s' h => ?_
  rw [h]
  cases status with
  | failSocketConnect | authenticationFailure =>
    unfold Main.switched Main.touch
    split_ifs
    · rfl
    · rfl
  | _ => rfl

def Conf.delays (conf : Conf) : ℤ × ℤ := (conf.retryDelay, conf.retryDelayMax)

theorem Touch.apply_congr (h : conf'.delays = conf.delays) (t : Touch) (d : Delay) :
    t.apply conf' d = t.apply conf d := by
  have hr : conf'.retryDelay = conf.retryDelay := congrArg (·.1) h
  cases t with
  | keep | reset => rfl
  | force =>
    unfold Touch.apply
    rw [hr]

theorem Delay.next_congr (h : conf'.delays = conf.delays) (d : Delay) :
    d.next conf' = d.next conf := by
  have hr : conf'.retryDelay = conf.retryDelay := congrArg (·.1) h
  have hm : conf'.retryDelayMax = conf.retryDelayMax := congrArg (·.2) h
  unfold Delay.next
  rw [hr, hm]

theorem attempt_delay :
    (s.attempt a).All fun s' =>
      s'.conf.delays = s.conf.delays ∧ s'.delay = (s.touched a).apply s.conf s.delay := by
  unfold Main.attempt Main.touched
  split_ifs
  · trivial
  cases hchoose : s.chooseTransport with
  | none => exact ⟨rfl, rfl⟩
  | some s₁ =>
    have hkept : (s₁.afterSession a).conf.delays = s.conf.delays :=
      (congrArg Conf.delays (session_fixed hchoose) :)
    have hdelay : (s₁.afterSession a).delay = s.delay := by
      rw [(chooseTransport_eq hchoose).1]
      rfl
    have hconf := onStatus_conf (s₁.afterSession a) a (s₁.session a).status
    have htouch := onStatus_delay (s₁.afterSession a) a (s₁.session a).status
    rw [hdelay, Touch.apply_congr hkept] at htouch
    dsimp only
    cases hv : (s₁.afterSession a).onStatus a (s₁.session a).status with
    | again s' | wait s' | endRound s' =>
      rw [hv] at hconf htouch
      refine ⟨?_, htouch⟩
      rw [← hkept, hconf]
      rfl
    | quit | fault => trivial

theorem retries_eq_waits {s : Main} {pending : Touch} {as : List Attempt} {ts : List Touch}
    {ws : List ℕ} (hconf : s.conf.delays = conf.delays)
    (hdelay : s.delay.Same (pending.apply conf d)) (h : s.retries pending as = some (ts, ws)) :
    ws = waits conf d ts := by
  induction as generalizing s pending d ts ws with
  | nil =>
    cases h
    rfl
  | cons a as ih =>
    have hattempt := attempt_delay s a
    have hsame : ((s.touched a).apply s.conf s.delay).Same
        ((pending.and (s.touched a)).apply conf d) := by
      rw [Touch.apply_congr hconf]
      exact (Touch.apply_same hdelay).trans Touch.apply_and
    unfold Main.retries at h
    cases hv : s.attempt a with
    | again s' =>
      rw [hv] at h hattempt
      refine ih (hattempt.1.trans hconf) ?_ h
      rw [hattempt.2]
      exact hsame
    | wait s' =>
      rw [hv] at h hattempt
      obtain ⟨⟨ts', ws'⟩, hrest, heq⟩ := Option.map_eq_some_iff.mp h
      cases heq
      have hconf' : s'.conf.delays = conf.delays := hattempt.1.trans hconf
      rw [← hattempt.2] at hsame
      have hnext : s'.waitRetry.delay.Same
          (Touch.keep.apply conf (((pending.and (s.touched a)).apply conf d).next conf)) := by
        rw [waitRetry_delay, Delay.next_congr hconf', hsame.next_eq]
        exact ⟨rfl, fun _ => rfl⟩
      have hws' : ws' = waits conf (((pending.and (s.touched a)).apply conf d).next conf) ts' := by
        refine ih ?_ hnext hrest
        rw [waitRetry_eq]
        exact hconf'
      unfold waits
      rw [← hws', ← hsame.wait_eq]
      unfold Delay.wait
      rw [Delay.next_congr hconf']
    | endRound s' | quit | fault =>
      rw [hv] at h
      cases h

/-! ## One wait -/

/-- The wait with the number `i`, from 0, that the configuration asks for.
`CONSEC_RETRY_TO_DOUBLE_WAIT` is 3. -/
def Conf.lawfulWait (conf : Conf) (i : ℕ) : ℕ :=
  backoff 3 conf.retryDelay.toNat conf.retryDelayMax.toNat i

section Waits

variable (hvalid : conf.DelaysValid)

theorem toNat_toUInt16 {n : ℤ} (h : 0 ≤ n ∧ n ≤ 3600) : (toUInt16 n).toNat = n.toNat := by
  unfold toUInt16
  rw [UInt16.toNat_ofNat']
  omega

include hvalid

variable {i : ℕ}

theorem next_seconds_zero (hc : d.count = 0) :
    (d.next conf).seconds.toNat = conf.retryDelay.toNat := by
  unfold Delay.next
  rw [hc]
  exact toNat_toUInt16 hvalid.delay

theorem next_seconds (hc : d.count ≠ 0) (hle : d.seconds.toNat ≤ conf.retryDelayMax.toNat) :
    (d.next conf).seconds.toNat =
      if d.count.toNat % 3 = 0 then min (d.seconds.toNat * 2) conf.retryDelayMax.toNat
      else d.seconds.toNat := by
  have hpos : 0 < d.count := UInt8.pos_iff_ne_zero.mpr hc
  have hmax := hvalid.delayMax
  have hdouble : (2 * d.seconds).toNat = d.seconds.toNat * 2 := by
    change 2 * d.seconds.toNat % 65536 = _
    omega
  have hthird : d.count % 3 = 0 ↔ d.count.toNat % 3 = 0 := by
    rw [← UInt8.toNat_inj, UInt8.toNat_mod]
    rfl
  unfold Delay.next
  simp only [hthird]
  split_ifs with h3 hover
  · rw [toNat_toUInt16 hmax, min_eq_right]
    omega
  · omega
  · rfl

theorem wait_of_force (hc : d.count = 1 ∨ d.count = 2)
    (hs : d.seconds.toNat = conf.retryDelay.toNat) : d.wait conf = conf.retryDelay.toNat := by
  have hle := hvalid.ordered
  have hne : d.count ≠ 0 := by rcases hc with hc | hc <;> rw [hc] <;> decide
  have hthird : d.count.toNat % 3 ≠ 0 := by rcases hc with hc | hc <;> rw [hc] <;> decide
  unfold Delay.wait
  rw [if_pos (UInt8.pos_iff_ne_zero.mpr hne), next_seconds hvalid hne (by omega), if_neg hthird, hs]

theorem force_wait (d : Delay) : (Touch.force.apply conf d).wait conf = conf.retryDelay.toNat :=
  wait_of_force hvalid (.inl rfl) (toNat_toUInt16 hvalid.delay)

omit hvalid in
theorem wait_of_zero (hc : d.count = 0) : d.wait conf = 0 := by
  unfold Delay.wait
  rw [hc]
  rfl

/-! ## Counting in step -/

/-- After `i` waits the variables are those with which the law goes on. -/
structure Delay.InStep (conf : Conf) (i : ℕ) (d : Delay) : Prop where
  le : i ≤ 256
  count : d.count = UInt8.ofNat i
  seconds : 0 < i → d.seconds.toNat =
    min (conf.retryDelay.toNat * 2 ^ ((i - 1) / 3)) conf.retryDelayMax.toNat

theorem inStep_wait (h : d.InStep conf i) (hi : d.count.toNat = i) :
    d.wait conf = conf.lawfulWait i ∧ (d.next conf).InStep conf (i + 1) := by
  have hlt : i < 256 := hi ▸ d.count.toNat_lt
  have hcount : (d.next conf).count = UInt8.ofNat (i + 1) := by
    rw [UInt8.ofNat_add, ← h.count]
    rfl
  have hr := hvalid.ordered
  rcases Nat.eq_zero_or_pos i with rfl | hpos
  · have hzero : d.count = 0 := UInt8.toNat_inj.mp hi
    refine ⟨wait_of_zero hzero, by omega, hcount, fun _ => ?_⟩
    rw [next_seconds_zero hvalid hzero]
    omega
  · have hne : d.count ≠ 0 := by
      intro hzero
      rw [hzero] at hi
      exact absurd hi.symm (Nat.ne_of_gt hpos)
    have hs := h.seconds hpos
    have hnext : (d.next conf).seconds.toNat =
        min (conf.retryDelay.toNat * 2 ^ (i / 3)) conf.retryDelayMax.toNat := by
      rw [next_seconds hvalid hne (hs ▸ min_le_right _ _), hi, hs]
      split_ifs with hthird
      · have hexp : i / 3 = (i - 1) / 3 + 1 := by omega
        rw [hexp, pow_succ, ← Nat.mul_assoc]
        omega
      · have hexp : (i - 1) / 3 = i / 3 := by omega
        rw [hexp]
    refine ⟨?_, by omega, hcount, fun _ => hnext⟩
    unfold Delay.wait Conf.lawfulWait backoff
    rw [if_pos (UInt8.pos_iff_ne_zero.mpr hne), if_neg (Nat.ne_of_gt hpos), hnext]

theorem apply_inStep (h : d.InStep conf i) (hi : (t.count d.count).toNat = i) :
    (t.apply conf d).InStep conf i := by
  cases t with
  | keep => exact h
  | reset =>
    have hzero : 0 = i := hi
    subst hzero
    exact ⟨h.le, rfl, fun hpos => absurd hpos (lt_irrefl 0)⟩
  | force =>
    have hone : 1 = i := hi
    subst hone
    refine ⟨h.le, rfl, fun _ => ?_⟩
    have hr := hvalid.ordered
    change (toUInt16 conf.retryDelay).toNat = min (_ * 1) _
    rw [toNat_toUInt16 hvalid.delay]
    omega

variable (hpos : 0 < conf.retryDelay.toNat) (hlt : conf.retryDelay.toNat < conf.retryDelayMax.toNat)
include hpos hlt

theorem wait_ne (h : d.InStep conf i) (hi : (t.count d.count).toNat ≠ i)
    (hthird : ¬(i = 2 ∧ t.count d.count = 1)) :
    (t.apply conf d).wait conf ≠ conf.lawfulWait i := by
  cases t with
  | keep =>
    -- The counter has eight bits.
    have hwrap : i = 256 := by
      have hle := h.le
      have hmod : d.count.toNat = i % 256 := by rw [h.count, UInt8.toNat_ofNat']
      change d.count.toNat ≠ i at hi
      omega
    have hzero : d.count = 0 := by
      rw [h.count, hwrap]
      rfl
    have hwait : (Touch.keep.apply conf d).wait conf = 0 := wait_of_zero hzero
    rw [hwait]
    exact (backoff_pos hpos (hpos.trans hlt) (by omega)).ne
  | reset =>
    have hne : i ≠ 0 := fun hz => hi hz.symm
    exact (backoff_pos hpos (hpos.trans hlt) hne).ne
  | force =>
    have hone : i ≠ 1 := fun h1 => hi h1.symm
    have htwo : i ≠ 2 := fun h2 => hthird ⟨h2, rfl⟩
    rw [force_wait hvalid]
    rcases Nat.eq_zero_or_pos i with rfl | hi'
    · exact hpos.ne'
    · exact (lt_backoff (by decide) hpos hlt (by omega)).ne

theorem wait_forced_third (h : d.InStep conf 2) (ht : t.count d.count = 1) :
    (t.apply conf d).wait conf = conf.lawfulWait 2 ∧
      ∀ u : Touch, (u.apply conf ((t.apply conf d).next conf)).wait conf ≠
        conf.lawfulWait 3 := by
  have hforce : t = .force := by
    cases t with
    | keep =>
      rw [Touch.count, h.count] at ht
      cases ht
    | reset => cases ht
    | force => rfl
  subst hforce
  have h3 : _ < conf.lawfulWait 3 := lt_backoff (by decide) hpos hlt (le_refl 3)
  rw [force_wait hvalid]
  refine ⟨(backoff_of_lt hlt.le (by decide) (by decide)).symm, fun u => ?_⟩
  cases u with
  | keep =>
    have hseconds : ((Touch.force.apply conf d).next conf).seconds.toNat =
        conf.retryDelay.toNat := toNat_toUInt16 hvalid.delay
    have hwait : (Touch.keep.apply conf ((Touch.force.apply conf d).next conf)).wait conf =
        conf.retryDelay.toNat := wait_of_force hvalid (.inr rfl) hseconds
    rw [hwait]
    exact h3.ne
  | reset =>
    exact (Nat.zero_lt_of_lt h3).ne
  | force =>
    rw [force_wait hvalid]
    exact h3.ne

theorem waits_iff_counts (h : d.InStep conf i) (ts : List Touch) :
    (∀ j w, (waits conf d ts)[j]? = some w → w = conf.lawfulWait (i + j)) ↔
    ∀ j c, (counts d.count ts)[j]? = some c →
      c.toNat = i + j ∨ (i + j = 2 ∧ c = 1 ∧ ts.length = j + 1) := by
  induction ts generalizing i d with
  | nil => exact iff_of_true nofun nofun
  | cons t ts ih =>
    unfold waits counts
    rw [forall_getElem?_cons, forall_getElem?_cons, Nat.add_zero]
    by_cases hi : (t.count d.count).toNat = i
    · -- In step: the wait is right, and so is the state after it.
      have hcount : (t.apply conf d).count = t.count d.count := Touch.count_apply
      obtain ⟨hwait, hnext⟩ := inStep_wait hvalid (apply_inStep hvalid h hi) (hcount ▸ hi)
      have hih := ih hnext
      have hnextCount : ((t.apply conf d).next conf).count = t.count d.count + 1 := by
        rw [← hcount]
        rfl
      rw [hnextCount] at hih
      simp only [Nat.add_assoc, Nat.add_comm 1] at hih
      rw [and_iff_right hwait, and_iff_right (.inl hi)]
      simp only [List.length_cons, Nat.add_right_cancel_iff]
      exact hih
    · by_cases hthird : i = 2 ∧ t.count d.count = 1
      · obtain ⟨rfl, hone⟩ := hthird
        obtain ⟨hwait, hlater⟩ := wait_forced_third hvalid hpos hlt h hone
        rw [and_iff_right hwait, or_iff_right hi]
        cases ts with
        | nil =>
          exact iff_of_true nofun
            ⟨⟨rfl, hone, rfl⟩, nofun⟩
        | cons u us =>
          refine iff_of_false (fun hall => hlater u (hall 0 _ rfl)) fun hall => ?_
          have hlen := hall.1.2.2
          simp only [List.length_cons] at hlen
          omega
      · refine iff_of_false (fun hall => wait_ne hvalid hpos hlt h hi hthird hall.1) fun hall => ?_
        rcases hall.1 with hcount | ⟨htwo, hone, -⟩
        · exact hi hcount
        · exact hthird ⟨htwo, hone⟩

end Waits

section Steady

variable (hvalid : conf.DelaysValid)
  (hsteady : min (conf.retryDelay.toNat * 2) conf.retryDelayMax.toNat = conf.retryDelay.toNat)
include hvalid hsteady

variable (h : d.count = 0 ∨ d.seconds.toNat = conf.retryDelay.toNat)
include h

theorem steady_wait :
    d.wait conf = (if d.count = 0 then 0 else conf.retryDelay.toNat) ∧
      (d.next conf).seconds.toNat = conf.retryDelay.toNat := by
  have hr := hvalid.ordered
  by_cases hc : d.count = 0
  · rw [if_pos hc]
    exact ⟨wait_of_zero hc, next_seconds_zero hvalid hc⟩
  · have hs := h.resolve_left hc
    have hnext : (d.next conf).seconds.toNat = conf.retryDelay.toNat := by
      rw [next_seconds hvalid hc (by omega), hs, hsteady, ite_self]
    unfold Delay.wait
    rw [if_pos (UInt8.pos_iff_ne_zero.mpr hc), if_neg hc]
    exact ⟨hnext, hnext⟩

theorem steady_waits (ts : List Touch) : waits conf d ts =
      (counts d.count ts).map fun c => if c = 0 then 0 else conf.retryDelay.toNat := by
  induction ts generalizing d with
  | nil => rfl
  | cons t ts ih =>
    have hcount : (t.apply conf d).count = t.count d.count := Touch.count_apply
    have happly : (t.apply conf d).count = 0 ∨
        (t.apply conf d).seconds.toNat = conf.retryDelay.toNat := by
      cases t with
      | keep => exact h
      | reset => exact .inl rfl
      | force => exact .inr (toNat_toUInt16 hvalid.delay)
    obtain ⟨hwait, hnext⟩ := steady_wait hvalid hsteady happly
    have hnextCount : ((t.apply conf d).next conf).count = t.count d.count + 1 := by
      rw [← hcount]
      rfl
    unfold waits counts
    rw [List.map_cons, hwait, hcount, ih (.inr hnext), hnextCount]

end Steady

/-! ## The sequence of waits -/

theorem ite_zero_iff {r : ℕ} (hr : r ≠ 0) {p q : Prop} [Decidable p] [Decidable q] :
    (if p then 0 else r) = (if q then 0 else r) ↔ (p ↔ q) := by
  by_cases hp : p
  · rw [if_pos hp, iff_true_left hp]
    split_ifs with hq
    · exact iff_of_true rfl hq
    · exact iff_of_false hr.symm hq
  · rw [if_neg hp, iff_false_left hp]
    split_ifs with hq
    · exact iff_of_false hr fun h => h hq
    · exact iff_of_true rfl hq

/-- The counter comes to the wait with the number `i` as `i`. There are two exceptions: where the
delay is its own maximum the counter need only be 0 at the first wait and at no other, and the last
of three waits may be forced. -/
def Counted (r m : ℕ) (ts : List Touch) : Prop :=
  r = 0 ∨ ∀ i c, (counts 0 ts)[i]? = some c →
    if r = m then (c = 0 ↔ i = 0) else c.toNat = i ∨ (i = 2 ∧ c = 1 ∧ ts.length = i + 1)

theorem waits_law_iff (hvalid : conf.DelaysValid) (hd : d.count = 0) (ts : List Touch) :
    (∀ i w, (waits conf d ts)[i]? = some w → w = conf.lawfulWait i) ↔
    Counted conf.retryDelay.toNat conf.retryDelayMax.toNat ts := by
  have hr := hvalid.ordered
  unfold Counted
  by_cases hzero : conf.retryDelay.toNat = 0
  · have hsteady : min (conf.retryDelay.toNat * 2) conf.retryDelayMax.toNat =
        conf.retryDelay.toNat := by omega
    refine iff_of_true (fun i w hw => ?_) (.inl hzero)
    rw [Conf.lawfulWait, backoff_of_steady hsteady]
    rw [steady_waits hvalid hsteady (.inl hd), List.getElem?_map, Option.map_eq_some_iff] at hw
    obtain ⟨c, -, hw⟩ := hw
    rw [← hw, hzero, ite_self, ite_self]
  rw [or_iff_right hzero]
  by_cases hmax : conf.retryDelay.toNat = conf.retryDelayMax.toNat
  · have hsteady : min (conf.retryDelay.toNat * 2) conf.retryDelayMax.toNat =
        conf.retryDelay.toNat := by omega
    simp only [if_pos hmax, Conf.lawfulWait, backoff_of_steady hsteady,
      steady_waits hvalid hsteady (.inl hd), hd, List.getElem?_map, Option.map_eq_some_iff]
    constructor
    · intro h i c hc
      exact (ite_zero_iff hzero).mp (h i _ ⟨c, hc, rfl⟩)
    · rintro h i w ⟨c, hc, rfl⟩
      exact (ite_zero_iff hzero).mpr (h i c hc)
  · have hin : d.InStep conf 0 := ⟨by decide, hd, fun hpos => absurd hpos (lt_irrefl 0)⟩
    have hiff := waits_iff_counts hvalid (by omega) (by omega) hin ts
    simp only [Nat.zero_add, hd] at hiff
    simp only [if_neg hmax]
    rw [hiff]

end Maiccu.Gogoc
