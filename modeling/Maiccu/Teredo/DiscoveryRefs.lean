import Maiccu.Lib.Locks
import Maiccu.Lib.RefCount

/-!
# Who frees a discovery

The references to a `teredo_discovery`: one is the tunnel's, taken by `teredo_discovery_start` and
dropped by `teredo_discovery_stop`, both called in `teredo_state_change`; the others are taken by
threads in client case 3 of `teredo_transmit`. The counter is raised under a read lock, which
several threads may hold, and lowered under no lock. Each constructor of `UserPc` and `ChangePc` is
a place in the code; `++` and `--` read the counter in one step and write it in another.
-/

namespace Maiccu.Teredo

open Maiccu.Lib Function

/-- A `teredo_discovery`. -/
structure Disc where
  /-- `malloc` has returned it. -/
  made : Bool
  refcnt : ℤ
  /-- `send` is not null. -/
  send : Bool
  /-- `recv` is not null. -/
  recv : Bool
  /-- How often it was freed. -/
  frees : ℕ

def Disc.Live (d : Disc) : Prop := d.made = true ∧ d.frees = 0

instance (d : Disc) : Decidable d.Live := inferInstanceAs (Decidable (_ ∧ _))

/-- What must not happen. -/
inductive Fault where
  /-- `teredo_discovery_release (NULL)`. -/
  | nullRelease
  /-- A discovery is used, or freed, that is not there. -/
  | notLive (d : ℕ)
  | assertion
  deriving DecidableEq

inductive Outcome (α : Type) where
  | wait
  | fault (f : Fault)
  | next (a : α)

/-- No fault, and `p` of the state that comes next. -/
def Outcome.Sat {α : Type} (p : α → Prop) : Outcome α → Prop
  | .wait => True
  | .fault _ => False
  | .next a => p a

/-! ## The places -/

inductive Release where
  | call (d : Option ℕ)
  /-- `v` was read from the counter. -/
  | store (d : ℕ) (v : ℤ)
  /-- The counter is zero. -/
  | free (d : ℕ)
  deriving DecidableEq

inductive UserPc where
  | idle
  /-- In `teredo_run_inner`: the packet is local, and the peer is about to be marked so. -/
  | islocal
  /-- In client case 3 of `teredo_transmit`, the peer list released: at `pthread_rwlock_rdlock`. -/
  | rdlock
  | rdheld
  /-- At the call of `teredo_discovery_grab`. -/
  | grab (d : ℕ)
  /-- `v` was read from the counter. -/
  | grabbed (d : ℕ) (v : ℤ)
  /-- At `pthread_rwlock_unlock`. -/
  | unlock (d : Option ℕ)
  /-- In `SendDiscoveryBubble`. -/
  | bubble (d : ℕ)
  | release (r : Release)
  deriving DecidableEq

inductive ChangePc where
  | idle
  /-- The new state is set. -/
  | changed (up : Bool)
  /-- In `teredo_discovery_stop`. -/
  | stop (d : ℕ)
  | release (r : Release)
  /-- At `tunnel->discovery = NULL`. -/
  | clear
  /-- At `teredo_list_reset`. -/
  | reset
  /-- At the call of `teredo_discovery_start`. -/
  | start
  /-- At `tunnel->discovery = d`. -/
  | assign (d : Option ℕ)
  | unlock

inductive Started where
  /-- `malloc` fails. -/
  | noMemory
  /-- There is no suitable interface or no socket, and the new discovery `d` is freed. -/
  | scrapped (d : ℕ)
  /-- The discovery `d` has the threads that could be started. -/
  | running (d : ℕ) (send recv : Bool)

/-- The threads and what they share. A pointer to a discovery is its number. -/
structure RefSys (ι : Type) where
  /-- `state_lock`. The maintenance thread is `none`. -/
  lock : RwLock (Option ι)
  /-- `disc_params` is not null. -/
  discParams : Bool
  /-- `tunnel->discovery`. -/
  discovery : Option ℕ
  /-- The list has an untrusted local peer. -/
  localPeer : Bool
  objs : ℕ → Disc
  user : ι → UserPc
  change : ChangePc

/-- The thread that moves. -/
inductive RefAct (ι : Type) where
  /-- A local packet is received. -/
  | receive (i : ι)
  /-- A packet for an untrusted local peer is sent. -/
  | transmit (i : ι)
  | go (i : ι)
  /-- `teredo_state_change` is called. -/
  | change (up : Bool)
  /-- `teredo_state_change` goes on. -/
  | maint (r : Started)
  /-- The thread `send` of a discovery sends a bubble. -/
  | mcast (d : ℕ)

def Release.writes (d : ℕ) : Release → Bool
  | .store e _ => decide (e = d)
  | _ => false

def UserPc.writes (d : ℕ) : UserPc → Bool
  | .grabbed e _ => decide (e = d)
  | .release r => r.writes d
  | _ => false

def ChangePc.writes (d : ℕ) : ChangePc → Bool
  | .release r => r.writes d
  | _ => false

/-! ## Steps -/

/-- A step of `teredo_discovery_release`, and where it goes on unless it returns. -/
def teredoDiscoveryRelease (objs : ℕ → Disc) : Release → Except Fault ((ℕ → Disc) × Option Release)
  | .call none => .error .nullRelease
  | .call (some d) =>
    if ¬ (objs d).Live then .error (.notLive d) else
    if (objs d).refcnt = 0 then .error .assertion else
    .ok (objs, some (.store d (objs d).refcnt))
  | .store d v =>
    if ¬ (objs d).Live then .error (.notLive d) else
    .ok (update objs d { objs d with refcnt := v - 1 },
      if v - 1 = 0 then some (.free d) else none)
  | .free d =>
    if ¬ (objs d).Live then .error (.notLive d) else
    if (objs d).send || (objs d).recv then .error .assertion else
    .ok (update objs d { objs d with frees := (objs d).frees + 1 }, none)

namespace RefSys

variable {ι : Type} [DecidableEq ι] (s : RefSys ι)

def goto (i : ι) (pc : UserPc) : RefSys ι :=
  { s with user := update s.user i pc }

def userStep (i : ι) : Outcome (RefSys ι) :=
  match s.user i with
  | .idle => .wait
  | .islocal => .next { s.goto i .idle with localPeer := true }
  | .rdlock =>
    match s.lock.rdlock (some i) with
    | none => .wait
    | some l => .next { s.goto i .rdheld with lock := l }
  | .rdheld => .next (s.goto i (s.discovery.elim (.unlock none) .grab))
  | .grab d =>
    if ¬ (s.objs d).Live then .fault (.notLive d) else
    if (s.objs d).refcnt = 0 then .fault .assertion else
    .next (s.goto i (.grabbed d (s.objs d).refcnt))
  | .grabbed d v =>
    if ¬ (s.objs d).Live then .fault (.notLive d) else
    .next { s.goto i (.unlock (some d)) with
      objs := update s.objs d { s.objs d with refcnt := v + 1 } }
  | .unlock d =>
    .next { s.goto i (d.elim (.release (.call none)) .bubble) with lock := s.lock.unlock (some i) }
  | .bubble d =>
    if ¬ (s.objs d).Live then .fault (.notLive d) else .next (s.goto i (.release (.call (some d))))
  | .release r =>
    match teredoDiscoveryRelease s.objs r with
    | .error f => .fault f
    | .ok (objs, r) => .next { s.goto i (r.elim .idle .release) with objs }

def changeStep (r : Started) : Outcome (RefSys ι) :=
  match s.change with
  | .idle => .wait
  | .changed up =>
    .next { s with change := if up then s.discovery.elim .reset .stop else .unlock }
  | .stop d =>
    if ¬ (s.objs d).Live then .fault (.notLive d) else
    .next { s with
      objs := update s.objs d { s.objs d with send := false, recv := false }
      change := .release (.call (some d)) }
  | .release r =>
    match teredoDiscoveryRelease s.objs r with
    | .error f => .fault f
    | .ok (objs, r) => .next { s with objs, change := r.elim .clear .release }
  | .clear => .next { s with discovery := none, change := .reset }
  | .reset =>
    .next { s with localPeer := false, change := if s.discParams then .start else .unlock }
  | .start =>
    match r with
    | .noMemory => .next { s with change := .assign none }
    | .scrapped d =>
      if (s.objs d).made then .wait else
      .next { s with
        objs := update s.objs d ⟨true, 1, false, false, (s.objs d).frees + 1⟩
        change := .assign none }
    | .running d send recv =>
      if (s.objs d).made then .wait else
      .next { s with
        objs := update s.objs d ⟨true, 1, send, recv, (s.objs d).frees⟩
        change := .assign (some d) }
  | .assign d => .next { s with discovery := d, change := .unlock }
  | .unlock => .next { s with lock := s.lock.unlock none, change := .idle }

def step : RefAct ι → Outcome (RefSys ι)
  | .receive i =>
    match s.user i, s.lock.rdlock (some i) with
    | .idle, some _ =>
      -- `teredo_islocal`, under the read lock
      match s.discovery with
      | none => .next s
      | some d =>
        if ¬ s.discParams then .next s else
        if ¬ (s.objs d).Live then .fault (.notLive d) else .next (s.goto i .islocal)
    | _, _ => .wait
  | .transmit i =>
    match s.user i with
    | .idle => if s.localPeer then .next (s.goto i .rdlock) else .wait
    | _ => .wait
  | .go i => s.userStep i
  | .change up =>
    match s.change, s.lock.wrlock none with
    | .idle, some l => .next { s with lock := l, change := .changed up }
    | _, _ => .wait
  | .maint r => s.changeStep r
  | .mcast d =>
    if ¬ (s.objs d).send then .wait else
    if ¬ (s.objs d).Live then .fault (.notLive d) else .next s

def new (discParams : Bool) : RefSys ι where
  lock := .read ∅
  discParams
  discovery := none
  localPeer := false
  objs := fun _ => ⟨false, 0, false, false, 0⟩
  user := fun _ => .idle
  change := .idle

/-! ## The condition -/

def reads : RefAct ι → Option ℕ
  | .go i =>
    match s.user i with
    | .grab d | .release (.call (some d)) => some d
    | _ => none
  | .maint _ =>
    match s.change with
    | .release (.call (some d)) => some d
    | _ => none
  | _ => none

/-- A thread has read the counter of `d` and has not yet written it. -/
def Busy (d : ℕ) : Prop :=
  (∃ i, (s.user i).writes d = true) ∨ s.change.writes d = true

/-- The condition on a step: no counter is read while a thread is about to write it, and a thread
that takes the read lock in `teredo_transmit` finds a discovery. -/
def Careful (a : RefAct ι) : Prop :=
  (∀ d ∈ s.reads a, ¬ s.Busy d) ∧
    match a with
    | .go i => s.user i = .rdheld → s.discovery ≠ none
    | _ => True

def CarefulStep (a : RefAct ι) (s' : RefSys ι) : Prop :=
  s.Careful a ∧ s.step a = .next s'

end RefSys

/-! ## References -/

/-- What a place of `teredo_discovery_release` has to do with the discoveries. -/
def Release.ref : Release → Ref ℕ
  | .call none => .out
  | .call (some d) => .hold d
  | .store d v => .drop d v
  | .free d => .free d

def UserPc.ref : UserPc → Ref ℕ
  | .grabbed d v => .grab d v
  | .unlock (some d) | .bubble d => .hold d
  | .release r => r.ref
  | _ => .out

variable (discovery : Option ℕ)

def ChangePc.ref : ChangePc → Ref ℕ
  | .idle | .changed _ | .stop _ | .release (.call _) | .unlock => discovery.elim .out .hold
  | .release r => r.ref
  | .clear | .reset | .start => .out
  | .assign d => d.elim .out .hold

def UserPc.stateHold : UserPc → RwHold
  | .rdheld | .grab _ | .grabbed _ _ | .unlock _ => .reading
  | _ => .none

def ChangePc.stateHold : ChangePc → RwHold
  | .idle => .none
  | _ => .writing

/-- What the place tells about `tunnel->discovery`. -/
def ChangePc.Fits : ChangePc → Prop
  | .stop d => discovery = some d
  | .release (.call d) => discovery = d ∧ d ≠ none
  | .reset | .start | .assign _ => discovery = none
  | _ => True

def ChangePc.running : ChangePc → Option ℕ
  | .idle | .changed _ | .stop _ | .unlock => discovery
  | .assign d => d
  | _ => none

variable {c : ChangePc} {discovery} {d : ℕ} {v : ℤ}

theorem ChangePc.ref_of_running (h : c.running discovery = some d) : c.ref discovery = .hold d := by
  cases c with
  | idle | changed | stop | unlock | assign =>
    simp only [ChangePc.running] at h
    rw [ChangePc.ref, h]
    rfl
  | release | clear | reset | start => cases h

theorem Release.writes_of_loaded {r : Release} (h : r.ref.Loaded d v) : r.writes d = true := by
  cases r with
  | call p => cases p <;> rcases h with h | h <;> cases h
  | store e w =>
    rcases h with h | h <;> cases h
    exact decide_eq_true rfl
  | free e => rcases h with h | h <;> cases h

variable {pc : UserPc}

theorem UserPc.writes_of_loaded (h : pc.ref.Loaded d v) : pc.writes d = true := by
  cases pc with
  | grabbed e w =>
    rcases h with h | h <;> cases h
    exact decide_eq_true rfl
  | unlock p => cases p <;> rcases h with h | h <;> cases h
  | release r => exact Release.writes_of_loaded h
  | idle | islocal | rdlock | rdheld | grab | bubble => rcases h with h | h <;> cases h

theorem ChangePc.writes_of_loaded (h : (c.ref discovery).Loaded d v) : c.writes d = true := by
  have hnot : ∀ p : Option ℕ, ¬ (p.elim (Ref.out : Ref ℕ) .hold).Loaded d v := by
    intro p hp
    cases p <;> rcases hp with hp | hp <;> cases hp
  cases c with
  | idle | changed | stop | unlock | assign => exact absurd h (hnot _)
  | clear | reset | start => rcases h with h | h <;> cases h
  | release r =>
    cases r with
    | call p => exact absurd h (hnot _)
    | store e w => exact Release.writes_of_loaded (r := .store e w) h
    | free e => exact Release.writes_of_loaded (r := .free e) h

namespace RefSys

variable {ι : Type} (s : RefSys ι)

def refs : Option ι → Ref ℕ
  | none => s.change.ref s.discovery
  | some i => (s.user i).ref

def counted : Counted (Option ι) ℕ :=
  ⟨s.refs, fun d => (s.objs d).refcnt, fun d => (s.objs d).made, fun d => (s.objs d).frees⟩

def tally [DecidableEq ι] (s : RefSys ι) (t : Option ι) (r : Ref ℕ) (objs : ℕ → Disc) :
    Counted (Option ι) ℕ :=
  ⟨update s.refs t r, fun d => (objs d).refcnt, fun d => (objs d).made,
    fun d => (objs d).frees⟩

def hold : Option ι → RwHold
  | none => s.change.stateHold
  | some i => (s.user i).stateHold

variable [DecidableEq ι] [Fintype ι] {s' : RefSys ι} {s} {i : ι}

structure Ok (s : RefSys ι) : Prop where
  inv : ∀ d, s.counted.Inv d
  lock : s.hold = s.lock.hold
  grab : ∀ i d, s.user i = .grab d → s.discovery = some d
  found : ∀ i, s.user i ≠ .unlock none ∧ s.user i ≠ .release (.call none)
  change : s.change.Fits s.discovery
  running : ∀ d, (s.objs d).send = true ∨ (s.objs d).recv = true →
    s.change.running s.discovery = some d

omit [DecidableEq ι] [Fintype ι] in
theorem quiet_of_not_busy (h : ¬ s.Busy d) : s.counted.Quiet d := by
  intro t v ht
  cases t with
  | none => exact h (.inr (ChangePc.writes_of_loaded ht))
  | some i => exact h (.inl ⟨i, UserPc.writes_of_loaded ht⟩)

/-! ## Moves -/

variable {pc₀ : UserPc} {l : RwLock (Option ι)} {b : Bool} {objs : ℕ → Disc} {c₀ : ChangePc}
  {p : Option ℕ} {t : Option ι}

omit [DecidableEq ι] [Fintype ι] in
theorem refs_some (hpc : s.user i = pc) : s.counted.ref (some i) = pc.ref :=
  congrArg UserPc.ref hpc

omit [Fintype ι] in
theorem refs_user : refs { s with lock := l, localPeer := b, objs, user := update s.user i pc } =
      update s.refs (some i) pc.ref := by
  funext t
  rcases t with _ | j
  · rfl
  · by_cases hj : j = i
    · subst hj
      simp [refs]
    · simp [refs, hj]

theorem Ok.user (h : s.Ok) (hpc : s.user i = pc₀) (pc : UserPc)
    (hlock : RwLock.Step (some i) pc₀.stateHold s.lock pc.stateHold l)
    (hinv : ∀ d, (s.tally (some i) pc.ref objs).Inv d)
    (hgrab : ∀ d, pc = .grab d → s.discovery = some d)
    (hfound : pc ≠ .unlock none ∧ pc ≠ .release (.call none))
    (hrun : ∀ d, (objs d).send = (s.objs d).send ∧ (objs d).recv = (s.objs d).recv) :
    Ok { s with lock := l, localPeer := b, objs, user := update s.user i pc } where
  inv d := by
    have hd := hinv d
    rw [tally, ← refs_user] at hd
    exact hd
  lock := by
    subst hpc
    refine RwLock.Step.agree hlock h.lock ?_
    funext t
    rcases t with _ | j
    · rfl
    · by_cases hj : j = i
      · subst hj
        simp [hold]
      · simp [hold, hj]
  grab j d hj := by
    by_cases hji : j = i
    · subst hji
      exact hgrab d (by simpa using hj)
    · exact h.grab j d (by simpa [hji] using hj)
  found j := by
    by_cases hji : j = i
    · subst hji
      simpa using hfound
    · simpa [hji] using h.found j
  change := h.change
  running d hd := by
    rw [(hrun d).1, (hrun d).2] at hd
    exact h.running d hd

theorem Ok.maint (h : s.Ok) (hpc : s.change = c₀) (c : ChangePc)
    (hlock : RwLock.Step none c₀.stateHold s.lock c.stateHold l)
    (hinv : ∀ d, (s.tally none (c.ref p) objs).Inv d)
    (hdisc : p = s.discovery ∨ c₀.stateHold = .writing) (hfits : c.Fits p)
    (hrun : ∀ d, (objs d).send = true ∨ (objs d).recv = true → c.running p = some d) :
    Ok { s with lock := l, discovery := p, localPeer := b, objs, change := c } where
  inv d := by
    have hrefs : refs { s with lock := l, discovery := p, localPeer := b, objs, change := c } =
        update s.refs none (c.ref p) := by
      funext t
      cases t <;> rfl
    have hd := hinv d
    rw [tally, ← hrefs] at hd
    exact hd
  lock := by
    subst hpc
    refine RwLock.Step.agree hlock h.lock ?_
    funext t
    cases t <;> rfl
  grab i d hi := by
    rcases hdisc with rfl | hwriting
    · exact h.grab i d hi
    -- a writer is alone
    · have hnone : s.lock.hold none = .writing := by
        rw [← h.lock, ← hwriting, ← hpc]
        rfl
      have hi' : s.lock.hold (some i) = .reading := by
        rw [← h.lock]
        show (s.user i).stateHold = .reading
        rw [show s.user i = .grab d from hi]
        rfl
      rw [RwLock.hold_of_writing hnone (by simp)] at hi'
      cases hi'
  found := h.found
  change := hfits
  running := hrun

theorem Ok.inv_keep {r : Ref ℕ} (h : s.Ok) (hr : s.counted.ref t = r) (d : ℕ) :
    (s.tally t r s.objs).Inv d := by
  rw [← hr]
  show Counted.Inv ⟨update s.counted.ref t (s.counted.ref t), _, _, _⟩ d
  rw [update_eq_self]
  exact h.inv d

theorem Ok.move (h : s.Ok) (hpc : s.user i = pc₀)
    (hlock : RwLock.Step (some i) pc₀.stateHold s.lock pc.stateHold l) (hr : pc₀.ref = pc.ref)
    (hgrab : ∀ d, pc = .grab d → s.discovery = some d)
    (hfound : pc ≠ .unlock none ∧ pc ≠ .release (.call none)) :
    Ok { s with lock := l, localPeer := b, user := update s.user i pc } :=
  h.user hpc pc hlock (h.inv_keep ((refs_some hpc).trans hr)) hgrab hfound fun _ => ⟨rfl, rfl⟩

theorem objs_update {α : Type} (g : Disc → α) (objs : ℕ → Disc) (d : ℕ) (x : Disc) :
    (fun e => g (update objs d x e)) = update (fun e => g (objs e)) d (g x) :=
  comp_update g objs d x

theorem objs_keep {α : Type} (g : Disc → α) {x : Disc} (hx : g x = g (objs d)) (e : ℕ) :
    g (update objs d x e) = g (objs e) := by
  by_cases he : e = d
  · subst he
    rw [update_self, hx]
  · rw [update_of_ne he]

theorem Ok.live (h : s.Ok) (ht : (s.counted.ref t).object = some d) : (s.objs d).Live :=
  (h.inv d).live t ht

theorem Ok.hold_of_running (h : s.Ok) (hd : (s.objs d).send = true ∨ (s.objs d).recv = true) :
    s.counted.ref none = .hold d :=
  ChangePc.ref_of_running (h.running d hd)

/-! ## Releasing -/

variable {r : Release} {a : RefAct ι}

theorem Ok.release (h : s.Ok) (ht : s.counted.ref t = r.ref) (hr : r ≠ .call none)
    (hquiet : ∀ d, r = .call (some d) → s.counted.Quiet d) :
    ∃ objs r', teredoDiscoveryRelease s.objs r = .ok (objs, r') ∧ (∀ p, r' ≠ some (.call p)) ∧
      ∀ d, (s.tally t (r'.elim .out Release.ref) objs).Inv d ∧
        (objs d).send = (s.objs d).send ∧ (objs d).recv = (s.objs d).recv := by
  cases r with
  | call p =>
    cases p with
    | none => exact absurd rfl hr
    | some d =>
      have hlive := h.live (t := t) (d := d) (by rw [ht]; rfl)
      have hne : (s.objs d).refcnt ≠ 0 := ((h.inv d).count_pos_of_hold ht).ne'
      rw [teredoDiscoveryRelease, if_neg (not_not.mpr hlive), if_neg hne]
      exact ⟨_, _, rfl, nofun, fun e =>
        ⟨Counted.Inv.step h.inv (.drop ht (hquiet d rfl)) e, rfl, rfl⟩⟩
  | store d v =>
    have hlive := h.live (t := t) (d := d) (by rw [ht]; rfl)
    have hstep := Counted.Inv.step h.inv (.dropped ht)
    rw [teredoDiscoveryRelease, if_neg (not_not.mpr hlive)]
    refine ⟨_, _, rfl, fun p => by split_ifs <;> simp, fun e =>
      ⟨?_, objs_keep Disc.send (by rfl) e, objs_keep Disc.recv (by rfl) e⟩⟩
    rw [tally, objs_update Disc.refcnt, funext (objs_keep Disc.made (by rfl)),
      funext (objs_keep Disc.frees (by rfl)),
      apply_ite (fun r' : Option Release => r'.elim Ref.out Release.ref)]
    exact hstep e
  | free d =>
    have hlive := h.live (t := t) (d := d) (by rw [ht]; rfl)
    have hzero := (h.inv d).count_of_free ht
    have hstep := Counted.Inv.step h.inv (.free ht)
    -- a discovery with threads has the reference of the tunnel
    have hstopped : ¬ ((s.objs d).send || (s.objs d).recv) = true := by
      intro hrun
      have hpos := (h.inv d).count_pos_of_hold (h.hold_of_running (Bool.or_eq_true_iff.mp hrun))
      omega
    rw [teredoDiscoveryRelease, if_neg (not_not.mpr hlive), if_neg hstopped]
    refine ⟨_, _, rfl, nofun, fun e =>
      ⟨?_, objs_keep Disc.send (by rfl) e, objs_keep Disc.recv (by rfl) e⟩⟩
    rw [tally, objs_update Disc.frees, funext (objs_keep Disc.made (by rfl)),
      funext (objs_keep Disc.refcnt (by rfl))]
    exact hstep e

/-! ## One step -/

theorem Ok.change_idle (h : s.Ok) (hi : s.lock.hold (some i) = .reading ∨
    ∃ l, s.lock.rdlock (some i) = some l) : s.change = .idle := by
  by_contra hne
  have hwriting : s.change.stateHold = .writing := by
    cases hc : s.change with
    | idle => exact absurd hc hne
    | _ => rfl
  have hnone : s.lock.hold none = .writing := by
    rw [← h.lock]
    exact hwriting
  rcases hi with hi | ⟨l, hl⟩
  · rw [RwLock.hold_of_writing hnone (by simp)] at hi
    cases hi
  · cases hlock : s.lock with
    | write u =>
      rw [hlock] at hl
      cases hl
    | read us =>
      rw [hlock, RwLock.hold] at hnone
      split_ifs at hnone

theorem Ok.hold_of_reading (h : s.Ok) (hi : s.lock.hold (some i) = .reading ∨
    ∃ l, s.lock.rdlock (some i) = some l) (hd : s.discovery = some d) :
    s.counted.ref none = .hold d := by
  show s.change.ref s.discovery = .hold d
  rw [h.change_idle hi, hd]
  rfl

theorem Ok.reading_of_grab (h : s.Ok) (hi : s.user i = .grab d) :
    s.lock.hold (some i) = .reading := by
  rw [← h.lock]
  show (s.user i).stateHold = .reading
  rw [hi]
  rfl

theorem Ok.userStep (h : s.Ok) (hc : s.Careful (.go i)) : (s.userStep i).Sat Ok := by
  have hreads : ∀ d, s.reads (.go i) = some d → s.counted.Quiet d :=
    fun d hd => quiet_of_not_busy (hc.1 d hd)
  unfold RefSys.userStep
  cases hpc : s.user i <;> dsimp only
  case idle => trivial
  case islocal => exact h.move hpc (.keep _ _) rfl (by simp) (by simp)
  case rdlock =>
    cases hl : s.lock.rdlock (some i) with
    | none => trivial
    | some l => exact h.move hpc (.rdlock hl) rfl (by simp) (by simp)
  case rdheld =>
    cases hd : s.discovery with
    | none => exact absurd hd (hc.2 hpc)
    | some d =>
      refine h.move hpc (.keep _ _) rfl ?_ (by simp)
      rintro e ⟨⟩
      exact hd
  case grab d =>
    have hhold := h.hold_of_reading (.inl (h.reading_of_grab hpc)) (h.grab i d hpc)
    have hlive : (s.objs d).Live := (h.inv d).live_of_hold hhold
    have hne : (s.objs d).refcnt ≠ 0 := ((h.inv d).count_pos_of_hold hhold).ne'
    have hquiet := hreads d (by simp only [reads, hpc])
    rw [if_neg (not_not.mpr hlive), if_neg hne]
    exact h.user hpc (.grabbed d _) (.keep _ _)
      (Counted.Inv.step h.inv (.grab (refs_some hpc) hhold hquiet)) (by simp) (by simp)
      fun _ => ⟨rfl, rfl⟩
  case grabbed d v =>
    have hlive : (s.objs d).Live := (h.inv d).live (some i) (by rw [refs_some hpc]; rfl)
    have hstep := Counted.Inv.step h.inv (.grabbed (refs_some hpc))
    rw [if_neg (not_not.mpr hlive)]
    refine h.user hpc (.unlock (some d)) (.keep _ _) ?_ (by simp) (by simp)
      fun e => ⟨objs_keep Disc.send (by rfl) e, objs_keep Disc.recv (by rfl) e⟩
    rw [tally, objs_update Disc.refcnt, funext (objs_keep Disc.made (by rfl)),
      funext (objs_keep Disc.frees (by rfl))]
    exact hstep
  case unlock p =>
    cases p with
    | none => exact absurd hpc (h.found i).1
    | some d =>
      exact h.move hpc (.unlock _ (by simp [UserPc.stateHold])) rfl (by simp) (by simp)
  case bubble d =>
    have hlive : (s.objs d).Live := (h.inv d).live_of_hold (refs_some hpc)
    rw [if_neg (not_not.mpr hlive)]
    exact h.move hpc (.keep _ _) rfl (by simp) (by simp)
  case release r =>
    have hr : r ≠ .call none := fun hr => (h.found i).2 (by rw [hpc, hr])
    obtain ⟨objs, r', hx, hcall, hinv⟩ := h.release (refs_some hpc) hr
      fun d hd => hreads d (by simp only [reads, hpc, hd])
    simp only [hx]
    refine h.user hpc (r'.elim .idle .release) ?_ ?_ ?_ ?_ fun d => (hinv d).2
    · cases r' <;> exact .keep _ _
    · intro d
      have hd := (hinv d).1
      cases r' <;> exact hd
    · cases r' <;> simp
    · cases r' with
      | none => simp
      | some r' =>
        refine ⟨by simp, fun h => ?_⟩
        cases h
        exact hcall _ rfl

omit [DecidableEq ι] [Fintype ι] in
theorem refs_none (hpc : s.change = c) : s.counted.ref none = c.ref s.discovery :=
  congrArg (ChangePc.ref s.discovery) hpc

theorem Ok.inv_maint (h : s.Ok) (hpc : s.change = c₀) (hr : c₀.ref s.discovery = c.ref p) (d : ℕ) :
    (s.tally none (c.ref p) s.objs).Inv d :=
  h.inv_keep ((refs_none hpc).trans hr) d

theorem Ok.stopped (h : s.Ok) (hpc : s.change = c) (hc : c.running s.discovery = none) :
    ¬ ((s.objs d).send = true ∨ (s.objs d).recv = true) := by
  intro hd
  have hrun := h.running d hd
  rw [hpc, hc] at hrun
  cases hrun

theorem Ok.changeStep (h : s.Ok) {r : Started} (hc : s.Careful (.maint r)) :
    (s.changeStep r).Sat Ok := by
  have hrun := h.running
  have hfits := h.change
  unfold RefSys.changeStep
  cases hpc : s.change <;> dsimp only <;> rw [hpc] at hrun hfits
  case idle => trivial
  case changed up =>
    refine h.maint hpc (if up then s.discovery.elim .reset .stop else .unlock) ?_
      (h.inv_maint hpc ?_) (.inl rfl) ?_ ?_
    · split_ifs <;> cases s.discovery <;> exact .keep _ _
    · split_ifs <;> cases s.discovery <;> rfl
    · split_ifs <;> cases s.discovery <;> trivial
    · intro d hd
      have hd' : s.discovery = some d := hrun d hd
      rw [hd']
      split_ifs <;> rfl
  case stop d =>
    have hd : s.discovery = some d := hfits
    have hhold : s.counted.ref none = .hold d := by
      rw [refs_none hpc, hd]
      rfl
    have hlive : (s.objs d).Live := (h.inv d).live_of_hold hhold
    rw [if_neg (not_not.mpr hlive)]
    refine h.maint hpc (.release (.call (some d))) (.keep _ _) ?_ (.inl rfl) ⟨hd, by simp⟩ ?_
    · rw [tally, funext (objs_keep Disc.refcnt (by rfl)), funext (objs_keep Disc.made (by rfl)),
        funext (objs_keep Disc.frees (by rfl))]
      exact h.inv_maint hpc rfl
    · intro e he
      -- only the threads of `d` were running
      by_cases hed : e = d
      · subst hed
        simp at he
      · rw [update_of_ne hed] at he
        exact absurd (Option.some.inj ((hrun e he).symm.trans hd)) hed
  case release r =>
    have href : s.counted.ref none = r.ref := by
      rw [refs_none hpc]
      cases r with
      | call p =>
        obtain ⟨hd, hne⟩ := hfits
        rw [ChangePc.ref, hd]
        cases p <;> rfl
      | store | free => rfl
    have hr : r ≠ .call none := by
      rintro rfl
      exact hfits.2 rfl
    obtain ⟨objs, r', hx, hcall, hinv⟩ := h.release href hr fun d hd =>
      quiet_of_not_busy (hc.1 d (by simp only [reads, hpc, hd, Option.mem_def]))
    simp only [hx]
    refine h.maint hpc (r'.elim .clear .release) ?_ ?_ (.inl rfl) ?_ fun d hd => ?_
    · cases r' <;> exact .keep _ _
    · intro d
      have hd := (hinv d).1
      rcases r' with _ | (p | _ | _)
      · exact hd
      · exact absurd rfl (hcall p)
      · exact hd
      · exact hd
    · rcases r' with _ | (p | _ | _)
      · trivial
      · exact absurd rfl (hcall p)
      · trivial
      · trivial
    · rw [(hinv d).2.1, (hinv d).2.2] at hd
      exact absurd hd (h.stopped hpc rfl)
  case clear =>
    exact h.maint hpc .reset (.keep _ _) (h.inv_maint hpc rfl) (.inr rfl) rfl
      fun d hd => absurd hd (h.stopped hpc rfl)
  case reset =>
    have hd : s.discovery = none := hfits
    refine h.maint hpc (if s.discParams then .start else .unlock) ?_
      (h.inv_maint hpc ?_) (.inl rfl) ?_ fun d hd => absurd hd (h.stopped hpc rfl)
    · split_ifs <;> exact .keep _ _
    · rw [hd]
      split_ifs <;> rfl
    · split_ifs
      · exact hd
      · trivial
  case start =>
    have hd : s.discovery = none := hfits
    have hout : s.counted.ref none = .out := refs_none hpc
    cases r with
    | noMemory =>
      exact h.maint hpc (.assign none) (.keep _ _) (h.inv_maint hpc rfl) (.inl rfl) hd
        fun d hd => absurd hd (h.stopped hpc rfl)
    | scrapped d =>
      dsimp only
      split_ifs with hmade
      · trivial
      have hstep := Counted.Inv.step h.inv (.scrap 1 (eq_false_of_ne_true hmade))
      have hsame : update s.refs none (ChangePc.ref s.discovery (.assign none)) = s.refs := by
        rw [show ChangePc.ref s.discovery (.assign none) = s.refs none from hout.symm,
          update_eq_self]
      refine h.maint hpc (.assign none) (.keep _ _) ?_ (.inl rfl) hd fun e he => ?_
      · rw [tally, objs_update Disc.refcnt, objs_update Disc.made, objs_update Disc.frees, hsame]
        exact hstep
      · by_cases hed : e = d
        · subst hed
          simp at he
        · rw [update_of_ne hed] at he
          exact absurd he (h.stopped hpc rfl)
    | running d send recv =>
      dsimp only
      split_ifs with hmade
      · trivial
      have hstep := Counted.Inv.step h.inv (.make hout (eq_false_of_ne_true hmade))
      refine h.maint hpc (.assign (some d)) (.keep _ _) ?_ (.inl rfl) hd fun e he => ?_
      · rw [tally, objs_update Disc.refcnt, objs_update Disc.made,
          funext (objs_keep Disc.frees (by rfl))]
        exact hstep
      · by_cases hed : e = d
        · subst hed
          rfl
        · rw [update_of_ne hed] at he
          exact absurd he (h.stopped hpc rfl)
  case assign p =>
    exact h.maint hpc .unlock (.keep _ _) (h.inv_maint hpc rfl) (.inr rfl) trivial hrun
  case unlock =>
    exact h.maint hpc .idle (.unlock _ (by simp [ChangePc.stateHold])) (h.inv_maint hpc rfl)
      (.inl rfl) trivial hrun

/-- **One step.** It meets the condition, so it does not fail, and it leads to a state in order. -/
theorem Ok.step (h : s.Ok) (hc : s.Careful a) : (s.step a).Sat Ok := by
  cases a with
  | receive i =>
    unfold RefSys.step
    dsimp only
    split
    case h_2 => trivial
    case h_1 l hpc hl =>
      cases hd : s.discovery with
      | none => exact h
      | some d =>
        have hlive : (s.objs d).Live :=
          (h.inv d).live_of_hold (h.hold_of_reading (.inr ⟨l, hl⟩) hd)
        dsimp only
        rw [if_neg (not_not.mpr hlive)]
        by_cases hparams : s.discParams = true
        swap
        · rw [if_pos hparams]
          exact h
        · rw [if_neg (not_not.mpr hparams)]
          exact h.move hpc (.keep _ _) rfl (by simp) (by simp)
  | transmit i =>
    unfold RefSys.step
    dsimp only
    split
    case h_2 => trivial
    case h_1 hpc =>
      split_ifs
      · exact h.move hpc (.keep _ _) rfl (by simp) (by simp)
      · trivial
  | go i => exact h.userStep hc
  | change up =>
    unfold RefSys.step
    dsimp only
    split
    case h_2 => trivial
    case h_1 l hpc hl =>
      have hrun := h.running
      rw [hpc] at hrun
      exact h.maint hpc (.changed up) (.wrlock hl) (h.inv_maint hpc rfl) (.inl rfl) trivial hrun
  | maint r => exact h.changeStep hc
  | mcast d =>
    unfold RefSys.step
    dsimp only
    by_cases hsend : (s.objs d).send = true
    · have hlive : (s.objs d).Live := (h.inv d).live_of_hold (h.hold_of_running (.inl hsend))
      rw [if_neg (not_not.mpr hsend), if_neg (not_not.mpr hlive)]
      exact h
    · rw [if_pos hsend]
      trivial

variable {discParams : Bool}

theorem ok_new : (new discParams : RefSys ι).Ok where
  inv d :=
    { live := fun t ht => by cases t <;> cases ht
      count := fun hd => Bool.noConfusion hd.1
      last := fun hd => Bool.noConfusion hd.1
      loaded := fun t v ht => by cases t <;> cases ht.object
      alone := fun t _ v _ ht => by cases t <;> cases ht.object
      grab := fun t v ht => by cases t <;> cases ht
      once := Nat.zero_le 1
      unmade := fun _ => rfl }
  lock := by
    funext t
    cases t <;> rfl
  grab _ _ hi := by cases hi
  found _ := by simp [new]
  change := trivial
  running d hd := by simp [new] at hd

theorem ok_of_run {es : List (RefAct ι)} (hrun : Run CarefulStep (new discParams) es s) : s.Ok := by
  refine hrun.invariant ok_new fun s a s' h hstep => ?_
  have hsat := h.step hstep.1
  rw [hstep.2] at hsat
  exact hsat

/-- **Who frees a discovery.** No next step that meets the condition calls
`teredo_discovery_release` with a null pointer, uses a discovery that is freed or fails an
assertion; every discovery is freed once when nobody refers to it any more, and not before. A thread
that finds no discovery releases the null pointer. -/
theorem discovery_released {es : List (RefAct ι)} (hrun : Run CarefulStep (new discParams) es s) :
    (∀ a, s.Careful a → ∀ f, s.step a ≠ .fault f) ∧
      (∀ d, (s.objs d).made = true → (s.objs d).frees ≤ 1 ∧
        ((s.objs d).frees = 0 ↔ ∃ t, (s.refs t).object = some d)) ∧
      ∀ i, s.user i = .rdheld → s.discovery = none →
        ∃ s₁ s₂, s.step (.go i) = .next s₁ ∧ s₁.step (.go i) = .next s₂ ∧
          s₂.step (.go i) = .fault .nullRelease := by
  have h := ok_of_run hrun
  refine ⟨fun a hc f hf => ?_, fun d hd => (h.inv d).frees_eq hd, fun i hi hd => ?_⟩
  · have hsat := h.step hc
    rw [hf] at hsat
    exact hsat
  · refine ⟨s.goto i (.unlock none), { s.goto i (.release (.call none)) with
      lock := s.lock.unlock (some i) }, ?_, ?_, ?_⟩
    · simp [step, RefSys.userStep, hi, hd]
    · simp [step, RefSys.userStep, goto]
    · simp [step, RefSys.userStep, goto, teredoDiscoveryRelease]

/-! ## Runs -/

def Step (s : RefSys ι) (a : RefAct ι) (s' : RefSys ι) : Prop := s.step a = .next s'

def next (s : RefSys ι) (a : RefAct ι) : Option (RefSys ι) :=
  match s.step a with
  | .next s' => some s'
  | _ => none

omit [Fintype ι] in
theorem step_of_next (h : s.next a = some s') : s.Step a s' := by
  unfold next at h
  split at h
  · cases h
    assumption
  · cases h

instance (s : RefSys ι) (d : ℕ) : Decidable (s.Busy d) := inferInstanceAs (Decidable (_ ∨ _))

instance (s : RefSys ι) : DecidablePred s.Careful
  | .go i => inferInstanceAs (Decidable ((∀ d ∈ s.reads (.go i), ¬ s.Busy d) ∧
      (s.user i = .rdheld → s.discovery ≠ none)))
  | .receive i => inferInstanceAs (Decidable ((∀ d ∈ s.reads (.receive i), ¬ s.Busy d) ∧ True))
  | .transmit i => inferInstanceAs (Decidable ((∀ d ∈ s.reads (.transmit i), ¬ s.Busy d) ∧ True))
  | .change up => inferInstanceAs (Decidable ((∀ d ∈ s.reads (.change up), ¬ s.Busy d) ∧ True))
  | .maint r => inferInstanceAs (Decidable ((∀ d ∈ s.reads (.maint r), ¬ s.Busy d) ∧ True))
  | .mcast d => inferInstanceAs (Decidable ((∀ e ∈ s.reads (.mcast d), ¬ s.Busy e) ∧ True))

def carefulNext (s : RefSys ι) (a : RefAct ι) : Option (RefSys ι) :=
  if s.Careful a then s.next a else none

theorem carefulStep_of_next (h : s.carefulNext a = some s') : s.CarefulStep a s' := by
  unfold carefulNext at h
  split_ifs at h with hc
  exact ⟨hc, step_of_next h⟩

/-- A discovery is started, a local packet is received, and one is to be sent. -/
def sending : List (RefAct (Fin 1)) :=
  [.change true, .maint .noMemory, .maint .noMemory, .maint (.running 0 true true),
    .maint .noMemory, .maint .noMemory, .receive 0, .go 0, .transmit 0]

/-- The thread takes the lock and a reference and sends a discovery bubble. -/
def bubbling : List (RefAct (Fin 1)) := sending ++ List.replicate 6 (.go 0)

theorem discovery_released_bubble : ∃ s : RefSys (Fin 1), Run CarefulStep (new true) bubbling s ∧
    (s.objs 0).refcnt = 2 ∧ s.Careful (.go 0) ∧ ∀ f, s.step (.go 0) ≠ .fault f := by
  obtain ⟨s, hs, hcount, hc⟩ : ∃ s, bubbling.foldlM carefulNext (new true) = some s ∧
      (s.objs 0).refcnt = 2 ∧ s.Careful (.go 0) := ⟨_, rfl, rfl, by decide⟩
  have hrun := run_of_foldlM (fun _ _ _ => carefulStep_of_next) hs
  exact ⟨s, hrun, hcount, hc, (discovery_released hrun).1 _ hc⟩

/-- The discovery is stopped and no new one can be started, and then the thread takes the lock. -/
def stopping : List (RefAct (Fin 1)) :=
  sending ++ .change true :: List.replicate 10 (.maint .noMemory) ++ List.replicate 3 (.go 0)

/-- The thread and the maintenance thread both read the counter before they write it. -/
def racing : List (RefAct (Fin 1)) :=
  bubbling ++ [.change true, .maint .noMemory, .maint .noMemory, .go 0, .maint .noMemory, .go 0,
    .maint .noMemory]

/-- Between the two critical sections of `teredo_transmit` the discovery is stopped, and the null
pointer is released. And two threads that drop their references at once drop only one. -/
theorem null_released_and_leaked : (∃ s, Run Step (new true) stopping s ∧
      s.step (.go 0) = .fault .nullRelease) ∧
    ∃ s, Run Step (new true) racing s ∧ (s.objs 0).made = true ∧ (s.objs 0).frees = 0 ∧
      ∀ t, (s.refs t).object ≠ some 0 := by
  constructor
  · obtain ⟨s, hs, hfault⟩ : ∃ s, stopping.foldlM next (new true) = some s ∧
      s.step (.go 0) = .fault .nullRelease := ⟨_, rfl, rfl⟩
    exact ⟨s, run_of_foldlM (fun _ _ _ => step_of_next) hs, hfault⟩
  · obtain ⟨s, hs, hd⟩ : ∃ s, racing.foldlM next (new true) = some s ∧
      ((s.objs 0).made = true ∧ (s.objs 0).frees = 0 ∧ ∀ t, (s.refs t).object ≠ some 0) :=
      ⟨_, rfl, rfl, rfl, by decide⟩
    exact ⟨s, run_of_foldlM (fun _ _ _ => step_of_next) hs, hd⟩

end RefSys

end Maiccu.Teredo
