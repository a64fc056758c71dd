import Maiccu.Teredo.StopDiscovery

/-!
# Runs of the threads of a client

Who holds which lock can be read off the places of the threads (`Owned`). So the threads never get
stuck if discovery is always stopped in time, and from every step that is not in time they can.
-/

namespace Maiccu.Teredo

open Maiccu.Lib Option

/-! ## One step of a thread -/

section Steps

variable {t : Thread} {sh sh' : Shared} {io io' : Io} {a : IoAct}

/-- What a step of a receiving thread does to the locks. -/
structure IoLocks (t : Thread) (sh : Shared) (io : Io) (sh' : Shared) (io' : Io) : Prop where
  inner : Mutex.Step t io.pc.holdsInner sh.inner io'.pc.holdsInner sh'.inner
  outer : Mutex.Step t io.pc.holdsOuter sh.outer io'.pc.holdsOuter sh'.outer
  state : RwLock.Step t io.pc.stateHold sh.stateLock io'.pc.stateHold sh'.stateLock
  cancelled : io'.cancelled = io.cancelled

theorem ioLocks_of_step (h : ioStep t sh io a = some (sh', io')) : IoLocks t sh io sh' io' := by
  obtain ⟨pc, cancelled⟩ := io
  cases a with
  | packet p =>
    cases pc <;> cases h
    exact ⟨.keep _ _, .keep _ _, .keep _ _, rfl⟩
  | cancel =>
    cases pc <;> try cases h
    rw [ioStep] at h
    split_ifs at h
    cases h
    exact ⟨.keep _ _, .keep _ _, .keep _ _, rfl⟩
  | wake =>
    cases pc <;> cases h
    exact ⟨.keep _ _, .keep _ _, .keep _ _, rfl⟩
  | go =>
    cases pc with
    | wait | condWait | dead => cases h
    | received p =>
      cases h
      refine ⟨?_, ?_, ?_, rfl⟩ <;> split_ifs <;> exact .keep _ _
    | rdlock p =>
      obtain ⟨l, hl, h⟩ := map_eq_some_iff.mp h
      cases h
      exact ⟨.keep _ _, .keep _ _, .rdlock hl, rfl⟩
    | rdheld p =>
      cases h
      refine ⟨?_, ?_, ?_, rfl⟩
      · split_ifs <;> exact .keep _ _
      · split_ifs <;> exact .keep _ _
      · split_ifs <;> exact .unlock _ (by simp [RecvPc.stateHold])
    | outer p =>
      obtain ⟨m, hm, h⟩ := map_eq_some_iff.mp h
      cases h
      exact ⟨.keep _ _, .lock hm, .keep _ _, rfl⟩
    | inner p =>
      obtain ⟨m, hm, h⟩ := map_eq_some_iff.mp h
      cases h
      exact ⟨.lock hm, .keep _ _, .keep _ _, rfl⟩
    | post p =>
      cases h
      exact ⟨.unlock _, .keep _ _, .keep _ _, rfl⟩
    | relock =>
      obtain ⟨m, hm, h⟩ := map_eq_some_iff.mp h
      cases h
      exact ⟨.lock hm, .keep _ _, .keep _ _, rfl⟩
    | check =>
      cases h
      refine ⟨?_, ?_, ?_, rfl⟩
      · split_ifs <;> exact .unlock _
      · split_ifs <;> exact .keep _ _
      · split_ifs <;> exact .keep _ _
    | unlockOuter =>
      cases h
      exact ⟨.keep _ _, .unlock _, .keep _ _, rfl⟩
    | body =>
      cases h
      exact ⟨.keep _ _, .keep _ _, .keep _ _, rfl⟩
    | enable =>
      cases h
      refine ⟨?_, ?_, ?_, rfl⟩ <;> split_ifs <;> exact .keep _ _

end Steps

section MaintSteps

variable {cfg : Conf} {sh sh' : Shared} {m m' : Maint} {d d' : Option Io} {a : MaintAct}

/-- What a step of the maintenance thread does to the discovery thread. -/
inductive DiscStep : MaintPc → Option Io → MaintPc → Option Io → Prop where
  | keep {pc pc' : MaintPc} {d : Option Io} : pc.joining = false → pc'.joining = false →
      (∀ n, pc' = .start n → d = none) → DiscStep pc d pc' d
  | stop (n : After) (d : Option Io) :
      DiscStep (.stop n) d (.join n) (d.map fun io => { io with cancelled := true })
  | join (n : After) (b : Bool) : DiscStep (.join n) (some ⟨.dead, b⟩) (.start n) none
  | started {n : After} {d d' : Option Io} :
      (∀ io, d' = some io → io.cancelled = false ∧ (io.pc = .wait ∨ io.pc = .dead)) →
      DiscStep (.start n) d (.unlock n) d'

/-- What a step of the maintenance thread does to the locks. -/
structure MaintLocks (sh : Shared) (m : Maint) (sh' : Shared) (m' : Maint) : Prop where
  inner : Mutex.Step .maint m.pc.holdsInner sh.inner m'.pc.holdsInner sh'.inner
  outer : sh'.outer = sh.outer
  state : RwLock.Step .maint m.pc.stateHold sh.stateLock m'.pc.stateHold sh'.stateLock

theorem maintLocks_keep (hinner : m'.pc.holdsInner = m.pc.holdsInner)
    (hstate : m'.pc.stateHold = m.pc.stateHold) (hpc : m.pc.joining = false)
    (hpc' : m'.pc.joining = false) (hstart : ∀ n, m'.pc = .start n → d = none)
    (hi : sh'.inner = sh.inner) (ho : sh'.outer = sh.outer) (hs : sh'.stateLock = sh.stateLock) :
    MaintLocks sh m sh' m' ∧ DiscStep m.pc d m'.pc d := by
  refine ⟨⟨?_, ho, ?_⟩, .keep hpc hpc' hstart⟩
  · rw [hi, hinner]
    exact .keep _ _
  · rw [hs, hstate]
    exact .keep _ _

theorem maintLocks_plain {i : Option TeredoPacket} (hpc : m.pc.plain = true)
    (hpc' : m'.pc.plain = true) :
    MaintLocks sh m { sh with incoming := i } m' ∧ DiscStep m.pc d m'.pc d := by
  have hplain : ∀ pc : MaintPc, pc.plain = true → pc.holdsInner = true ∧ pc.stateHold = .none ∧
      pc.joining = false ∧ ∀ n, pc ≠ .start n := by
    intro pc h
    cases pc <;> simp [MaintPc.plain, MaintPc.holdsInner, MaintPc.stateHold, MaintPc.joining] at h ⊢
  obtain ⟨hi, hs, hj, -⟩ := hplain _ hpc
  obtain ⟨hi', hs', hj', hstart⟩ := hplain _ hpc'
  exact maintLocks_keep (hi'.trans hi.symm) (hs'.trans hs.symm) hj hj'
    (fun n hn => absurd hn (hstart n)) rfl rfl rfl

theorem plain_maintAnswer {key : Keyed} {p : TeredoPacket} :
    (maintAnswer key m p).pc.plain = true := by
  unfold maintAnswer
  split
  · rfl
  · dsimp only
    split_ifs <;> rfl

theorem maintLocks_of_step (h : maintStep cfg sh m d a = some (sh', m', d')) :
    MaintLocks sh m sh' m' ∧ DiscStep m.pc d m'.pc d' := by
  obtain ⟨pc, serverIp, count, deadline, nonce, newst, state⟩ := m
  cases a with
  | resolved ip =>
    cases pc <;> simp only [maintStep, reduceCtorEq] at h
    split_ifs at h
    rcases hip : ip.filter isIpv4GlobalUnicast with _ | ip'
    · rw [hip] at h
      cases h
      exact maintLocks_plain rfl rfl
    · rw [hip] at h
      cases h
      exact maintLocks_plain rfl rfl
  | solicited deadline junk =>
    cases pc <;> cases h
    exact maintLocks_plain rfl rfl
  | wake b =>
    cases pc <;> cases h
    exact maintLocks_keep rfl rfl rfl rfl (by simp) rfl rfl rfl
  | started r =>
    cases pc <;> cases h
    refine ⟨⟨.keep _ _, rfl, .keep _ _⟩, .started fun io hio => ?_⟩
    split_ifs at hio
    obtain ⟨b, -, rfl⟩ := map_eq_some_iff.mp hio
    cases b
    · exact ⟨rfl, Or.inr rfl⟩
    · exact ⟨rfl, Or.inl rfl⟩
  | go =>
    cases pc with
    | lockInner =>
      obtain ⟨l, hl, h⟩ := map_eq_some_iff.mp h
      cases h
      exact ⟨⟨.lock hl, rfl, .keep _ _⟩, .keep rfl rfl (by simp)⟩
    | resolve =>
      simp only [maintStep] at h
      split_ifs at h
      cases h
      exact maintLocks_plain rfl rfl
    | solicit => cases h
    | test w =>
      simp only [maintStep] at h
      split_ifs at h
      · cases h
        exact maintLocks_plain rfl rfl
      · cases h
        exact ⟨⟨.unlock _, rfl, .keep _ _⟩, .keep rfl rfl (by simp)⟩
    | timedWait w => cases h
    | relock w b =>
      obtain ⟨l, hl, h⟩ := map_eq_some_iff.mp h
      cases h
      cases b
      · exact ⟨⟨.lock hl, rfl, .keep _ _⟩, .keep rfl rfl (by simp [Wait.over])⟩
      · cases w
        · exact ⟨⟨.lock hl, rfl, .keep _ _⟩, .keep rfl rfl (by simp [Wait.over])⟩
        · exact ⟨⟨.lock hl, rfl, .keep _ _⟩, .keep rfl rfl (by simp [Wait.over])⟩
    | process w =>
      cases w with
      | ignore =>
        cases h
        exact maintLocks_plain rfl rfl
      | reply =>
        obtain ⟨p, -, h⟩ := map_eq_some_iff.mp h
        cases h
        exact maintLocks_plain rfl plain_maintAnswer
    | timeout =>
      cases h
      exact maintLocks_plain rfl (by unfold maintTimeout; split_ifs <;> rfl)
    | wrlock n =>
      obtain ⟨l, hl, h⟩ := map_eq_some_iff.mp h
      cases h
      exact ⟨⟨.keep _ _, rfl, .wrlock hl⟩, .keep rfl rfl (by simp)⟩
    | changed n =>
      simp only [maintStep] at h
      split_ifs at h with hup hd
      · cases h
        exact maintLocks_keep rfl rfl rfl rfl (by simp) rfl rfl rfl
      · cases h
        exact maintLocks_keep rfl rfl rfl rfl (fun _ _ => by simpa using hd) rfl rfl rfl
      · cases h
        exact maintLocks_keep rfl rfl rfl rfl (by simp) rfl rfl rfl
    | stop n =>
      cases h
      exact ⟨⟨.keep _ _, rfl, .keep _ _⟩, .stop n d⟩
    | join n =>
      rcases d with _ | ⟨pc, b⟩
      · cases h
      · cases pc <;> cases h
        exact ⟨⟨.keep _ _, rfl, .keep _ _⟩, .join n b⟩
    | start n => cases h
    | unlock n =>
      cases h
      cases n
      · exact ⟨⟨.keep _ _, rfl, .unlock _ (by simp [MaintPc.stateHold])⟩,
          .keep rfl rfl (by simp [After.pc])⟩
      · exact ⟨⟨.keep _ _, rfl, .unlock _ (by simp [MaintPc.stateHold])⟩,
          .keep rfl rfl (by simp [After.pc])⟩

end MaintSteps

/-! ## Who holds the locks -/

/-- The place of the discovery thread. If there is none, it holds as little as one that ended. -/
def discPc : Option Io → RecvPc
  | none => .dead
  | some io => io.pc

namespace Sys

def holds {β : Type} (s : Sys) (f : MaintPc → β) (g : RecvPc → β) : Thread → β
  | .maint => f s.maint.pc
  | .recv => g s.recv.pc
  | .disc => g (discPc s.disc)

/-- The locks agree with the places of the threads, and the discovery thread is cancelled just while
the maintenance thread waits for its end. -/
structure Owned (s : Sys) : Prop where
  inner : s.holds MaintPc.holdsInner RecvPc.holdsInner = s.sh.inner.hold
  outer : s.holds (fun _ => false) RecvPc.holdsOuter = s.sh.outer.hold
  state : s.holds MaintPc.stateHold RecvPc.stateHold = s.sh.stateLock.hold
  cancelled : ∀ io, s.disc = some io → io.cancelled = s.maint.pc.joining
  noDisc : ∀ n, s.maint.pc = .start n → s.disc = none

theorem owned_initial {st : TeredoState} : (initial st).Owned := by
  refine ⟨?_, ?_, ?_, ?_, ?_⟩
  · funext t
    cases t <;> rfl
  · funext t
    cases t <;> rfl
  · funext t
    cases t <;> rfl
  · exact nofun
  · exact fun n hn => rfl

variable {s s' : Sys} {β : Type} {f : MaintPc → β} {g : RecvPc → β} {sh' : Shared} {io io' : Io}

theorem holds_recv : holds { s with sh := sh', recv := io' } f g =
    Function.update (s.holds f g) .recv (g io'.pc) := by
  funext t
  cases t <;> rfl

theorem holds_disc : holds { s with sh := sh', disc := some io' } f g =
    Function.update (s.holds f g) .disc (g io'.pc) := by
  funext t
  cases t <;> rfl

theorem Owned.recv (hs : s.Owned) (h : IoLocks .recv s.sh s.recv sh' io') :
    Owned { s with sh := sh', recv := io' } where
  inner := h.inner.agree hs.inner holds_recv
  outer := h.outer.agree hs.outer holds_recv
  state := h.state.agree hs.state holds_recv
  cancelled := hs.cancelled
  noDisc := hs.noDisc

theorem Owned.disc (hs : s.Owned) (hd : s.disc = some io) (h : IoLocks .disc s.sh io sh' io') :
    Owned { s with sh := sh', disc := some io' } := by
  obtain ⟨sh, m, recv, d⟩ := s
  obtain rfl : d = some io := hd
  refine ⟨h.inner.agree hs.inner holds_disc, h.outer.agree hs.outer holds_disc,
    h.state.agree hs.state holds_disc, ?_, fun n hn => nomatch hs.noDisc n hn⟩
  intro io'' hio''
  cases hio''
  exact h.cancelled.trans (hs.cancelled io rfl)

end Sys

section Disc

variable {pc pc' : MaintPc} {d d' : Option Io}

theorem DiscStep.holds {β : Type} {g : RecvPc → β} (h : DiscStep pc d pc' d')
    (hstart : ∀ n, pc = .start n → d = none) (hg : g .wait = g .dead) :
    g (discPc d') = g (discPc d) := by
  cases h with
  | keep => rfl
  | stop n =>
    cases d
    · rfl
    · rfl
  | join => rfl
  | started hio =>
    rw [hstart _ rfl]
    cases d' with
    | none => rfl
    | some io =>
      rcases (hio io rfl).2 with hpc | hpc
      · show g io.pc = g .dead
        rw [hpc, hg]
      · show g io.pc = g .dead
        rw [hpc]

theorem DiscStep.cancelled (h : DiscStep pc d pc' d')
    (hd : ∀ io, d = some io → io.cancelled = pc.joining) :
    ∀ io, d' = some io → io.cancelled = pc'.joining := by
  intro io hio
  cases h with
  | keep hpc hpc' =>
    rw [hd io hio, hpc, hpc']
  | stop n =>
    obtain ⟨io₀, -, rfl⟩ := map_eq_some_iff.mp hio
    rfl
  | join => cases hio
  | started hnew => exact (hnew io hio).1

theorem DiscStep.noDisc (h : DiscStep pc d pc' d') : ∀ n, pc' = .start n → d' = none := by
  intro n hn
  cases h with
  | keep _ _ hstart => exact hstart n hn
  | stop => cases hn
  | join => rfl
  | started => cases hn

end Disc

namespace Sys

variable {cfg : Conf} {s s' : Sys} {a : Act} {d' : Option Io} {m' : Maint} {sh' : Shared}

theorem Owned.maint (hs : s.Owned)
    (h : MaintLocks s.sh s.maint sh' m') (hd : DiscStep s.maint.pc s.disc m'.pc d') :
    Owned ⟨sh', m', s.recv, d'⟩ := by
  have hholds : ∀ {β : Type} {f : MaintPc → β} {g : RecvPc → β}, g .wait = g .dead →
      holds ⟨sh', m', s.recv, d'⟩ f g = Function.update (s.holds f g) .maint (f m'.pc) := by
    intro β f g hg
    funext t
    cases t with
    | maint | recv => rfl
    | disc => exact hd.holds hs.noDisc hg
  refine ⟨h.inner.agree hs.inner (hholds rfl), ?_, h.state.agree hs.state (hholds rfl),
    hd.cancelled hs.cancelled, hd.noDisc⟩
  show _ = sh'.outer.hold
  rw [h.outer]
  exact (Mutex.Step.keep false s.sh.outer).agree hs.outer (hholds rfl)

/-- **Ownership.** Every step keeps it. -/
theorem Owned.step (hs : s.Owned) (h : Step cfg s a s') : s'.Owned := by
  cases a with
  | maint a =>
    obtain ⟨⟨sh', m', d'⟩, hstep, rfl⟩ := map_eq_some_iff.mp h
    obtain ⟨hlocks, hd⟩ := maintLocks_of_step hstep
    exact hs.maint hlocks hd
  | recv a =>
    obtain ⟨⟨sh', io'⟩, hstep, rfl⟩ := map_eq_some_iff.mp h
    exact hs.recv (ioLocks_of_step hstep)
  | disc a =>
    obtain ⟨io, hd, h⟩ := bind_eq_some_iff.mp h
    obtain ⟨⟨sh', io'⟩, hstep, rfl⟩ := map_eq_some_iff.mp h
    exact hs.disc hd (ioLocks_of_step hstep)

variable {st : TeredoState} {es : List Act}

/-! ## Steps in time -/

theorem Owned.inner_of_joining (hs : s.Owned) (hj : s.maint.pc.joining = true) :
    s.sh.inner.hold .maint = true := by
  rw [← hs.inner]
  show s.maint.pc.holdsInner = true
  cases hpc : s.maint.pc <;> rw [hpc] at hj <;> cases hj
  rfl

def Calm (s : Sys) : Prop :=
  s.maint.pc.joining = true → ∀ io, s.disc = some io → ¬ s.LockAhead io.pc

theorem Calm.not_stuck (hc : s.Calm) : ¬ s.Stuck := by
  rintro ⟨hj, ⟨pc, b⟩, hd, -, hwait⟩
  have hahead := hc hj _ hd
  cases pc with
  | rdlock p => exact hahead trivial
  | outer p =>
    -- the outer mutex is with the receive thread
    have hkeep : s.RecvKeepsOuter := not_not.mp hahead
    have := Mutex.hold_unique hkeep.1 hwait
    cases this
  | inner p | relock => exact hahead trivial
  | _ => exact hwait

variable {io' : Io}

theorem RecvKeepsOuter.step {a : IoAct} (hk : s.RecvKeepsOuter)
    (hinner : s.sh.inner.hold .maint = true) (h : ioStep .recv s.sh s.recv a = some (sh', io')) :
    RecvKeepsOuter { s with sh := sh', recv := io' } := by
  obtain ⟨sh, m, ⟨pc, b⟩, d⟩ := s
  obtain ⟨hout, hpc⟩ := hk
  have hlock : sh.inner.lock .recv = none := Mutex.lock_eq_none hinner
  cases pc with
  | inner p =>
    cases a <;> simp [ioStep, hlock] at h
  | condWait =>
    cases a <;> cases h
    exact ⟨hout, trivial⟩
  | relock =>
    cases a <;> simp [ioStep, hlock] at h
  | _ => exact hpc.elim

variable {pc : RecvPc}

theorem lockAhead_of_outer
    (h : ∀ p, s.LockAhead (.outer p) → s'.LockAhead (.outer p)) (hahead : s.LockAhead pc) :
    s'.LockAhead pc := by
  cases pc with
  | outer p => exact h p hahead
  | _ => exact hahead

theorem Calm.recv {a : IoAct} (hc : s.Calm) (hs : s.Owned)
    (h : ioStep .recv s.sh s.recv a = some (sh', io')) :
      Calm { s with sh := sh', recv := io' } := by
  intro hj io hd hahead
  have hbefore := hc hj io hd
  obtain ⟨pc, b⟩ := io
  cases pc with
  | outer p =>
    have hk : s.RecvKeepsOuter := not_not.mp hbefore
    exact hahead (hk.step (hs.inner_of_joining hj) h)
  | _ => exact hbefore hahead

theorem Calm.disc {a : IoAct} {io : Io} (hc : s.Calm) (hs : s.Owned)
    (hd : s.disc = some io) (htimely : s.Timely (.disc a))
    (h : ioStep .disc s.sh io a = some (sh', io')) :
      Calm { s with sh := sh', disc := some io' } := by
  intro hj io'' hio''
  cases hio''
  have hbefore := hc hj io hd
  have hcancelled : io.cancelled = true := (hs.cancelled io hd).trans hj
  obtain ⟨pc, b⟩ := io
  cases a with
  | packet p =>
    cases pc <;> cases h
    exact htimely _ hd hcancelled
  | cancel =>
    cases pc <;> simp [ioStep] at h
    obtain ⟨-, -, rfl⟩ := h
    exact id
  | wake =>
    cases pc <;> cases h
    exact absurd trivial hbefore
  | go =>
    cases pc with
    | received p =>
      cases h
      have hwf : ¬ p.WellFormed := hbefore
      rw [if_neg hwf]
      exact id
    | rdheld p =>
      cases h
      have hm : ¬ p.ForMaintenance := hbefore
      rw [if_neg hm]
      exact id
    | outer p =>
      have hk : s.RecvKeepsOuter := not_not.mp hbefore
      obtain ⟨m, hm, -⟩ := map_eq_some_iff.mp h
      rw [Mutex.lock_eq_none hk.1] at hm
      cases hm
    | unlockOuter | body =>
      cases h
      exact id
    | enable =>
      cases h
      obtain rfl : b = true := hcancelled
      exact id
    | wait | dead => cases h
    | _ => exact absurd trivial hbefore

theorem Calm.maint {a : MaintAct}
    (htimely : s.Timely (.maint a)) (h : maintStep cfg s.sh s.maint s.disc a = some (sh', m', d')) :
    Calm ⟨sh', m', s.recv, d'⟩ := by
  obtain ⟨hlocks, hd⟩ := maintLocks_of_step h
  intro hj io hio
  obtain ⟨sh, ⟨pc, serverIp, count, deadline, nonce, newst, state⟩, recv, d⟩ := s
  generalize hpc' : m'.pc = pc' at hd
  have hj' : pc'.joining = true := by
    rw [← hpc']
    exact hj
  cases hd with
  | keep _ hkeep => exact nomatch hkeep.symm.trans hj'
  | join | started => cases hj'
  | stop n =>
    have hgo : a = .go := by
      cases a <;> first | rfl | cases h
    subst hgo
    obtain ⟨io₀, hio₀, rfl⟩ := map_eq_some_iff.mp hio
    have hbefore : ¬ LockAhead _ io₀.pc := htimely io₀ hio₀ rfl
    intro hahead
    refine hbefore (lockAhead_of_outer (fun p => ?_) hahead)
    show ¬ RecvKeepsOuter _ → ¬ RecvKeepsOuter _
    unfold RecvKeepsOuter
    rw [show sh'.outer = sh.outer from hlocks.outer]
    exact id

theorem Calm.step (hc : s.Calm) (hs : s.Owned) (htimely : s.Timely a) (h : Step cfg s a s') :
    s'.Calm := by
  cases a with
  | maint a =>
    obtain ⟨⟨sh', m', d'⟩, hstep, rfl⟩ := map_eq_some_iff.mp h
    exact Calm.maint htimely hstep
  | recv a =>
    obtain ⟨⟨sh', io'⟩, hstep, rfl⟩ := map_eq_some_iff.mp h
    exact hc.recv hs hstep
  | disc a =>
    obtain ⟨io, hd, h⟩ := bind_eq_some_iff.mp h
    obtain ⟨⟨sh', io'⟩, hstep, rfl⟩ := map_eq_some_iff.mp h
    exact hc.disc hs hd htimely hstep

theorem not_stuck_of_timely (hrun : Run (TimelyStep cfg) (initial st) es s) : ¬ s.Stuck := by
  have hinv : s.Owned ∧ s.Calm := by
    refine hrun.invariant
      ⟨owned_initial, fun hj => absurd hj (by simp [initial, MaintPc.joining])⟩ ?_
    rintro s a s' ⟨hs, hc⟩ ⟨htimely, h⟩
    exact ⟨hs.step h, hc.step hs htimely h⟩
  exact hinv.2.not_stuck

/-! ## Steps that come too late -/

theorem Owned.stuck (hs : s.Owned) (hj : s.maint.pc.joining = true) {b : Bool}
    (hd : s.disc = some ⟨pc, b⟩) (hpc : match pc with
      | .rdlock _ | .inner _ | .relock => True
      | _ => False) : s.Stuck := by
  refine ⟨hj, _, hd, ?_⟩
  cases pc with
  | rdlock p => exact ⟨rfl, trivial⟩
  | inner p | relock => exact ⟨rfl, hs.inner_of_joining hj⟩
  | _ => exact hpc.elim

variable {t : Thread}

theorem Owned.not_holdsInner (hs : s.Owned) (hj : s.maint.pc.joining = true)
    (ht : t ≠ .maint) : s.holds MaintPc.holdsInner RecvPc.holdsInner t = false := by
  rw [hs.inner, ← Bool.not_eq_true]
  exact fun h => ht (Mutex.hold_unique h (hs.inner_of_joining hj))

theorem Owned.not_reading (hs : s.Owned) (hj : s.maint.pc.joining = true)
    (ht : t ≠ .maint) : s.holds MaintPc.stateHold RecvPc.stateHold t = .none := by
  have hwriting : s.holds MaintPc.stateHold RecvPc.stateHold .maint = .writing := by
    show s.maint.pc.stateHold = .writing
    cases hpc : s.maint.pc <;> rw [hpc] at hj <;> cases hj
    rfl
  rw [hs.state] at hwriting ⊢
  exact RwLock.hold_of_writing hwriting ht

theorem Owned.outer_of_not_recvKeepsOuter (hs : s.Owned) (hj : s.maint.pc.joining = true)
    (hdisc : (discPc s.disc).holdsOuter = false) (hkeep : ¬ s.RecvKeepsOuter) :
    s.sh.outer.owner = none ∨ s.recv.pc = .unlockOuter := by
  rcases howner : s.sh.outer.owner with _ | t
  · exact .inl rfl
  have ht : s.sh.outer.hold t = true := decide_eq_true howner
  have hheld := ht
  rw [← hs.outer] at hheld
  cases t with
  | maint => cases hheld
  | disc =>
    have : (discPc s.disc).holdsOuter = true := hheld
    rw [hdisc] at this
    cases this
  | recv =>
    have hrecv : s.recv.pc.holdsOuter = true := hheld
    have hinner : s.recv.pc.holdsInner = false := hs.not_holdsInner hj (t := .recv) (by simp)
    cases hpc : s.recv.pc with
    | inner p | condWait | relock => exact absurd ⟨ht, by rw [hpc]; trivial⟩ hkeep
    | unlockOuter => exact .inr rfl
    | post p | check =>
      rw [hpc] at hinner
      cases hinner
    | _ =>
      rw [hpc] at hrecv
      cases hrecv

theorem CanGetStuck.of_step (h : Step cfg s a s') (hs' : s'.CanGetStuck cfg) :
    s.CanGetStuck cfg := by
  obtain ⟨es, s'', hrun, hstuck⟩ := hs'
  exact ⟨a :: es, s'', hrun.head h, hstuck⟩

theorem Stuck.canGetStuck (h : s.Stuck) : s.CanGetStuck cfg := ⟨[], s, .start, h⟩

theorem Owned.canGetStuck (hs : s.Owned) (hj : s.maint.pc.joining = true) (hd : s.disc = some io)
    (hahead : s.LockAhead io.pc) : s.CanGetStuck cfg := by
  have hinner : (discPc s.disc).holdsInner = false := hs.not_holdsInner hj (t := .disc) (by simp)
  have hstate : (discPc s.disc).stateHold = .none := hs.not_reading hj (t := .disc) (by simp)
  obtain ⟨pc, b⟩ := io
  cases pc with
  | received p =>
    have hwf : p.WellFormed := hahead
    have hgo : Step cfg s (.disc .go) { s with disc := some ⟨.rdlock p, b⟩ } := by
      simp [Step, Sys.step, hd, ioStep, hwf]
    exact .of_step hgo ((hs.step hgo).stuck hj rfl trivial).canGetStuck
  | rdlock p => exact (hs.stuck hj hd trivial).canGetStuck
  | rdheld p =>
    rw [hd] at hstate
    cases hstate
  | outer p =>
    have hlocked : ∀ s : Sys, s.Owned → s.maint.pc.joining = true → s.disc = some ⟨.outer p, b⟩ →
        s.sh.outer.owner = none → s.CanGetStuck cfg := by
      intro s hs hj hd howner
      have hgo : Step cfg s (.disc .go)
          { s with sh := { s.sh with outer := ⟨some .disc⟩ }, disc := some ⟨.inner p, b⟩ } := by
        simp [Step, Sys.step, hd, ioStep, Mutex.lock, howner]
      exact .of_step hgo ((hs.step hgo).stuck hj rfl trivial).canGetStuck
    have hdisc : (discPc s.disc).holdsOuter = false := by
      rw [hd]
      rfl
    rcases hs.outer_of_not_recvKeepsOuter hj hdisc hahead with howner | hunlock
    · exact hlocked s hs hj hd howner
    · have hgo : Step cfg s (.recv .go) { s with
          sh := { s.sh with outer := ⟨none⟩ }, recv := ⟨.enable, s.recv.cancelled⟩ } := by
        simp [Step, Sys.step, ioStep, hunlock]
      exact .of_step hgo (hlocked _ (hs.step hgo) hj hd rfl)
  | inner p => exact (hs.stuck hj hd trivial).canGetStuck
  | post p =>
    rw [hd] at hinner
    cases hinner
  | condWait =>
    have hwake : Step cfg s (.disc .wake) { s with disc := some ⟨.relock, b⟩ } := by
      simp [Step, Sys.step, hd, ioStep]
    exact .of_step hwake ((hs.step hwake).stuck hj rfl trivial).canGetStuck
  | relock => exact (hs.stuck hj hd trivial).canGetStuck
  | check =>
    rw [hd] at hinner
    cases hinner
  | _ => exact hahead.elim

theorem Owned.canGetStuck_of_not_timely (hs : s.Owned) (h : Step cfg s a s')
    (huntimely : ¬ s.Timely a) : s'.CanGetStuck cfg := by
  have hs' := hs.step h
  rcases a with a | a | a
  · cases a with
    | go =>
      simp only [Timely, not_forall, not_not] at huntimely
      obtain ⟨io, hd, hstop, hahead⟩ := huntimely
      obtain ⟨sh, ⟨pc, serverIp, count, deadline, nonce, newst, state⟩, recv, d⟩ := s
      cases pc <;> cases hstop
      cases hd
      cases h
      exact hs'.canGetStuck rfl rfl (lockAhead_of_outer (fun _ => id) hahead)
    | _ => exact absurd trivial huntimely
  · exact absurd trivial huntimely
  · cases a with
    | packet p =>
      obtain ⟨⟨pc, b⟩, hd, h⟩ := bind_eq_some_iff.mp h
      obtain ⟨⟨sh', io'⟩, hstep, rfl⟩ := map_eq_some_iff.mp h
      simp only [Timely, not_forall, not_not] at huntimely
      obtain ⟨_, hd', hcancelled, hwf⟩ := huntimely
      cases hd.symm.trans hd'
      have hj : s.maint.pc.joining = true := (hs.cancelled _ hd).symm.trans hcancelled
      cases pc <;> cases hstep
      exact hs'.canGetStuck hj rfl hwf
    | _ => exact absurd trivial huntimely

/-- **Stopping discovery in time.** If every step of a run is in time, the threads do not get stuck.
After any other step they can. -/
theorem stuck_only_if_untimely (cfg : Conf) (st : TeredoState) (es : List Act) (s : Sys) :
    (Run (TimelyStep cfg) (initial st) es s → ¬ s.Stuck) ∧ (Run (Step cfg) (initial st) es s →
        ∀ a s', Step cfg s a s' → ¬ s.Timely a → s'.CanGetStuck cfg) := by
  constructor
  · exact not_stuck_of_timely
  · intro hrun a s' h huntimely
    have hs : s.Owned := hrun.invariant owned_initial fun _ _ _ hs h => hs.step h
    exact hs.canGetStuck_of_not_timely h huntimely

end Sys

/-! ## A late stop -/

section LateStop

def serverIp : Ipv4 := bytes [83, 170, 6, 76]

def advertisement (mtu : ℕ) : TeredoPacket where
  ip6 := [0x60, 0, 0, 0, 0, 56, 58, 255] ++ List.replicate 16 0 ++ teredoRestrict.toList ++
    134 :: List.replicate 15 0 ++
    [3, 4, 64, 0] ++ List.replicate 12 0 ++ teredoPrefix.toList ++ serverIp.toList ++
    List.replicate 8 0 ++
    [5, 1, 0, 0] ++ be 4 mtu
  sourceIpv4 := serverIp
  sourcePort := ipportTeredo
  origIpv4 := bytes [192, 0, 2, 45]
  origPort := bytes (be 2 40000)
  destIpv4 := bytes [192, 168, 1, 2]
  authPresent := true
  authFail := false
  authNonce := field [] 0 8

def neighbourBubble : TeredoPacket where
  __ := TeredoPacket.plain ([0x60, 0, 0, 0, 0, 0, 59, 0] ++ List.replicate 16 1 ++
    in6addrAllnodes.toList) (bytes [192, 168, 1, 7]) ipportTeredo
  destIpv4 := teredoDiscoveryIpv4

/-- A client with discovery, the default number of retries, and a hash that is zero. -/
def zeroConf : Conf := ⟨⟨bytes [0, 0], fun _ _ _ => field [] 0 16⟩, 3, true⟩

def zeroState : TeredoState := ⟨field [] 0 16, 0, anyIpv4, false⟩

/-- The maintenance thread sends a solicitation and waits for the answer. -/
def solicit : List Act := [.maint (.solicited (field [] 0 4) zeroState), .maint .go]

/-- The receive thread hands an advertisement over, and the maintenance thread reads it. -/
def advertise (mtu : ℕ) : List Act :=
  .recv (.packet (advertisement mtu)) :: List.replicate 6 (.recv .go) ++
    [.maint (.wake false), .maint .go, .maint .go, .maint .go]

/-- Discovery is started, the receive thread returns, and it is time to solicit again. -/
def startAndReturn : List Act :=
  [.maint .go, .maint .go, .maint (.started (some true)), .maint .go, .maint .go,
    .recv .wake, .recv .go, .recv .go, .recv .go, .recv .go,
    .maint (.wake true), .maint .go, .maint .go]

def secondChange : List Act :=
  [.maint .go, .maint (.resolved (some serverIp)), .maint .go, .maint .go, .maint .go] ++
    solicit ++ advertise 1280 ++ startAndReturn ++ solicit ++ advertise 1400

/-- The discovery thread receives a bubble before it is stopped. -/
def bubbleBeforeStop : List Act :=
  secondChange ++ [.disc (.packet neighbourBubble), .maint .go, .maint .go]

/-- It is stopped all the same, and then it needs the state lock. -/
def lateStop : List Act := bubbleBeforeStop ++ [.maint .go, .disc .go]

/-- The discovery thread is cancelled while it waits for a packet, and it ends. -/
def cleanStop : List Act :=
  secondChange ++ [.maint .go, .maint .go, .maint .go, .disc .cancel, .maint .go]

set_option maxRecDepth 20000 in
theorem lateStop_stuck :
    ∃ s, Run (Sys.Step zeroConf) (Sys.initial zeroState) lateStop s ∧ s.Stuck :=
  ⟨_, run_of_foldlM (fun _ _ _ => id) rfl, rfl, _, rfl, rfl, trivial⟩

def qualified (mtu : ℕ) : TeredoState where
  addr := bytes [0x20, 1, 0, 0, 83, 170, 6, 76, 0, 0, 0x63, 0xbf, 0x3f, 0xff, 0xfd, 0xd2]
  mtu := mtu
  ipv4 := bytes [192, 168, 1, 2]
  up := true

def beforeStop : Sys where
  sh := ⟨.write .maint, ⟨some .recv⟩, ⟨some .maint⟩, none⟩
  maint := ⟨.stop .ignore, serverIp, 0, field [] 0 4, field [] 0 8, qualified 1400, qualified 1400⟩
  recv := ⟨.condWait, false⟩
  disc := some ⟨.received neighbourBubble, false⟩

set_option maxRecDepth 20000 in
theorem stuck_only_if_untimely_stop :
    (∃ s, Run (Sys.TimelyStep zeroConf) (Sys.initial zeroState) cleanStop s ∧ ¬ s.Stuck) ∧
      Run (Sys.Step zeroConf) (Sys.initial zeroState) bubbleBeforeStop beforeStop ∧
        ∃ s, Sys.Step zeroConf beforeStop (.maint .go) s ∧ s.CanGetStuck zeroConf := by
  constructor
  · have hrun : Run (Sys.TimelyStep zeroConf) (Sys.initial zeroState) cleanStop _ :=
      run_of_foldlM (f := fun s a => if s.Timely a then s.step zeroConf a else none)
        (fun _ _ _ => ite_none_right_eq_some.mp) rfl
    exact ⟨_, hrun, (Sys.stuck_only_if_untimely zeroConf zeroState cleanStop _).1 hrun⟩
  · have hrun : Run (Sys.Step zeroConf) (Sys.initial zeroState) bubbleBeforeStop beforeStop :=
      run_of_foldlM (fun _ _ _ => id) rfl
    have hstep : Sys.Step zeroConf beforeStop (.maint .go) _ := rfl
    have huntimely : ¬ beforeStop.Timely (.maint .go) := by decide
    exact ⟨hrun, _, hstep,
      (Sys.stuck_only_if_untimely zeroConf zeroState _ _).2 hrun _ _ hstep huntimely⟩

end LateStop

end Maiccu.Teredo
