import Maiccu.Lib.Locks
import Maiccu.Lib.Run
import Maiccu.Teredo.Advert

/-!
# Stopping local discovery

The threads of a client with local discovery: the receive thread and the discovery thread, which
both run `teredo_recv_thread`, and the maintenance thread, which calls `teredo_state_change`. When
the client comes up again the maintenance thread cancels the discovery thread and waits for its end,
and it holds the state lock and the inner mutex while it waits.

Each constructor of `RecvPc` and `MaintPc` is a place in the code. A wait for a condition may end at
any time, as POSIX allows, so the signals need no state. A thread that is cancelled while it waits
for a datagram may still return with one. The thread that sends discovery bubbles takes none of the
locks and is left out.
-/

namespace Maiccu.Teredo

open Maiccu.Lib

inductive Thread where
  | maint
  | recv
  | disc
  deriving DecidableEq

/-- What the threads share. -/
structure Shared where
  stateLock : RwLock Thread
  outer : Mutex Thread
  inner : Mutex Thread
  /-- `m->incoming`. -/
  incoming : Option TeredoPacket

/-! ## The receiving threads -/

/-- Places of `teredo_recv_thread`, with those of `teredo_run_inner` and
`teredo_maintenance_process`. -/
inductive RecvPc where
  /-- In `teredo_wait_recv`. -/
  | wait
  /-- A packet was received; the cancellation is not disabled yet. -/
  | received (p : TeredoPacket)
  /-- In `pthread_rwlock_rdlock (&tunnel->state_lock)`. -/
  | rdlock (p : TeredoPacket)
  /-- The state is copied. -/
  | rdheld (p : TeredoPacket)
  /-- In `pthread_mutex_lock (&m->outer)`. -/
  | outer (p : TeredoPacket)
  /-- In `pthread_mutex_lock (&m->inner)`. -/
  | inner (p : TeredoPacket)
  /-- Both mutexes are locked. -/
  | post (p : TeredoPacket)
  /-- In `pthread_cond_wait (&m->processed, &m->inner)`. -/
  | condWait
  /-- The wait is over and the mutex is to be locked again. -/
  | relock
  /-- At the test `m->incoming != NULL`. -/
  | check
  /-- At `pthread_mutex_unlock (&m->outer)`. -/
  | unlockOuter
  /-- The rest of `teredo_run_inner`. -/
  | body
  /-- `teredo_run_inner` has returned. -/
  | enable
  /-- The thread has ended. -/
  | dead

namespace RecvPc

def holdsInner : RecvPc → Bool
  | .post _ | .check => true
  | _ => false

def holdsOuter : RecvPc → Bool
  | .inner _ | .post _ | .condWait | .relock | .check | .unlockOuter => true
  | _ => false

def stateHold : RecvPc → RwHold
  | .rdheld _ => .reading
  | _ => .none

/-- The code between the two calls of `pthread_setcancelstate`. -/
def cancelDisabled : RecvPc → Bool
  | .wait | .received _ | .dead => false
  | _ => true

end RecvPc

structure Io where
  pc : RecvPc
  /-- `pthread_cancel` was called. -/
  cancelled : Bool

inductive IoAct where
  | go
  /-- `teredo_wait_recv` returns a packet. -/
  | packet (p : TeredoPacket)
  /-- The wait for a condition ends. -/
  | wake
  /-- The cancellation is acted upon in `teredo_wait_recv`. -/
  | cancel

/-- A step of the thread `t`; `none` if it cannot be made. -/
def ioStep (t : Thread) (sh : Shared) (io : Io) : IoAct → Option (Shared × Io)
  | .packet p =>
    match io.pc with
    | .wait => some (sh, { io with pc := .received p })
    | _ => none
  | .cancel =>
    match io.pc with
    | .wait => if io.cancelled then some (sh, { io with pc := .dead }) else none
    | _ => none
  | .wake =>
    match io.pc with
    | .condWait => some (sh, { io with pc := .relock })
    | _ => none
  | .go =>
    match io.pc with
    | .wait | .condWait | .dead => none
    | .received p => some (sh, { io with pc := if p.WellFormed then .rdlock p else .enable })
    | .rdlock p =>
      (sh.stateLock.rdlock t).map fun l => ({ sh with stateLock := l }, { io with pc := .rdheld p })
    | .rdheld p =>
      some ({ sh with stateLock := sh.stateLock.unlock t },
        { io with pc := if p.ForMaintenance then .outer p else .body })
    | .outer p => (sh.outer.lock t).map fun m =>
        ({ sh with outer := m }, { io with pc := .inner p })
    | .inner p => (sh.inner.lock t).map fun m => ({ sh with inner := m }, { io with pc := .post p })
    | .post p => some ({ sh with incoming := some p, inner := ⟨none⟩ }, { io with pc := .condWait })
    | .relock => (sh.inner.lock t).map fun m => ({ sh with inner := m }, { io with pc := .check })
    | .check =>
      some ({ sh with inner := ⟨none⟩ },
        { io with pc := if sh.incoming.isSome then .condWait else .unlockOuter })
    | .unlockOuter => some ({ sh with outer := ⟨none⟩ }, { io with pc := .enable })
    | .body => some (sh, { io with pc := .enable })
    -- a cancellation that is pending ends the thread at the next `teredo_wait_recv`
    | .enable => some (sh, { io with pc := if io.cancelled then .dead else .wait })

/-! ## The maintenance thread -/

/-- What the maintenance thread waits for: an answer to a solicitation, or the time of the next. -/
inductive Wait where
  | reply
  | ignore
  deriving DecidableEq

/-- Where `maintenance_thread` goes on after a call of the state callback. -/
inductive After where
  | solicit
  | ignore
  deriving DecidableEq

/-- Places of `maintenance_thread`, with those of `teredo_state_change`. -/
inductive MaintPc where
  /-- In the first `pthread_mutex_lock (&m->inner)`. -/
  | lockInner
  /-- At the start of the loop. -/
  | resolve
  | solicit
  /-- At the test `m->incoming == NULL` of `wait_reply`. -/
  | test (w : Wait)
  /-- In `pthread_cond_timedwait (&m->received, &m->inner, deadline)`. -/
  | timedWait (w : Wait)
  | relock (w : Wait) (timedOut : Bool)
  /-- A packet was received. -/
  | process (w : Wait)
  /-- No answer came in time. -/
  | timeout
  /-- In `pthread_rwlock_wrlock (&tunnel->state_lock)`. -/
  | wrlock (n : After)
  /-- The new state is set. -/
  | changed (n : After)
  /-- At `pthread_cancel` in `teredo_discovery_stop`. -/
  | stop (n : After)
  /-- In `pthread_join`. -/
  | join (n : After)
  /-- The list is reset, and a new discovery is started. -/
  | start (n : After)
  /-- At `pthread_rwlock_unlock`. -/
  | unlock (n : After)
  deriving DecidableEq

namespace MaintPc

def holdsInner : MaintPc → Bool
  | .lockInner | .timedWait _ | .relock _ _ => false
  | _ => true

def stateHold : MaintPc → RwHold
  | .changed _ | .stop _ | .join _ | .start _ | .unlock _ => .writing
  | _ => .none

/-- Places of `maintenance_thread` outside the state callback and the waits. -/
def plain : MaintPc → Bool
  | .resolve | .solicit | .test _ | .process _ | .timeout | .wrlock _ => true
  | _ => false

def stopping : MaintPc → Bool
  | .stop _ => true
  | _ => false

def joining : MaintPc → Bool
  | .join _ => true
  | _ => false

end MaintPc

def After.pc : After → MaintPc
  | .solicit => .solicit
  | .ignore => .test .ignore

def Wait.over (w : Wait) : Bool → MaintPc
  | false => .test w
  | true => if w = .reply then .timeout else .resolve

/-- The maintenance thread. -/
structure Maint where
  pc : MaintPc
  /-- `server_ip`, zero if it is not known. -/
  serverIp : Ipv4
  count : ℕ
  /-- `deadline.tv_sec`. -/
  deadline : Bytes 4
  nonce : Bytes 8
  newst : TeredoState
  /-- `m->state.state`. -/
  state : TeredoState

/-- The keys of the process, `qualification_retries`, and whether local discovery is enabled. -/
structure Conf where
  key : Keyed
  retries : ℕ
  discovery : Bool

inductive MaintAct where
  | go
  /-- `getipv4byname` returns the address of a server, or fails. -/
  | resolved (ip : Option Ipv4)
  /-- A solicitation is sent at this time. The new state is not initialised, but for two fields. -/
  | solicited (deadline : Bytes 4) (junk : TeredoState)
  /-- The wait for the condition ends. -/
  | wake (timedOut : Bool)
  /-- `teredo_discovery_start` fails, or it returns a discovery with a thread or without one. -/
  | started (thread : Option Bool)

/-- The new state after the flags are chosen: an address that does not change keeps them. -/
def chooseFlags (flbits : Bytes 2) (c s : TeredoState) : TeredoState :=
  let addr := setFlags s.addr (in6TeredoFlags c.addr)
  { s with addr := if c.addr ≠ addr then setFlags addr (randomFlags flbits) else addr }

/-- The state callback is to be called: the client was down, or its address or MTU changes. -/
def Changes (c s : TeredoState) : Prop := c.up = false ∨ c.addr ≠ s.addr ∨ c.mtu ≠ s.mtu

instance (c s : TeredoState) : Decidable (Changes c s) := inferInstanceAs (Decidable (_ ∨ _))

/-- A packet that came while the maintenance thread waits for an answer. -/
def maintAnswer (key : Keyed) (m : Maint) (p : TeredoPacket) : Maint :=
  match maintenanceRecv p m.serverIp m.nonce false m.newst with
  | (some _, newst) => { m with pc := .test .reply, newst }
  | (none, newst) =>
    let newst := chooseFlags (teredoGetFlbits key m.deadline) m.state newst
    if Changes m.state newst then
      { m with pc := .wrlock .ignore, count := 0, newst, state := newst }
    else { m with pc := .test .ignore, count := 0, newst }

def maintTimeout (retries : ℕ) (m : Maint) : Maint :=
  if m.count + 1 < retries then { m with pc := .resolve, count := m.count + 1 }
  else if m.state.up then
    { m with
      pc := .wrlock .ignore
      serverIp := anyIpv4
      count := 0
      state := { m.state with up := false } }
  else { m with pc := .test .ignore, count := 0 }

variable (cfg : Conf)

/-- A step of the maintenance thread; `none` if it cannot be made. The last component is the
discovery thread. -/
def maintStep (sh : Shared) (m : Maint) (d : Option Io) :
    MaintAct → Option (Shared × Maint × Option Io)
  | .resolved ip =>
    match m.pc with
    | .resolve =>
      if m.serverIp ≠ anyIpv4 then none else
      match ip.filter isIpv4GlobalUnicast with
      | none => some (sh, { m with pc := .test .ignore }, d)
      | some ip =>
        some (sh, { m with
          pc := .wrlock .solicit
          serverIp := ip
          state := { m.state with addr := setServer m.state.addr ip } }, d)
    | _ => none
  | .solicited deadline junk =>
    match m.pc with
    | .solicit =>
      some (sh, { m with
        pc := .test .reply
        deadline
        nonce := teredoGetNonce cfg.key deadline m.serverIp ipportTeredo
        newst := { junk with mtu := 1280, up := true } }, d)
    | _ => none
  | .wake b =>
    match m.pc with
    | .timedWait w => some (sh, { m with pc := .relock w b }, d)
    | _ => none
  | .started r =>
    match m.pc with
    | .start n =>
      some (sh, { m with pc := .unlock n },
        if cfg.discovery then r.map fun b => ⟨if b then .wait else .dead, false⟩ else none)
    | _ => none
  | .go =>
    match m.pc with
    | .lockInner =>
      (sh.inner.lock .maint).map fun l => ({ sh with inner := l }, { m with pc := .resolve }, d)
    | .resolve => if m.serverIp ≠ anyIpv4 then some (sh, { m with pc := .solicit }, d) else none
    | .solicit | .timedWait _ | .start _ => none
    | .test w =>
      if sh.incoming.isSome then some (sh, { m with pc := .process w }, d)
      else some ({ sh with inner := ⟨none⟩ }, { m with pc := .timedWait w }, d)
    | .relock w b =>
      (sh.inner.lock .maint).map fun l => ({ sh with inner := l }, { m with pc := w.over b }, d)
    | .process .ignore => some ({ sh with incoming := none }, { m with pc := .test .ignore }, d)
    | .process .reply =>
      sh.incoming.map fun p => ({ sh with incoming := none }, maintAnswer cfg.key m p, d)
    | .timeout => some (sh, maintTimeout cfg.retries m, d)
    | .wrlock n =>
      (sh.stateLock.wrlock .maint).map fun l =>
        ({ sh with stateLock := l }, { m with pc := .changed n }, d)
    | .changed n =>
      some (sh, { m with pc :=
        if m.state.up then (if d.isSome then .stop n else .start n) else .unlock n }, d)
    | .stop n => some (sh, { m with pc := .join n }, d.map fun io => { io with cancelled := true })
    | .join n =>
      match d with
      | some ⟨.dead, _⟩ => some (sh, { m with pc := .start n }, none)
      | _ => none
    | .unlock n =>
      some ({ sh with stateLock := sh.stateLock.unlock .maint }, { m with pc := n.pc }, d)

/-! ## The system -/

structure Sys where
  sh : Shared
  maint : Maint
  recv : Io
  /-- The thread of `tunnel->discovery`, unless this is null. -/
  disc : Option Io

inductive Act where
  | maint (a : MaintAct)
  | recv (a : IoAct)
  | disc (a : IoAct)

namespace Sys

/-- A client that starts: no lock is held, and there is no discovery. -/
def initial (st : TeredoState) : Sys where
  sh := ⟨.read ∅, ⟨none⟩, ⟨none⟩, none⟩
  maint := ⟨.lockInner, anyIpv4, 0, field [] 0 4, field [] 0 8, st, { st with up := false }⟩
  recv := ⟨.wait, false⟩
  disc := none

variable (s : Sys)

def step : Act → Option Sys
  | .maint a =>
    (maintStep cfg s.sh s.maint s.disc a).map fun x => ⟨x.1, x.2.1, s.recv, x.2.2⟩
  | .recv a => (ioStep .recv s.sh s.recv a).map fun x => { s with sh := x.1, recv := x.2 }
  | .disc a =>
    s.disc.bind fun io =>
      (ioStep .disc s.sh io a).map fun x => { s with sh := x.1, disc := some x.2 }

def Step (a : Act) (s' : Sys) : Prop := s.step cfg a = some s'

/-- The maintenance thread waits for the end of a thread that waits, with the cancellation disabled,
for the state lock or for a mutex that the maintenance thread holds. -/
def Stuck : Prop :=
  s.maint.pc.joining = true ∧ ∃ io, s.disc = some io ∧ io.pc.cancelDisabled = true ∧
    match io.pc with
    | .rdlock _ => True
    | .outer _ => s.sh.outer.hold .maint = true
    | .inner _ | .relock => s.sh.inner.hold .maint = true
    | _ => False

/-- The receive thread holds the outer mutex and needs the inner one before it gives it back. -/
def RecvKeepsOuter : Prop :=
  s.sh.outer.hold .recv = true ∧
    match s.recv.pc with
    | .inner _ | .condWait | .relock => True
    | _ => False

/-- A discovery thread at this place has yet to take a lock that the maintenance thread keeps while
it waits. Behind a receive thread that keeps the outer mutex it never gets that far. -/
def LockAhead : RecvPc → Prop
  | .received p => p.WellFormed
  | .rdheld p => p.ForMaintenance
  | .outer _ => ¬ s.RecvKeepsOuter
  | .rdlock _ | .inner _ | .post _ | .condWait | .relock | .check => True
  | .wait | .unlockOuter | .body | .enable | .dead => False

/-- The condition on a step: discovery is stopped only while its thread has no lock ahead, and then
this thread takes no more packets. -/
def Timely : Act → Prop
  | .maint .go => ∀ io ∈ s.disc, s.maint.pc.stopping = true → ¬ s.LockAhead io.pc
  | .disc (.packet p) => ∀ io ∈ s.disc, io.cancelled = true → ¬ p.WellFormed
  | _ => True

def TimelyStep (a : Act) (s' : Sys) : Prop := s.Timely a ∧ Step cfg s a s'

def CanGetStuck : Prop := ∃ es s', Run (Step cfg) s es s' ∧ s'.Stuck

instance (s : Sys) : Decidable s.RecvKeepsOuter :=
  match h : s.recv.pc with
  | .inner _ | .condWait | .relock =>
    decidable_of_iff (s.sh.outer.hold .recv = true) (by simp [RecvKeepsOuter, h])
  | .wait | .received _ | .rdlock _ | .rdheld _ | .outer _ | .post _ | .check | .unlockOuter | .body
  | .enable | .dead => isFalse (by simp [RecvKeepsOuter, h])

instance (s : Sys) : DecidablePred s.LockAhead
  | .received p => inferInstanceAs (Decidable p.WellFormed)
  | .rdheld p => inferInstanceAs (Decidable p.ForMaintenance)
  | .outer _ => inferInstanceAs (Decidable (¬ s.RecvKeepsOuter))
  | .rdlock _ | .inner _ | .post _ | .condWait | .relock | .check => isTrue trivial
  | .wait | .unlockOuter | .body | .enable | .dead => isFalse id

instance (s : Sys) : DecidablePred s.Timely
  | .maint .go =>
    inferInstanceAs (Decidable (∀ io ∈ s.disc, s.maint.pc.stopping = true → ¬ s.LockAhead io.pc))
  | .disc (.packet p) =>
    inferInstanceAs (Decidable (∀ io ∈ s.disc, io.cancelled = true → ¬ p.WellFormed))
  | .maint (.resolved _) | .maint (.solicited _ _) | .maint (.wake _) | .maint (.started _)
  | .recv _ | .disc .go | .disc .wake | .disc .cancel => isTrue trivial

end Sys

end Maiccu.Teredo
