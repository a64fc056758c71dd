import Maiccu.Teredo.StopDiscovery

/-!
# The maintenance procedure

`maintenance_thread` of `maintain.c`: it resolves the name of the server, sends solicitations, waits
for the answers and tells the client about its state. The resolver, the clock, the packets and the
end of a wait are the input of a step. What the thread computes of an answer is that of
`StopDiscovery`; the locks are left out here, and the deadlines are in.
-/

namespace Maiccu.Teredo

open Maiccu.Lib Option

/-! ## Time -/

/-- `struct timespec`. -/
structure Timespec where
  sec : ℤ
  nsec : ℕ
  deriving DecidableEq

/-- `ts.tv_sec += delay`. -/
def Timespec.add (ts : Timespec) (delay : ℤ) : Timespec := { ts with sec := ts.sec + delay }

/-- The test of `checkTimeDrift`: the time `ts` is over. -/
def Timespec.Past (ts now : Timespec) : Prop :=
  ts.sec < now.sec ∨ now.sec = ts.sec ∧ ts.nsec < now.nsec

instance (ts now : Timespec) : Decidable (ts.Past now) := inferInstanceAs (Decidable (_ ∨ _))

/-- The seconds, as the low word of them lies in memory. -/
def Timespec.word (ts : Timespec) : Bytes 4 := field (be 4 (ts.sec % 2 ^ 32).toNat).reverse 0 4

/-- The parameters of `teredo_maintenance_start`. -/
structure Timing where
  qualificationDelay : ℕ
  qualificationRetries : ℕ
  refreshDelay : ℕ
  restartDelay : ℕ
  delay_pos : 0 < qualificationDelay
  retries_pos : 0 < qualificationRetries
  refresh_pos : 0 < refreshDelay
  restart_pos : 0 < restartDelay

/-- The operator `?:` with two operands. -/
def orDefault (x d : ℕ) : ℕ := if x = 0 then d else x

theorem orDefault_pos {x d : ℕ} (h : 0 < d) : 0 < orDefault x d := by
  unfold orDefault
  split_ifs with hx
  · exact h
  · exact Nat.pos_of_ne_zero hx

/-- The parameters with their defaults, as `teredo_maintenance_start` sets them. -/
def Timing.ofArgs (qSec qRetries refreshSec restartSec : ℕ) : Timing where
  qualificationDelay := orDefault qSec 4
  qualificationRetries := orDefault qRetries 3
  refreshDelay := orDefault refreshSec 30
  restartDelay := orDefault restartSec 100
  delay_pos := orDefault_pos (by decide)
  retries_pos := orDefault_pos (by decide)
  refresh_pos := orDefault_pos (by decide)
  restart_pos := orDefault_pos (by decide)

/-- The loop before a solicitation: the deadline is moved until `checkTimeDrift` finds it in the
future. The list has the times that it reads. -/
def solicitDeadline (delay : ℕ) (deadline : Timespec) : List Timespec → Option Timespec
  | [] => none
  | now :: clock =>
    if (deadline.add delay).Past now then solicitDeadline delay now clock
    else if clock = [] then some (deadline.add delay) else none

/-- The loop ends at the second turn, unless the clock moves on by the whole delay meanwhile. -/
theorem solicitDeadline_isSome {delay : ℕ} (deadline now : Timespec) (h : 0 < delay) :
    (solicitDeadline delay deadline [now]).isSome ∨
      (solicitDeadline delay deadline [now, now]).isSome := by
  by_cases hpast : (deadline.add delay).Past now
  · have hnot : ¬ (now.add delay).Past now := by
      simp only [Timespec.Past, Timespec.add]
      omega
    right
    rw [solicitDeadline, if_pos hpast, solicitDeadline, if_neg hnot, if_pos rfl]
    rfl
  · left
    rw [solicitDeadline, if_neg hpast, if_pos rfl]
    rfl

/-! ## Steps -/

structure Upkeep where
  m : Maint
  deadline : Timespec

namespace Upkeep

inductive Input where
  /-- `getipv4byname` returns, and the time is taken. -/
  | resolved (ip : Option Ipv4) (now : Timespec)
  /-- The times that are read before a solicitation. The new state is not initialised, but for two
  fields. -/
  | clock (now : List Timespec) (junk : TeredoState)
  /-- `wait_reply` returns with a packet. -/
  | packet (p : TeredoPacket)
  /-- `wait_reply` returns `ETIMEDOUT`. -/
  | timeout

/-- A step: the input, whether it is an answer that is accepted or a solicitation that gets none,
and the state that the callback is called with. -/
structure Event where
  input : Input
  accepted : Bool
  unanswered : Bool
  callback : Option TeredoState

def notified (m : Maint) : Maint × Option TeredoState :=
  match m.pc with
  | .wrlock n => ({ m with pc := n.pc }, some m.state)
  | _ => (m, none)

def Resolving (u : Upkeep) : Prop := u.m.pc = .resolve ∧ u.m.serverIp = anyIpv4

instance (u : Upkeep) : Decidable u.Resolving := inferInstanceAs (Decidable (_ ∧ _))

def Soliciting (u : Upkeep) : Prop :=
  u.m.pc = .solicit ∨ u.m.pc = .resolve ∧ u.m.serverIp ≠ anyIpv4

instance (u : Upkeep) : Decidable u.Soliciting := inferInstanceAs (Decidable (_ ∨ _))

variable (key : Keyed) (t : Timing)

def done (input : Input) (accepted unanswered : Bool) (m : Maint) (deadline : Timespec) :
    Upkeep × Event :=
  (⟨(notified m).1, deadline⟩, ⟨input, accepted, unanswered, (notified m).2⟩)

/-- A step of `maintenance_thread`; `none` if the thread does not ask for this input. -/
def next (u : Upkeep) (input : Input) : Option (Upkeep × Event) :=
  match input with
  | .resolved ip now =>
    if u.Resolving then
      match ip.filter isIpv4GlobalUnicast with
      | none =>
        some (done input false false { u.m with pc := .test .ignore } (now.add t.restartDelay))
      | some ip =>
        some (done input false false { u.m with
          pc := .wrlock .solicit
          serverIp := ip
          state := { u.m.state with addr := setServer u.m.state.addr ip } } now)
    else none
  | .clock now junk =>
    if u.Soliciting then
      (solicitDeadline t.qualificationDelay u.deadline now).map fun deadline =>
        done input false false { u.m with
          pc := .test .reply
          deadline := deadline.word
          nonce := teredoGetNonce key deadline.word u.m.serverIp ipportTeredo
          newst := { junk with mtu := 1280, up := true } } deadline
    else none
  | .packet p =>
    match u.m.pc with
    | .test .reply =>
      let accepted := decide ((maintenanceRecv p u.m.serverIp u.m.nonce false u.m.newst).1 = none)
      let delay : ℤ := if accepted then t.refreshDelay - t.qualificationDelay else 0
      some (done input accepted false (maintAnswer key u.m p) (u.deadline.add delay))
    -- in `wait_reply_ignore`
    | .test .ignore => some (done input false false u.m u.deadline)
    | _ => none
  | .timeout =>
    match u.m.pc with
    | .test .reply =>
      let delay : ℤ :=
        if u.m.count + 1 < t.qualificationRetries then 0 else t.restartDelay - t.qualificationDelay
      some (done input false true (maintTimeout t.qualificationRetries u.m) (u.deadline.add delay))
    | .test .ignore => some (done input false false { u.m with pc := .resolve } u.deadline)
    | _ => none

def Step (u : Upkeep) (e : Event) (u' : Upkeep) : Prop := next key t u e.input = some (u', e)

/-- The thread after its start. Some of its variables are not initialised. -/
def start (junk : TeredoState) (nonce : Bytes 8) : Upkeep where
  m :=
    { pc := .resolve
      serverIp := anyIpv4
      count := 0
      deadline := anyIpv4
      nonce := nonce
      newst := junk
      state := ⟨bytes (List.replicate 16 0), 0, anyIpv4, false⟩ }
  deadline := ⟨0, 0⟩

/-! ## What a step does -/

section Steps

variable {key} {t} {u u' : Upkeep} {e : Event} {es : List Event}

/-- All that a step can do to the thread, with the event. -/
inductive Moves (key : Keyed) (t : Timing) (m : Maint) : Event → Maint → Prop where
  | unresolved {ip : Option Ipv4} {now : Timespec} (hpc : m.pc = .resolve)
      (hserver : m.serverIp = anyIpv4) (hip : ip.filter isIpv4GlobalUnicast = none) :
      Moves key t m ⟨.resolved ip now, false, false, none⟩ { m with pc := .test .ignore }
  | resolved {ip : Option Ipv4} {ip' : Ipv4} {now : Timespec} (hpc : m.pc = .resolve)
      (hserver : m.serverIp = anyIpv4) (hip : ip.filter isIpv4GlobalUnicast = some ip') :
      Moves key t m
        ⟨.resolved ip now, false, false,
          some { m.state with addr := setServer m.state.addr ip' }⟩
        { m with
          pc := .solicit
          serverIp := ip'
          state := { m.state with addr := setServer m.state.addr ip' } }
  | solicited {now : List Timespec} {junk : TeredoState} (d : Bytes 4) (nonce : Bytes 8)
      (hpc : m.pc = .solicit ∨ m.pc = .resolve ∧ m.serverIp ≠ anyIpv4) :
      Moves key t m ⟨.clock now junk, false, false, none⟩
        { m with
          pc := .test .reply
          deadline := d
          nonce := nonce
          newst := { junk with mtu := 1280, up := true } }
  | rejected {p : TeredoPacket} {err : RecvError} {newst : TeredoState} (hpc : m.pc = .test .reply)
      (hrecv : maintenanceRecv p m.serverIp m.nonce false m.newst = (some err, newst)) :
      Moves key t m ⟨.packet p, false, false, none⟩ { m with pc := .test .reply, newst }
  | changed {p : TeredoPacket} {newst st : TeredoState} (hpc : m.pc = .test .reply)
      (hrecv : maintenanceRecv p m.serverIp m.nonce false m.newst = (none, newst))
      (hst : st = chooseFlags (teredoGetFlbits key m.deadline) m.state newst)
      (hchange : Changes m.state st) :
      Moves key t m ⟨.packet p, true, false, some st⟩
        { m with pc := .test .ignore, count := 0, newst := st, state := st }
  | confirmed {p : TeredoPacket} {newst st : TeredoState} (hpc : m.pc = .test .reply)
      (hrecv : maintenanceRecv p m.serverIp m.nonce false m.newst = (none, newst))
      (hst : st = chooseFlags (teredoGetFlbits key m.deadline) m.state newst)
      (hchange : ¬ Changes m.state st) :
      Moves key t m ⟨.packet p, true, false, none⟩
        { m with pc := .test .ignore, count := 0, newst := st }
  | ignored {p : TeredoPacket} (hpc : m.pc = .test .ignore) :
      Moves key t m ⟨.packet p, false, false, none⟩ m
  | unanswered (hpc : m.pc = .test .reply) (hcount : m.count + 1 < t.qualificationRetries) :
      Moves key t m ⟨.timeout, false, true, none⟩ { m with pc := .resolve, count := m.count + 1 }
  | lost (hpc : m.pc = .test .reply) (hcount : ¬ m.count + 1 < t.qualificationRetries)
      (hup : m.state.up = true) :
      Moves key t m ⟨.timeout, false, true, some { m.state with up := false }⟩
        { m with
          pc := .test .ignore
          serverIp := anyIpv4
          count := 0
          state := { m.state with up := false } }
  | gaveUp (hpc : m.pc = .test .reply) (hcount : ¬ m.count + 1 < t.qualificationRetries)
      (hup : m.state.up = false) :
      Moves key t m ⟨.timeout, false, true, none⟩ { m with pc := .test .ignore, count := 0 }
  | elapsed (hpc : m.pc = .test .ignore) :
      Moves key t m ⟨.timeout, false, false, none⟩ { m with pc := .resolve }

variable {p : TeredoPacket} {junk : TeredoState} {m m' : Maint} {nonce : Bytes 8}

theorem moves_of_packet (h : next key t u (.packet p) = some (u', e)) :
    Moves key t u.m e u'.m := by
  dsimp only [next] at h
  split at h
  next hpc =>
    cases h
    dsimp only [maintAnswer]
    split
    next err newst hrecv =>
      rw [hrecv]
      exact .rejected hpc hrecv
    next newst hrecv =>
      rw [hrecv]
      split_ifs with hchange
      · exact .changed hpc hrecv rfl hchange
      · exact .confirmed hpc hrecv rfl hchange
  next hpc =>
    cases h
    dsimp only [notified]
    rw [hpc]
    exact .ignored hpc
  next => cases h

theorem moves_of_timeout (h : next key t u .timeout = some (u', e)) : Moves key t u.m e u'.m := by
  dsimp only [next] at h
  split at h
  next hpc =>
    cases h
    dsimp only [maintTimeout]
    split_ifs with hcount hup
    · exact .unanswered hpc hcount
    · exact .lost hpc hcount hup
    · exact .gaveUp hpc hcount (Bool.eq_false_iff.mpr hup)
  next hpc =>
    cases h
    exact .elapsed hpc
  next => cases h

theorem moves_of_resolved {ip : Option Ipv4} {now : Timespec}
    (h : next key t u (.resolved ip now) = some (u', e)) : Moves key t u.m e u'.m := by
  dsimp only [next] at h
  split_ifs at h with hresolving
  split at h
  next hip =>
    cases h
    exact .unresolved hresolving.1 hresolving.2 hip
  next ip hip =>
    cases h
    exact .resolved hresolving.1 hresolving.2 hip

theorem moves_of_clock {now : List Timespec} (h : next key t u (.clock now junk) = some (u', e)) :
    Moves key t u.m e u'.m := by
  dsimp only [next] at h
  split_ifs at h with hsolicit
  obtain ⟨deadline, -, hd⟩ := map_eq_some_iff.mp h
  cases hd
  exact .solicited _ _ hsolicit

theorem Step.moves (h : Step key t u e u') : Moves key t u.m e u'.m := by
  unfold Step at h
  match hinput : e.input with
  | .resolved ip now => exact moves_of_resolved (hinput ▸ h)
  | .clock now junk => exact moves_of_clock (hinput ▸ h)
  | .packet p => exact moves_of_packet (hinput ▸ h)
  | .timeout => exact moves_of_timeout (hinput ▸ h)

/-! ## Whole runs -/

/-- The number of solicitations without an answer that was accepted, since the last one with. -/
def unanswered (es : List Event) : ℕ :=
  es.foldl (fun n e => if e.accepted then 0 else if e.unanswered then n + 1 else n) 0

theorem unanswered_append (es : List Event) (e : Event) : unanswered (es ++ [e]) =
    if e.accepted then 0 else if e.unanswered then unanswered es + 1 else unanswered es := by
  rw [unanswered, List.foldl_append]
  rfl

structure Inv (t : Timing) (es : List Event) (m : Maint) : Prop where
  down : m.serverIp = anyIpv4 → m.state.up = false
  server : m.pc = .solicit ∨ m.pc = .test .reply → m.serverIp ≠ anyIpv4
  newst : m.pc = .test .reply → m.newst.up = true
  count : m.state.up = true → m.count = unanswered es
  few : m.count < t.qualificationRetries

theorem Inv.of_pc (hsolicit : m.pc ≠ .solicit) (hreply : m.pc ≠ .test .reply)
    (hdown : m.serverIp = anyIpv4 → m.state.up = false)
    (hcount : m.state.up = true → m.count = unanswered es)
    (hfew : m.count < t.qualificationRetries) :
    Inv t es m :=
  ⟨hdown, fun h => h.elim (absurd · hsolicit) (absurd · hreply), fun h => absurd h hreply, hcount,
    hfew⟩

theorem up_of_maintenanceRecv {serverIp : Ipv4} {cone : Bool} {state newst : TeredoState}
    {r : Option RecvError} (h : maintenanceRecv p serverIp nonce cone state = (r, newst)) :
    newst.up = state.up := by
  have hup : (maintenanceRecv p serverIp nonce cone state).2.up = state.up := by
    unfold maintenanceRecv
    dsimp only
    split_ifs <;> rfl
  rwa [h] at hup

theorem global_ne_any {ip : Ipv4} (h : isIpv4GlobalUnicast ip = true) : ip ≠ anyIpv4 := by
  rintro rfl
  exact nomatch h

theorem Moves.inv (hm : Moves key t m e m') (h : Inv t es m) :
    Inv t (es ++ [e]) m' := by
  cases hm with
  | unresolved hpc hserver hip =>
    refine .of_pc (by simp) (by simp) h.down ?_ h.few
    rw [unanswered_append]
    exact h.count
  | resolved hpc hserver hip =>
    have hglobal := (filter_eq_some_iff.mp hip).2
    have hdown := h.down hserver
    refine ⟨fun _ => hdown, fun _ => global_ne_any hglobal, fun hpc => ?_, fun hup => ?_, h.few⟩
    · cases hpc
    · exact nomatch hup.symm.trans hdown
  | solicited d nonce hpc =>
    refine ⟨h.down, fun _ => ?_, fun _ => rfl, ?_, h.few⟩
    · obtain hpc | ⟨-, hserver⟩ := hpc
      · exact h.server (.inl hpc)
      · exact hserver
    · rw [unanswered_append]
      exact h.count
  | rejected hpc hrecv =>
    refine ⟨h.down, fun _ => h.server (.inr hpc), fun _ => ?_, ?_, h.few⟩
    · exact (up_of_maintenanceRecv hrecv).trans (h.newst hpc)
    · rw [unanswered_append]
      exact h.count
  | changed hpc hrecv hst hchange =>
    refine .of_pc (by simp) (by simp) (fun hserver => ?_) (fun _ => ?_) t.retries_pos
    · exact absurd hserver (h.server (.inr hpc))
    · rw [unanswered_append]
      rfl
  | confirmed hpc hrecv hst hchange =>
    refine .of_pc (by simp) (by simp) h.down (fun _ => ?_) t.retries_pos
    rw [unanswered_append]
    rfl
  | ignored hpc =>
    refine .of_pc (by simp [hpc]) (by simp [hpc]) h.down ?_ h.few
    rw [unanswered_append]
    exact h.count
  | unanswered hpc hcount =>
    refine .of_pc (by simp) (by simp) h.down (fun hup => ?_) hcount
    rw [unanswered_append]
    exact congrArg (· + 1) (h.count hup)
  | lost hpc hcount hup =>
    exact .of_pc (by simp) (by simp) (fun _ => rfl) nofun t.retries_pos
  | gaveUp hpc hcount hup =>
    refine .of_pc (by simp) (by simp) h.down (fun hup' => ?_) t.retries_pos
    exact nomatch hup'.symm.trans hup
  | elapsed hpc =>
    refine .of_pc (by simp) (by simp) h.down ?_ h.few
    rw [unanswered_append]
    exact h.count

theorem run_inv (hrun : Run (Step key t) (start junk nonce) es u) : Inv t es u.m := by
  refine hrun.induct ?_ fun es u e u' _ h hstep => hstep.moves.inv h
  exact .of_pc (by simp [start]) (by simp [start]) (fun _ => rfl) (fun _ => rfl) t.retries_pos

/-! ## The callback -/

/-- When the thread is to call the state callback, and with what. -/
inductive Notifies (key : Keyed) (t : Timing) (es : List Event) (m : Maint) :
    Input → TeredoState → Prop where
  /-- The address of the server is found. -/
  | resolved {ip : Ipv4} (now : Timespec) (hpc : m.pc = .resolve) (hserver : m.serverIp = anyIpv4)
      (hip : isIpv4GlobalUnicast ip = true) :
      Notifies key t es m (.resolved (some ip) now)
        { m.state with addr := setServer m.state.addr ip, up := false }
  /-- An answer is accepted, and the client was down or its address or MTU changes. -/
  | accepted {p : TeredoPacket} {newst st : TeredoState} (hpc : m.pc = .test .reply)
      (hrecv : maintenanceRecv p m.serverIp m.nonce false m.newst = (none, newst))
      (hst : st = { chooseFlags (teredoGetFlbits key m.deadline) m.state newst with up := true })
      (hchange : m.state.up = false ∨ m.state.addr ≠ st.addr ∨ m.state.mtu ≠ st.mtu) :
      Notifies key t es m (.packet p) st
  /-- The client is up, and no answer to the last solicitations was accepted. -/
  | lost (hpc : m.pc = .test .reply) (hup : m.state.up = true)
      (hcount : unanswered es + 1 = t.qualificationRetries) :
      Notifies key t es m .timeout { m.state with up := false }

theorem Notifies.up_iff {input : Input} {st : TeredoState} (h : Notifies key t es m input st) :
    st.up = true ↔ ∃ p, input = .packet p := by
  cases h with
  | resolved => simp
  | accepted _ _ hst => simp [hst]
  | lost => simp

theorem Moves.callback_iff (hm : Moves key t m e m') (h : Inv t es m) (st : TeredoState) :
    e.callback = some st ↔ Notifies key t es m e.input st := by
  cases hm with
  | unresolved hpc hserver hip =>
    refine iff_of_false (by simp) fun hn => ?_
    cases hn with
    | resolved now _ _ hglobal => simp [hglobal] at hip
  | @resolved _ _ now hpc hserver hip =>
    obtain ⟨rfl, hglobal⟩ := filter_eq_some_iff.mp hip
    have hdown := h.down hserver
    constructor
    · intro hst
      have hn : Notifies key t es m _ _ := .resolved now hpc hserver hglobal
      rw [show st = _ from (some.inj hst).symm]
      simpa [hdown] using hn
    · intro hn
      cases hn with
      | resolved => simp [hdown]
  | solicited d nonce hpc =>
    refine iff_of_false (by simp) fun hn => ?_
    cases hn
  | rejected hpc hrecv =>
    refine iff_of_false (by simp) fun hn => ?_
    cases hn with
    | accepted _ hrecv' => simp [hrecv] at hrecv'
  | @changed p newst st' hpc hrecv hst hchange =>
    have hup : st'.up = true := by
      rw [hst]
      exact (up_of_maintenanceRecv hrecv).trans (h.newst hpc)
    have hst' : st' =
        { chooseFlags (teredoGetFlbits key m.deadline) m.state newst with up := true } := by
      rw [← hst, ← hup]
    constructor
    · intro heq
      cases heq
      exact .accepted hpc hrecv hst' hchange
    · intro hn
      cases hn with
      | accepted _ hrecv' hst'' =>
        obtain ⟨-, rfl⟩ := Prod.mk.inj (hrecv.symm.trans hrecv')
        rw [hst'', hst']
  | @confirmed p newst st' hpc hrecv hst hchange =>
    refine iff_of_false (by simp) fun hn => ?_
    cases hn with
    | accepted _ hrecv' hst' hchange' =>
      obtain ⟨-, rfl⟩ := Prod.mk.inj (hrecv.symm.trans hrecv')
      rw [hst'] at hchange'
      rw [hst] at hchange
      exact hchange hchange'
  | ignored hpc =>
    refine iff_of_false (by simp) fun hn => ?_
    cases hn with
    | accepted hpc' => simp [hpc] at hpc'
  | unanswered hpc hcount =>
    refine iff_of_false (by simp) fun hn => ?_
    cases hn with
    | lost _ hup hcount' =>
      have := h.count hup
      omega
  | lost hpc hcount hup =>
    have hlast : Upkeep.unanswered es + 1 = t.qualificationRetries := by
      have := h.count hup
      have := h.few
      omega
    constructor
    · intro hst
      cases hst
      exact .lost hpc hup hlast
    · intro hn
      cases hn
      rfl
  | gaveUp hpc hcount hup =>
    refine iff_of_false (by simp) fun hn => ?_
    cases hn with
    | lost _ hup' => simp [hup] at hup'
  | elapsed hpc =>
    refine iff_of_false (by simp) fun hn => ?_
    cases hn with
    | lost hpc' => simp [hpc] at hpc'

theorem Moves.flags (hm : Moves key t m e m')
    (hflags : in6TeredoFlags m'.state.addr ≠ in6TeredoFlags m.state.addr) :
    in6TeredoPrefix m'.state.addr ≠ in6TeredoPrefix m.state.addr ∨
      in6TeredoServer m'.state.addr ≠ in6TeredoServer m.state.addr ∨
      in6TeredoPort m'.state.addr ≠ in6TeredoPort m.state.addr ∨
      in6TeredoIpv4 m'.state.addr ≠ in6TeredoIpv4 m.state.addr := by
  by_contra hsame
  push Not at hsame
  obtain ⟨hpfx, hserver, hport, hip⟩ := hsame
  refine hflags ?_
  cases hm with
  | resolved => exact in6TeredoFlags_setServer
  | @changed p newst st hpc hrecv hst hchange =>
    obtain rfl := hst
    dsimp only [chooseFlags] at hpfx hserver hport hip ⊢
    split_ifs at hpfx hserver hport hip ⊢ with haddr
    · -- the address would be the same, with the old flags
      refine absurd ?_ haddr
      simp only [in6TeredoPrefix_setFlags, in6TeredoServer_setFlags, in6TeredoPort_setFlags,
        in6TeredoIpv4_setFlags] at hpfx hserver hport hip
      apply in6Addr_ext
      · rw [in6TeredoPrefix_setFlags, hpfx]
      · rw [in6TeredoServer_setFlags, hserver]
      · rw [in6TeredoFlags_setFlags]
      · rw [in6TeredoPort_setFlags, hport]
      · rw [in6TeredoIpv4_setFlags, hip]
    · exact in6TeredoFlags_setFlags
  | _ => rfl

end Steps

/-- The client is down while the server address is being resolved. The callback is called exactly
when it should be, with an up state for an answer and with a down state otherwise. The flags of the
address change only with another part of it. -/
theorem maintenance_run (key : Keyed) (t : Timing) (junk : TeredoState) (nonce : Bytes 8)
    (es : List Event) (u : Upkeep) (hrun : Run (Step key t) (start junk nonce) es u) :
    (u.Resolving → u.m.state.up = false) ∧
    ∀ e u', Step key t u e u' →
      (∀ st, e.callback = some st ↔ Notifies key t es u.m e.input st) ∧
      (∀ st, e.callback = some st → (st.up = true ↔ ∃ p, e.input = .packet p)) ∧
      (in6TeredoFlags u'.m.state.addr ≠ in6TeredoFlags u.m.state.addr →
        in6TeredoPrefix u'.m.state.addr ≠ in6TeredoPrefix u.m.state.addr ∨
        in6TeredoServer u'.m.state.addr ≠ in6TeredoServer u.m.state.addr ∨
        in6TeredoPort u'.m.state.addr ≠ in6TeredoPort u.m.state.addr ∨
        in6TeredoIpv4 u'.m.state.addr ≠ in6TeredoIpv4 u.m.state.addr) := by
  have hinv := run_inv hrun
  refine ⟨fun hresolving => hinv.down hresolving.2, fun e u' hstep => ?_⟩
  have hcallback := hstep.moves.callback_iff hinv
  exact ⟨hcallback, fun st hst => ((hcallback st).mp hst).up_iff, hstep.moves.flags⟩

def zeroHash : Keyed := ⟨anyPort, fun _ _ _ => bytes (List.replicate 16 0)⟩

def started : Upkeep := start ⟨teredoRestrict, 0, anyIpv4, false⟩ (bytes [0, 0, 0, 0, 0, 0, 0, 0])

theorem maintenance_run_unanswered : ∃ es u, Run (Step zeroHash (.ofArgs 0 0 0 0)) started es u ∧
    unanswered es = 1 ∧
    ∀ e u', Step zeroHash (.ofArgs 0 0 0 0) u e u' → ∀ st, e.callback ≠ some st := by
  have hresolved : Run (Step zeroHash (.ofArgs 0 0 0 0)) started
      ([] ++ [⟨.resolved (some (bytes [65, 54, 227, 120])) ⟨10, 0⟩, _, _, _⟩]) _ := .next .start rfl
  have hsolicited : Run (Step zeroHash (.ofArgs 0 0 0 0)) started
      (_ ++ [⟨.clock [⟨11, 0⟩] ⟨teredoRestrict, 0, anyIpv4, false⟩, _, _, _⟩]) _ :=
    .next hresolved rfl
  have hrun : Run (Step zeroHash (.ofArgs 0 0 0 0)) started (_ ++ [⟨.timeout, _, _, _⟩]) _ :=
    .next hsolicited rfl
  refine ⟨_, _, hrun, rfl, fun e u' hstep st hst => ?_⟩
  have hn := (((maintenance_run _ _ _ _ _ _ hrun).2 e u' hstep).1 st).mp hst
  generalize e.input = input at hn
  cases hn with
  | resolved _ _ hserver => exact nomatch hserver
  | accepted hpc | lost hpc => cases hpc

end Upkeep

end Maiccu.Teredo
