import Maiccu.Teredo.PeerListRuns
import Maiccu.Teredo.RelayLocks
import Maiccu.Teredo.RelayTrust

/-!
# Runs of a Teredo client

Runs of a client without local discovery, whatever packets arrive: what is delivered, directly or
from the queue of a record, comes from where its sender is known to be.
-/

namespace Maiccu.Teredo

open Maiccu.Lib PeerProg List

section Runs

variable {key : Keyed} {A : Type} {h : List RelayEv} {r : Relay A}

/-- The invariant of the records in the state `s`. While the client is down the records are not
used, and they are dropped before it is up again. -/
def Keeps (key : Keyed) (s : TeredoState) (h : List RelayEv) (k : In6Addr) (p : Peer) : Prop :=
  s.up = true → Trust key (in6TeredoPrefix s.addr) h k p

variable {s : TeredoState}

theorem keeps_eq_trust (hup : s.up = true) : Keeps key s = Trust key (in6TeredoPrefix s.addr) := by
  funext h k p
  exact propext ⟨fun hk => hk hup, fun ht _ => ht⟩

theorem Keeps.append {evs : List RelayEv} {k : In6Addr} {p : Peer}
    (hk : Keeps key s h k p) (hevs : .created k ∉ evs) : Keeps key s (h ++ evs) k p :=
  fun hup => (hk hup).append hevs

theorem stable_keeps (s : TeredoState) : Stable (Keeps key s) where
  created j hk hne := hk.append (by simpa using hne)
  called x ok hk := hk.append (by simp)

structure ClientOk (key : Keyed) (h : List RelayEv) (r : Relay A) : Prop where
  client : r.tunnel.client = true
  noDiscovery : r.tunnel.discNetmask = none
  list : Holds (Keeps key r.tunnel.state) h r.list none .none

/-- What one step does: it can be made, it keeps the invariant, and its calls are allowed. -/
def StepOk (key : Keyed) (h : List RelayEv) (r : Relay A) (i : Input)
    (x : Option (List RelayEv × Relay A)) : Prop :=
  ∃ evs r', x = some (evs, r') ∧ ClientOk key (h ++ .input i :: evs) r' ∧
    CallsOk (Allowed key (in6TeredoPrefix r.tunnel.state.addr)) (h ++ [.input i]) evs

theorem ClientOk.input (hr : ClientOk key h r) (i : Input) :
    Holds (Keeps key r.tunnel.state) (h ++ [.input i]) r.list none .none :=
  hr.list.imp fun _ _ hk => hk.append (by simp)

variable [DecidableEq A]

theorem ClientOk.runProg {α : Type} (hr : ClientOk key h r) (i : Input) (x : RelayProg α)
    (hx : x.wp Peer.init (Keeps key r.tunnel.state)
      (Allowed key (in6TeredoPrefix r.tunnel.state.addr))
      (fun _ c h => c.Closed (Keeps key r.tunnel.state) h) .none (h ++ [.input i]))
    (e : Env In6Addr Peer A) : StepOk key h r i (runProg r x e) := by
  obtain ⟨a, evs, l', ptr', c', hrun, hclosed, hlist, hcalls⟩ :=
    run_of_wp Peer.init (stable_keeps _) x hx e (hr.input i)
  refine ⟨evs, { r with list := l' }, ?_, ⟨hr.client, hr.noDiscovery, ?_⟩, hcalls⟩
  · unfold Teredo.runProg
    rw [hrun, Option.map_some]
  · rw [append_cons]
    exact hlist.close hclosed

theorem ClientOk.runOp (hr : ClientOk key h r) (i : Input) {op : PeerOp In6Addr Peer A}
    (hop : ∃ l', Teredo.step Peer.init r.list op = some (.null, l') ∧
      Holds (Keeps key r.tunnel.state) (h ++ [.input i]) l' none .none) :
    StepOk key h r i (runOp r op) := by
  obtain ⟨l', hstep, hl⟩ := hop
  refine ⟨[], { r with list := l' }, ?_, ⟨hr.client, hr.noDiscovery, hl⟩, callsOk_nil⟩
  unfold Teredo.runOp
  rw [hstep, Option.map_some]

omit [DecidableEq A] in
theorem ClientOk.stateChange (hr : ClientOk key h r) (s : TeredoState)
    (ifaces : Option (List Iface)) :
    StepOk key h r (.state s ifaces) (some (teredoStateChange r s ifaces)) := by
  unfold teredoStateChange
  by_cases hup : s.up = true
  · rw [if_pos hup]
    refine ⟨_, _, rfl, ⟨hr.client, hr.noDiscovery, hr.list.reset _⟩, ?_⟩
    exact CallsOk.cons (fun x ok hx => by cases hx; trivial) callsOk_nil
  · rw [if_neg hup]
    refine ⟨_, _, rfl, ⟨hr.client, hr.noDiscovery, hr.list.imp ?_⟩, ?_⟩
    · exact fun _ _ _ hup' => absurd hup' hup
    · split_ifs
      · exact CallsOk.cons (fun x ok hx => by cases hx; trivial) callsOk_nil
      · exact callsOk_nil

theorem ClientOk.step (hr : ClientOk key h r) (e : Env In6Addr Peer A) (i : Input) :
    StepOk key h r i (relayStep key r e i) := by
  have hheld := hr.list.1
  cases i with
  | packet now time p =>
    apply hr.runProg
    by_cases hup : r.tunnel.state.up = true
    · rw [keeps_eq_trust hup]
      exact safe_teredoRunInner hr.client hr.noDiscovery rfl
    · exact wp_teredoRunInner_down hr.client (eq_false_of_ne_true hup)
  | transmit now p =>
    apply hr.runProg
    by_cases hup : r.tunnel.state.up = true
    · rw [keeps_eq_trust hup]
      exact safe_teredoTransmit
    · exact wp_teredoTransmit_down hr.client (eq_false_of_ne_true hup)
  | gc =>
    have hrun : relayStep key r e .gc = Teredo.runOp r .gc := if_pos hheld
    rw [hrun]
    exact hr.runOp _ ((hr.input _).gc Peer.init)
  | free i => exact hr.runOp _ ((hr.input _).free Peer.init i)
  | state s ifaces =>
    have hrun : relayStep key r e (.state s ifaces) = some (teredoStateChange r s ifaces) :=
      if_pos hheld
    rw [hrun]
    exact hr.stateChange s ifaces

omit [DecidableEq A] in
theorem history_append (es : List (RelayEvent A)) (e : RelayEvent A) :
    history (es ++ [e]) = history es ++ .input e.input :: e.effects := by
  unfold history
  rw [flatMap_append, flatMap_singleton]

variable {mem : Mem Generation A (Item In6Addr Peer)} {s₀ : TeredoState} {es : List (RelayEvent A)}

theorem clientOk_of_run (hrun : Run (RelayStep key) (Relay.newClient mem s₀) es r) :
    ClientOk key (history es) r := by
  refine hrun.induct ⟨rfl, rfl, rfl, _, _, _, _, rep_new, ?_⟩ ?_
  · exact nofun
  · intro es r e r' _ hr hstep
    obtain ⟨evs, r'', hstep', hr', -⟩ := hr.step e.env e.input
    rw [hstep] at hstep'
    cases hstep'
    rw [history_append]
    exact hr'

/-- **Whom a client believes.** Without local discovery each next input is processed, and a packet
that is then delivered, directly or from a queue, was received from the address and port it is said
to come from, and there its sender is known to be. -/
theorem delivered_vetted (hrun : Run (RelayStep key) (Relay.newClient mem s₀) es r) :
    (∀ env input, ∃ effects r', RelayStep key r ⟨input, env, effects⟩ r') ∧
      ∀ e r', RelayStep key r e r' → ∀ pre data ip port ok post,
        e.effects = pre ++ .called (.recvCb data ip port) ok :: post →
          Arrived (history es ++ .input e.input :: pre) data ip port ∧
            Vetted key (in6TeredoPrefix r.tunnel.state.addr) (history es ++ .input e.input :: pre)
              (ip6Src data) ip port := by
  have hr := clientOk_of_run hrun
  constructor
  · intro env input
    obtain ⟨effects, r', hstep, -⟩ := hr.step env input
    exact ⟨effects, r', hstep⟩
  · intro e r' hstep pre data ip port ok post hpost
    obtain ⟨evs, r'', hstep', -, hcalls⟩ := hr.step e.env e.input
    rw [hstep] at hstep'
    cases hstep'
    have hallowed := hcalls pre _ ok post hpost
    rw [← append_cons] at hallowed
    exact ⟨hallowed.2, hallowed.1⟩

end Runs

/-! ## A delivery -/

def clientState : TeredoState := ⟨clientAddr, 1280, anyIpv4, true⟩

def clientPacket : TeredoPacket :=
  .plain ([0x60, 0, 0, 0, 0, 1, 17, 64] ++ clientAddr.toList ++ clientAddr.toList ++ [7])
    (bytes [192, 0, 2, 45]) (bytes (be 2 40000))

def constKey : Keyed := ⟨bytes [1, 2], fun _ _ _ => bytes (replicate 16 1)⟩

/-- What `malloc` leaves in a record: all flags set. -/
def junkItem : Item In6Addr Peer :=
  ⟨clientAddr, ⟨[], 0, 0, 0, 0, anyIpv4, anyPort, true, true, 7, 7⟩⟩

def clientMem : Mem Generation ℕ (Item In6Addr Peer) :=
  ⟨fun _ => none, fun _ => false, fun _ => none, fun _ => .head .recent, fun _ => junkItem⟩

def upEvent : RelayEvent ℕ :=
  ⟨.state clientState none, ⟨[], []⟩, [.called (.upCb clientAddr 1280) true]⟩

def packetEvent : RelayEvent ℕ where
  input := .packet 5 0 clientPacket
  env := ⟨[(false, none), (false, some (3, junkItem))], []⟩
  effects := [.created clientAddr,
    .called (.recvCb clientPacket.ip6 clientPacket.sourceIpv4 clientPacket.sourcePort) true]

def clientUp : Relay ℕ :=
  (teredoStateChange (Relay.newClient clientMem clientState) clientState none).2

theorem delivered_vetted_one :
    Run (RelayStep constKey) (Relay.newClient clientMem clientState) [upEvent] clientUp ∧
      (∃ r, RelayStep constKey clientUp packetEvent r) ∧
      Vetted constKey (in6TeredoPrefix clientAddr)
        (history [upEvent] ++ [.input packetEvent.input, .created clientAddr]) clientAddr
        clientPacket.sourceIpv4 clientPacket.sourcePort := by
  have hup : RelayStep constKey (Relay.newClient clientMem clientState) upEvent clientUp := rfl
  have hrun := Run.start.next hup
  have hpacket : RelayStep constKey clientUp packetEvent _ := rfl
  exact ⟨hrun, ⟨_, hpacket⟩,
    ((delivered_vetted hrun).2 _ _ hpacket [.created clientAddr] _ _ _ _ [] rfl).2⟩

end Maiccu.Teredo
