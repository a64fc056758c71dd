import Maiccu.Teredo.Peer
import Maiccu.Teredo.PeerProg

/-!
# The Teredo relay

`teredo_transmit`, `teredo_run_inner` and `teredo_state_change` of `relay.c`, each run as one step.
The first two are programs on the peer list; what they read under the state lock is the `Tunnel`
they start from. The relay is built with the client code and without `LIBTEREDO_ALLOW_CONE`, as in
this repository.
-/

namespace Maiccu.Teredo

open Maiccu.Lib PeerProg

/-- An interface of a `teredo_discovery`, with its network mask. -/
structure Iface where
  addr : Ipv4
  mask : Ipv4

/-- The fields of a `teredo_tunnel` that the state lock protects, and its settings. -/
structure Tunnel where
  /-- `maintenance` is not null: a client and not a mere relay. -/
  client : Bool
  /-- The network mask in `disc_params`, if local discovery is enabled. -/
  discNetmask : Option Ipv4
  discovery : Option (List Iface)
  state : TeredoState

inductive RelayCall where
  /-- It gets the packet only; `ip` and `port` are where the packet came from. -/
  | recvCb (data : List UInt8) (ip : Ipv4) (port : Port)
  /-- `teredo_send`. -/
  | send (data : List UInt8) (ip : Ipv4) (port : Port)
  /-- `teredo_send_bubble_anyway`. -/
  | sendBubble (ip : Ipv4) (port : Port) (src dst : In6Addr)
  /-- `SendBubbleFromDst`. -/
  | bubbleFromDst (dst : In6Addr) (indirect : Bool)
  | sendPing (src dst : In6Addr)
  /-- `SendDiscoveryBubble`. -/
  | discoveryBubble
  /-- `teredo_discovery_release`, of a discovery or of the null pointer. -/
  | discoveryRelease (null : Bool)
  /-- `teredo_send_unreach`. -/
  | sendUnreach (code : UInt8) (packet : List UInt8)
  /-- `teredo_maintenance_process`, for a packet it takes. -/
  | maintenance (packet : TeredoPacket)
  | upCb (addr : In6Addr) (mtu : ℕ)
  | downCb

abbrev RelayProg := PeerProg In6Addr Peer RelayCall

def icmp6DstUnreachAddr : UInt8 := 3

def icmp6DstUnreachAdmin : UInt8 := 1

/-- `MAX_PEERS`, without the Judy library. -/
def maxPeers : ℕ := 1024

/-- `teredo_send_unreach`, after which the caller returns. -/
def unreachable (code : UInt8) (packet : List UInt8) : RelayProg ℤ := do
  let _ ← invoke (.sendUnreach code packet)
  pure 0

/-! ## Sending -/

section Transmit

variable (tun : Tunnel) (now : UInt64) (packet : List UInt8)

def teredoEncap : RelayProg ℤ := do
  let p ← getPeer
  modifyPeer (·.touchTransmit now)
  teredoListRelease
  let ok ← invoke (.send packet p.mappedAddr p.mappedPort)
  pure (if ok then 0 else -1)

variable (created : Bool)

/-- Client case 2 of `teredo_transmit`: direct IPv6 connectivity test. -/
def transmitPing : RelayProg ℤ := do
  modifyPeer fun p => if created then p.setMapping anyIpv4 anyPort else p
  modifyPeer (·.enqueueOut packet)
  let res ← withPeer (·.countPing now)
  teredoListRelease
  match res with
  | .send => do
    let ok ← invoke (.sendPing tun.state.addr (ip6Dst packet))
    if ok then pure 0 else unreachable icmp6DstUnreachAddr packet
  | .later => pure 0
  | .tooMany => unreachable icmp6DstUnreachAddr packet

/-- Client case 3 of `teredo_transmit`: untrusted local peer. -/
def transmitLocal : RelayProg ℤ := do
  modifyPeer (·.enqueueOut packet)
  let res ← withPeer (·.countBubble now)
  let p ← getPeer
  teredoListRelease
  match res with
  | .send => do
    let _ ← invoke (.sendBubble p.mappedAddr p.mappedPort tun.state.addr (ip6Dst packet))
    if tun.discovery.isSome then do
      let _ ← invoke .discoveryBubble
      let _ ← invoke (.discoveryRelease false)
      pure 0
    else do
      let _ ← invoke (.discoveryRelease true)
      pure 0
  | .later => pure 0
  | .tooMany => unreachable icmp6DstUnreachAddr packet

/-- Client case 5 and relay case 3 of `teredo_transmit`: untrusted non-cone peer. -/
def transmitBubble : RelayProg ℤ := do
  let dst := ip6Dst packet
  modifyPeer fun p => if created then p.setMapping (in6TeredoIpv4 dst) (in6TeredoPort dst) else p
  modifyPeer (·.enqueueOut packet)
  let res ← withPeer (·.countBubble now)
  teredoListRelease
  match res with
  | .send => do
    -- opens the return path, if we are behind a restricted NAT
    let direct ← if isCone tun.state.addr then pure true else invoke (.bubbleFromDst dst false)
    if ¬ direct then pure (-1) else do
    let ok ← invoke (.bubbleFromDst dst true)
    pure (if ok then 0 else -1)
  | .later => pure 0
  | .tooMany => unreachable icmp6DstUnreachAddr packet

/-- `teredo_transmit` for a peer that is unknown, untrusted or too old. -/
def transmitConnect : RelayProg ℤ :=
  if in6TeredoPrefix (ip6Dst packet) ≠ in6TeredoPrefix tun.state.addr then
    transmitPing tun now packet created
  else do
    let p ← getPeer
    if p.isLocal && p.isValid now then transmitLocal tun now packet
    else transmitBubble tun now packet created

def teredoTransmit : RelayProg ℤ :=
  let s := tun.state
  let dst := ip6Dst packet
  if isMulticast dst then pure 0 else
  -- client not qualified
  if tun.client ∧ ¬ s.up then unreachable icmp6DstUnreachAddr packet else
  -- non-Teredo destination
  if in6TeredoPrefix dst ≠ in6TeredoPrefix s.addr ∧ tun.client ∧
      in6TeredoPrefix (ip6Src packet) ≠ in6TeredoPrefix s.addr then
    unreachable icmp6DstUnreachAdmin packet else
  if in6TeredoPrefix dst ≠ in6TeredoPrefix s.addr ∧ ¬ tun.client then
    unreachable icmp6DstUnreachAddr packet else
  -- Teredo destination
  if in6TeredoPrefix dst = in6TeredoPrefix s.addr ∧
      (¬ isIpv4GlobalUnicast (in6TeredoServer dst) ∨ in6TeredoServer dst = anyIpv4) then
    pure 0 else do
  let r ← teredoListLookup dst true
  match r with
  | .null => pure (-1)
  | .found => do
    let p ← getPeer
    -- case 1: trusted peer
    if p.trusted && p.isValid now then teredoEncap now packet
    else transmitConnect tun now packet false
  | .created => do
    modifyPeer fun p => { p with trusted := false, isLocal := false, bubbles := 0, pings := 0 }
    transmitConnect tun now packet true

end Transmit

/-! ## Receiving -/

/-- The list of interfaces ends at an address that is zero. -/
def isIpv4Discovered : List Iface → Ipv4 → Bool
  | [], _ => false
  | d :: ds, ip =>
    if d.addr = anyIpv4 then false else
    decide (((ntohl ip ^^^ ntohl d.addr) &&& ntohl d.mask) = 0) || isIpv4Discovered ds ip

/-- The address of the client is stored with all bits flipped. -/
def teredoIslocal (tun : Tunnel) (packet : TeredoPacket) : Bool :=
  match tun.discNetmask, tun.discovery with
  | some netmask, some ifaces =>
    let src := ip6Src packet.ip6
    decide (in6TeredoPrefix src = in6TeredoPrefix tun.state.addr) &&
      decide (((ntohl (in6TeredoIpv4 src) ^^^ ntohl (in6TeredoIpv4 tun.state.addr)) &&&
        ntohl netmask) = 0) &&
      isIpv4Discovered ifaces packet.sourceIpv4
  | _, _ => false

/-- One turn of the loop of `teredo_queue_emit`. -/
def emitOne (q : Queued) (ip : Ipv4) (port : Port) : RelayProg Unit := do
  if q.incoming then
    if ip = q.ipv4 ∧ port = q.port then
      let _ ← invoke (.recvCb q.data q.ipv4 q.port)
  else
    let _ ← invoke (.send q.data ip port)

def teredoQueueEmit : List Queued → Ipv4 → Port → RelayProg Unit
  | [], _, _ => pure ()
  | q :: qs, ip, port => do
    emitOne q ip port
    teredoQueueEmit qs ip port

/-- The mapping is read after the lock was given back. -/
def teredoPredecap (now : UInt64) : RelayProg Unit := do
  modifyPeer fun p => { p.touchReceive now with bubbles := 0, pings := 0 }
  let q ← withPeer (·.queueYield)
  teredoListRelease
  if q = [] then pure () else do
  let p ← getPeer
  teredoQueueEmit q p.mappedAddr p.mappedPort

section RunInner

variable (key : Keyed) (tun : Tunnel) (now : UInt64) (time : UInt32) (packet : TeredoPacket)

def teredoReplyBubble (ip : Ipv4) (port : Port) (ip6 : List UInt8) : RelayProg Unit := do
  if isIpv4GlobalUnicast ip then
    let _ ← invoke (.sendBubble ip port (ip6Dst ip6) (ip6Src ip6))

/-- Where a packet from the server came from. Some servers do not insert an origin indication; for
a bubble from a Teredo address the mapping can be guessed. -/
def serverOrigin : Ipv4 × Port :=
  let src := ip6Src packet.ip6
  if packet.origIpv4 = anyIpv4 ∧ isBubble packet.ip6 ∧
      in6TeredoPrefix src = in6TeredoPrefix tun.state.addr then
    (in6TeredoIpv4 src, in6TeredoPort src)
  else (packet.origIpv4, packet.origPort)

/-- The part of `teredo_run_inner` for packets from the server: whether the packet is a bubble that
goes no further. -/
def fromServer : RelayProg Bool :=
  if packet.sourceIpv4 = in6TeredoServer tun.state.addr ∧ packet.sourcePort = ipportTeredo then
    let origin := serverOrigin tun packet
    if origin.1 = anyIpv4 then pure false else do
    teredoReplyBubble origin.1 origin.2 packet.ip6
    pure (isBubble packet.ip6)
  else pure false

/-- Client case 4 of `teredo_run_inner`: the record for a local discovery bubble. The bubble is
counted after the lock was given back. -/
def receiveDiscovered : RelayProg Unit := do
  modifyPeer fun p =>
    { (if p.isLocal then p else { p with bubbles := 0 }).setMapping packet.sourceIpv4
        packet.sourcePort with isLocal := true }
  modifyPeer (·.touchReceive now)
  teredoListRelease
  let res ← withPeer (·.countBubble now)
  if res = .send then
    let _ ← invoke
      (.sendBubble packet.sourceIpv4 packet.sourcePort tun.state.addr (ip6Src packet.ip6))

/-- Client case 4 of `teredo_run_inner`: local discovery bubble. -/
def receiveDiscovery (r : Lookup) : RelayProg Unit :=
  match r with
  | .null => do
    let r ← teredoListLookup (ip6Src packet.ip6) true
    match r with
    | .null => pure ()
    | _ => do
      modifyPeer fun p => { p with trusted := false, isLocal := false }
      receiveDiscovered tun now packet
  | _ => receiveDiscovered tun now packet

/-- The last part of client cases 3 and 5: the peer is trusted from now on. -/
def receiveTrusted : RelayProg Unit := do
  modifyPeer fun p => { p.setMapping packet.sourceIpv4 packet.sourcePort with trusted := true }
  teredoPredecap now
  if isBubble packet.ip6 then pure () else do
  let _ ← invoke (.recvCb (trimmed packet.ip6) packet.sourceIpv4 packet.sourcePort)

variable (p : Option Peer)

/-- Client cases 3 and 5 of `teredo_run_inner`: a Teredo peer whose packet is accepted. -/
def receiveTeredo : RelayProg Unit :=
  match p with
  | some _ => receiveTrusted now packet
  | none =>
    if tun.client then do
      let r ← teredoListLookup (ip6Src packet.ip6) true
      match r with
      | .null => pure ()
      | _ => do
        modifyPeer fun p => { p with isLocal := teredoIslocal tun packet }
        receiveTrusted now packet
    else pure ()

/-- The last part of client case 6: the packet waits for the reply to a ping. -/
def receivePing : RelayProg Unit := do
  modifyPeer (·.enqueueIn (trimmed packet.ip6) packet.sourceIpv4 packet.sourcePort)
  modifyPeer (·.touchReceive now)
  let res ← withPeer (·.countPing now)
  teredoListRelease
  if res = .send then
    let _ ← invoke (.sendPing tun.state.addr (ip6Src packet.ip6))

/-- Client case 6 of `teredo_run_inner`: a peer that is no Teredo client. -/
def receiveOther : RelayProg Unit :=
  match p with
  | some _ => receivePing tun now packet
  | none => do
    let r ← teredoListLookup (ip6Src packet.ip6) true
    match r with
    | .null => pure ()
    | .found => receivePing tun now packet
    | .created => do
      modifyPeer fun p => { p.setMapping anyIpv4 anyPort with
        trusted := false, isLocal := false, bubbles := 0, pings := 0 }
      receivePing tun now packet

def fromMapping (p : Peer) : Bool :=
  decide (packet.sourceIpv4 = p.mappedAddr) && decide (packet.sourcePort = p.mappedPort)

/-- The test of client cases 3 and 5, with the two extensions. -/
def acceptsTeredo : Bool :=
  decide (in6MatchesTeredoClient (ip6Src packet.ip6) packet.sourceIpv4 packet.sourcePort) ||
    (p.any fun p => p.isLocal && fromMapping packet p) ||
    (p.isNone && teredoIslocal tun packet) ||
    (isBubble packet.ip6 && checkBubble key packet)

/-- `teredo_run_inner` from where the packet has a mapping mismatch, an unlisted peer or an
untrusted one. -/
def receiveUntrusted : RelayProg Unit :=
  if in6TeredoPrefix (ip6Src packet.ip6) = in6TeredoPrefix tun.state.addr then
    if acceptsTeredo key tun packet p then receiveTeredo tun now packet p
    else if p.isSome then teredoListRelease
    else pure ()
  else receiveOther tun now packet p

/-- `teredo_run_inner` for a peer in the list. -/
def receiveListed : RelayProg Unit := do
  let p ← getPeer
  -- client case 1: trusted peer
  if p.trusted && fromMapping packet p then do
    teredoPredecap now
    let _ ← invoke (.recvCb (trimmed packet.ip6) packet.sourceIpv4 packet.sourcePort)
  -- client case 2: reply to a ping
  else if tun.client && checkPing key time packet then do
    modifyPeer fun p => { p.setMapping packet.sourceIpv4 packet.sourcePort with trusted := true }
    teredoPredecap now
  else receiveUntrusted key tun now packet (some p)

/-- The actual packet reception of `teredo_run_inner`. -/
def receive : RelayProg Unit := do
  let r ← teredoListLookup (ip6Src packet.ip6) false
  if teredoIslocal tun packet && isDiscoveryBubble packet then receiveDiscovery tun now packet r
  else if isMulticast (ip6Dst packet.ip6) then
    if r = .null then pure () else teredoListRelease
  else if r = .null then receiveUntrusted key tun now packet none
  else receiveListed key tun now time packet

def teredoRunInner : RelayProg Unit :=
  if ¬ packet.WellFormed then pure () else
  if tun.client then
    if packet.ForMaintenance then do
      let _ ← invoke (.maintenance packet)
    else if ¬ tun.state.up then pure ()
    else do
      let bubble ← fromServer tun packet
      -- no faked router advertisement gets in
      if bubble ∨ isLinkLocal (ip6Src packet.ip6) then pure ()
      else receive key tun now time packet
  else if in6TeredoPrefix (ip6Src packet.ip6) ≠ in6TeredoPrefix tun.state.addr then pure ()
  else receive key tun now time packet

end RunInner

/-! ## Steps -/

/-- What a relay reacts to. The times are `teredo_clock ()` and `time (NULL)`. -/
inductive Input where
  | packet (now : UInt64) (time : UInt32) (p : TeredoPacket)
  | transmit (now : UInt64) (p : List UInt8)
  /-- A garbage collection. -/
  | gc
  /-- The collector, or a reset, frees a record it has unlinked. -/
  | free (i : ℕ)
  /-- A new state, with the interfaces for a new local discovery. -/
  | state (s : TeredoState) (ifaces : Option (List Iface))

abbrev RelayEv := Ev Input In6Addr RelayCall

/-- A `teredo_tunnel`. -/
structure Relay (A : Type) where
  tunnel : Tunnel
  list : PeerList In6Addr Peer A

section Step

variable {A : Type} [DecidableEq A] (key : Keyed) (r : Relay A)

def teredoStateChange (s : TeredoState) (ifaces : Option (List Iface)) :
    List RelayEv × Relay A :=
  if s.up then
    ([.called (.upCb s.addr s.mtu) true],
      { tunnel := { r.tunnel with
          state := s
          discovery := if r.tunnel.discNetmask.isSome then ifaces else none }
        list := r.list.reset maxPeers })
  else
    (if r.tunnel.state.up then [.called .downCb true] else [],
      { r with tunnel := { r.tunnel with state := s } })

def runProg {α : Type} (r : Relay A) (x : RelayProg α) (e : Env In6Addr Peer A) :
    Option (List RelayEv × Relay A) :=
  (x.run Peer.init none e r.list).map fun y => (y.2.1, { r with list := y.2.2 })

def runOp (op : PeerOp In6Addr Peer A) : Option (List RelayEv × Relay A) :=
  (step Peer.init r.list op).map fun y => ([], { r with list := y.2 })

/-- One whole step of a relay: what it does, unless it cannot go on. -/
def relayStep (e : Env In6Addr Peer A) : Input → Option (List RelayEv × Relay A)
  | .packet now time p => runProg r (teredoRunInner key r.tunnel now time p) e
  | .transmit now p => runProg r (teredoTransmit r.tunnel now p) e
  | .gc => if r.list.held = none then runOp r .gc else none
  | .free i => runOp r (.free i)
  | .state s ifaces => if r.list.held = none then some (teredoStateChange r s ifaces) else none

structure RelayEvent (A : Type) where
  input : Input
  env : Env In6Addr Peer A
  effects : List RelayEv

def RelayStep (e : RelayEvent A) (r' : Relay A) : Prop :=
  relayStep key r e.env e.input = some (e.effects, r')

/-- All that happened in a run: each input is followed by what it caused. -/
def history (es : List (RelayEvent A)) : List RelayEv :=
  es.flatMap fun e => .input e.input :: e.effects

/-- A client that `teredo_set_client_mode` has just made, without local discovery. It is down. -/
def Relay.newClient (mem : Mem Generation A (Item In6Addr Peer)) (s : TeredoState) : Relay A where
  tunnel := ⟨true, none, none, { s with up := false }⟩
  list := PeerList.new mem maxPeers

end Step

end Maiccu.Teredo
