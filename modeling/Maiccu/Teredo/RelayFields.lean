import Maiccu.Teredo.PeerFields
import Maiccu.Teredo.Relay

/-!
# The fields that the relay uses

`teredo_transmit` and `teredo_run_inner` on `Tracked` records. Where a branch or a packet needs
fields of the record they are named one after the other, and a field that was not written is
reported by a call of its own. With `debug` the arguments of the function `debug` are evaluated, as
in a build without `NDEBUG`. A field that is only printed is not a use.
-/

namespace Maiccu.Teredo

open Maiccu.Lib PeerProg

/-- A call of the relay, or the report that a field is used that was not written. -/
inductive FieldCall where
  | call (c : RelayCall)
  | unwritten (f : Field)

abbrev FieldProg := PeerProg In6Addr Tracked FieldCall

namespace Fields

section Basic

variable {α β : Type}

def report (x : FieldProg α) : List Field → FieldProg α
  | [] => x
  | f :: fs => .call (.unwritten f) fun _ => report x fs

def check (u : Uses α) : FieldProg α := report (.ret u.val) u.unwritten

def changePeer (f : Tracked → Uses (α × Tracked)) : FieldProg α :=
  .read fun t => report (.write (fun _ => (f t).val.2) (.ret (f t).val.1)) (f t).unwritten

/-- A program of the relay that leaves the records alone. -/
def lift : RelayProg α → FieldProg α
  | .ret a => .ret a
  | .lookup addr create? next => .lookup addr create? fun r => lift (next r)
  | .read next => .read fun t => lift (next t.peer)
  | .write f next => .write (·.onQueue f) (lift next)
  | .release next => .release (lift next)
  | .call c next => .call (.call c) fun b => lift (next b)

end Basic

/-! ## Sending -/

section Transmit

variable (debug : Bool) (tun : Tunnel) (now : UInt64) (packet : List UInt8)

def teredoEncap : FieldProg ℤ := do
  let t ← getPeer
  let m ← check t.mapped
  modifyPeer (·.store .lastTx now)
  teredoListRelease
  lift do
    let ok ← invoke (.send packet m.1 m.2)
    pure (if ok then 0 else -1)

def pingCounted (res : Count) : RelayProg ℤ :=
  match res with
  | .send => do
    let ok ← invoke (.sendPing tun.state.addr (ip6Dst packet))
    if ok then pure 0 else unreachable icmp6DstUnreachAddr packet
  | .later => pure 0
  | .tooMany => unreachable icmp6DstUnreachAddr packet

variable (created : Bool)

def transmitPing : FieldProg ℤ := do
  modifyPeer (·.stores (if created then [⟨.mappedPort, anyPort⟩, ⟨.mappedAddr, anyIpv4⟩] else []))
  modifyPeer (·.onQueue (·.enqueueOut packet))
  let res ← changePeer (·.countPing now)
  teredoListRelease
  lift (pingCounted tun packet res)

def localCounted (m : Ipv4 × Port) (res : Count) : RelayProg ℤ :=
  match res with
  | .send => do
    let _ ← invoke (.sendBubble m.1 m.2 tun.state.addr (ip6Dst packet))
    if tun.discovery.isSome then do
      let _ ← invoke .discoveryBubble
      let _ ← invoke (.discoveryRelease false)
      pure 0
    else do
      let _ ← invoke (.discoveryRelease true)
      pure 0
  | .later => pure 0
  | .tooMany => unreachable icmp6DstUnreachAddr packet

def transmitLocal : FieldProg ℤ := do
  modifyPeer (·.onQueue (·.enqueueOut packet))
  let res ← changePeer (·.countBubble now)
  let t ← getPeer
  let m ← check t.mapped
  teredoListRelease
  lift (localCounted tun packet m res)

def bubbleCounted (res : Count) : RelayProg ℤ :=
  let dst := ip6Dst packet
  match res with
  | .send => do
    let direct ← if isCone tun.state.addr then pure true else invoke (.bubbleFromDst dst false)
    if ¬ direct then pure (-1) else do
    let ok ← invoke (.bubbleFromDst dst true)
    pure (if ok then 0 else -1)
  | .later => pure 0
  | .tooMany => unreachable icmp6DstUnreachAddr packet

def transmitBubble : FieldProg ℤ := do
  let dst := ip6Dst packet
  modifyPeer (·.stores
    (if created then Tracked.mapping (in6TeredoIpv4 dst) (in6TeredoPort dst) else []))
  modifyPeer (·.onQueue (·.enqueueOut packet))
  let res ← changePeer (·.countBubble now)
  teredoListRelease
  lift (bubbleCounted tun packet res)

/-- The arguments of `debug ("Connecting %s: ...")`: each of these three selects a text. -/
def logConnecting : FieldProg Unit := do
  let t ← getPeer
  let _ ← check (t.use .isLocal)
  let _ ← check (t.use .trusted)
  let _ ← check (t.isValid now)
  pure ()

def transmitUntrusted : FieldProg ℤ :=
  if in6TeredoPrefix (ip6Dst packet) ≠ in6TeredoPrefix tun.state.addr then
    transmitPing tun now packet created
  else do
    let t ← getPeer
    let near ← check (Tracked.andThen (t.use .isLocal) (t.isValid now))
    if near then transmitLocal tun now packet else transmitBubble tun now packet created

def transmitConnect : FieldProg ℤ := do
  if debug then logConnecting now
  transmitUntrusted tun now packet created

def teredoTransmit : FieldProg ℤ :=
  let s := tun.state
  let dst := ip6Dst packet
  if isMulticast dst then pure 0 else
  if tun.client ∧ ¬ s.up then lift (unreachable icmp6DstUnreachAddr packet) else
  if in6TeredoPrefix dst ≠ in6TeredoPrefix s.addr ∧ tun.client ∧
      in6TeredoPrefix (ip6Src packet) ≠ in6TeredoPrefix s.addr then
    lift (unreachable icmp6DstUnreachAdmin packet) else
  if in6TeredoPrefix dst ≠ in6TeredoPrefix s.addr ∧ ¬ tun.client then
    lift (unreachable icmp6DstUnreachAddr packet) else
  if in6TeredoPrefix dst = in6TeredoPrefix s.addr ∧
      (¬ isIpv4GlobalUnicast (in6TeredoServer dst) ∨ in6TeredoServer dst = anyIpv4) then
    pure 0 else do
  let r ← teredoListLookup dst true
  match r with
  | .null => pure (-1)
  | .found => do
    let t ← getPeer
    let known ← check (Tracked.andThen (t.use .trusted) (t.isValid now))
    if known then teredoEncap now packet else transmitConnect debug tun now packet false
  | .created => do
    modifyPeer (·.stores [⟨.pings, 0⟩, ⟨.bubbles, 0⟩, ⟨.isLocal, false⟩, ⟨.trusted, false⟩])
    transmitConnect debug tun now packet true

end Transmit

/-! ## Receiving -/

def teredoPredecap (now : UInt64) : FieldProg Unit := do
  modifyPeer (·.stores [⟨.lastRx, now⟩, ⟨.pings, 0⟩, ⟨.bubbles, 0⟩])
  let q ← withPeer fun t => (t.peer.queueYield.1, t.onQueue (·.queueYield.2))
  teredoListRelease
  if q = [] then pure () else do
  let t ← getPeer
  let m ← check t.mapped
  lift (teredoQueueEmit q m.1 m.2)

section RunInner

variable (key : Keyed) (tun : Tunnel) (now : UInt64) (time : UInt32) (packet : TeredoPacket)

def receiveDiscovered : FieldProg Unit := do
  changePeer fun t => do
    let isLocal ← t.use .isLocal
    return ((), t.stores ((if isLocal then [] else [⟨.bubbles, 0⟩]) ++
      Tracked.mapping packet.sourceIpv4 packet.sourcePort ++ [⟨.isLocal, true⟩]))
  modifyPeer (·.store .lastRx now)
  teredoListRelease
  let res ← changePeer (·.countBubble now)
  lift do
    if res = .send then
      let _ ← invoke
        (.sendBubble packet.sourceIpv4 packet.sourcePort tun.state.addr (ip6Src packet.ip6))

def receiveDiscovery (r : Lookup) : FieldProg Unit :=
  match r with
  | .null => do
    let r ← teredoListLookup (ip6Src packet.ip6) true
    match r with
    | .null => pure ()
    | _ => do
      modifyPeer (·.stores [⟨.trusted, false⟩, ⟨.isLocal, false⟩])
      receiveDiscovered tun now packet
  | _ => receiveDiscovered tun now packet

def receiveTrusted : FieldProg Unit := do
  modifyPeer (·.stores (Tracked.mapping packet.sourceIpv4 packet.sourcePort ++ [⟨.trusted, true⟩]))
  teredoPredecap now
  lift do
    if isBubble packet.ip6 then pure () else do
    let _ ← invoke (.recvCb (trimmed packet.ip6) packet.sourceIpv4 packet.sourcePort)

variable (t : Option Tracked)

def receiveTeredo : FieldProg Unit :=
  match t with
  | some _ => receiveTrusted now packet
  | none =>
    if tun.client then do
      let r ← teredoListLookup (ip6Src packet.ip6) true
      match r with
      | .null => pure ()
      | _ => do
        modifyPeer (·.store .isLocal (teredoIslocal tun packet))
        receiveTrusted now packet
    else pure ()

def receivePing : FieldProg Unit := do
  modifyPeer (·.onQueue (·.enqueueIn (trimmed packet.ip6) packet.sourceIpv4 packet.sourcePort))
  modifyPeer (·.store .lastRx now)
  let res ← changePeer (·.countPing now)
  teredoListRelease
  lift do
    if res = .send then
      let _ ← invoke (.sendPing tun.state.addr (ip6Src packet.ip6))

def receiveOther : FieldProg Unit :=
  match t with
  | some _ => receivePing tun now packet
  | none => do
    let r ← teredoListLookup (ip6Src packet.ip6) true
    match r with
    | .null => pure ()
    | .found => receivePing tun now packet
    | .created => do
      modifyPeer (·.stores [⟨.mappedPort, anyPort⟩, ⟨.mappedAddr, anyIpv4⟩, ⟨.isLocal, false⟩,
        ⟨.trusted, false⟩, ⟨.pings, 0⟩, ⟨.bubbles, 0⟩])
      receivePing tun now packet

/-- Client case 5 of `teredo_run_inner`: the packet comes from the mapping of a local peer. -/
def fromLocal : Option Tracked → Uses Bool
  | some t =>
    Tracked.andThen (t.use .isLocal) (t.fromMapping packet.sourceIpv4 packet.sourcePort)
  | none => pure false

/-- The test of client cases 3 and 5, one condition after the other. -/
def acceptsTeredo : Uses Bool := do
  if in6MatchesTeredoClient (ip6Src packet.ip6) packet.sourceIpv4 packet.sourcePort then return true
  else
    let near ← fromLocal packet t
    return near || (t.isNone && teredoIslocal tun packet) ||
      (isBubble packet.ip6 && checkBubble key packet)

def receiveUntrusted : FieldProg Unit :=
  if in6TeredoPrefix (ip6Src packet.ip6) = in6TeredoPrefix tun.state.addr then do
    let ok ← check (acceptsTeredo key tun packet t)
    if ok then receiveTeredo tun now packet t
    else if t.isSome then teredoListRelease
    else pure ()
  else receiveOther tun now packet t

def receiveListed : FieldProg Unit := do
  let t ← getPeer
  let known ← check (Tracked.andThen (t.use .trusted)
    (t.fromMapping packet.sourceIpv4 packet.sourcePort))
  if known then do
    teredoPredecap now
    lift do
      let _ ← invoke (.recvCb (trimmed packet.ip6) packet.sourceIpv4 packet.sourcePort)
  else if tun.client && checkPing key time packet then do
    modifyPeer (·.stores (⟨.trusted, true⟩ :: Tracked.mapping packet.sourceIpv4 packet.sourcePort))
    teredoPredecap now
  else receiveUntrusted key tun now packet (some t)

def receive : FieldProg Unit := do
  let r ← teredoListLookup (ip6Src packet.ip6) false
  if teredoIslocal tun packet && isDiscoveryBubble packet then receiveDiscovery tun now packet r
  else if isMulticast (ip6Dst packet.ip6) then
    if r = .null then pure () else teredoListRelease
  else if r = .null then receiveUntrusted key tun now packet none
  else receiveListed key tun now time packet

def teredoRunInner : FieldProg Unit :=
  if ¬ packet.WellFormed then pure () else
  if tun.client then
    if packet.ForMaintenance then lift do
      let _ ← invoke (.maintenance packet)
    else if ¬ tun.state.up then pure ()
    else do
      let bubble ← lift (fromServer tun packet)
      if bubble ∨ isLinkLocal (ip6Src packet.ip6) then pure ()
      else receive key tun now time packet
  else if in6TeredoPrefix (ip6Src packet.ip6) ≠ in6TeredoPrefix tun.state.addr then pure ()
  else receive key tun now time packet

end RunInner

/-! ## Without the reports -/

section Erasure

variable {α β : Type}

/-- The program `x`, without its reports and what it reads for them, is the program `y`. -/
inductive Erases {α : Type} : FieldProg α → RelayProg α → Prop where
  | ret (a : α) : Erases (.ret a) (.ret a)
  | lookup {addr create? x y} :
      (∀ r, Erases (x r) (y r)) → Erases (.lookup addr create? x) (.lookup addr create? y)
  | read {x y} : (∀ t : Tracked, Erases (x t) (y t.peer)) → Erases (.read x) (.read y)
  /-- A read of which only reports come. -/
  | peek {x y} : (∀ t : Tracked, Erases (x t) y) → Erases (.read x) y
  | write {f g x y} : (∀ t : Tracked, (f t).peer = g t.peer) → Erases x y →
      Erases (.write f x) (.write g y)
  /-- A change that uses fields. -/
  | change {us : Tracked → List Field} {g : Tracked → Tracked} {f x y} :
      (∀ t, (g t).peer = f t.peer) → Erases x y →
      Erases (.read fun t => report (.write (fun _ => g t) x) (us t)) (.write f y)
  | release {x y} : Erases x y → Erases (.release x) (.release y)
  | call {c x y} : (∀ b, Erases (x b) (y b)) → Erases (.call (.call c) x) (.call c y)
  | unwritten {f x y} : (∀ b, Erases (x b) y) → Erases (.call (.unwritten f) x) y

theorem report_bind {x : FieldProg α} {fs : List Field} {k : α → FieldProg β} :
    (report x fs).bind k = report (x.bind k) fs := by
  induction fs with
  | nil => rfl
  | cons f fs ih => exact congrArg (PeerProg.call _) (funext fun _ => ih)

variable {x : FieldProg α} {y : RelayProg α} {k : α → FieldProg β} {k' : α → RelayProg β}

theorem Erases.bind (hx : Erases x y) (hk : ∀ a, Erases (k a) (k' a)) :
    Erases (x.bind k) (y.bind k') := by
  induction hx with
  | ret a => exact hk a
  | lookup _ ih => exact .lookup ih
  | read _ ih => exact .read ih
  | peek _ ih => exact .peek ih
  | write hf _ ih => exact .write hf ih
  | @change us g f x y hf _ ih =>
    have heq : (PeerProg.read fun t => report (.write (fun _ => g t) x) (us t)).bind k =
        .read fun t => report (.write (fun _ => g t) (x.bind k)) (us t) :=
      congrArg PeerProg.read (funext fun t => report_bind)
    rw [heq]
    exact .change hf ih
  | release _ ih => exact .release ih
  | call _ ih => exact .call ih
  | unwritten _ ih => exact .unwritten ih

theorem erases_report (h : Erases x y) (fs : List Field) : Erases (report x fs) y := by
  induction fs with
  | nil => exact h
  | cons f fs ih => exact .unwritten fun _ => ih

theorem erases_lift {x : RelayProg α} : Erases (lift x) x := by
  induction x with
  | ret a => exact .ret a
  | lookup addr create? next ih => exact .lookup ih
  | read next ih => exact .read fun t => ih t.peer
  | write f next ih => exact .write (fun _ => rfl) ih
  | release next ih => exact .release ih
  | call c next ih => exact .call ih

theorem erases_check {u : Uses α} {y : RelayProg β} (h : Erases (k u.val) y) :
    Erases ((check u).bind k) y := by
  unfold check
  rw [report_bind]
  exact erases_report h _

theorem erases_changePeer {f : Tracked → Uses (α × Tracked)} {g : Peer → α × Peer}
    (hval : ∀ t, (f t).val.1 = (g t.peer).1 ∧ (f t).val.2.peer = (g t.peer).2)
    (hk : ∀ a, Erases (k a) (k' a)) : Erases ((changePeer f).bind k) ((withPeer g).bind k') := by
  refine .read fun t => ?_
  rw [report_bind]
  refine erases_report (.write (fun _ => (hval t).2) ?_) _
  show Erases (k (f t).val.1) (k' (g t.peer).1)
  rw [(hval t).1]
  exact hk _

theorem erases_changePeer_unit {f : Tracked → Uses (Unit × Tracked)} {g : Peer → Peer}
    {k : Unit → FieldProg β} {k' : Unit → RelayProg β} (hval : ∀ t, (f t).val.2.peer = g t.peer)
    (hk : Erases (k ()) (k' ())) : Erases ((changePeer f).bind k) ((modifyPeer g).bind k') := by
  have heq : (changePeer f).bind k =
      .read fun t => report (.write (fun _ => (f t).val.2) (k ())) (f t).unwritten :=
    congrArg PeerProg.read (funext fun t => report_bind)
  rw [heq]
  exact .change hval hk

section Programs

variable {tun : Tunnel} {now : UInt64} {packet : List UInt8}

theorem erases_teredoEncap : Erases (teredoEncap now packet) (Teredo.teredoEncap now packet) :=
  .read fun _ => erases_check (.write (fun _ => rfl) (.release erases_lift))

variable {created : Bool}

theorem erases_transmitPing :
    Erases (transmitPing tun now packet created) (Teredo.transmitPing tun now packet created) := by
  refine .write (fun t => ?_) (.write (fun _ => rfl) ?_)
  · cases created <;> rfl
  · exact erases_changePeer (fun t => Tracked.val_countPing) fun res => .release erases_lift

theorem erases_transmitLocal :
    Erases (transmitLocal tun now packet) (Teredo.transmitLocal tun now packet) := by
  refine .write (fun _ => rfl) (erases_changePeer (fun t => Tracked.val_countBubble) fun res => ?_)
  exact .read fun t => erases_check (.release erases_lift)

theorem erases_transmitBubble :
    Erases (transmitBubble tun now packet created)
      (Teredo.transmitBubble tun now packet created) := by
  refine .write (fun t => ?_) (.write (fun _ => rfl) ?_)
  · cases created <;> rfl
  · exact erases_changePeer (fun t => Tracked.val_countBubble) fun res => .release erases_lift

theorem erases_logConnecting : Erases (logConnecting now) (.ret ()) :=
  .peek fun _ => erases_check (erases_check (erases_check (.ret ())))

theorem erases_transmitConnect {debug : Bool} :
    Erases (transmitConnect debug tun now packet created)
      (Teredo.transmitConnect tun now packet created) := by
  have hrest : Erases (transmitUntrusted tun now packet created)
      (Teredo.transmitConnect tun now packet created) := by
    unfold transmitUntrusted Teredo.transmitConnect
    split_ifs
    · exact erases_transmitPing
    · refine .read fun t => erases_check ?_
      rw [Tracked.val_andThen]
      show Erases (if (t.peer.isLocal && t.peer.isValid now) = true then _ else _)
        (if (t.peer.isLocal && t.peer.isValid now) = true then _ else _)
      split_ifs
      · exact erases_transmitLocal
      · exact erases_transmitBubble
  cases debug with
  | false => exact hrest
  | true => exact (erases_logConnecting).bind fun _ => hrest

theorem erases_teredoTransmit (debug : Bool) :
    Erases (teredoTransmit debug tun now packet) (Teredo.teredoTransmit tun now packet) := by
  unfold teredoTransmit Teredo.teredoTransmit
  dsimp only
  split_ifs
  · exact .ret _
  · exact erases_lift
  · exact erases_lift
  · exact erases_lift
  · exact .ret _
  · refine .lookup fun r => ?_
    cases r with
    | null => exact .ret _
    | found =>
      refine .read fun t => erases_check ?_
      rw [Tracked.val_andThen]
      show Erases (if (t.peer.trusted && t.peer.isValid now) = true then _ else _)
        (if (t.peer.trusted && t.peer.isValid now) = true then _ else _)
      split_ifs
      · exact erases_teredoEncap
      · exact erases_transmitConnect
    | created => exact .write (fun _ => rfl) (erases_transmitConnect)

end Programs

section Reception

variable {key : Keyed} {tun : Tunnel} {now : UInt64} {time : UInt32} {packet : TeredoPacket}

theorem erases_teredoPredecap : Erases (teredoPredecap now) (Teredo.teredoPredecap now) := by
  refine .write (fun _ => rfl) (.read fun t => .write (fun _ => rfl) (.release ?_))
  show Erases (if t.peer.queueYield.1 = [] then _ else _)
    (if t.peer.queueYield.1 = [] then _ else _)
  split_ifs
  · exact .ret _
  · exact .read fun t => erases_check erases_lift

theorem erases_receiveDiscovered :
    Erases (receiveDiscovered tun now packet) (Teredo.receiveDiscovered tun now packet) := by
  refine erases_changePeer_unit (fun t => ?_) (.write (fun _ => rfl) (.release ?_))
  · show (t.stores ((if t.peer.isLocal then [] else [⟨.bubbles, 0⟩]) ++ _ ++ _)).peer = _
    cases t.peer.isLocal <;> rfl
  · exact erases_changePeer (fun t => Tracked.val_countBubble) fun res => erases_lift

theorem erases_receiveDiscovery (r : Lookup) :
    Erases (receiveDiscovery tun now packet r) (Teredo.receiveDiscovery tun now packet r) := by
  cases r with
  | null =>
    refine .lookup fun r => ?_
    cases r with
    | null => exact .ret _
    | found | created => exact .write (fun _ => rfl) (erases_receiveDiscovered)
  | found | created => exact erases_receiveDiscovered

theorem erases_receiveTrusted :
    Erases (receiveTrusted now packet) (Teredo.receiveTrusted now packet) := by
  refine .write (fun _ => rfl) ((erases_teredoPredecap).bind fun _ => ?_)
  exact erases_lift

theorem erases_receivePing :
    Erases (receivePing tun now packet) (Teredo.receivePing tun now packet) := by
  refine .write (fun _ => rfl) (.write (fun _ => rfl) ?_)
  exact erases_changePeer (fun t => Tracked.val_countPing) fun res => .release erases_lift

variable (t : Option Tracked)

theorem erases_receiveTeredo : Erases (receiveTeredo tun now packet t)
    (Teredo.receiveTeredo tun now packet (t.map Tracked.peer)) := by
  cases t with
  | some t => exact erases_receiveTrusted
  | none =>
    show Erases (if tun.client then _ else _) (if tun.client then _ else _)
    split_ifs
    · refine .lookup fun r => ?_
      cases r with
      | null => exact .ret _
      | found | created => exact .write (fun _ => rfl) (erases_receiveTrusted)
    · exact .ret _

theorem erases_receiveOther : Erases (receiveOther tun now packet t)
    (Teredo.receiveOther tun now packet (t.map Tracked.peer)) := by
  cases t with
  | some t => exact erases_receivePing
  | none =>
    refine .lookup fun r => ?_
    cases r with
    | null => exact .ret _
    | found => exact erases_receivePing
    | created => exact .write (fun _ => rfl) (erases_receivePing)

theorem val_acceptsTeredo : (acceptsTeredo key tun packet t).val =
    Teredo.acceptsTeredo key tun packet (t.map Tracked.peer) := by
  unfold acceptsTeredo Teredo.acceptsTeredo
  split_ifs with h
  · simp [h]
  · cases t with
    | none => simp [h, fromLocal]
    | some t => simp [h, fromLocal, Tracked.val_andThen, Tracked.val_fromMapping, fromMapping,
        Peer.get]

theorem erases_receiveUntrusted {t : Option Tracked} :
    Erases (receiveUntrusted key tun now packet t)
    (Teredo.receiveUntrusted key tun now packet (t.map Tracked.peer)) := by
  unfold receiveUntrusted Teredo.receiveUntrusted
  by_cases hprefix : in6TeredoPrefix (ip6Src packet.ip6) = in6TeredoPrefix tun.state.addr
  · rw [if_pos hprefix, if_pos hprefix]
    refine erases_check ?_
    rw [val_acceptsTeredo, Option.isSome_map]
    split_ifs
    · exact erases_receiveTeredo t
    · exact .release (.ret _)
    · exact .ret _
  · rw [if_neg hprefix, if_neg hprefix]
    exact erases_receiveOther t

theorem erases_receiveListed : Erases (receiveListed key tun now time packet)
    (Teredo.receiveListed key tun now time packet) := by
  refine .read fun t => erases_check ?_
  rw [Tracked.val_andThen, Tracked.val_fromMapping]
  show Erases (if (t.peer.trusted && fromMapping packet t.peer) = true then _ else _)
    (if (t.peer.trusted && fromMapping packet t.peer) = true then _ else _)
  split_ifs
  · exact (erases_teredoPredecap).bind fun _ => erases_lift
  · exact .write (fun _ => rfl) (erases_teredoPredecap)
  · exact erases_receiveUntrusted

theorem erases_receive :
    Erases (receive key tun now time packet) (Teredo.receive key tun now time packet) := by
  refine .lookup fun r => ?_
  show Erases (if _ then _ else _) (if _ then _ else _)
  split_ifs
  · exact erases_receiveDiscovery r
  · exact .ret _
  · exact .release (.ret _)
  · exact erases_receiveUntrusted
  · exact erases_receiveListed

theorem erases_teredoRunInner : Erases (teredoRunInner key tun now time packet)
    (Teredo.teredoRunInner key tun now time packet) := by
  unfold teredoRunInner Teredo.teredoRunInner
  split_ifs
  · exact erases_lift
  · refine erases_lift.bind fun bubble => ?_
    show Erases (if _ then _ else _) (if _ then _ else _)
    split_ifs
    · exact .ret _
    · exact erases_receive
  · exact .ret _
  · exact .ret _
  · exact erases_receive
  · exact .ret _

end Reception

end Erasure

end Fields

end Maiccu.Teredo
