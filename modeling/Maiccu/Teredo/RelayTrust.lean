import Maiccu.Teredo.Relay

/-!
# Whom a Teredo client believes

A packet is handed to the host only if its sender, the IPv6 source address, is known to be where the
packet came from. `Vetted` says what counts as knowledge: for a Teredo address the mapping in the
address itself, or a bubble or a ping that was checked, and for any other address a ping that was
checked since the record was made. `Trust` is the invariant of a record, in a client without local
discovery.
-/

namespace Maiccu.Teredo

open Maiccu.Lib PeerProg List

attribute [local irreducible] trimmed

/-! ## Knowledge about a sender -/

def SentBy (S : In6Addr) (ip : Ipv4) (port : Port) (p : TeredoPacket) : Prop :=
  p.WellFormed ∧ ip6Src p.ip6 = S ∧ p.sourceIpv4 = ip ∧ p.sourcePort = port

variable {data : List UInt8} {time : UInt32}

section Vetted

variable (key : Keyed) (pfx : Bytes 4)

def PassedPing (S : In6Addr) (ip : Ipv4) (port : Port) : RelayEv → Prop
  | .input (.packet _ time p) => SentBy S ip port p ∧ checkPing key time p = true
  | _ => False

def PassedBubble (S : In6Addr) (ip : Ipv4) (port : Port) : RelayEv → Prop
  | .input (.packet _ _ p) => SentBy S ip port p ∧ isBubble p.ip6 = true ∧ checkBubble key p = true
  | _ => False

/-- An event with the property `P` since the record of `S` was made. -/
def SinceCreated (S : In6Addr) (P : RelayEv → Prop) (h : List RelayEv) : Prop :=
  ∃ pre ev post, h = pre ++ ev :: post ∧ P ev ∧ .created S ∉ post

/-- After the history `h`, the peer `S` is known to be at the address `ip` and the port `port`. The
Teredo addresses are those with the prefix `pfx` of the client. -/
def Vetted (h : List RelayEv) (S : In6Addr) (ip : Ipv4) (port : Port) : Prop :=
  if in6TeredoPrefix S = pfx then
    in6MatchesTeredoClient S ip port ∨
      ∃ ev ∈ h, PassedBubble key S ip port ev ∨ PassedPing key S ip port ev
  else SinceCreated S (PassedPing key S ip port) h

/-- The packet `data` was received from the address `ip` and the port `port`. -/
def Arrived (h : List RelayEv) (data : List UInt8) (ip : Ipv4) (port : Port) : Prop :=
  ∃ now time p, .input (.packet now time p) ∈ h ∧ SentBy (ip6Src data) ip port p ∧
    data = trimmed p.ip6

variable {key pfx} {h evs : List RelayEv} {S : In6Addr} {ip : Ipv4} {port : Port}

theorem Vetted.append (hv : Vetted key pfx h S ip port) (hevs : .created S ∉ evs) :
    Vetted key pfx (h ++ evs) S ip port := by
  unfold Vetted at hv ⊢
  split_ifs at hv ⊢
  · rcases hv with hmatch | ⟨ev, hev, hpass⟩
    · exact Or.inl hmatch
    · exact Or.inr ⟨ev, mem_append_left _ hev, hpass⟩
  · obtain ⟨pre, ev, post, rfl, hpass, hpost⟩ := hv
    refine ⟨pre, ev, post ++ evs, by simp, hpass, ?_⟩
    rw [mem_append, not_or]
    exact ⟨hpost, hevs⟩

theorem Arrived.append (ha : Arrived h data ip port) : Arrived (h ++ evs) data ip port := by
  obtain ⟨now, time, p, hp, hrest⟩ := ha
  exact ⟨now, time, p, mem_append_left _ hp, hrest⟩

def OnlyCalls (evs : List RelayEv) : Prop := ∀ ev ∈ evs, ∃ x ok, ev = .called x ok

theorem OnlyCalls.not_created (hevs : OnlyCalls evs) {k : In6Addr} : .created k ∉ evs := by
  intro hmem
  obtain ⟨x, ok, he⟩ := hevs _ hmem
  cases he

theorem onlyCalls_nil : OnlyCalls [] := nofun

/-- The last input, after which nothing but calls happened. -/
def LastInput (h : List RelayEv) (i : Input) : Prop :=
  ∃ pre post, h = pre ++ .input i :: post ∧ OnlyCalls post

theorem LastInput.mem {i : Input} (hi : LastInput h i) : .input i ∈ h := by
  obtain ⟨pre, post, rfl, -⟩ := hi
  exact mem_append_right _ mem_cons_self

theorem vetted_of_ping {now : UInt64} {p : TeredoPacket}
    (hi : LastInput h (.packet now time p)) (hp : SentBy S ip port p)
    (hping : checkPing key time p = true) : Vetted key pfx h S ip port := by
  unfold Vetted
  split_ifs
  · exact Or.inr ⟨_, hi.mem, Or.inr ⟨hp, hping⟩⟩
  · obtain ⟨pre, post, rfl, hpost⟩ := hi
    exact ⟨pre, _, post, rfl, ⟨hp, hping⟩, hpost.not_created⟩

end Vetted

/-! ## The invariant of a record -/

section Trust

variable (key : Keyed) (pfx : Bytes 4)

/-- A packet that waits in the queue of `k`. Only peers without a Teredo address have packets from
outside in their queue. -/
def QueueOk (h : List RelayEv) (k : In6Addr) (q : Queued) : Prop :=
  q.incoming = true → in6TeredoPrefix k ≠ pfx ∧ ip6Src q.data = k ∧ Arrived h q.data q.ipv4 q.port

structure Trust (h : List RelayEv) (k : In6Addr) (p : Peer) : Prop where
  notLocal : p.isLocal = false
  mapping : p.trusted = true → Vetted key pfx h k p.mappedAddr p.mappedPort
  queue : ∀ q ∈ p.queue, QueueOk pfx h k q

def Allowed (h : List RelayEv) : RelayCall → Prop
  | .recvCb data ip port => Vetted key pfx h (ip6Src data) ip port ∧ Arrived h data ip port
  | _ => True

variable {key pfx} {h evs : List RelayEv} {k : In6Addr} {p : Peer} {ip : Ipv4} {port : Port}

section Kept

variable (ht : Trust key pfx h k p)

include ht

theorem Trust.append (hevs : .created k ∉ evs) : Trust key pfx (h ++ evs) k p := by
  refine ⟨ht.notLocal, fun htr => (ht.mapping htr).append hevs, fun q hq hin => ?_⟩
  obtain ⟨hpfx, hsrc, harr⟩ := ht.queue q hq hin
  exact ⟨hpfx, hsrc, harr.append⟩

theorem Trust.congr {p' : Peer} (hlocal : p'.isLocal = p.isLocal)
    (htrusted : p'.trusted = p.trusted) (haddr : p'.mappedAddr = p.mappedAddr)
    (hport : p'.mappedPort = p.mappedPort) (hqueue : p'.queue = p.queue) :
      Trust key pfx h k p' := by
  refine ⟨hlocal.trans ht.notLocal, ?_, ?_⟩
  · rw [htrusted, haddr, hport]
    exact ht.mapping
  · rw [hqueue]
    exact ht.queue

variable (now : UInt64)

theorem Trust.touchReceive : Trust key pfx h k (p.touchReceive now) :=
  ht.congr rfl rfl rfl rfl rfl

theorem Trust.touchTransmit : Trust key pfx h k (p.touchTransmit now) :=
  ht.congr rfl rfl rfl rfl rfl

theorem Trust.countPing : Trust key pfx h k (p.countPing now).2 := by
  unfold Peer.countPing
  dsimp only
  split
  · exact ht.congr rfl rfl rfl rfl rfl
  · exact ht

theorem Trust.countBubble : Trust key pfx h k (p.countBubble now).2 := by
  unfold Peer.countBubble
  dsimp only
  split
  · exact ht.congr rfl rfl rfl rfl rfl
  · exact ht

theorem Trust.enqueue {incoming : Bool} (hq : QueueOk pfx h k ⟨data, ip, port, incoming⟩) :
    Trust key pfx h k (p.enqueue data ip port incoming) := by
  unfold Peer.enqueue
  split
  · exact ht
  · refine ⟨ht.notLocal, ht.mapping, fun q hmem => ?_⟩
    rcases mem_cons.mp hmem with rfl | hmem
    · exact hq
    · exact ht.queue q hmem

theorem Trust.enqueueOut (data : List UInt8) : Trust key pfx h k (p.enqueueOut data) :=
  ht.enqueue nofun

theorem Trust.setMapping (htrusted : p.trusted = false) (ip : Ipv4) (port : Port) :
    Trust key pfx h k (p.setMapping ip port) :=
  ⟨ht.notLocal, fun htr => absurd (htrusted.symm.trans htr) (by simp), ht.queue⟩

end Kept

theorem Trust.trusted (hlocal : p.isLocal = false) (hqueue : ∀ q ∈ p.queue, QueueOk pfx h k q)
    (hv : Vetted key pfx h k ip port) :
    Trust key pfx h k { p.setMapping ip port with trusted := true } :=
  ⟨hlocal, fun _ => hv, hqueue⟩

theorem trust_new (hlocal : p.isLocal = false) (htrusted : p.trusted = false) (hq : p.queue = []) :
    Trust key pfx h k p := by
  refine ⟨hlocal, fun htr => absurd (htrusted.symm.trans htr) (by simp), ?_⟩
  rw [hq]
  exact nofun

end Trust

/-! ## Programs -/

section Programs

variable {key : Keyed} {pfx : Bytes 4} {h : List RelayEv} {k : In6Addr} {p : Peer} {now : UInt64}
  {c : Cur In6Addr Peer} {tun : Tunnel}

/-- The program keeps the invariant of the records and makes no call that is not allowed. -/
def Safe {α : Type} (key : Keyed) (pfx : Bytes 4) (x : RelayProg α) (c : Cur In6Addr Peer)
    (h : List RelayEv) : Prop :=
  x.wp Peer.init (Trust key pfx) (Allowed key pfx) (fun _ c h => c.Closed (Trust key pfx) h) c h

theorem Trust.closed (ht : Trust key pfx h k p) (x : RelayCall) (ok : Bool) :
    (Cur.stale k p).Closed (Trust key pfx) (h ++ [.called x ok]) :=
  ht.append (by simp)

variable {Q : Unit → Cur In6Addr Peer → List RelayEv → Prop} {ip : Ipv4} {port : Port}
  {packet : List UInt8} {created : Bool}

theorem wp_emitOne {q : Queued} (hq : q.incoming = true → ip = q.ipv4 → port = q.port →
      Allowed key pfx h (.recvCb q.data q.ipv4 q.port))
    (hQ : ∀ evs, OnlyCalls evs → Q () c (h ++ evs)) :
    (emitOne q ip port).wp Peer.init (Trust key pfx) (Allowed key pfx) Q c h := by
  have hnone : Q () c h := by simpa using hQ [] onlyCalls_nil
  have hone : ∀ x ok, Q () c (h ++ [.called x ok]) := fun x ok =>
    hQ _ fun ev hev => ⟨x, ok, mem_singleton.mp hev⟩
  unfold emitOne
  split_ifs with hin hmap
  · exact ⟨hq hin hmap.1 hmap.2, fun ok => hone _ ok⟩
  · exact hnone
  · exact ⟨trivial, fun ok => hone _ ok⟩

theorem wp_teredoQueueEmit (qs : List Queued)
    (hq : ∀ q ∈ qs, q.incoming = true → ip = q.ipv4 → port = q.port → ∀ evs, OnlyCalls evs →
      Allowed key pfx (h ++ evs) (.recvCb q.data q.ipv4 q.port))
    (hQ : ∀ evs, OnlyCalls evs → Q () c (h ++ evs)) :
    (teredoQueueEmit qs ip port).wp Peer.init (Trust key pfx) (Allowed key pfx) Q c h := by
  induction qs generalizing h with
  | nil =>
    show Q () c h
    simpa using hQ [] onlyCalls_nil
  | cons q qs ih =>
    unfold teredoQueueEmit
    rw [wp_bind]
    refine wp_emitOne (fun hin hip hport => ?_) fun evs hevs =>
      ih (fun q' hq' hin hip hport evs' hevs' => ?_)
      fun evs' hevs' => ?_
    · simpa using hq q mem_cons_self hin hip hport [] onlyCalls_nil
    · rw [append_assoc]
      exact hq q' (mem_cons_of_mem _ hq') hin hip hport _ (forall_mem_append.mpr ⟨hevs, hevs'⟩)
    · rw [append_assoc]
      exact hQ _ (forall_mem_append.mpr ⟨hevs, hevs'⟩)

/-- `teredo_predecap` for a trusted record: the packets it delivers from the queue came from the
mapping of the record. -/
theorem wp_teredoPredecap (ht : Trust key pfx h k p) (htrusted : p.trusted = true)
    (hQ : ∀ p' evs, OnlyCalls evs → Trust key pfx (h ++ evs) k p' → Q () (.stale k p') (h ++ evs)) :
    (teredoPredecap now).wp Peer.init (Trust key pfx) (Allowed key pfx) Q (.locked k p) h := by
  set p' : Peer := { p.touchReceive now with
    bubbles := 0, pings := 0, queue := [], queueLeft := teredoMaxQueueBytes } with hp'
  have ht' : ∀ evs, OnlyCalls evs → Trust key pfx (h ++ evs) k p' := fun evs hevs =>
    Trust.append ⟨ht.notLocal, ht.mapping, nofun⟩ hevs.not_created
  have hemit : (teredoQueueEmit p.queue p.mappedAddr p.mappedPort).wp Peer.init (Trust key pfx)
      (Allowed key pfx) Q (.stale k p') h := by
    refine wp_teredoQueueEmit _ (fun q hq hin hip hport evs hevs => ?_) fun evs hevs =>
      hQ p' evs hevs (ht' evs hevs)
    obtain ⟨-, hsrc, harr⟩ := ht.queue q hq hin
    refine ⟨?_, harr.append⟩
    rw [hsrc, ← hip, ← hport]
    exact (ht.mapping htrusted).append hevs.not_created
  unfold teredoPredecap
  simp only [wp_bind, wp_modifyPeer, wp_withPeer, wp_teredoListRelease]
  split_ifs with hempty
  · have hlast : Q () (.stale k p') h :=
      by simpa using hQ p' [] onlyCalls_nil (ht' [] onlyCalls_nil)
    exact hlast
  · exact hemit

/-! ### Sending -/

theorem safe_unreachable {code : UInt8}
    (hc : ∀ x ok, c.Closed (Trust key pfx) (h ++ [.called x ok])) :
    Safe key pfx (unreachable code packet) c h := ⟨trivial, fun ok => hc _ ok⟩

theorem safe_teredoEncap (ht : Trust key pfx h k p) :
    Safe key pfx (teredoEncap now packet) (.locked k p) h :=
  ⟨trivial, fun _ => (ht.touchTransmit now).closed _ _⟩

section Connect

variable (ht : Trust key pfx h k p) (hnew : created = true → p.trusted = false)

include ht hnew

theorem Trust.connect (packet : List UInt8) (ip : Ipv4) (port : Port) :
    Trust key pfx h k ((if created then p.setMapping ip port else p).enqueueOut packet) := by
  apply Trust.enqueueOut
  split_ifs with hc
  · exact ht.setMapping (hnew hc) _ _
  · exact ht

theorem safe_transmitPing : Safe key pfx (transmitPing tun now packet created) (.locked k p) h := by
  have ht' := (ht.connect hnew packet anyIpv4 anyPort).countPing now
  unfold Safe transmitPing
  simp only [wp_bind, wp_modifyPeer, wp_withPeer, wp_teredoListRelease]
  generalize (Peer.countPing _ now) = r at ht' ⊢
  obtain ⟨res, p'⟩ := r
  cases res with
  | send =>
    simp only [wp_bind, wp_invoke]
    refine ⟨trivial, fun ok => ?_⟩
    split_ifs
    · exact ht'.closed _ _
    · exact safe_unreachable (Trust.append ht' (by simp)).closed
  | later => exact ht'
  | tooMany => exact safe_unreachable ht'.closed

theorem safe_transmitBubble :
    Safe key pfx (transmitBubble tun now packet created) (.locked k p) h := by
  have ht' := (ht.connect hnew packet (in6TeredoIpv4 (ip6Dst packet))
    (in6TeredoPort (ip6Dst packet))).countBubble now
  unfold Safe transmitBubble
  simp only [wp_bind, wp_modifyPeer, wp_withPeer, wp_teredoListRelease]
  generalize (Peer.countBubble _ now) = r at ht' ⊢
  obtain ⟨res, p'⟩ := r
  cases res with
  | send =>
    -- the second bubble, after whatever calls were made before
    have hindirect : ∀ h', Trust key pfx h' k p' → ∀ direct : Bool,
        Safe key pfx (α := ℤ) (if ¬ direct then pure (-1) else do
          let ok ← invoke (.bubbleFromDst (ip6Dst packet) true)
          pure (if ok then 0 else -1)) (.stale k p') h' := by
      intro h' ht'' direct
      split_ifs
      · exact ⟨trivial, fun _ => ht''.closed _ _⟩
      · exact ht''
    split_ifs
    · exact hindirect _ ht' true
    · exact ⟨trivial, fun ok => hindirect _ (Trust.append ht' (by simp)) ok⟩
  | later => exact ht'
  | tooMany => exact safe_unreachable ht'.closed

theorem safe_transmitConnect :
    Safe key pfx (transmitConnect tun now packet created) (.locked k p) h := by
  unfold transmitConnect
  split_ifs
  · exact safe_transmitPing ht hnew
  · unfold Safe
    simp only [wp_bind, wp_getPeer_locked]
    rw [ht.notLocal, Bool.false_and, if_neg Bool.false_ne_true]
    exact safe_transmitBubble ht hnew

end Connect

/-- **Sending.** `teredo_transmit` delivers nothing and makes no record trusted. -/
theorem safe_teredoTransmit : Safe key pfx (teredoTransmit tun now packet) .none h := by
  unfold teredoTransmit
  dsimp only
  split_ifs
  · trivial
  · exact safe_unreachable fun _ _ => trivial
  · exact safe_unreachable fun _ _ => trivial
  · exact safe_unreachable fun _ _ => trivial
  · trivial
  · unfold Safe
    simp only [wp_bind, wp_teredoListLookup]
    refine ⟨trivial, trivial, fun p ht => ?_, fun _ junk => ?_⟩
    · simp only [wp_getPeer_locked]
      split_ifs
      · exact safe_teredoEncap ht
      · exact safe_transmitConnect ht (by simp)
    · simp only [wp_modifyPeer]
      exact safe_transmitConnect (trust_new rfl rfl rfl) fun _ => rfl

/-! ### Receiving -/

section Receive

variable {packet : TeredoPacket}

theorem sentBy_self (hwf : packet.WellFormed) :
    SentBy (ip6Src packet.ip6) packet.sourceIpv4 packet.sourcePort packet := ⟨hwf, rfl, rfl, rfl⟩

theorem arrived_self (hwf : packet.WellFormed) (hin : .input (.packet now time packet) ∈ h) :
    Arrived h (trimmed packet.ip6) packet.sourceIpv4 packet.sourcePort := by
  refine ⟨now, time, packet, hin, ?_, rfl⟩
  rw [ip6Src_trimmed]
  exact sentBy_self hwf

def AtRecord (key : Keyed) (pfx : Bytes 4) (h : List RelayEv) (k : In6Addr) :
    Option Peer → Cur In6Addr Peer → Prop
  | none, c => c = .none
  | some p, c => c = .locked k p ∧ Trust key pfx h k p

theorem safe_receivePing (hpfx : in6TeredoPrefix (ip6Src packet.ip6) ≠ pfx)
    (harr : Arrived h (trimmed packet.ip6) packet.sourceIpv4 packet.sourcePort)
    (ht : Trust key pfx h (ip6Src packet.ip6) p) :
    Safe key pfx (receivePing tun now packet) (.locked (ip6Src packet.ip6) p) h := by
  have hqueue : Trust key pfx h (ip6Src packet.ip6)
      (p.enqueueIn (trimmed packet.ip6) packet.sourceIpv4 packet.sourcePort) :=
    ht.enqueue fun _ => ⟨hpfx, ip6Src_trimmed _, harr⟩
  have ht' := (hqueue.touchReceive now).countPing now
  unfold Safe receivePing
  simp only [wp_bind, wp_modifyPeer, wp_withPeer, wp_teredoListRelease]
  split_ifs
  · exact ⟨trivial, fun ok => ht'.closed _ _⟩
  · exact ht'

variable {o : Option Peer}

theorem safe_receiveOther (hpfx : in6TeredoPrefix (ip6Src packet.ip6) ≠ pfx)
    (harr : Arrived h (trimmed packet.ip6) packet.sourceIpv4 packet.sourcePort)
    (hat : AtRecord key pfx h (ip6Src packet.ip6) o c) :
    Safe key pfx (receiveOther tun now packet o) c h := by
  cases o with
  | some p =>
    obtain ⟨rfl, ht⟩ := hat
    show Safe key pfx (receivePing tun now packet) _ h
    exact safe_receivePing hpfx harr ht
  | none =>
    obtain rfl : c = .none := hat
    unfold Safe receiveOther
    simp only [wp_bind, wp_teredoListLookup]
    refine ⟨trivial, trivial, fun p ht => safe_receivePing hpfx harr ht, fun _ junk => ?_⟩
    simp only [wp_modifyPeer]
    exact safe_receivePing hpfx harr.append (trust_new rfl rfl rfl)

theorem safe_receiveTrusted (hlocal : p.isLocal = false)
    (hqueue : ∀ q ∈ p.queue, QueueOk pfx h (ip6Src packet.ip6) q)
    (hv : Vetted key pfx h (ip6Src packet.ip6) packet.sourceIpv4 packet.sourcePort)
    (harr : Arrived h (trimmed packet.ip6) packet.sourceIpv4 packet.sourcePort) :
    Safe key pfx (receiveTrusted now packet) (.locked (ip6Src packet.ip6) p) h := by
  unfold Safe receiveTrusted
  simp only [wp_bind, wp_modifyPeer]
  refine wp_teredoPredecap (Trust.trusted hlocal hqueue hv) rfl fun p' evs hevs ht' => ?_
  split_ifs
  · exact ht'
  · refine ⟨⟨?_, harr.append⟩, fun ok => ht'.closed _ _⟩
    rw [ip6Src_trimmed]
    exact hv.append hevs.not_created

theorem safe_receiveTeredo (hclient : tun.client = true)
    (hislocal : teredoIslocal tun packet = false)
    (hv : ∀ evs, Vetted key pfx (h ++ evs) (ip6Src packet.ip6) packet.sourceIpv4 packet.sourcePort)
    (harr : Arrived h (trimmed packet.ip6) packet.sourceIpv4 packet.sourcePort)
    (hat : AtRecord key pfx h (ip6Src packet.ip6) o c) :
    Safe key pfx (receiveTeredo tun now packet o) c h := by
  have hv₀ : Vetted key pfx h (ip6Src packet.ip6) packet.sourceIpv4 packet.sourcePort := by
    simpa using hv []
  cases o with
  | some p =>
    obtain ⟨rfl, ht⟩ := hat
    show Safe key pfx (receiveTrusted now packet) _ h
    exact safe_receiveTrusted ht.notLocal ht.queue hv₀ harr
  | none =>
    obtain rfl : c = .none := hat
    unfold Safe receiveTeredo
    simp only [if_pos hclient, wp_bind, wp_teredoListLookup]
    refine ⟨trivial, trivial, fun p ht => ?_, fun _ junk => ?_⟩
    · simp only [wp_modifyPeer]
      exact safe_receiveTrusted hislocal ht.queue hv₀ harr
    · simp only [wp_modifyPeer]
      exact safe_receiveTrusted hislocal (fun q hq => absurd hq not_mem_nil) (hv _) harr.append

theorem vetted_of_acceptsTeredo (hwf : packet.WellFormed)
    (hin : .input (.packet now time packet) ∈ h) (hislocal : teredoIslocal tun packet = false)
    (hpfx : in6TeredoPrefix (ip6Src packet.ip6) = pfx)
    (hlocal : ∀ p, o = some p → p.isLocal = false) (hacc : acceptsTeredo key tun packet o = true)
    (evs : List RelayEv) :
    Vetted key pfx (h ++ evs) (ip6Src packet.ip6) packet.sourceIpv4 packet.sourcePort := by
  have hnone : (o.any fun p => p.isLocal && fromMapping packet p) = false := by
    cases o with
    | none => rfl
    | some p => simp [hlocal p rfl]
  unfold acceptsTeredo at hacc
  rw [hnone, hislocal, Bool.and_false, Bool.or_false, Bool.or_false, Bool.or_eq_true,
    decide_eq_true_eq, Bool.and_eq_true] at hacc
  unfold Vetted
  rw [if_pos hpfx]
  rcases hacc with hmatch | ⟨hbubble, hcheck⟩
  · exact Or.inl hmatch
  · exact Or.inr ⟨_, mem_append_left _ hin, Or.inl ⟨sentBy_self hwf, hbubble, hcheck⟩⟩

section Client

variable (hclient : tun.client = true) (hislocal : teredoIslocal tun packet = false)
  (hpfx : in6TeredoPrefix tun.state.addr = pfx) (hwf : packet.WellFormed)

include hclient hislocal hpfx hwf

theorem safe_receiveUntrusted (hin : .input (.packet now time packet) ∈ h)
    (hat : AtRecord key pfx h (ip6Src packet.ip6) o c) :
    Safe key pfx (receiveUntrusted key tun now packet o) c h := by
  have harr := arrived_self hwf hin
  have hlocal : ∀ p, o = some p → p.isLocal = false := by
    rintro p rfl
    exact hat.2.notLocal
  unfold receiveUntrusted
  rw [hpfx]
  split_ifs with hteredo hacc hsome
  · exact safe_receiveTeredo hclient hislocal
      (vetted_of_acceptsTeredo hwf hin hislocal hteredo hlocal hacc) harr hat
  · obtain ⟨p, rfl⟩ := Option.isSome_iff_exists.mp hsome
    obtain ⟨rfl, ht⟩ := hat
    exact ht
  · obtain rfl : o = none := by simpa using hsome
    obtain rfl : c = .none := hat
    trivial
  · exact safe_receiveOther hteredo harr hat

variable (hi : LastInput h (.packet now time packet))
include hi

theorem safe_receiveListed (ht : Trust key pfx h (ip6Src packet.ip6) p) :
    Safe key pfx (receiveListed key tun now time packet) (.locked (ip6Src packet.ip6) p) h := by
  unfold Safe receiveListed
  simp only [wp_bind, wp_getPeer_locked]
  split_ifs with htrusted hping
  · obtain ⟨htr, hmap⟩ := Bool.and_eq_true_iff.mp htrusted
    obtain ⟨hip, hport⟩ := Bool.and_eq_true_iff.mp hmap
    simp only [wp_bind]
    refine wp_teredoPredecap ht htr fun p' evs hevs ht' => ?_
    refine ⟨⟨?_, (arrived_self hwf hi.mem).append⟩, fun ok => ht'.closed _ _⟩
    rw [ip6Src_trimmed, of_decide_eq_true hip, of_decide_eq_true hport]
    exact (ht.mapping htr).append hevs.not_created
  · have hv : Vetted key pfx h _ _ _ :=
      vetted_of_ping hi (sentBy_self hwf) (Bool.and_eq_true_iff.mp hping).2
    exact wp_teredoPredecap (Trust.trusted ht.notLocal ht.queue hv) rfl fun p' evs _ ht' => ht'
  · exact safe_receiveUntrusted hclient hislocal hpfx hwf hi.mem ⟨rfl, ht⟩

theorem safe_receive : Safe key pfx (receive key tun now time packet) .none h := by
  unfold Safe receive
  simp only [wp_bind, wp_teredoListLookup]
  rw [hislocal, Bool.false_and]
  refine ⟨trivial, ?_, fun p ht => ?_, fun hc => by cases hc⟩
  · simp only [Bool.false_eq_true, if_false, if_true]
    split_ifs
    · trivial
    · exact safe_receiveUntrusted hclient hislocal hpfx hwf hi.mem rfl
  · simp only [Bool.false_eq_true, if_false, reduceCtorEq]
    split_ifs
    · exact ht
    · exact safe_receiveListed hclient hislocal hpfx hwf hi ht

end Client

theorem wp_teredoReplyBubble {ip6 : List UInt8} (hQ : ∀ evs, OnlyCalls evs → Q () c (h ++ evs)) :
    (teredoReplyBubble ip port ip6).wp Peer.init (Trust key pfx) (Allowed key pfx) Q c h := by
  unfold teredoReplyBubble
  split_ifs
  · exact ⟨trivial, fun ok => hQ _ fun ev hev => ⟨_, ok, mem_singleton.mp hev⟩⟩
  · show Q () c h
    simpa using hQ [] onlyCalls_nil

theorem wp_fromServer {Q : Bool → Cur In6Addr Peer → List RelayEv → Prop}
    (hQ : ∀ b evs, OnlyCalls evs → Q b c (h ++ evs)) :
    (fromServer tun packet).wp Peer.init (Trust key pfx) (Allowed key pfx) Q c h := by
  have hnone : Q false c h := by simpa using hQ false [] onlyCalls_nil
  unfold fromServer
  dsimp only
  split_ifs
  · exact hnone
  · rw [wp_bind]
    exact wp_teredoReplyBubble fun evs hevs => hQ _ evs hevs
  · exact hnone

/-- **Receiving.** `teredo_run_inner` keeps the invariant of the records, and it delivers only
packets whose sender is known. -/
theorem safe_teredoRunInner (hclient : tun.client = true) (hdisc : tun.discNetmask = none)
    (hpfx : in6TeredoPrefix tun.state.addr = pfx) :
    Safe key pfx (teredoRunInner key tun now time packet) .none
      (h ++ [.input (.packet now time packet)]) := by
  have hislocal : teredoIslocal tun packet = false := by
    unfold teredoIslocal
    rw [hdisc]
  unfold teredoRunInner
  by_cases hwf : packet.WellFormed
  · rw [if_neg (not_not.mpr hwf), if_pos hclient]
    split_ifs with hmaint hup
    · exact ⟨trivial, fun _ => trivial⟩
    · unfold Safe
      rw [wp_bind]
      refine wp_fromServer fun b evs hevs => ?_
      split_ifs
      · trivial
      · exact safe_receive hclient hislocal hpfx hwf ⟨h, evs, by simp, hevs⟩
    · trivial
  · rw [if_pos hwf]
    trivial

end Receive

/-! ### Down -/

variable {Φ : List RelayEv → In6Addr → Peer → Prop}

theorem wp_teredoRunInner_down {packet : TeredoPacket} (hclient : tun.client = true)
    (hdown : tun.state.up = false) :
    (teredoRunInner key tun now time packet).wp Peer.init Φ (Allowed key pfx)
      (fun _ c h => c.Closed Φ h) .none h := by
  unfold teredoRunInner
  rw [if_pos hclient, hdown]
  split_ifs with hwf hmaint hup
  · exact ⟨trivial, fun _ => trivial⟩
  · exact nomatch hup
  · trivial
  · trivial

theorem wp_teredoTransmit_down (hclient : tun.client = true) (hdown : tun.state.up = false) :
    (teredoTransmit tun now packet).wp Peer.init Φ (Allowed key pfx)
      (fun _ c h => c.Closed Φ h) .none h := by
  unfold teredoTransmit
  dsimp only
  by_cases hmulti : isMulticast (ip6Dst packet)
  · rw [if_pos hmulti]
    trivial
  · rw [if_neg hmulti, if_pos ⟨hclient, by simp [hdown]⟩]
    exact ⟨trivial, fun _ => trivial⟩

end Programs

end Maiccu.Teredo
