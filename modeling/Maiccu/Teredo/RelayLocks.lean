import Maiccu.Teredo.PeerPaths
import Maiccu.Teredo.Relay

/-!
# The lock of the peer list in the relay

Every path through `teredo_transmit` and `teredo_run_inner` gives the lock of the peer list back
once for each lookup that succeeds. `teredo_transmit` accesses the record only with the lock.
`teredo_run_inner` does not: it counts the reply to a discovery bubble after the release, and
`teredo_predecap` reads the mapping after the release if there are packets in the queue.
-/

namespace Maiccu.Teredo

open Maiccu.Lib PeerProg

attribute [local irreducible] trimmed

section Locks

variable {Q : Unit → Option Peer → Bool → List (Looked Peer) → Prop}
  {R : ℤ → Option Peer → Bool → List (Looked Peer) → Prop}
  {c : Option Peer} {p : Peer} {g : Bool} {fs : List (Looked Peer)}

/-! ## Sending -/

section Transmit

variable {tun : Tunnel} {now : UInt64} {packet : List UInt8} {created : Bool}

theorem lockWp_unreachable {code : UInt8} (h : R 0 c g fs) :
    (unreachable code packet).lockWp Peer.init R c g fs := by
  intro b
  exact h

section

variable (h : ∀ r, R r none g fs)
include h

theorem lockWp_transmitPing :
    (transmitPing tun now packet created).lockWp Peer.init R (some p) g fs := by
  unfold transmitPing
  simp only [lockWp_bind, lockWp_modifyPeer, lockWp_withPeer_some, lockWp_teredoListRelease]
  refine ⟨rfl, ?_⟩
  split
  · rw [lockWp_bind, lockWp_invoke]
    intro ok
    split_ifs
    · exact h _
    · exact lockWp_unreachable (h _)
  · exact h _
  · exact lockWp_unreachable (h _)

theorem lockWp_transmitLocal : (transmitLocal tun now packet).lockWp Peer.init R (some p) g fs := by
  unfold transmitLocal
  simp only [lockWp_bind, lockWp_modifyPeer, lockWp_withPeer_some, lockWp_getPeer_some,
    lockWp_teredoListRelease]
  refine ⟨rfl, ?_⟩
  split
  · rw [lockWp_bind, lockWp_invoke]
    intro sent
    split_ifs
    · intro sent' released
      exact h _
    · intro released
      exact h _
  · exact h _
  · exact lockWp_unreachable (h _)

theorem lockWp_transmitBubble :
    (transmitBubble tun now packet created).lockWp Peer.init R (some p) g fs := by
  unfold transmitBubble
  simp only [lockWp_bind, lockWp_modifyPeer, lockWp_withPeer_some, lockWp_teredoListRelease]
  refine ⟨rfl, ?_⟩
  split
  · have hindirect : ∀ direct : Bool, (if ¬ direct then pure (-1) else do
        let ok ← invoke (.bubbleFromDst (ip6Dst packet) true)
        pure (if ok then 0 else -1) : RelayProg ℤ).lockWp Peer.init R none g fs := by
      intro direct
      split_ifs
      · intro ok
        exact h _
      · exact h _
    split_ifs
    · exact hindirect true
    · rw [lockWp_bind, lockWp_invoke]
      exact hindirect
  · exact h _
  · exact lockWp_unreachable (h _)

theorem lockWp_transmitConnect :
    (transmitConnect tun now packet created).lockWp Peer.init R (some p) g fs := by
  unfold transmitConnect
  split_ifs
  · exact lockWp_transmitPing h
  · simp only [lockWp_bind, lockWp_getPeer_some]
    split_ifs
    · exact lockWp_transmitLocal h
    · exact lockWp_transmitBubble h

end

theorem lockWp_teredoTransmit (h : ∀ r fs, R r none g fs) :
    (teredoTransmit tun now packet).lockWp Peer.init R none g fs := by
  unfold teredoTransmit
  dsimp only
  split_ifs
  · exact h _ _
  · exact lockWp_unreachable (h _ _)
  · exact lockWp_unreachable (h _ _)
  · exact lockWp_unreachable (h _ _)
  · exact h _ _
  · rw [lockWp_bind, lockWp_teredoListLookup]
    refine ⟨rfl, h _ _, fun p => ?_, fun _ junk => ?_⟩
    · rw [lockWp_bind, lockWp_getPeer_some]
      split_ifs
      · exact ⟨rfl, fun _ => h _ _⟩
      · exact lockWp_transmitConnect fun r => h r _
    · rw [lockWp_bind, lockWp_modifyPeer]
      exact lockWp_transmitConnect fun r => h r _

end Transmit

/-! ## Receiving -/

section RunInner

variable {key : Keyed} {tun : Tunnel} {now : UInt64} {time : UInt32} {packet : TeredoPacket}

variable {port : Port}

theorem lockWp_emitOne {q : Queued} {ip : Ipv4} (h : Q () c g fs) :
    (emitOne q ip port).lockWp Peer.init Q c g fs := by
  unfold emitOne
  split_ifs
  · intro b
    exact h
  · exact h
  · intro b
    exact h

theorem lockWp_teredoQueueEmit {q : List Queued} {ip : Ipv4} (h : Q () c g fs) :
    (teredoQueueEmit q ip port).lockWp Peer.init Q c g fs := by
  induction q with
  | nil => exact h
  | cons q qs ih =>
    rw [teredoQueueEmit, lockWp_bind]
    exact lockWp_emitOne ih

/-- `teredo_predecap` reads the mapping without the lock if the queue is not empty. -/
theorem lockWp_teredoPredecap (h : Q () none (g && decide (p.queue = [])) fs) :
    (teredoPredecap now).lockWp Peer.init Q (some p) g fs := by
  unfold teredoPredecap
  simp only [lockWp_bind, lockWp_modifyPeer, lockWp_withPeer_some, lockWp_teredoListRelease]
  refine ⟨rfl, ?_⟩
  show (if p.queue = [] then _ else _ : RelayProg Unit).lockWp Peer.init Q none g fs
  split_ifs with hq
  · rw [decide_eq_true hq, Bool.and_true] at h
    exact h
  · rw [decide_eq_false hq, Bool.and_false] at h
    rw [lockWp_bind, lockWp_getPeer_none]
    exact fun p => lockWp_teredoQueueEmit h

theorem lockWp_fromServer {S : Bool → Option Peer → Bool → List (Looked Peer) → Prop}
    (h : ∀ b, S b c g fs) : (fromServer tun packet).lockWp Peer.init S c g fs := by
  unfold fromServer teredoReplyBubble
  dsimp only
  split_ifs
  · exact h _
  · rw [lockWp_bind]
    intro b
    exact h _
  · exact h _
  · exact h _

theorem lockWp_receiveDiscovered (h : Q () none false fs) :
    (receiveDiscovered tun now packet).lockWp Peer.init Q (some p) g fs := by
  unfold receiveDiscovered
  simp only [lockWp_bind, lockWp_modifyPeer, lockWp_teredoListRelease, lockWp_withPeer_none]
  refine ⟨rfl, fun p => ?_⟩
  split_ifs
  · intro b
    exact h
  · exact h

theorem lockWp_receiveTrusted (h : Q () none (g && decide (p.queue = [])) fs) :
    (receiveTrusted now packet).lockWp Peer.init Q (some p) g fs := by
  unfold receiveTrusted
  rw [lockWp_bind, lockWp_modifyPeer, lockWp_bind]
  refine lockWp_teredoPredecap ?_
  split_ifs
  · exact h
  · rw [lockWp_bind, lockWp_invoke]
    exact fun b => h

theorem lockWp_receivePing (h : Q () none g fs) :
    (receivePing tun now packet).lockWp Peer.init Q (some p) g fs := by
  unfold receivePing
  simp only [lockWp_bind, lockWp_modifyPeer, lockWp_withPeer_some, lockWp_teredoListRelease]
  refine ⟨rfl, ?_⟩
  split_ifs
  · intro b
    exact h
  · exact h

end RunInner

end Locks

/-! ## When the record is accessed too late -/

section LateAccess

variable (key : Keyed) (tun : Tunnel) (now : UInt64) (time : UInt32) (packet : TeredoPacket)

def discovers : Bool := teredoIslocal tun packet && isDiscoveryBubble packet

def fromTeredo : Bool :=
  decide (in6TeredoPrefix (ip6Src packet.ip6) = in6TeredoPrefix tun.state.addr)

/-- The packet is accepted from the peer `p`: client cases 1, 2, 3 and 5. -/
def vouches (p : Peer) : Bool :=
  (p.trusted && fromMapping packet p) || (tun.client && checkPing key time packet) ||
    (fromTeredo tun packet && acceptsTeredo key tun packet (some p))

/-- The record is accessed after the release, by what the lookups return: the packet is a discovery
bubble and there is a record, or it is accepted from a peer that has packets in its queue. -/
def LateAccess : List (Looked Peer) → Prop
  | [.found p] =>
    discovers tun packet = true ∨ (¬ isMulticast (ip6Dst packet.ip6) ∧
      vouches key tun time packet p = true ∧ p.queue ≠ [])
  | [.null, .found p] =>
    discovers tun packet = true ∨ (fromTeredo tun packet = true ∧ p.queue ≠ [])
  | [.null, .created _] => discovers tun packet = true
  | _ => False

def Exact (c : Option Peer) (g : Bool) (fs : List (Looked Peer)) : Prop :=
  c = none ∧ (g = true ↔ ¬ LateAccess key tun time packet fs)

variable {key tun now time packet}

theorem lockWp_receiveDiscovery_null (hd : discovers tun packet = true) :
    (receiveDiscovery tun now packet .null).lockWp Peer.init
      (fun _ => Exact key tun time packet) none true [.null] := by
  have hlate : ∀ {r : Looked Peer}, LateAccess key tun time packet [.null, r] →
      Exact key tun time packet none false [.null, r] :=
    fun h => ⟨rfl, by simp [h]⟩
  unfold receiveDiscovery
  rw [lockWp_bind, lockWp_teredoListLookup]
  refine ⟨rfl, ⟨rfl, by simp [LateAccess]⟩, fun p => ?_, fun _ junk => ?_⟩
  · rw [lockWp_bind, lockWp_modifyPeer]
    exact lockWp_receiveDiscovered (hlate (Or.inl hd))
  · rw [lockWp_bind, lockWp_modifyPeer]
    exact lockWp_receiveDiscovered (hlate hd)

theorem lockWp_receiveUntrusted_none (hd : ¬ discovers tun packet = true) :
    (receiveUntrusted key tun now packet none).lockWp Peer.init
      (fun _ => Exact key tun time packet) none true [.null] := by
  have hnull : Exact key tun time packet none true [.null] := ⟨rfl, by simp [LateAccess]⟩
  have hnulls : Exact key tun time packet none true [.null, .null] := ⟨rfl, by simp [LateAccess]⟩
  have hcreated : ∀ junk, Exact key tun time packet none true [.null, .created junk] :=
    fun junk => ⟨rfl, by simp [LateAccess, hd]⟩
  unfold receiveUntrusted
  split_ifs with ht hacc hp
  · unfold receiveTeredo
    split_ifs
    · rw [lockWp_bind, lockWp_teredoListLookup]
      refine ⟨rfl, hnulls, fun p => ?_, fun _ junk => ?_⟩
      · rw [lockWp_bind, lockWp_modifyPeer]
        exact lockWp_receiveTrusted ⟨rfl, by simp [LateAccess, hd, fromTeredo, ht]⟩
      · rw [lockWp_bind, lockWp_modifyPeer]
        exact lockWp_receiveTrusted (hcreated junk)
    · exact hnull
  · cases hp
  · exact hnull
  · unfold receiveOther
    rw [lockWp_bind, lockWp_teredoListLookup]
    refine ⟨rfl, hnulls, fun p => ?_, fun _ junk => ?_⟩
    · exact lockWp_receivePing ⟨rfl, by simp [LateAccess, hd, fromTeredo, ht]⟩
    · rw [lockWp_bind, lockWp_modifyPeer]
      exact lockWp_receivePing (hcreated junk)

theorem lockWp_receiveListed (hd : ¬ discovers tun packet = true)
    (hm : ¬ isMulticast (ip6Dst packet.ip6)) (p : Peer) :
    (receiveListed key tun now time packet).lockWp Peer.init
      (fun _ => Exact key tun time packet) (some p) true [.found p] := by
  have hvouched : vouches key tun time packet p = true →
      Exact key tun time packet none (true && decide (p.queue = [])) [.found p] :=
    fun hv => ⟨rfl, by simp [LateAccess, hd, hm, hv]⟩
  have hrejected : ¬ vouches key tun time packet p = true →
      Exact key tun time packet none true [.found p] :=
    fun hv => ⟨rfl, by simp [LateAccess, hd, hv]⟩
  unfold receiveListed
  rw [lockWp_bind, lockWp_getPeer_some]
  split_ifs with htrusted hping
  · rw [lockWp_bind]
    refine lockWp_teredoPredecap ?_
    rw [lockWp_bind, lockWp_invoke]
    exact fun b => hvouched (by rw [vouches, htrusted, Bool.true_or, Bool.true_or])
  · rw [lockWp_bind, lockWp_modifyPeer]
    exact lockWp_teredoPredecap
      (hvouched (by rw [vouches, hping, Bool.or_true, Bool.true_or]))
  · unfold receiveUntrusted
    have hv : vouches key tun time packet p =
        (fromTeredo tun packet && acceptsTeredo key tun packet (some p)) := by
      rw [vouches, Bool.eq_false_iff.mpr htrusted, Bool.eq_false_iff.mpr hping, Bool.false_or,
        Bool.false_or]
    split_ifs with ht hacc
    · exact lockWp_receiveTrusted (hvouched (by simp [hv, fromTeredo, ht, hacc]))
    · exact ⟨rfl, hrejected (by simp [hv, hacc])⟩
    · exact absurd rfl ‹¬ (some p).isSome = true›
    · exact lockWp_receivePing (hrejected (by simp [hv, fromTeredo, ht]))

theorem lockWp_receive : (receive key tun now time packet).lockWp Peer.init
      (fun _ => Exact key tun time packet) none true [] := by
  unfold receive
  rw [lockWp_bind, lockWp_teredoListLookup]
  simp only [reduceCtorEq, if_true, if_false]
  refine ⟨trivial, ?_, fun p => ?_, by simp⟩
  · split_ifs with hd hm
    · exact lockWp_receiveDiscovery_null hd
    · exact ⟨rfl, by simp [LateAccess]⟩
    · exact lockWp_receiveUntrusted_none hd
  · split_ifs with hd hm
    · exact lockWp_receiveDiscovered ⟨rfl, by simp [LateAccess, discovers, hd]⟩
    · exact ⟨rfl, rfl, by simp [LateAccess, discovers, hd, hm]⟩
    · exact lockWp_receiveListed hd hm p

theorem lockWp_teredoRunInner : (teredoRunInner key tun now time packet).lockWp Peer.init
      (fun _ => Exact key tun time packet) none true [] := by
  have hnone : Exact key tun time packet none true [] := ⟨rfl, by simp [LateAccess]⟩
  unfold teredoRunInner
  by_cases hwf : packet.WellFormed
  · rw [if_neg (not_not.mpr hwf)]
    split_ifs
    · intro b
      exact hnone
    · rw [lockWp_bind]
      refine lockWp_fromServer fun b => ?_
      split_ifs
      · exact hnone
      · exact lockWp_receive
    · exact hnone
    · exact hnone
    · exact lockWp_receive
  · rw [if_pos hwf]
    exact hnone

end LateAccess

/-- **The lock of the peer list.** On every path the lock is given back once for each lookup that
succeeds. `teredo_transmit` accesses the record only in between; `teredo_run_inner` does so just if
there is no `LateAccess`. -/
theorem peer_list_lock (tun : Tunnel) (now : UInt64) :
    (∀ packet fs ops, Path Peer.init (teredoTransmit tun now packet) none fs ops →
      locks false ops = some false ∧ guarded false ops = true) ∧
    ∀ key time packet fs ops, Path Peer.init (teredoRunInner key tun now time packet) none fs ops →
        locks false ops = some false ∧
          (guarded false ops = true ↔ ¬ LateAccess key tun time packet fs) := by
  constructor
  · intro packet fs ops hpath
    have hx : (teredoTransmit tun now packet).lockWp Peer.init
        (fun _ c g _ => c = none ∧ g = true) none true [] :=
      lockWp_teredoTransmit fun _ _ => ⟨rfl, rfl⟩
    obtain ⟨-, c, hlocks, rfl, hg⟩ := hpath.of_lockWp hx
    exact ⟨hlocks, hg⟩
  · intro key time packet fs ops hpath
    obtain ⟨-, c, hlocks, rfl, hg⟩ := hpath.of_lockWp lockWp_teredoRunInner
    exact ⟨hlocks, hg⟩

/-! ## A late access -/

/-- The address of a client of the server `83.170.6.76`, behind `192.0.2.45` and port `40000`. -/
def clientAddr : In6Addr :=
  bytes [0x20, 1, 0, 0, 83, 170, 6, 76, 0, 0, 0x63, 0xbf, 0x3f, 0xff, 0xfd, 0xd2]

def plainRelay : Tunnel := ⟨false, none, none, clientAddr, 1280, anyIpv4, true⟩

def peerPacket : TeredoPacket :=
  .plain ([0x60, 0, 0, 0, 0, 0, 59, 64] ++ clientAddr.toList ++ clientAddr.toList)
    (bytes [192, 0, 2, 45]) (bytes (be 2 40000))

def queuedPeer : Peer where
  queue := [⟨[7], anyIpv4, anyPort, false⟩]
  queueLeft := 1279
  lastRx := 0
  lastTx := 0
  lastPing := 0
  mappedAddr := bytes [192, 0, 2, 45]
  mappedPort := bytes (be 2 40000)
  trusted := true
  isLocal := false
  bubbles := 0
  pings := 0

def zeroKey : Keyed := ⟨bytes [0, 0], fun _ _ _ => field [] 0 16⟩

theorem late_access_of_queue : ∃ ops,
    Path Peer.init (teredoRunInner zeroKey plainRelay 5 0 peerPacket) none [.found queuedPeer] ops ∧
      guarded false ops = false :=
  ⟨_, .found queuedPeer <| .read <| .write <| .read <| .write <| .release <|
    .readStale queuedPeer <| .call true <| .call true <| .ret () none, rfl⟩

theorem peer_list_lock_empty_queue : ∃ ops,
    Path Peer.init (teredoRunInner zeroKey plainRelay 5 0 peerPacket) none
        [.found { queuedPeer with queue := [] }] ops ∧
      guarded false ops = true := by
  have hpath : Path Peer.init (teredoRunInner zeroKey plainRelay 5 0 peerPacket) none
      [.found { queuedPeer with queue := [] }] _ :=
    .found _ <| .read <| .write <| .read <| .write <| .release <| .call true <| .ret () none
  have hlate : ¬ LateAccess zeroKey plainRelay 0 peerPacket
      [.found { queuedPeer with queue := [] }] := by
    rintro (hd | ⟨-, -, hq⟩)
    · cases hd
    · exact hq rfl
  exact ⟨_, hpath, ((peer_list_lock plainRelay 5).2 _ _ _ _ _ hpath).2.mpr hlate⟩

end Maiccu.Teredo
