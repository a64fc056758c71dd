import Maiccu.Teredo.RelayLocks
import Maiccu.Teredo.RelayRuns

/-!
# Local discovery bubbles

A local discovery bubble (client case 4 of `teredo_run_inner`) sets the mapping of the peer to where
it came from, and leaves the flag `trusted` of the record. So a peer that was trusted at one address
is then trusted at another one, which nothing has vouched for.
-/

namespace Maiccu.Teredo

open Maiccu.Lib PeerProg

attribute [local irreducible] trimmed

/-- The packet is not dropped before the peer list is used. -/
structure Reaches (tun : Tunnel) (packet : TeredoPacket) : Prop where
  wellFormed : packet.WellFormed
  notMaintenance : tun.client = true → ¬ packet.ForMaintenance
  up : tun.client = true → tun.state.up = true
  /-- It is no bubble that the server has passed on. -/
  notServer : tun.client = true → ¬ (packet.sourceIpv4 = in6TeredoServer tun.state.addr ∧
    packet.sourcePort = ipportTeredo ∧ (serverOrigin tun packet).1 ≠ anyIpv4)
  notLinkLocal : tun.client = true → ¬ isLinkLocal (ip6Src packet.ip6)

section Discovery

variable {key : Keyed} {tun : Tunnel} {now : UInt64} {time : UInt32} {packet : TeredoPacket}

section

variable (h : discovers tun packet = true)
include h

theorem prefix_of_discovers :
    in6TeredoPrefix (ip6Src packet.ip6) = in6TeredoPrefix tun.state.addr := by
  have hlocal : teredoIslocal tun packet = true := (Bool.and_eq_true_iff.mp h).1
  unfold teredoIslocal at hlocal
  split at hlocal
  · simp only [Bool.and_eq_true, decide_eq_true_eq] at hlocal
    exact hlocal.1.1
  · cases hlocal

theorem isBubble_of_discovers : isBubble packet.ip6 = true := by
  have hbubble : isDiscoveryBubble packet = true := (Bool.and_eq_true_iff.mp h).2
  simp only [isDiscoveryBubble, Bool.and_eq_true] at hbubble
  exact hbubble.1.1

theorem receive_of_discovers : receive key tun now time packet =
      .lookup (ip6Src packet.ip6) false fun r => receiveDiscovery tun now packet r := by
  have hd : (teredoIslocal tun packet && isDiscoveryBubble packet) = true := h
  unfold receive
  simp only [hd, if_true]
  rfl

end

theorem runInner_of_reaches (hd : discovers tun packet = true) (h : Reaches tun packet) :
    teredoRunInner key tun now time packet =
      .lookup (ip6Src packet.ip6) false fun r => receiveDiscovery tun now packet r := by
  rw [← receive_of_discovers hd]
  unfold teredoRunInner
  rw [if_neg (not_not.mpr h.wellFormed)]
  by_cases hclient : tun.client = true
  · have hserver : fromServer tun packet = pure false := by
      unfold fromServer
      split_ifs with hsource
      · dsimp only
        rw [if_pos]
        by_contra horigin
        exact h.notServer hclient ⟨hsource.1, hsource.2, horigin⟩
      · rfl
    rw [if_pos hclient, if_neg (h.notMaintenance hclient), if_neg (not_not.mpr (h.up hclient)),
      hserver]
    show (if false = true ∨ isLinkLocal (ip6Src packet.ip6) then _ else _) = _
    rw [if_neg (by simp [h.notLinkLocal hclient])]
  · rw [if_neg hclient, if_neg (not_not.mpr (prefix_of_discovers hd))]

theorem countBubble_fields {p : Peer} :
    (p.countBubble now).2.trusted = p.trusted ∧ (p.countBubble now).2.mappedAddr = p.mappedAddr ∧
      (p.countBubble now).2.mappedPort = p.mappedPort := by
  unfold Peer.countBubble
  dsimp only
  split_ifs <;> exact ⟨rfl, rfl, rfl⟩

/-- The record after a discovery bubble: the mapping is new, the trust is not. -/
def Remapped (packet : TeredoPacket) (trusted : Bool) (p : Peer) : Prop :=
  p.trusted = trusted ∧ p.mappedAddr = packet.sourceIpv4 ∧ p.mappedPort = packet.sourcePort

section Wp

variable {Φ : List RelayEv → In6Addr → Peer → Prop}
  {Q : Unit → Cur In6Addr Peer → List RelayEv → Prop} {k : In6Addr} {p : Peer} {h : List RelayEv}

theorem wp_receiveDiscovered (hQ : ∀ h p', Remapped packet p.trusted p' → Q () (.stale k p') h) :
    (receiveDiscovered tun now packet).wp Peer.init Φ (fun _ _ => True) Q (.locked k p) h := by
  unfold receiveDiscovered
  simp only [wp_bind, wp_modifyPeer, wp_teredoListRelease]
  obtain ⟨p₁, hp₁⟩ : ∃ p₁, p₁ = ((
    { (if p.isLocal then p else { p with bubbles := 0 }).setMapping packet.sourceIpv4
        packet.sourcePort with isLocal := true } : Peer).touchReceive now) := ⟨_, rfl⟩
  have hremapped : Remapped packet p.trusted (p₁.countBubble now).2 := by
    obtain ⟨htrusted, haddr, hport⟩ := countBubble_fields
    refine ⟨htrusted.trans ?_, haddr.trans ?_, hport.trans ?_⟩
    · rw [hp₁]
      show (if p.isLocal then p else { p with bubbles := 0 }).trusted = p.trusted
      split_ifs <;> rfl
    · rw [hp₁]
      rfl
    · rw [hp₁]
      rfl
  rw [← hp₁]
  -- the bubble is counted on the record that was given back
  show PeerProg.wp _ _ _ (if (p₁.countBubble now).1 = .send then _ else _) Q
    (.stale k (p₁.countBubble now).2) h
  split_ifs
  · exact ⟨trivial, fun b => hQ _ _ hremapped⟩
  · exact hQ _ _ hremapped

theorem wp_receiveDiscovery_null (hnone : ∀ h, Q () .none h)
    (hQ : ∀ h p', Remapped packet false p' → Q () (.stale (ip6Src packet.ip6) p') h) :
    (receiveDiscovery tun now packet .null).wp Peer.init Φ (fun _ _ => True) Q .none h := by
  unfold receiveDiscovery
  rw [wp_bind, wp_teredoListLookup]
  refine ⟨trivial, hnone _, fun p _ => ?_, fun _ junk => ?_⟩
  · rw [wp_bind, wp_modifyPeer]
    exact wp_receiveDiscovered hQ
  · rw [wp_bind, wp_modifyPeer]
    exact wp_receiveDiscovered hQ

theorem wp_fromServer_bubble {R : Bool → Cur In6Addr Peer → List RelayEv → Prop}
    (hbubble : isBubble packet.ip6 = true)
    (hR : ∀ b h, (b = false → ¬ (packet.sourceIpv4 = in6TeredoServer tun.state.addr ∧
      packet.sourcePort = ipportTeredo ∧ (serverOrigin tun packet).1 ≠ anyIpv4)) → R b .none h) :
    (fromServer tun packet).wp Peer.init Φ (fun _ _ => True) R .none h := by
  have htrue : ∀ h, R true .none h := fun h => hR true h fun h => Bool.noConfusion h
  unfold fromServer teredoReplyBubble
  rw [hbubble]
  split_ifs with hsource
  · dsimp only
    split_ifs with horigin hglobal
    · exact hR false _ fun _ hs => hs.2.2 horigin
    · exact ⟨trivial, fun _ => htrue _⟩
    · exact htrue _
  · exact hR false _ fun _ hs => hsource ⟨hs.1, hs.2.1⟩

theorem wp_runInner_of_not_reaches (hd : discovers tun packet = true) (hr : ¬ Reaches tun packet)
    (hnone : ∀ h, Q () .none h) :
    (teredoRunInner key tun now time packet).wp Peer.init Φ (fun _ _ => True) Q .none h := by
  unfold teredoRunInner
  by_cases hwf : packet.WellFormed
  swap
  · rw [if_pos hwf]
    exact hnone _
  rw [if_neg (not_not.mpr hwf)]
  by_cases hclient : tun.client = true
  swap
  · exact absurd ⟨hwf, fun h => absurd h hclient, fun h => absurd h hclient,
      fun h => absurd h hclient, fun h => absurd h hclient⟩ hr
  rw [if_pos hclient]
  by_cases hmaint : packet.ForMaintenance
  · rw [if_pos hmaint]
    exact ⟨trivial, fun _ => hnone _⟩
  by_cases hup : tun.state.up = true
  swap
  · rw [if_neg hmaint, if_pos hup]
    exact hnone _
  rw [if_neg hmaint, if_neg (not_not.mpr hup), wp_bind]
  refine wp_fromServer_bubble (isBubble_of_discovers hd) fun b h hserver => ?_
  rw [if_pos]
  · exact hnone _
  · by_contra hgo
    rw [not_or, Bool.not_eq_true] at hgo
    exact hr ⟨hwf, fun _ => hmaint, fun _ => hup, fun _ => hserver hgo.1, fun _ => hgo.2⟩

end Wp

/-! ## On the list -/

variable (t : PeerTable In6Addr Peer)

def TrustedAt (k : In6Addr) (ip : Ipv4) (port : Port) : Prop :=
  ∃ p, t.find k = some p ∧ p.trusted = true ∧ p.mappedAddr = ip ∧ p.mappedPort = port

/-- Whoever is trusted in `t'`, at an address and a port, is trusted there in `t`. -/
def NoNewTrust (t' : PeerTable In6Addr Peer) : Prop :=
  ∀ k ip port, TrustedAt t' k ip port → TrustedAt t k ip port

def SameAs (_ : List RelayEv) (k : In6Addr) (p : Peer) : Prop :=
  t.find k = some p

theorem stable_sameAs {t : PeerTable In6Addr Peer} : Stable (SameAs t) where
  created _ hk _ := hk
  called _ _ hk := hk

variable {A : Type} {l : PeerList In6Addr Peer A} {t} {rs os gs : List A}
  {h : List RelayEv} {ptr : Option A} {k : In6Addr} {p : Peer}

theorem holds_sameAs (hrep : Rep l t rs os gs) (hheld : l.held = none) :
    Holds (SameAs t) h l none .none :=
  ⟨hheld, t, rs, os, gs, hrep, fun _ he => (PeerTable.find_eq_some_iff hrep.ok.nodup).mpr he⟩

theorem noNewTrust_of_holds (hl : Holds (SameAs t) h l ptr .none) :
    ∃ t' rs' os' gs', Rep l t' rs' os' gs' ∧ NoNewTrust t t' := by
  obtain ⟨-, t', rs', os', gs', hrep', hall⟩ := hl
  refine ⟨t', rs', os', gs', hrep', fun k ip port ⟨p, hp, htrusted⟩ => ⟨p, ?_, htrusted⟩⟩
  exact hall _ (PeerTable.mem_of_find hp)

theorem table_of_holds (hl : Holds (SameAs t) h l ptr (.stale k p)) :
    ∃ t' rs' os' gs', Rep l t' rs' os' gs' ∧ t'.find k = some p ∧
      ∀ j q, j ≠ k → t'.find j = some q → t.find j = some q := by
  obtain ⟨-, a, t', rs', os', gs', r, hrep', -, -, hrec, hall⟩ := hl
  refine ⟨t', rs', os', gs', hrep', ?_, fun j q hj hq => ?_⟩
  · refine (PeerTable.find_eq_some_iff hrep'.ok.nodup).mpr ?_
    rw [PeerTable.entries, hrec]
    exact List.mem_cons_self
  · have hmem := PeerTable.mem_of_find hq
    rw [PeerTable.entries, hrec, List.cons_append, List.mem_cons] at hmem
    rcases hmem with heq | hmem
    · exact absurd (congrArg Prod.fst heq) hj
    · exact hall _ hmem

/-- What has become of the table, after the record of the peer was mapped to the source of the
packet. Trust is new only for a peer that was trusted elsewhere. -/
theorem noNewTrust_iff {t' : PeerTable In6Addr Peer} {p' : Peer} {S : In6Addr}
    (hfind : t.find S = some p) (hfind' : t'.find S = some p')
    (hother : ∀ j q, j ≠ S → t'.find j = some q → t.find j = some q)
    (hp' : Remapped packet p.trusted p') :
    NoNewTrust t t' ↔ ∀ q, t.find S = some q → q.trusted = true →
      q.mappedAddr = packet.sourceIpv4 ∧ q.mappedPort = packet.sourcePort := by
  constructor
  · intro hnew q hq htrusted
    obtain rfl : p = q := Option.some.inj (hfind.symm.trans hq)
    obtain ⟨q, hq', -, haddr, hport⟩ := hnew S packet.sourceIpv4 packet.sourcePort
      ⟨p', hfind', hp'.1.trans htrusted, hp'.2.1, hp'.2.2⟩
    obtain rfl : p = q := Option.some.inj (hfind.symm.trans hq')
    exact ⟨haddr, hport⟩
  · rintro hmapped k ip port ⟨q, hq, htrusted, rfl, rfl⟩
    by_cases hk : k = S
    · subst hk
      obtain rfl : p' = q := Option.some.inj (hfind'.symm.trans hq)
      have hold : p.trusted = true := hp'.1.symm.trans htrusted
      obtain ⟨haddr, hport⟩ := hmapped p hfind hold
      exact ⟨p, hfind, hold, haddr.trans hp'.2.1.symm, hport.trans hp'.2.2.symm⟩
    · exact ⟨q, hother k q hk hq, htrusted, rfl, rfl⟩

variable [DecidableEq A]

theorem run_discovery_found (hrep : Rep l t rs os gs) (hheld : l.held = none)
    (hfind : t.find (ip6Src packet.ip6) = some p) (e : Env In6Addr Peer A) :
    ∃ (evs : List RelayEv) (l' : PeerList In6Addr Peer A) (ptr : Option A) (p' : Peer),
      (PeerProg.lookup (ip6Src packet.ip6) false fun r => receiveDiscovery tun now packet r).run
          Peer.init none e l = some ((), evs, l') ∧
        Holds (SameAs t) evs l' ptr (.stale (ip6Src packet.ip6) p') ∧
        Remapped packet p.trusted p' := by
  have hlist : Holds (SameAs t) ([] : List RelayEv) l none .none := holds_sameAs hrep hheld
  obtain ⟨r, l₁, hlook, hl₁⟩ := hlist.lookup Peer.init stable_sameAs (ip6Src packet.ip6) false
    (e.blocks.headD (false, none)).1 (e.blocks.headD (false, none)).2
  obtain ⟨a, l₂, hlook'⟩ := lookup_found Peer.init hrep (by rw [hfind]; simp)
  rw [hlook] at hlook'
  cases hlook'
  obtain ⟨q, hq, hl₁⟩ := hl₁
  obtain rfl : p = q := Option.some.inj (hfind.symm.trans hq)
  obtain ⟨⟨⟩, evs, l', ptr, c, hrun, ⟨p', rfl, hp'⟩, hl', -⟩ := run_of_wp Peer.init stable_sameAs
    (receiveDiscovered tun now packet)
    (wp_receiveDiscovered (Q := fun _ c _ => ∃ p', c = .stale (ip6Src packet.ip6) p' ∧
      Remapped packet p.trusted p') fun _ p' hp' => ⟨p', rfl, hp'⟩)
    { e with blocks := e.blocks.tail } hl₁
  refine ⟨evs, l', ptr, p', ?_, hl', hp'⟩
  have hfirst : (PeerProg.lookup (ip6Src packet.ip6) false
      fun r => receiveDiscovery tun now packet r).run (I := Input) Peer.init none e l = _ :=
    if_neg (not_not.mpr hheld)
  simp only [hlook] at hfirst
  exact hfirst.trans hrun

theorem run_discovery_new (hrep : Rep l t rs os gs) (hheld : l.held = none)
    (hfind : t.find (ip6Src packet.ip6) = none) (e : Env In6Addr Peer A) :
    ∃ (evs : List RelayEv) (l' : PeerList In6Addr Peer A) (t' : PeerTable In6Addr Peer)
      (rs' os' gs' : List A),
      (PeerProg.lookup (ip6Src packet.ip6) false fun r => receiveDiscovery tun now packet r).run
          Peer.init none e l = some ((), evs, l') ∧
        Rep l' t' rs' os' gs' ∧ NoNewTrust t t' := by
  have hwp : (PeerProg.lookup (ip6Src packet.ip6) false
      fun r => receiveDiscovery tun now packet r).wp Peer.init (SameAs t) (fun _ _ => True)
      (fun _ c _ => c = .none ∨ ∃ p', c = .stale (ip6Src packet.ip6) p' ∧ Remapped packet false p')
      .none [] := by
    refine ⟨trivial, wp_receiveDiscovery_null (fun _ => .inl rfl)
      (fun _ p' hp' => .inr ⟨p', rfl, hp'⟩), fun p hp => ?_, fun hc => Bool.noConfusion hc⟩
    exact nomatch hfind.symm.trans hp
  obtain ⟨⟨⟩, evs, l', ptr, c, hrun, rfl | ⟨p', rfl, hp'⟩, hl', -⟩ :=
    run_of_wp Peer.init stable_sameAs _ hwp e (holds_sameAs hrep hheld)
  · obtain ⟨t', rs', os', gs', hrep', hnew⟩ := noNewTrust_of_holds hl'
    exact ⟨evs, l', t', rs', os', gs', hrun, hrep', hnew⟩
  · obtain ⟨t', rs', os', gs', hrep', hfind', hother⟩ := table_of_holds hl'
    refine ⟨evs, l', t', rs', os', gs', hrun, hrep', ?_⟩
    rintro k ip port ⟨q, hq, htrusted, hmapped⟩
    by_cases hk : k = ip6Src packet.ip6
    · subst hk
      obtain rfl : p' = q := Option.some.inj (hfind'.symm.trans hq)
      exact absurd (hp'.1.symm.trans htrusted) Bool.false_ne_true
    · exact ⟨q, hother k q hk hq, htrusted, hmapped⟩

/-- **Who is trusted after a local discovery bubble.** No peer is trusted at an address and a port
at which it was not trusted before, exactly if the bubble was dropped or its sender is not a trusted
peer with another mapping. -/
theorem discovery_trust (key : Keyed) (r : Relay A) (e : Env In6Addr Peer A) (now : UInt64)
    (time : UInt32) (packet : TeredoPacket) (hd : discovers r.tunnel packet = true)
    (hrep : Rep r.list t rs os gs) (hheld : r.list.held = none) :
    ∃ evs r' t' rs' os' gs', relayStep key r e (.packet now time packet) = some (evs, r') ∧
      Rep r'.list t' rs' os' gs' ∧
      (NoNewTrust t t' ↔ (Reaches r.tunnel packet → ∀ p, t.find (ip6Src packet.ip6) = some p →
        p.trusted = true →
          p.mappedAddr = packet.sourceIpv4 ∧ p.mappedPort = packet.sourcePort)) := by
  have hstep : ∀ {evs l'}, (teredoRunInner key r.tunnel now time packet).run Peer.init none e
      r.list = some ((), evs, l') →
        relayStep key r e (.packet now time packet) = some (evs, { r with list := l' }) := by
    intro evs l' hrun
    show runProg r _ e = _
    unfold runProg
    rw [hrun, Option.map_some]
  by_cases hr : Reaches r.tunnel packet
  · rw [runInner_of_reaches hd hr] at hstep
    cases hfind : t.find (ip6Src packet.ip6) with
    | some p =>
      obtain ⟨evs, l', ptr, p', hrun, hl', hp'⟩ := run_discovery_found hrep hheld hfind e
      obtain ⟨t', rs', os', gs', hrep', hfind', hother⟩ := table_of_holds hl'
      refine ⟨evs, _, t', rs', os', gs', hstep hrun, hrep', ?_⟩
      rw [noNewTrust_iff hfind hfind' hother hp', ← hfind]
      exact ⟨fun hmapped _ => hmapped, fun hmapped => hmapped hr⟩
    | none =>
      obtain ⟨evs, l', t', rs', os', gs', hrun, hrep', hnew⟩ := run_discovery_new hrep hheld hfind e
      exact ⟨evs, _, t', rs', os', gs', hstep hrun, hrep',
        nofun, fun _ => hnew⟩
  · obtain ⟨⟨⟩, evs, l', ptr, c, hrun, rfl, hl', -⟩ := run_of_wp Peer.init stable_sameAs _
      (wp_runInner_of_not_reaches (Q := fun _ c _ => c = .none) hd hr fun _ => rfl) e
      (holds_sameAs (h := []) hrep hheld)
    obtain ⟨t', rs', os', gs', hrep', hnew⟩ := noNewTrust_of_holds hl'
    exact ⟨evs, _, t', rs', os', gs', hstep hrun, hrep', fun _ hr' => absurd hr' hr, fun _ => hnew⟩

end Discovery

/-! ## A trusted peer that moves -/

def neighbourAddr : In6Addr :=
  bytes [0x20, 1, 0, 0, 83, 170, 6, 76, 0, 0, 0x63, 0xbe, 0x3f, 0xff, 0xfd, 0xd2]

def neighbourPacket : TeredoPacket :=
  { clientPacket with
    ip6 := [0x60, 0, 0, 0, 0, 1, 17, 64] ++ neighbourAddr.toList ++ clientAddr.toList ++ [7]
    sourcePort := bytes (be 2 40001) }

/-- A local discovery bubble with the address of the neighbour, from `192.168.1.77`. -/
def discoveryPacket : TeredoPacket :=
  { clientPacket with
    ip6 := [0x60, 0, 0, 0, 0, 0, 59, 255] ++ neighbourAddr.toList ++ in6addrAllnodes.toList
    sourceIpv4 := bytes [192, 168, 1, 77]
    sourcePort := bytes (be 2 3545)
    destIpv4 := teredoDiscoveryIpv4 }

/-- A client that is up, with local discovery on `192.168.1.0/24`. -/
def localClient : Relay ℕ where
  tunnel := ⟨true, some (bytes [255, 255, 255, 255]),
    some [⟨bytes [192, 168, 1, 10], bytes [255, 255, 255, 0]⟩], clientState⟩
  list := PeerList.new clientMem maxPeers

theorem discovery_trust_new : ∃ evs r' t' rs' os' gs',
    relayStep constKey localClient ⟨[], []⟩ (.packet 6 0 discoveryPacket) = some (evs, r') ∧
      Rep r'.list t' rs' os' gs' ∧ NoNewTrust (PeerTable.empty maxPeers) t' := by
  obtain ⟨evs, r', t', rs', os', gs', hstep, hrep', hiff⟩ := discovery_trust constKey
    localClient ⟨[], []⟩ 6 0 discoveryPacket rfl rep_new rfl
  exact ⟨evs, r', t', rs', os', gs', hstep, hrep', hiff.mpr nofun⟩

theorem trusted_peer_moved : ∃ evs₁ r₁ evs₂ r₂,
    relayStep constKey localClient packetEvent.env (.packet 5 0 neighbourPacket) = some (evs₁, r₁) ∧
      relayStep constKey r₁ ⟨[], []⟩ (.packet 6 0 discoveryPacket) = some (evs₂, r₂) ∧
      (r₁.list.mem.val 3).key = neighbourAddr ∧ (r₁.list.mem.val 3).peer.trusted = true ∧
      (r₁.list.mem.val 3).peer.mappedAddr = bytes [192, 0, 2, 45] ∧
      (r₂.list.mem.val 3).key = neighbourAddr ∧ (r₂.list.mem.val 3).peer.trusted = true ∧
      (r₂.list.mem.val 3).peer.mappedAddr = bytes [192, 168, 1, 77] :=
  ⟨_, _, _, _, rfl, rfl, rfl, rfl, rfl, rfl, rfl, rfl⟩

end Maiccu.Teredo
