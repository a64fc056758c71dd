import Maiccu.Teredo.Server

/-!
# What the server sends

`teredo_process_packet` checks the payload length of a packet, but `teredo_forward_udp` sends all
bytes that came behind the header. And `SendRA` takes the nonce of a solicitation from the packet
even if the decoder has found none and left the field as it was.
-/

namespace Maiccu.Teredo

open Maiccu.Lib List

section Forward

variable {s : Server} {p : TeredoPacket} {sec : Bool} {d : Datagram}

def forwardHeader (s : Server) (p : TeredoPacket) : List UInt8 :=
  if in6TeredoServer (ip6Dst p.ip6) = s.serverIp then origHeader p.sourceIpv4 p.sourcePort else []

/-- If the packet is forwarded, it goes to a global unicast address, and nothing goes with it that
is not part of the packet. -/
def ForwardsPacketOnly (s : Server) (p : TeredoPacket) (sec : Bool) : Prop :=
  ∀ d, teredoProcessPacket s p sec = .udp (some d) →
    isIpv4GlobalUnicast d.ip = true ∧ d.data = forwardHeader s p ++ trimmed p.ip6

theorem eq_trimmed_iff {ip6 : List UInt8} (h : 40 + ip6Plen ip6 ≤ ip6.length) :
    ip6 = trimmed ip6 ↔ ip6.length = 40 + ip6Plen ip6 := by
  unfold trimmed
  rw [eq_comm, take_eq_self_iff]
  omega

/-- What the server forwards always goes to a global unicast address. It is the packet only just if
no bytes follow the packet in the datagram. -/
theorem forward_exact_iff (s : Server) (p : TeredoPacket) (sec : Bool) :
    (∀ d, teredoProcessPacket s p sec = .udp (some d) → isIpv4GlobalUnicast d.ip = true) ∧
      (ForwardsPacketOnly s p sec ↔ ∀ d, teredoProcessPacket s p sec = .udp (some d) →
        p.ip6.length = 40 + ip6Plen p.ip6) := by
  refine ⟨fun d h => (processPacket_udp h).2.1, forall_congr' fun d => forall_congr' fun h => ?_⟩
  obtain ⟨hwf, hglobal, hdata⟩ := processPacket_udp h
  have hexact : d.data = forwardHeader s p ++ trimmed p.ip6 ↔ p.ip6 = trimmed p.ip6 := by
    rw [hdata]
    exact append_right_inj _
  rw [hexact, eq_trimmed_iff hwf.2.2]
  exact and_iff_right hglobal

def bubbleAnd (rest : List UInt8) : TeredoPacket :=
  plainOuter.packet none none (teredoSendBubbleAnyway teredoRestrict plainClient ++ rest)

theorem processPacket_bubbleAnd (rest : List UInt8) :
    ∃ d, teredoProcessPacket plainServer (bubbleAnd rest) false = .udp (some d) :=
  processPacket_bubble (by decide) rest

/-- A bubble on its own is forwarded as it is. -/
theorem forward_exact_bubble :
    (∃ d, teredoProcessPacket plainServer (bubbleAnd []) false = .udp (some d)) ∧
      ForwardsPacketOnly plainServer (bubbleAnd []) false := by
  refine ⟨processPacket_bubbleAnd [], (forward_exact_iff plainServer (bubbleAnd []) false).2.mpr ?_⟩
  intro d h
  decide

theorem trailing_bytes_forwarded :
    let d := teredoSendBubbleAnyway teredoRestrict plainClient ++ [0xde, 0xad]
    teredoRecvInner plainOuter d d.length = some (bubbleAnd [0xde, 0xad]) ∧
      ¬ ForwardsPacketOnly plainServer (bubbleAnd [0xde, 0xad]) false := by
  refine ⟨by decide, ?_⟩
  intro hexact
  obtain ⟨d, hd⟩ := processPacket_bubbleAnd [0xde, 0xad]
  have hdata := (hexact d hd).2
  rw [(processPacket_udp hd).2.2] at hdata
  have htrim := (eq_trimmed_iff (by decide)).mp ((append_right_inj _).mp hdata)
  exact nomatch htrim

end Forward

/-! ## Advertisements -/

/-- The same datagram, with other bytes in the fields that the decoder does not always set. -/
def Outer.withJunk (o : Outer) (fail : Bool) (nonce : Bytes 8) : Outer :=
  { o with junkFail := fail, junkNonce := nonce }

section Advert

variable {s : Server} {o : Outer} {buf : List UInt8} {n : ℕ} {p : TeredoPacket} {sec : Bool}
  {d : Datagram}

theorem recvInner_packet (h : teredoRecvInner o buf n = some p) : ∃ auth orig,
    p = o.packet auth orig p.ip6 ∧
      ∀ o' : Outer, teredoRecvInner o' buf n = some (o'.packet auth orig p.ip6) := by
  unfold teredoRecvInner at h ⊢
  split_ifs at h with hshort
  cases hauth : recvAuth buf n with
  | none => rw [hauth] at h; cases h
  | some x =>
    obtain ⟨auth, buf', n'⟩ := x
    rw [hauth] at h
    obtain ⟨⟨orig, ip6⟩, horig, rfl⟩ := Option.map_eq_some_iff.mp h
    refine ⟨auth, orig, rfl, fun o' => ?_⟩
    rw [if_neg hshort]
    show (recvOrig buf' n').map _ = _
    rw [horig]
    rfl

theorem recv_of_advert (h : teredoProcessPacket s p sec = .advert d) (down : Outer)
    (stale : List UInt8) :
    teredoRecvInner down (d.data ++ stale) d.data.length =
      some (down.packet (some (p.authNonce, 0)) (some (p.sourceIpv4, p.sourcePort))
        (raPacket s (ip6Src p.ip6))) := by
  rw [processPacket_advert h]
  exact (Encapsulation.advert s (some p.authNonce) p (ip6Src p.ip6) sec).recv down stale

/-- The advertisement `d` fits the solicitation `p`, which came as the first `n` bytes of `buf`. -/
structure AdvertFits (s : Server) (o : Outer) (buf : List UInt8) (n : ℕ) (sec : Bool)
    (p : TeredoPacket) (d : Datagram) : Prop where
  /-- It has an authentication header just if the solicitation has one, with the same nonce. -/
  auth : ∀ down stale, ∃ q, teredoRecvInner down (d.data ++ stale) d.data.length = some q ∧
    q.authPresent = p.authPresent ∧ (p.authPresent = true → q.authNonce = p.authNonce)
  /-- Nothing is sent that was not written: it is the same whatever was in the packet before. -/
  written : ∀ fail nonce, ∃ p', teredoRecvInner (o.withJunk fail nonce) buf n = some p' ∧
    teredoProcessPacket s p' sec = .advert d

theorem advert_fits_iff (hrecv : teredoRecvInner o buf n = some p)
    (hadvert : teredoProcessPacket s p sec = .advert d) :
    AdvertFits s o buf n sec p d ↔ p.authPresent = true := by
  constructor
  · intro h
    obtain ⟨q, hq, hpresent, -⟩ := h.auth o []
    rw [← hpresent, ← Option.some.inj ((recv_of_advert hadvert o []).symm.trans hq)]
    rfl
  · intro hpresent
    refine ⟨fun down stale => ⟨_, recv_of_advert hadvert down stale, hpresent.symm, fun _ =>
      rfl⟩, ?_⟩
    intro fail nonce
    obtain ⟨auth, orig, hp, hjunk⟩ := recvInner_packet hrecv
    refine ⟨p, ?_, hadvert⟩
    rw [hjunk, hp]
    rw [hp] at hpresent
    cases auth with
    | none => cases hpresent
    | some auth => rfl

end Advert

theorem advert_fits_nonce :
    let d := teredoSendRs (bytes [1, 2, 3, 4, 5, 6, 7, 8]) false
    ∃ p a, AdvertFits plainServer plainOuter (d ++ []) d.length false p a := by
  intro d
  have hrecv : teredoRecvInner plainOuter (d ++ []) d.length = _ :=
    (Encapsulation.solicitation (bytes [1, 2, 3, 4, 5, 6, 7, 8]) false).recv plainOuter []
  have hip6 : (solicited plainOuter (bytes [1, 2, 3, 4, 5, 6, 7, 8]) false).ip6 =
      solicitation false :=
    rfl
  have hadvert := processPacket_solicitation (s := plainServer) hip6 (by decide) false
  exact ⟨_, _, (advert_fits_iff hrecv hadvert).mpr rfl⟩

/-- To a solicitation without authentication header it sends one, and in it what was in the packet
before. -/
theorem unwritten_nonce_sent :
    let nonce : Bytes 8 := bytes [8, 7, 6, 5, 4, 3, 2, 1]
    let o := plainOuter.withJunk false nonce
    ∃ p a, teredoRecvInner o (solicitation false ++ []) (solicitation false).length = some p ∧
      p.authPresent = false ∧ teredoProcessPacket plainServer p false = .advert a ∧
      a.data.take 13 = authHeader nonce ∧
      ¬ AdvertFits plainServer o (solicitation false ++ [])
        (solicitation false).length false p a := by
  intro nonce o
  have hip6 : (o.packet none none (solicitation false)).ip6 = solicitation false := rfl
  have hsource : isIpv4GlobalUnicast plainOuter.sourceIpv4 = true := by decide
  have hadvert := processPacket_solicitation (s := plainServer) hip6 hsource false
  have hself : fromSelf plainServer (o.packet none none (solicitation false)) = false := by
    show fromSelf plainServer (plainOuter.packet none none (solicitation false)) = false
    decide
  have hlen : 2 ≤ (solicitation false).length := by decide
  have hauth : AuthHdr [] none := rfl
  have horig : OrigHdr [] none := rfl
  refine ⟨_, _, recv_of_headers (a := []) (b := []) hauth horig (by decide) hlen, rfl, hadvert,
    ?_, ?_⟩
  · show (authHeader nonce ++ _ ++ _).take 13 = authHeader nonce
    rw [append_assoc]
    exact take_left' (by simp [authHeader])
  · intro hfits
    obtain ⟨q, hq, hpresent, -⟩ := hfits.auth o []
    rw [← Option.some.inj ((recv_of_advert hadvert o []).symm.trans hq)] at hpresent
    cases hpresent

end Maiccu.Teredo
