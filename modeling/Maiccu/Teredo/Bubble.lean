import Maiccu.Teredo.Relay
import Maiccu.Teredo.Server

/-!
# Bubbles and their replies

A relay that is no client sends its bubbles from a link-local address with a keyed nonce of the
endpoint it probes (`SendBubbleFromDst`). The peer swaps the addresses (`teredo_reply_bubble`), and
`CheckBubble` computes the nonce again from the source of what comes back. The bubble may come to
the peer as it was sent, or through the server of the peer.
-/

namespace Maiccu.Teredo

open Maiccu.Lib

structure UdpSend where
  ip : Ipv4
  port : Port
  data : List UInt8

/-- `none` if nothing is sent. -/
def teredoSendBubble (ip : Ipv4) (port : Port) (src dst : In6Addr) : Option UdpSend :=
  if isIpv4GlobalUnicast ip then some ⟨ip, port, teredoSendBubbleAnyway src dst⟩ else none

/-- `teredo_reply_bubble`, as the datagram it sends. -/
def replyBubble (ip : Ipv4) (port : Port) (req : List UInt8) : Option UdpSend :=
  teredoSendBubble ip port (ip6Dst req) (ip6Src req)

theorem teredoReplyBubble_eq (ip : Ipv4) (port : Port) (req : List UInt8) :
    teredoReplyBubble ip port req = if (replyBubble ip port req).isSome then do
      let _ ← PeerProg.invoke (.sendBubble ip port (ip6Dst req) (ip6Src req)) else pure () := by
  unfold teredoReplyBubble replyBubble teredoSendBubble
  split_ifs with hip hsome
  · rfl
  · exact absurd rfl hsome
  · contradiction
  · rfl

section Probe

variable (key : Keyed)

/-- The nonce of an endpoint without the two bits of a modified EUI-64. -/
def bubbleNonce (ip : Ipv4) (port : Port) : List UInt8 :=
  let nonce := (teredoGetNonce key (bytes [0, 0, 0, 0]) ip port).toList
  (nonce.headD 0 &&& 0xfc) :: nonce.tail

/-- The source address in `SendBubbleFromDst`. -/
def bubbleSource (dst : In6Addr) : In6Addr :=
  field ([0xfe, 0x80, 0, 0, 0, 0, 0, 0] ++ bubbleNonce key (in6TeredoIpv4 dst) (in6TeredoPort dst))
    0 16

def sendBubbleFromDst (dst : In6Addr) (indirect : Bool) : Option UdpSend :=
  if indirect then
    teredoSendBubble (in6TeredoServer dst) ipportTeredo (bubbleSource key dst) dst
  else teredoSendBubble (in6TeredoIpv4 dst) (in6TeredoPort dst) (bubbleSource key dst) dst

end Probe

/-- How a datagram comes to a peer: as it was sent, or forwarded by a Teredo server. -/
inductive Carried (b : List UInt8) : TeredoPacket → Prop where
  | direct {o : Outer} {stale : List UInt8} {req : TeredoPacket}
      (hrecv : teredoRecvInner o (b ++ stale) b.length = some req) : Carried b req
  | forwarded {s : Server} {up down : Outer} {stale stale' : List UInt8} {mid req : TeredoPacket}
      {sec : Bool} {d : Datagram}
      (hup : teredoRecvInner up (b ++ stale) b.length = some mid)
      (hserver : teredoProcessPacket s mid sec = .udp (some d))
      (hdown : teredoRecvInner down (d.data ++ stale') d.data.length = some req) : Carried b req

section Replies

variable {key : Keyed} {src dst : In6Addr} {p : TeredoPacket}

theorem recv_bubble (o : Outer) (src dst : In6Addr) (stale : List UInt8) :
    teredoRecvInner o (teredoSendBubbleAnyway src dst ++ stale)
        (teredoSendBubbleAnyway src dst).length =
      some (o.packet none none (teredoSendBubbleAnyway src dst)) :=
  (Encapsulation.bubble src dst).recv o stale

theorem Carried.ip6_eq (h : Carried (teredoSendBubbleAnyway src dst) p) :
    p.ip6 = teredoSendBubbleAnyway src dst := by
  cases h with
  | direct hrecv =>
    rw [recv_bubble] at hrecv
    rw [← Option.some.inj hrecv]
    rfl
  | forwarded hup hserver hdown =>
    rw [recv_bubble] at hup
    rw [← Option.some.inj hup] at hserver
    have hfwd := (Encapsulation.forwarded _ _ _ _ hserver).recv
    rw [← Option.some.inj ((hfwd _ _).symm.trans hdown)]
    rfl

theorem low_bubbleSource (dst : In6Addr) : (field (bubbleSource key dst).toList 8 8).toList =
    bubbleNonce key (in6TeredoIpv4 dst) (in6TeredoPort dst) := by
  have hlen : (bubbleNonce key (in6TeredoIpv4 dst) (in6TeredoPort dst)).length = 8 := by
    simp [bubbleNonce]
  unfold bubbleSource
  rw [field_field (by omega), field_append_right (by simp), toList_field (by simp [hlen])]
  simp [slice, hlen]

theorem checkBubble_iff : checkBubble key p = true ↔
    bubbleNonce key (in6TeredoIpv4 (ip6Src p.ip6)) (in6TeredoPort (ip6Src p.ip6)) =
      (field (ip6Dst p.ip6).toList 8 8).toList := by
  unfold checkBubble
  exact decide_eq_true_iff

end Replies

/-- Two nonces agree in the bits that `CheckBubble` compares: all but two bits of the first byte. -/
def NonceAgrees (a b : Bytes 8) : Prop :=
  a.toList.headD 0 &&& 0xfc = b.toList.headD 0 &&& 0xfc ∧ a.toList.tail = b.toList.tail

instance (a b : Bytes 8) : Decidable (NonceAgrees a b) := inferInstanceAs (Decidable (_ ∧ _))

/-- The reply to every bubble passes the check of the sender. A bubble to the address of that probe
passes just if the nonce of the endpoint in its source agrees with that of the endpoint probed. -/
theorem bubble_check (key : Keyed) (dst : In6Addr) :
    (∀ indirect d, sendBubbleFromDst key dst indirect = some d →
      ∀ req, Carried d.data req → ∀ ip port r, replyBubble ip port req.ip6 = some r →
        ∀ o stale, ∃ p, teredoRecvInner o (r.data ++ stale) r.data.length = some p ∧
          checkBubble key p = true) ∧
    ∀ p : TeredoPacket, field (ip6Dst p.ip6).toList 8 8 = field (bubbleSource key dst).toList 8 8 →
        (checkBubble key p = true ↔ NonceAgrees
            (teredoGetNonce key (bytes [0, 0, 0, 0]) (in6TeredoIpv4 (ip6Src p.ip6))
              (in6TeredoPort (ip6Src p.ip6)))
            (teredoGetNonce key (bytes [0, 0, 0, 0]) (in6TeredoIpv4 dst) (in6TeredoPort dst))) := by
  constructor
  · intro indirect d hsend req hreq ip port r hreply o stale
    have hd : d.data = teredoSendBubbleAnyway (bubbleSource key dst) dst := by
      unfold sendBubbleFromDst teredoSendBubble at hsend
      split_ifs at hsend <;> rw [← Option.some.inj hsend]
    rw [hd] at hreq
    have hr : r.data = teredoSendBubbleAnyway dst (bubbleSource key dst) := by
      unfold replyBubble teredoSendBubble at hreply
      split_ifs at hreply
      rw [← Option.some.inj hreply, hreq.ip6_eq, ip6Src_bubble, ip6Dst_bubble]
    refine ⟨o.packet none none r.data, ?_, ?_⟩
    · rw [hr]
      exact recv_bubble o _ _ stale
    · have hip6 : (o.packet none none r.data).ip6 =
          teredoSendBubbleAnyway dst (bubbleSource key dst) := hr
      rw [checkBubble_iff, hip6, ip6Src_bubble, ip6Dst_bubble, low_bubbleSource]
  · intro p hdst
    rw [checkBubble_iff, hdst, low_bubbleSource]
    exact List.cons_eq_cons

theorem bubble_check_plain :
    let key : Keyed := ⟨bytes [0, 1], fun _ port _ => field (port ++ [3, 4, 5, 6, 7, 8]) 0 16⟩
    let probe := teredoSendBubbleAnyway (bubbleSource key plainClient) plainClient
    let reply := teredoSendBubbleAnyway plainClient (bubbleSource key plainClient)
    let other := teredoSendBubbleAnyway
      (teredoAddr teredoPrefix plainServer.serverIp (coneFlags false) (bytes [0x9c, 0x41])
        (bytes [192, 0, 2, 45])) (bubbleSource key plainClient)
    (∃ req, Carried probe req ∧
      ∃ p, teredoRecvInner plainOuter (reply ++ []) reply.length = some p ∧
        checkBubble key p = true) ∧
      checkBubble key (plainOuter.packet none none other) = false := by
  intro key probe reply other
  have hprobe := recv_bubble plainOuter (bubbleSource key plainClient) plainClient []
  have hsrc : in6TeredoPrefix (bubbleSource key plainClient) ≠ plainServer.pfx := by decide
  obtain ⟨d, hserver⟩ := processPacket_bubble hsrc []
  rw [List.append_nil] at hserver
  have hdown := (Encapsulation.forwarded _ _ _ _ hserver).recv plainOuter []
  have hreq : Carried probe _ := .forwarded hprobe hserver hdown
  refine ⟨⟨_, hreq, ?_⟩, ?_⟩
  · have hsend : sendBubbleFromDst key plainClient true =
        some ⟨plainServer.serverIp, ipportTeredo, probe⟩ := if_pos (by decide)
    have hreply : replyBubble (bytes [198, 51, 100, 7]) (bytes [0xc3, 0x50]) probe =
        some ⟨bytes [198, 51, 100, 7], bytes [0xc3, 0x50], reply⟩ := by
      unfold replyBubble
      rw [ip6Src_bubble, ip6Dst_bubble]
      exact if_pos (by decide)
    exact (bubble_check key plainClient).1 true _ hsend _ hreq _ _ _ hreply plainOuter []
  · apply Bool.eq_false_iff.mpr
    intro hpass
    have hagree := ((bubble_check key plainClient).2 _ rfl).mp hpass
    exact absurd hagree (by decide)

end Maiccu.Teredo
