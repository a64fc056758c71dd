import Maiccu.Teredo.Encap

/-!
# Pings

A client pings a peer that is no Teredo client, and trusts the relay that the answer comes through.
`SendPing` writes a keyed hash of the addresses and the time, and `CheckPing` finds it again, in an
echo reply or in an unreachable error that quotes the ping.
-/

namespace Maiccu.Teredo

open Maiccu.Lib List

section Ping

variable (key : Keyed)

/-- The low half of the time stamp comes first. -/
def teredoGetPinghash (timestamp : UInt32) (src dst : In6Addr) : List UInt8 :=
  let timestamp := htonl timestamp
  key.pid.toList ++ (field timestamp.toList 2 2).toList ++ (field timestamp.toList 0 2).toList ++
    (key.hash src.toList dst.toList timestamp).toList

/-- The message of `SendPing`. -/
def pingMessage (time : UInt32) (src dst : In6Addr) (cksum : Bytes 2) : List UInt8 :=
  [icmp6EchoRequest, 0] ++ cksum.toList ++ teredoGetPinghash key time src dst

/-- The datagram. -/
def sendPing (time : UInt32) (src dst : In6Addr) : List UInt8 :=
  ip6Hdr pingLength ipprotoIcmpv6 128 src dst ++ pingMessage key time src dst
    (icmp6Checksum src dst (pingMessage key time src dst (bytes [0, 0])))

end Ping

/-! ## Answers -/

/-- The packet is an echo reply to a request: the addresses are swapped, and the identifier, the
sequence number and the data are those of the request. -/
structure IsEchoReply (request : List UInt8) (p : TeredoPacket) : Prop where
  nxt : ip6Nxt p.ip6 = ipprotoIcmpv6
  plen : ip6Plen p.ip6 = ip6Plen request
  src : ip6Src p.ip6 = ip6Dst request
  dst : ip6Dst p.ip6 = ip6Src request
  type : p.ip6.getD 40 0 = icmp6EchoReply
  code : p.ip6.getD 41 0 = 0
  data : slice p.ip6 44 22 = slice request 44 22

/-- The packet is an unreachable error from the destination of a request, with the request in it. -/
structure IsUnreachable (request : List UInt8) (p : TeredoPacket) : Prop where
  nxt : ip6Nxt p.ip6 = ipprotoIcmpv6
  plen : 8 + request.length ≤ ip6Plen p.ip6
  src : ip6Src p.ip6 = ip6Dst request
  dst : ip6Dst p.ip6 = ip6Src request
  type : p.ip6.getD 40 0 = icmp6DstUnreach
  data : slice p.ip6 48 request.length = request

/-- Where the hash and what it protects stands in an answer. -/
def pinghash (p : TeredoPacket) : List UInt8 :=
  p.ip6.drop (if p.ip6.getD 40 0 = icmp6DstUnreach then 92 else 44)

def pingTime (p : TeredoPacket) : Bytes 4 :=
  field ((field (pinghash p) 4 2).toList ++ (field (pinghash p) 2 2).toList) 0 4

section Check

variable {key : Keyed} {now t : UInt32} {src dst : In6Addr} {p : TeredoPacket} {rest : List UInt8}

@[simp] theorem teredoGetPinghash_length : (teredoGetPinghash key t src dst).length = 22 := by
  simp [teredoGetPinghash]

theorem sendPing_length : (sendPing key t src dst).length = 66 := by
  simp [sendPing, pingMessage]

theorem verify_getPinghash :
    teredoVerifyPinghash key now src dst (teredoGetPinghash key t src dst ++ rest) =
      decide (now - t < 30) := by
  obtain ⟨timestamp, htime⟩ : ∃ timestamp, timestamp = htonl t := ⟨_, rfl⟩
  have hget : teredoGetPinghash key t src dst =
      key.pid.toList ++ (field timestamp.toList 2 2).toList ++
        (field timestamp.toList 0 2).toList ++
        (key.hash src.toList dst.toList timestamp).toList := by
    rw [htime]
    rfl
  have hpid : field (teredoGetPinghash key t src dst ++ rest) 0 2 = key.pid := by
    rw [hget, field_append_left (by simp), field_append_left (by simp), field_append_left (by simp),
      field_append_left (by simp), field_toList]
  have hlow : field (teredoGetPinghash key t src dst ++ rest) 2 2 = field timestamp.toList 2 2 := by
    rw [hget, field_append_left (by simp), field_append_left (by simp), field_append_left (by simp),
      field_append_right (by simp)]
    simp
  have hhigh : field (teredoGetPinghash key t src dst ++ rest) 4 2 =
      field timestamp.toList 0 2 := by
    rw [hget, field_append_left (by simp), field_append_left (by simp),
      field_append_right (by simp)]
    simp
  have hhash : field (teredoGetPinghash key t src dst ++ rest) 6 16 =
      key.hash src.toList dst.toList timestamp := by
    rw [hget, field_append_left (by simp), field_append_right (by simp)]
    simp
  have hstamp : field ((field timestamp.toList 0 2).toList ++
      (field timestamp.toList 2 2).toList) 0 4 = timestamp := by
    refine Eq.trans (field_add (n := 2) (m := 2) ?_ ?_) field_toList
    · rw [field_append_left (by simp), field_toList]
    · rw [field_append_right (by simp)]
      simp
  unfold teredoVerifyPinghash
  rw [hpid, hlow, hhigh, hhash, hstamp, htime]
  simp

structure QuotesPing (p : TeredoPacket) : Prop where
  length : 8 + 40 + pingLength ≤ ip6Plen p.ip6
  nxt : ip6Nxt (p.ip6.drop 48) = ipprotoIcmpv6
  plen : ip6Plen (p.ip6.drop 48) = pingLength
  src : ip6Src (p.ip6.drop 48) = ip6Dst p.ip6
  dst : ip6Dst (p.ip6.drop 48) = ip6Src p.ip6
  type : p.ip6.getD 88 0 = icmp6EchoRequest
  code : p.ip6.getD 89 0 = 0

theorem getD_drop (b : List UInt8) (n i : ℕ) : (b.drop n).getD i 0 = b.getD (n + i) 0 := by
  rw [getD_eq_getElem?_getD, getElem?_drop, getD_eq_getElem?_getD]

theorem checkPing_iff : checkPing key now p = true ↔
    ip6Nxt p.ip6 = ipprotoIcmpv6 ∧ pingLength ≤ ip6Plen p.ip6 ∧
      (p.ip6.getD 40 0 = icmp6DstUnreach ∧ QuotesPing p ∨
        p.ip6.getD 40 0 = icmp6EchoReply ∧ p.ip6.getD 41 0 = 0) ∧
      teredoVerifyPinghash key now (ip6Dst p.ip6) (ip6Src p.ip6) (pinghash p) = true := by
  dsimp only [checkPing]
  simp only [getD_drop, drop_drop, Nat.reduceAdd]
  by_cases hunreach : p.ip6.getD 40 0 = icmp6DstUnreach
  · have hne : p.ip6.getD 40 0 ≠ icmp6EchoReply := by
      rw [hunreach]
      decide
    rw [if_pos hunreach, pinghash, if_pos hunreach]
    constructor
    · intro h
      split_ifs at h with hicmp hquote hplen haddr hdst hcode
      push Not at hicmp hquote hplen haddr hdst hcode
      have hlen : 8 + 40 + pingLength ≤ ip6Plen p.ip6 := by omega
      rw [haddr.1, hdst] at h
      exact ⟨hicmp.1, hicmp.2, .inl ⟨hunreach, hlen, hquote.2, hplen, haddr.1, hdst, haddr.2,
        hcode⟩, h⟩
    · rintro ⟨hnxt, hlen, ⟨-, hq⟩ | ⟨hreply, -⟩, h⟩
      · have hqlen := hq.length
        rw [if_neg (not_or.mpr ⟨not_not.mpr hnxt, by omega⟩),
          if_neg (not_or.mpr ⟨by omega, not_not.mpr hq.nxt⟩), if_neg (not_not.mpr hq.plen),
          if_neg (not_or.mpr ⟨not_not.mpr hq.src, not_not.mpr hq.type⟩),
            if_neg (not_not.mpr hq.dst),
          if_neg (not_not.mpr hq.code), hq.src, hq.dst]
        exact h
      · exact absurd hreply hne
  · rw [if_neg hunreach, pinghash, if_neg hunreach]
    constructor
    · intro h
      split_ifs at h with hicmp htype hcode
      push Not at hicmp htype hcode
      exact ⟨hicmp.1, hicmp.2, .inr ⟨htype, hcode⟩, h⟩
    · rintro ⟨hnxt, hlen, ⟨hunreach', -⟩ | ⟨hreply, hcode⟩, h⟩
      · exact absurd hunreach' hunreach
      · rw [if_neg (not_or.mpr ⟨not_not.mpr hnxt, by omega⟩), if_neg (not_not.mpr hreply),
          if_neg (not_not.mpr hcode)]
        exact h

theorem sendPing_eq : ∃ cksum : Bytes 2,
    sendPing key t src dst = ip6Hdr pingLength ipprotoIcmpv6 128 src dst ++
      ([icmp6EchoRequest, 0] ++ cksum.toList ++ teredoGetPinghash key t src dst) :=
  ⟨_, rfl⟩

theorem verify_answer (hsrc : ip6Src p.ip6 = dst) (hdst : ip6Dst p.ip6 = src)
    (hhash : pinghash p = teredoGetPinghash key t src dst ++ rest) :
    teredoVerifyPinghash key now (ip6Dst p.ip6) (ip6Src p.ip6) (pinghash p) = true ↔
      now - t < 30 := by
  rw [hsrc, hdst, hhash, verify_getPinghash, decide_eq_true_eq]

theorem checkPing_reply (hp : IsEchoReply (sendPing key t src dst) p) :
    checkPing key now p = true ↔ now - t < 30 := by
  obtain ⟨cksum, hsent⟩ := sendPing_eq
  have hplen : ip6Plen p.ip6 = pingLength := hp.plen.trans (ip6Plen_ip6Hdr (by decide))
  have hsrc : ip6Src p.ip6 = dst := hp.src.trans (by rw [hsent, ip6Dst_ip6Hdr])
  have hdst : ip6Dst p.ip6 = src := hp.dst.trans (by rw [hsent, ip6Src_ip6Hdr])
  have hdata : slice p.ip6 44 22 = teredoGetPinghash key t src dst := by
    rw [hp.data, hsent, ← append_assoc, slice_append_right (by simp), take_of_length_le (by simp)]
  have hne : p.ip6.getD 40 0 ≠ icmp6DstUnreach := by
    rw [hp.type]
    decide
  have hhash : pinghash p = teredoGetPinghash key t src dst ++ p.ip6.drop (44 + 22) := by
    rw [pinghash, if_neg hne, ← hdata, slice_append_drop]
  rw [checkPing_iff, verify_answer hsrc hdst hhash, and_iff_right hp.nxt, and_iff_right hplen.ge]
  exact and_iff_right (.inr ⟨hp.type, hp.code⟩)

theorem checkPing_unreachable (hp : IsUnreachable (sendPing key t src dst) p) :
    checkPing key now p = true ↔ now - t < 30 := by
  obtain ⟨cksum, hsent⟩ := sendPing_eq
  have hsrc : ip6Src p.ip6 = dst := hp.src.trans (by rw [hsent, ip6Dst_ip6Hdr])
  have hdst : ip6Dst p.ip6 = src := hp.dst.trans (by rw [hsent, ip6Src_ip6Hdr])
  have hlen : 8 + 66 ≤ ip6Plen p.ip6 := by
    have := hp.plen
    rwa [sendPing_length] at this
  have hquote : p.ip6.drop 48 = sendPing key t src dst ++ p.ip6.drop (48 + 66) := by
    have hdata := hp.data
    rw [sendPing_length] at hdata
    rw [← slice_append_drop p.ip6 48 66, hdata]
  have hrest : p.ip6.drop 88 = [icmp6EchoRequest, 0] ++ cksum.toList ++
      teredoGetPinghash key t src dst ++ p.ip6.drop (48 + 66) := by
    have hdrop : p.ip6.drop 88 = (p.ip6.drop 48).drop 40 := by rw [drop_drop]
    rw [hdrop, hquote, hsent, append_assoc, drop_ip6Hdr]
  have hhash : pinghash p = teredoGetPinghash key t src dst ++ p.ip6.drop (48 + 66) := by
    have hdrop : p.ip6.drop 92 = (p.ip6.drop 88).drop 4 := by rw [drop_drop]
    rw [pinghash, if_pos hp.type, hdrop, hrest, append_assoc, drop_left' (by simp)]
  have htype : p.ip6.getD 88 0 = icmp6EchoRequest := by
    rw [show 88 = 88 + 0 from rfl, ← getD_drop, hrest]
    rfl
  have hcode : p.ip6.getD 89 0 = 0 := by
    rw [show 89 = 88 + 1 from rfl, ← getD_drop, hrest]
    rfl
  have hq : QuotesPing p := by
    refine ⟨hlen, ?_, ?_, ?_, ?_, htype, hcode⟩
    · rw [hquote, hsent, append_assoc, ip6Nxt_ip6Hdr]
    · rw [hquote, hsent, append_assoc, ip6Plen_ip6Hdr (by decide)]
    · rw [hquote, hsent, append_assoc, ip6Src_ip6Hdr, hdst]
    · rw [hquote, hsent, append_assoc, ip6Dst_ip6Hdr, hsrc]
  rw [checkPing_iff, verify_answer hsrc hdst hhash, and_iff_right hp.nxt]
  rw [and_iff_right ((show pingLength ≤ 8 + 66 by decide).trans hlen)]
  exact and_iff_right (.inl ⟨hp.type, hq⟩)

theorem hash_of_checkPing (h : checkPing key now p = true) :
    field (pinghash p) 6 16 = key.hash (ip6Dst p.ip6).toList (ip6Src p.ip6).toList
      (pingTime p) := by
  obtain ⟨-, -, -, hverify⟩ := checkPing_iff.mp h
  simp only [teredoVerifyPinghash, Bool.and_eq_true, decide_eq_true_eq] at hverify
  exact hverify.2.symm

end Check

/-- An answer to a ping passes if and only if the ping is less than 30 seconds old; and whatever
passes has the hash of its own destination, source and time. -/
theorem ping_check (key : Keyed) (now : UInt32) :
    (∀ t src dst p, IsEchoReply (sendPing key t src dst) p ∨
      IsUnreachable (sendPing key t src dst) p → (checkPing key now p = true ↔ now - t < 30)) ∧
    ∀ p, checkPing key now p = true → field (pinghash p) 6 16 =
      key.hash (ip6Dst p.ip6).toList (ip6Src p.ip6).toList (pingTime p) := by
  constructor
  · rintro t src dst p (hp | hp)
    · exact checkPing_reply hp
    · exact checkPing_unreachable hp
  · intro p h
    exact hash_of_checkPing h

def echoReply (request : List UInt8) : TeredoPacket :=
  .plain (ip6Hdr pingLength ipprotoIcmpv6 64 (ip6Dst request) (ip6Src request) ++
    [icmp6EchoReply, 0, 0, 0] ++ request.drop 44) anyIpv4 ipportTeredo

def unreachableError (request : List UInt8) : TeredoPacket :=
  { echoReply request with
    ip6 := ip6Hdr (8 + request.length) ipprotoIcmpv6 64 (ip6Dst request) (ip6Src request) ++
      [icmp6DstUnreach, 3, 0, 0, 0, 0, 0, 0] ++ request }

def plainKey : Keyed where
  pid := bytes [0x12, 0x34]
  hash src dst timestamp := field (timestamp.toList ++ src ++ dst) 0 16

theorem ping_check_answers :
    checkPing plainKey 15 (echoReply (sendPing plainKey 0xfffffff0 teredoRestrict teredoCone)) =
      false ∧ checkPing plainKey 13
        (unreachableError (sendPing plainKey 0xfffffff0 teredoRestrict teredoCone)) = true := by
  have hreply : IsEchoReply (sendPing plainKey 0xfffffff0 teredoRestrict teredoCone)
      (echoReply (sendPing plainKey 0xfffffff0 teredoRestrict teredoCone)) := by
    constructor <;> decide +kernel
  have herror : IsUnreachable (sendPing plainKey 0xfffffff0 teredoRestrict teredoCone)
      (unreachableError (sendPing plainKey 0xfffffff0 teredoRestrict teredoCone)) := by
    constructor <;> decide +kernel
  have hold := (ping_check plainKey 15).1 0xfffffff0 teredoRestrict teredoCone _ (.inl hreply)
  have hfresh := (ping_check plainKey 13).1 0xfffffff0 teredoRestrict teredoCone _ (.inr herror)
  exact ⟨Bool.eq_false_iff.mpr fun h => absurd (hold.mp h) (by decide), hfresh.mpr (by decide)⟩

end Maiccu.Teredo
