import Maiccu.Teredo.Advert
import Maiccu.Teredo.Encap

/-!
# The Teredo server

`teredo_process_packet` of `server.c` with what it sends: a router advertisement (`SendRA`), a
packet forwarded over UDP, or one sent over IPv6. The server and the client have different codecs,
which agree.
-/

namespace Maiccu.Teredo

open Maiccu.Lib List

/-- `teredo_server`, without the threads. All words are in network order. -/
structure Server where
  serverIp : Ipv4
  serverIp2 : Ipv4
  /-- `prefix`. -/
  pfx : Bytes 4
  advLinkMtu : Bytes 4
  /-- The link-local IPv6 address of the server. -/
  lladdr : In6Addr
  serverIp_global : isIpv4GlobalUnicast serverIp = true
  serverIp2_global : isIpv4GlobalUnicast serverIp2 = true
  pfx_valid : isValidTeredoPrefix pfx = true
  mtu_ge : 1280 ≤ ofBe advLinkMtu.toList
  mtu_le : ofBe advLinkMtu.toList ≤ 65535

variable (s : Server)

/-- `teredo_server_get_MTU`. -/
def Server.mtu : ℕ := ofBe s.advLinkMtu.toList

/-- `teredo_server_create`, if the sockets can be opened. -/
def teredoServerCreate (ip1 ip2 : Ipv4) : Option Server :=
  if h : isIpv4GlobalUnicast ip1 = true ∧ isIpv4GlobalUnicast ip2 = true then
    some {
      serverIp := ip1
      serverIp2 := ip2
      pfx := teredoPrefix
      advLinkMtu := bytes (be 4 1280)
      lladdr := teredoAddr (bytes (be 4 0xfe800000)) anyIpv4 (coneFlags true) ipportTeredo ip1
      serverIp_global := h.1
      serverIp2_global := h.2
      pfx_valid := by decide
      mtu_ge := by decide
      mtu_le := by decide }
  else none

def teredoServerSetPrefix (pfx : Bytes 4) : Option Server :=
  if h : isValidTeredoPrefix pfx = true then some { s with pfx, pfx_valid := h } else none

theorem ofBe_advLinkMtu {mtu : UInt16} : ofBe (bytes (be 4 mtu.toNat)).toList = mtu.toNat := by
  have := mtu.toNat_lt
  exact ofBe_be.trans (Nat.mod_eq_of_lt (by omega))

def teredoServerSetMtu (mtu : UInt16) : Option Server :=
  if h : 1280 ≤ mtu.toNat then
    some { s with
      advLinkMtu := bytes (be 4 mtu.toNat)
      mtu_ge := h.trans ofBe_advLinkMtu.ge
      mtu_le := ofBe_advLinkMtu.le.trans (Nat.le_of_lt_succ mtu.toNat_lt) }
  else none

/-- A datagram, with its destination and the socket it is sent from. -/
structure Datagram where
  secondary : Bool
  ip : Ipv4
  port : Port
  data : List UInt8

/-! ## Sending -/

section Send

def raPrefixOption : List UInt8 :=
  [ndOptPrefixInformation, 4, 64, 0x40] ++ replicate 8 0xff ++ replicate 4 0 ++
    (s.pfx.toList ++ s.serverIp.toList) ++ replicate 8 0

/-- The MTU option of `SendRA`. -/
def raMtuOption : List UInt8 := [ndOptMtu, 1, 0, 0] ++ s.advLinkMtu.toList

/-- The message of `SendRA`. -/
def raMessage (cksum : Bytes 2) : List UInt8 :=
  [ndRouterAdvert, 0] ++ cksum.toList ++ replicate 8 0 ++ be 4 2000 ++
    (raPrefixOption s ++ raMtuOption s)

/-- The packet of `SendRA`. -/
def raPacket (destIp6 : In6Addr) : List UInt8 :=
  ip6Hdr 56 ipprotoIcmpv6 255 s.lladdr destIp6 ++
    raMessage s (icmp6Checksum s.lladdr destIp6 (raMessage s (bytes [0, 0])))

/-- `SendRA` with the pointer `nonce`, which may be null. -/
def sendRaWith (nonce : Option (Bytes 8)) (p : TeredoPacket) (destIp6 : In6Addr)
    (secondary : Bool) : Datagram where
  secondary := if isCone destIp6 then !secondary else secondary
  ip := p.sourceIpv4
  port := p.sourcePort
  data := (match nonce with
      | some nonce => authHeader nonce
      | none => []) ++ origHeader p.sourceIpv4 p.sourcePort ++ raPacket s destIp6

/-- The nonce is an array in the packet, so its address is never null. -/
def sendRa (p : TeredoPacket) (destIp6 : In6Addr) (secondary : Bool) : Datagram :=
  sendRaWith s (some p.authNonce) p destIp6 secondary

/-- `none` if the client has no valid address. -/
def teredoForwardUdp (p : TeredoPacket) (insertOrig : Bool) : Option Datagram :=
  let dst := ip6Dst p.ip6
  if !isIpv4GlobalUnicast (in6TeredoIpv4 dst) then none else
  some ⟨false, in6TeredoIpv4 dst, in6TeredoPort dst,
    (if insertOrig then origHeader p.sourceIpv4 p.sourcePort else []) ++ p.ip6⟩

end Send

/-! ## Processing -/

def in6IsAddrGlobal (a : In6Addr) : Bool :=
  !(decide (a.toList = replicate 16 0) || decide (a.toList = replicate 15 0 ++ [1]) ||
    decide (isLinkLocal a) || decide (isMulticast a))

inductive ServerReply where
  /-- The value `-2`: the packet is dropped. -/
  | discarded
  /-- A qualification probe is answered. -/
  | advert (d : Datagram)
  /-- The packet is sent over IPv6. -/
  | ipv6 (data : List UInt8)
  /-- The packet is forwarded over UDP, unless the client has no valid address. -/
  | udp (d : Option Datagram)

section Process

variable (p : TeredoPacket)

/-- The packet is a router solicitation, as far as the ICMPv6 message goes. -/
def isSolicitation : Bool :=
  decide (ip6Nxt p.ip6 = ipprotoIcmpv6) && decide (8 ≤ ip6Plen p.ip6) &&
    decide (p.ip6.getD 40 0 = ndRouterSolicit)

def serverAccepts : Bool :=
  let src := ip6Src p.ip6
  let dst := ip6Dst p.ip6
  (decide (isLinkLocal src) && decide (dst = in6addrAllrouters) && isSolicitation p) ||
    if in6TeredoPrefix src = s.pfx then
      decide (in6MatchesTeredoClient src p.sourceIpv4 p.sourcePort)
    else decide (in6TeredoPrefix dst = s.pfx) && decide (in6TeredoServer dst = s.serverIp)

def fromSelf : Bool :=
  (decide (p.sourceIpv4 = s.serverIp) || decide (p.sourceIpv4 = s.serverIp2)) &&
    decide (p.sourcePort = ipportTeredo)

/-- `teredo_process_packet`, for a packet received on the primary or on the secondary socket. -/
def teredoProcessPacket (sec : Bool) : ServerReply :=
  let dst := ip6Dst p.ip6
  -- server cases 1 to 3
  if ¬ p.WellFormed then .discarded else
  if !isBubble p.ip6 && decide (ip6Nxt p.ip6 ≠ ipprotoIcmpv6) then .discarded else
  if !isIpv4GlobalUnicast p.sourceIpv4 then .discarded else
  -- server case 7
  if !serverAccepts s p then .discarded else
  if fromSelf s p then .discarded else
  if dst = in6addrAllrouters ∨ dst = s.lladdr then
    if isSolicitation p then .advert (sendRa s p (ip6Src p.ip6) sec) else .discarded
  else if !in6IsAddrGlobal dst then .discarded
  -- no open relay for large packets
  else if ip6Nxt p.ip6 ≠ ipprotoNone ∧ 88 < ip6Plen p.ip6 then .discarded
  else if in6TeredoPrefix dst ≠ s.pfx then .ipv6 (trimmed p.ip6)
  else .udp (teredoForwardUdp p (decide (in6TeredoServer dst = s.serverIp)))

end Process

/-! ## All that is sent -/

/-- An IPv6 packet, as the tunnel device gives it. -/
structure Ip6Packet where
  data : List UInt8
  length_ge : 40 ≤ data.length
  version : ip6Vfc data >>> 4 = 6

/-- The datagrams that the client, the relay and the server send. -/
inductive Encapsulation where
  /-- `teredo_send_rs`. -/
  | solicitation (nonce : Bytes 8) (cone : Bool)
  /-- `SendRA`, with or without a nonce. -/
  | advert (s : Server) (nonce : Option (Bytes 8)) (p : TeredoPacket) (destIp6 : In6Addr)
      (secondary : Bool)
  /-- `teredo_forward_udp`, for a packet that the server processed. -/
  | forwarded (s : Server) (p : TeredoPacket) (sec : Bool) (d : Datagram)
      (h : teredoProcessPacket s p sec = .udp (some d))
  /-- `teredo_send_bubble_anyway`. -/
  | bubble (src dst : In6Addr)
  /-- `teredo_send`, for a packet from the tunnel or a ping. -/
  | plain (ip6 : Ip6Packet)

namespace Encapsulation

def data : Encapsulation → List UInt8
  | solicitation nonce cone => teredoSendRs nonce cone
  | advert s nonce p destIp6 secondary => (sendRaWith s nonce p destIp6 secondary).data
  | forwarded _ _ _ d _ => d.data
  | bubble src dst => teredoSendBubbleAnyway src dst
  | plain ip6 => ip6.data

def auth : Encapsulation → Option (Bytes 8 × UInt8)
  | solicitation nonce _ => some (nonce, 0)
  | advert _ nonce _ _ _ => nonce.map (·, 0)
  | forwarded .. | bubble .. | plain _ => none

def orig : Encapsulation → Option (Ipv4 × Port)
  | advert _ _ p _ _ => some (p.sourceIpv4, p.sourcePort)
  | forwarded s p _ _ _ =>
    if in6TeredoServer (ip6Dst p.ip6) = s.serverIp then some (p.sourceIpv4, p.sourcePort) else none
  | solicitation .. | bubble .. | plain _ => none

def inner : Encapsulation → List UInt8
  | solicitation _ cone => Teredo.solicitation cone
  | advert s _ _ destIp6 _ => raPacket s destIp6
  | forwarded _ p _ _ _ => p.ip6
  | bubble src dst => ip6Hdr 0 ipprotoNone 0 src dst
  | plain ip6 => ip6.data

end Encapsulation

section Sent

variable {p : TeredoPacket} {d : Datagram} {s} {sec : Bool}

theorem forwardUdp_eq_some {insertOrig : Bool} (h : teredoForwardUdp p insertOrig = some d) :
    isIpv4GlobalUnicast (in6TeredoIpv4 (ip6Dst p.ip6)) = true ∧
      d = ⟨false, in6TeredoIpv4 (ip6Dst p.ip6), in6TeredoPort (ip6Dst p.ip6),
        (if insertOrig then origHeader p.sourceIpv4 p.sourcePort else []) ++ p.ip6⟩ := by
  dsimp only [teredoForwardUdp] at h
  by_cases hglobal : (!isIpv4GlobalUnicast (in6TeredoIpv4 (ip6Dst p.ip6))) = true
  · rw [if_pos hglobal] at h
    cases h
  · rw [if_neg hglobal] at h
    exact ⟨by simpa using hglobal, (Option.some.inj h).symm⟩

theorem processPacket_cases : teredoProcessPacket s p sec = .discarded ∨ p.WellFormed ∧
      (teredoProcessPacket s p sec = .advert (sendRa s p (ip6Src p.ip6) sec) ∨
        teredoProcessPacket s p sec = .ipv6 (trimmed p.ip6) ∨
        teredoProcessPacket s p sec =
          .udp (teredoForwardUdp p (decide (in6TeredoServer (ip6Dst p.ip6) = s.serverIp)))) := by
  by_cases hwf : p.WellFormed
  swap
  · exact .inl (if_pos hwf)
  unfold teredoProcessPacket
  rw [if_neg (not_not.mpr hwf)]
  split_ifs
  all_goals simp [hwf]

/-- What the server forwards is a well formed packet, sent to a global unicast address, behind an
origin indication if the destination is a client of this server. -/
theorem processPacket_udp (h : teredoProcessPacket s p sec = .udp (some d)) :
    p.WellFormed ∧ isIpv4GlobalUnicast d.ip = true ∧
      d.data = (if in6TeredoServer (ip6Dst p.ip6) = s.serverIp then
        origHeader p.sourceIpv4 p.sourcePort else []) ++ p.ip6 := by
  rcases processPacket_cases with hp | ⟨hwf, hp | hp | hp⟩
  · cases hp.symm.trans h
  · cases hp.symm.trans h
  · cases hp.symm.trans h
  · obtain ⟨hglobal, rfl⟩ := forwardUdp_eq_some (ServerReply.udp.inj (hp.symm.trans h))
    refine ⟨hwf, hglobal, ?_⟩
    simp only [decide_eq_true_eq]

theorem headD_ne_zero {ip6 : List UInt8} (h : ip6Vfc ip6 >>> 4 = 6) : ip6.headD 0 ≠ 0 := by
  intro hzero
  have hvfc : ip6Vfc ip6 = ip6.headD 0 := by cases ip6 <;> rfl
  rw [hvfc, hzero] at h
  exact nomatch h

namespace Encapsulation

theorem parts (e : Encapsulation) : ∃ a b, AuthHdr a e.auth ∧ OrigHdr b e.orig ∧
    e.data = a ++ b ++ e.inner ∧ ip6Vfc e.inner >>> 4 = 6 ∧ 40 ≤ e.inner.length := by
  have hversion : (0x60 : UInt8) >>> 4 = 6 := by decide
  cases e with
  | solicitation nonce cone =>
    exact ⟨_, [], authHdr_authHeader, rfl, by rw [append_nil]; rfl, hversion,
      by simp [inner, Teredo.solicitation]⟩
  | advert s nonce p destIp6 secondary =>
    refine ⟨_, origHeader p.sourceIpv4 p.sourcePort, ?_, rfl, rfl, hversion,
      by simp [inner, raPacket]⟩
    cases nonce with
    | none => rfl
    | some nonce => exact authHdr_authHeader
  | forwarded s p sec d h =>
    obtain ⟨hwf, -, hd⟩ := processPacket_udp h
    by_cases hserver : in6TeredoServer (ip6Dst p.ip6) = s.serverIp
    · rw [if_pos hserver] at hd
      refine ⟨[], _, rfl, ?_, hd, hwf.2.1, hwf.1⟩
      rw [orig, if_pos hserver]
      rfl
    · rw [if_neg hserver] at hd
      refine ⟨[], [], rfl, ?_, hd, hwf.2.1, hwf.1⟩
      rw [orig, if_neg hserver]
      rfl
  | bubble src dst => exact ⟨[], [], rfl, rfl, rfl, hversion, ip6Hdr_length.ge⟩
  | plain ip6 => exact ⟨[], [], rfl, rfl, rfl, ip6.version, ip6.length_ge⟩

theorem recv (e : Encapsulation) (o : Outer) (stale : List UInt8) :
    teredoRecvInner o (e.data ++ stale) e.data.length = some (o.packet e.auth e.orig e.inner) := by
  obtain ⟨a, b, ha, hb, hdata, hversion, hlen⟩ := e.parts
  rw [hdata]
  exact recv_of_headers ha hb (headD_ne_zero hversion) (by omega)

end Encapsulation

end Sent

/-! ## Qualification -/

section Qualification

variable {s} {a : In6Addr} {rest : List UInt8}

theorem raOption_prefix (ha : in6TeredoServer a = anyIpv4) (netMtu : ℕ) :
    raOption (raPrefixOption s ++ rest) a netMtu =
      some (setField a 0 (field (s.pfx.toList ++ s.serverIp.toList) 0 8).toList, netMtu) := by
  have hopt : field (raPrefixOption s ++ rest) 16 8 =
      field (s.pfx.toList ++ s.serverIp.toList) 0 8 := by
    unfold raPrefixOption
    rw [field_append_left (by simp), field_append_left (by simp), field_append_right (by simp)]
    simp
  have htype : (raPrefixOption s ++ rest).getD 0 0 = ndOptPrefixInformation := rfl
  rw [raOption, if_pos htype, if_neg (by simp [optLen, raPrefixOption]),
    if_neg (not_not.mpr ha), hopt]

theorem raOption_mtu (netMtu : ℕ) :
    raOption (raMtuOption s) a netMtu = some (a, s.mtu) := by
  have hopt : field (raMtuOption s) 4 4 = s.advLinkMtu := by
    unfold raMtuOption
    rw [field_append_right (by simp)]
    simp
  have htype : (raMtuOption s).getD 0 0 = ndOptMtu := rfl
  have hge := s.mtu_ge
  have hle := s.mtu_le
  rw [raOption, htype, if_neg (by decide), if_pos rfl, hopt]
  exact if_neg (by omega)

theorem raOptions_server (ha : in6TeredoServer a = anyIpv4) :
    raOptions (raPrefixOption s ++ raMtuOption s) a 0 =
      .ok (setField a 0 (field (s.pfx.toList ++ s.serverIp.toList) 0 8).toList, s.mtu) := by
  have hpi : optLen (raPrefixOption s ++ raMtuOption s) = 32 := rfl
  have hmtu : optLen (raMtuOption s) = 8 := rfl
  have hlen : (raPrefixOption s).length = 32 := by simp [raPrefixOption]
  have hlen' : (raMtuOption s).length = 8 := by simp [raMtuOption]
  rw [raOptions, if_pos (by simp [hlen, hlen']), hpi, if_neg (by simp [hlen]), raOption_prefix ha]
  show raOptions ((raPrefixOption s ++ raMtuOption s).drop 32) _ _ = _
  rw [drop_left' hlen, raOptions, if_pos hlen'.ge, hmtu, if_neg (by omega), raOption_mtu]
  show raOptions ((raMtuOption s).drop 8) _ _ = _
  rw [drop_of_length_le hlen'.le, raOptions, if_neg (by simp)]

theorem parts_of_option (pfx : Bytes 4) (ip : Ipv4) :
    in6TeredoPrefix (setField a 0 (field (pfx.toList ++ ip.toList) 0 8).toList) = pfx ∧
      in6TeredoServer (setField a 0 (field (pfx.toList ++ ip.toList) 0 8).toList) = ip := by
  constructor
  · unfold in6TeredoPrefix
    rw [field_setField_part (k := 0) _ (by omega) (by omega), field_field (by omega),
      field_append_left (by simp)]
    simp
  · change field (setField a 0 _).toList (0 + 4) 4 = ip
    rw [field_setField_part _ (by omega) (by omega), field_field (by omega),
      field_append_right (by simp)]
    simp

variable {p : TeredoPacket} {cone : Bool}

theorem parseRa_server {newaddr : In6Addr} {mtu : ℕ} (horig : isIpv4GlobalUnicast p.origIpv4 = true)
    (hobs : s.pfx ≠ teredoPrefixObsolete)
    (hp : p.ip6 = raPacket s (if cone then teredoCone else teredoRestrict)) :
    teredoParseRa p newaddr cone mtu =
      (true, teredoAddr s.pfx s.serverIp (coneFlags cone) p.origPort p.origIpv4, s.mtu) := by
  have hglobal : ¬ p.origIpv4 = anyIpv4 := by
    intro h
    rw [h] at horig
    exact nomatch horig
  obtain ⟨cksum, hra⟩ : ∃ cksum, p.ip6 =
      ip6Hdr 56 ipprotoIcmpv6 255 s.lladdr (if cone then teredoCone else teredoRestrict) ++
        raMessage s cksum := ⟨_, hp⟩
  have hplen : ip6Plen p.ip6 = 56 := by
    rw [hra, ip6Plen_ip6Hdr (by omega)]
  have hhdr : ip6Dst p.ip6 = (if cone then teredoCone else teredoRestrict) ∧
      ip6Nxt p.ip6 = ipprotoIcmpv6 := by
    rw [hra]
    exact ⟨ip6Dst_ip6Hdr, ip6Nxt_ip6Hdr⟩
  have hslice : slice p.ip6 40 56 = raMessage s cksum := by
    rw [hra, slice_append_right ip6Hdr_length, take_of_length_le]
    simp [raMessage, raPrefixOption, raMtuOption]
  have htype : (raMessage s cksum).getD 0 0 = ndRouterAdvert ∧ (raMessage s cksum).getD 1 0 = 0 :=
    ⟨rfl, rfl⟩
  have hopts : (raMessage s cksum).drop 16 = raPrefixOption s ++ raMtuOption s := by
    rw [raMessage, drop_left' (by simp)]
  have hserver : in6TeredoServer (setServer newaddr anyIpv4) = anyIpv4 := in6TeredoServer_setServer
  have hmtu : s.mtu % 65536 = s.mtu := Nat.mod_eq_of_lt (Nat.lt_succ_of_le s.mtu_le)
  have hmtu' : s.mtu ≠ 0 := by
    have : 1280 ≤ s.mtu := s.mtu_ge
    omega
  obtain ⟨hpfx, hip⟩ := parts_of_option (a := setServer newaddr anyIpv4) s.pfx s.serverIp
  simp only [teredoParseRa, if_neg hglobal, hplen, hhdr, hslice, htype, hopts,
    raOptions_server hserver, hpfx, if_neg hobs, s.pfx_valid, hmtu, if_pos hmtu', ne_eq,
    not_true_eq_false, false_or, Nat.reduceLT, if_false, Nat.reduceSub, Bool.not_true,
    Bool.false_eq_true]
  refine Prod.ext rfl (Prod.ext ?_ rfl)
  exact setClient_eq.trans (by rw [hpfx, hip])

def solicited (up : Outer) (nonce : Bytes 8) (cone : Bool) : TeredoPacket :=
  up.packet (some (nonce, 0)) none (solicitation cone)

theorem ip6Src_solicitation :
    ip6Src (solicitation cone) = if cone then teredoCone else teredoRestrict := by
  rw [solicitation, append_assoc, append_assoc, ip6Src_ip6Hdr]

theorem processPacket_solicitation (hip6 : p.ip6 = solicitation cone)
    (hsource : isIpv4GlobalUnicast p.sourceIpv4 = true) (sec : Bool) :
    teredoProcessPacket s p sec = if fromSelf s p then .discarded
      else .advert (sendRa s p (if cone then teredoCone else teredoRestrict) sec) := by
  have hwf : p.WellFormed := by
    unfold TeredoPacket.WellFormed
    rw [hip6]
    cases cone <;> decide
  have hnxt : ip6Nxt p.ip6 = ipprotoIcmpv6 := by rw [hip6]; rfl
  have hrs : isSolicitation p = true := by
    unfold isSolicitation
    rw [hip6]
    cases cone <;> decide
  have hsrc : ip6Src p.ip6 = (if cone then teredoCone else teredoRestrict) := by
    rw [hip6, ip6Src_solicitation]
  have hdst : ip6Dst p.ip6 = in6addrAllrouters := by
    rw [hip6, solicitation, append_assoc, append_assoc, ip6Dst_ip6Hdr]
  have haccept : serverAccepts s p = true := by
    have hlocal : isLinkLocal (if cone then teredoCone else teredoRestrict) := by
      cases cone <;> decide
    simp [serverAccepts, hsrc, hdst, hrs, hlocal]
  rw [teredoProcessPacket]
  simp [hwf, hnxt, hsource, haccept, hdst, hrs, hsrc]

end Qualification

/-- The server answers the solicitation of a client with a global unicast address, unless that is
its own; and the client makes of the answer its Teredo address, with the MTU of the server, whatever
its state was and whatever is in the buffers. -/
theorem server_qualifies (s : Server) (hobs : s.pfx ≠ teredoPrefixObsolete) (up down : Outer)
    (hip : isIpv4GlobalUnicast up.sourceIpv4 = true) (nonce : Bytes 8) (cone sec : Bool)
    (stale stale' : List UInt8) (state : TeredoState) :
    ∃ p d q,
      teredoRecvInner up (teredoSendRs nonce cone ++ stale) (teredoSendRs nonce cone).length =
          some p ∧
        teredoProcessPacket s p sec = (if fromSelf s p then .discarded else .advert d) ∧
        d = sendRa s p (ip6Src p.ip6) sec ∧ d.ip = up.sourceIpv4 ∧ d.port = up.sourcePort ∧
        teredoRecvInner down (d.data ++ stale') d.data.length = some q ∧
        maintenanceRecv q s.serverIp nonce cone state =
          (none, { state with
            addr := teredoAddr s.pfx s.serverIp (coneFlags cone) up.sourcePort up.sourceIpv4
            mtu := s.mtu
            ipv4 := down.destIpv4 }) := by
  obtain ⟨p, hp⟩ : ∃ p, p = solicited up nonce cone := ⟨_, rfl⟩
  have hsrc : ip6Src p.ip6 = (if cone then teredoCone else teredoRestrict) := by
    rw [hp]
    exact ip6Src_solicitation
  obtain ⟨q, hq⟩ : ∃ q, q = down.packet (some (nonce, 0)) (some (up.sourceIpv4, up.sourcePort))
    (raPacket s (ip6Src p.ip6)) := ⟨_, rfl⟩
  refine ⟨p, _, q, hp ▸ (Encapsulation.solicitation nonce cone).recv up stale, ?_, rfl, ?_, ?_,
    ?_, ?_⟩
  · rw [hsrc, hp]
    exact processPacket_solicitation rfl hip sec
  · rw [hp]
    rfl
  · rw [hp]
    rfl
  · refine ((Encapsulation.advert s (some p.authNonce) p _ sec).recv down stale').trans ?_
    rw [hq, hp]
    rfl
  · have hparse : teredoParseRa q state.addr cone state.mtu = _ :=
      parseRa_server (by rw [hq]; exact hip) hobs (by rw [← hsrc, hq]; rfl)
    have hnonce : ¬ q.authNonce ≠ nonce := by
      rw [hq]
      exact not_not.mpr rfl
    have hfail : ¬ q.authFail = true := by
      simp [hq, Outer.packet]
    rw [maintenanceRecv, if_neg hnonce, if_neg hfail, hparse]
    simp [hq, Outer.packet]

def plainServer : Server where
  serverIp := bytes [65, 54, 227, 120]
  serverIp2 := bytes [65, 54, 227, 121]
  pfx := teredoPrefix
  advLinkMtu := bytes (be 4 1280)
  lladdr := teredoAddr (bytes (be 4 0xfe800000)) anyIpv4 (coneFlags true) ipportTeredo
    (bytes [65, 54, 227, 120])
  serverIp_global := by decide
  serverIp2_global := by decide
  pfx_valid := by decide
  mtu_ge := by decide
  mtu_le := by decide

/-- A client of `plainServer`. -/
def plainClient : In6Addr :=
  teredoAddr teredoPrefix plainServer.serverIp (coneFlags false) (bytes [0x9c, 0x40])
    (bytes [192, 0, 2, 45])

def plainOuter : Outer where
  sourceIpv4 := bytes [198, 51, 100, 7]
  sourcePort := bytes [0xc3, 0x50]
  destIpv4 := anyIpv4
  junkFail := false
  junkNonce := bytes [0, 0, 0, 0, 0, 0, 0, 0]

theorem server_qualifies_plain : ∃ q,
    maintenanceRecv q plainServer.serverIp (bytes [1, 2, 3, 4, 5, 6, 7, 8]) false
        ⟨teredoRestrict, 0, anyIpv4, false⟩ =
      (none, ⟨bytes [0x20, 1, 0, 0, 65, 54, 227, 120, 0, 0, 0x63, 0xbf, 63, 255, 253, 210],
        1280, bytes [192, 168, 0, 2], false⟩) := by
  obtain ⟨p, d, q, -, -, -, -, -, -, h⟩ := server_qualifies plainServer (by decide)
    ⟨bytes [192, 0, 2, 45], bytes [0x9c, 0x40], anyIpv4, false, bytes [0, 0, 0, 0, 0, 0, 0, 0]⟩
    ⟨plainServer.serverIp, ipportTeredo, bytes [192, 168, 0, 2], false,
      bytes [0, 0, 0, 0, 0, 0, 0, 0]⟩ (by decide) (bytes [1, 2, 3, 4, 5, 6, 7, 8]) false false [] []
    ⟨teredoRestrict, 0, anyIpv4, false⟩
  exact ⟨q, h⟩

/-! ## Forwarding -/

variable {p : TeredoPacket} {d : Datagram} {s} {sec : Bool}

theorem processPacket_advert (h : teredoProcessPacket s p sec = .advert d) :
    d = sendRa s p (ip6Src p.ip6) sec := by
  rcases processPacket_cases with hp | ⟨-, hp | hp | hp⟩
  · cases hp.symm.trans h
  · exact (ServerReply.advert.inj (hp.symm.trans h)).symm
  · cases hp.symm.trans h
  · cases hp.symm.trans h

theorem processPacket_forwards (hwf : p.WellFormed)
    (hnxt : isBubble p.ip6 = true ∨ ip6Nxt p.ip6 = ipprotoIcmpv6 ∧ ip6Plen p.ip6 ≤ 88)
    (hsource : isIpv4GlobalUnicast p.sourceIpv4 = true) (haccept : serverAccepts s p = true)
    (hself : fromSelf s p = false) (hrouters : ip6Dst p.ip6 ≠ in6addrAllrouters)
    (hlladdr : ip6Dst p.ip6 ≠ s.lladdr) (hglobal : in6IsAddrGlobal (ip6Dst p.ip6) = true)
    (hpfx : in6TeredoPrefix (ip6Dst p.ip6) = s.pfx)
    (hserver : in6TeredoServer (ip6Dst p.ip6) = s.serverIp)
    (hclient : isIpv4GlobalUnicast (in6TeredoIpv4 (ip6Dst p.ip6)) = true) :
    teredoProcessPacket s p sec =
      .udp (some ⟨false, in6TeredoIpv4 (ip6Dst p.ip6), in6TeredoPort (ip6Dst p.ip6),
        origHeader p.sourceIpv4 p.sourcePort ++ p.ip6⟩) := by
  have hkind : (!isBubble p.ip6 && decide (ip6Nxt p.ip6 ≠ ipprotoIcmpv6)) = false := by
    rcases hnxt with h | h
    · simp [h]
    · simp [h.1]
  have hsmall : ¬ (ip6Nxt p.ip6 ≠ ipprotoNone ∧ 88 < ip6Plen p.ip6) := by
    rintro ⟨hnone, hlarge⟩
    rcases hnxt with h | h
    · simp only [isBubble, Bool.and_eq_true, decide_eq_true_eq] at h
      exact hnone h.2
    · omega
  rw [teredoProcessPacket, if_neg (not_not.mpr hwf)]
  simp only [hkind, hsource, haccept, hself, hglobal, hpfx, hserver, Bool.not_true,
    Bool.false_eq_true,
    if_false, if_neg (not_or.mpr ⟨hrouters, hlladdr⟩), if_neg hsmall, ne_eq, not_true_eq_false,
    decide_true, teredoForwardUdp, hclient, if_true]

theorem processPacket_bubble {src : In6Addr} (hsrc : in6TeredoPrefix src ≠ plainServer.pfx)
    (rest : List UInt8) :
    ∃ d, teredoProcessPacket plainServer
      (plainOuter.packet none none (teredoSendBubbleAnyway src plainClient ++ rest)) false =
        .udp (some d) := by
  obtain ⟨p, hp⟩ : ∃ p, p = plainOuter.packet none none
    (teredoSendBubbleAnyway src plainClient ++ rest) := ⟨_, rfl⟩
  have hip6 : p.ip6 = teredoSendBubbleAnyway src plainClient ++ rest := by rw [hp]; rfl
  have hdst : ip6Dst p.ip6 = plainClient := by rw [hip6, ip6Dst_bubble_append]
  have hplen : ip6Plen p.ip6 = 0 := by rw [hip6]; exact ip6Plen_ip6Hdr (by omega)
  have hwf : p.WellFormed := by
    have hlen : p.ip6.length = 40 + rest.length := by simp [hip6, teredoSendBubbleAnyway]
    have hvfc : ip6Vfc p.ip6 = 0x60 := by rw [hip6]; rfl
    refine ⟨by omega, ?_, by omega⟩
    rw [hvfc]
    decide
  have hbubble : isBubble p.ip6 = true := by rw [hip6]; rfl
  have hsource : isIpv4GlobalUnicast p.sourceIpv4 = true := by
    rw [hp]
    show isIpv4GlobalUnicast plainOuter.sourceIpv4 = true
    decide
  have haccept : serverAccepts plainServer p = true := by
    have hsrc' : ip6Src p.ip6 = src := by rw [hip6, ip6Src_bubble_append]
    unfold serverAccepts
    rw [hsrc', hdst]
    simp [hsrc, show in6TeredoPrefix plainClient = plainServer.pfx by decide,
      show in6TeredoServer plainClient = plainServer.serverIp by decide]
  have hself : fromSelf plainServer p = false := by
    rw [hp]
    show fromSelf plainServer (plainOuter.packet none none []) = false
    decide
  rw [← hp]
  refine ⟨_, processPacket_forwards hwf (.inl hbubble) hsource haccept hself ?_ ?_ ?_ ?_ ?_ ?_⟩
  all_goals rw [hdst]; decide

/-- The decoder recovers all that is sent. Of any datagram it uses nothing but the bytes received:
it rejects it, or the headers it finds and the packet are all of it. -/
theorem decoder_recovers (o : Outer) :
    (∀ e : Encapsulation, ∀ stale, teredoRecvInner o (e.data ++ stale) e.data.length =
      some (o.packet e.auth e.orig e.inner)) ∧
    ∀ d : List UInt8, (∀ stale, teredoRecvInner o (d ++ stale) d.length = none) ∨
      ∃ p, Decodes o d p ∧ ∀ stale, teredoRecvInner o (d ++ stale) d.length = some p :=
  ⟨fun e stale => e.recv o stale, recv_cases o⟩

end Maiccu.Teredo
