import Maiccu.Lib.Bytes

/-!
# Teredo packets and their checks

Addresses and packets as the Teredo code of `miredo` sees them, and the checks of `packets.c` and
`security.c`. An address or a port is kept as it lies in memory, in network order. The keyed hash is
a parameter: `Keyed` has the function and the process number that the code sends along with it.
-/

namespace Maiccu.Teredo

open Maiccu.Lib

/-! ## Addresses -/

/-- `struct in6_addr`, and as well `union teredo_addr`. -/
abbrev In6Addr := Bytes 16

abbrev Ipv4 := Bytes 4

abbrev Port := Bytes 2

/-- The address `0.0.0.0`. -/
def anyIpv4 : Ipv4 := bytes [0, 0, 0, 0]

def anyPort : Port := bytes [0, 0]

variable (a : In6Addr)

def in6TeredoPrefix : Bytes 4 := field a.toList 0 4

def in6TeredoServer : Ipv4 := field a.toList 4 4

def in6TeredoFlags : Bytes 2 := field a.toList 8 2

def flip {n : ℕ} (a : Bytes n) : Bytes n := a.map (· ^^^ 0xff)

@[simp] theorem flip_flip {n : ℕ} (a : Bytes n) : flip (flip a) = a := by
  apply List.Vector.ext
  intro i
  simp only [flip, List.Vector.get_map, UInt8.xor_assoc, UInt8.xor_self, UInt8.xor_zero]

theorem flip_inj {n : ℕ} {a b : Bytes n} (h : flip a = flip b) : a = b := by
  rw [← flip_flip a, h, flip_flip]

/-- The port is stored with all bits flipped. -/
def in6TeredoPort : Port := (field a.toList 10 2).map (· ^^^ 0xff)

/-- The address is stored with all bits flipped. -/
def in6TeredoIpv4 : Ipv4 := (field a.toList 12 4).map (· ^^^ 0xff)

/-- The flag `TEREDO_FLAG_CONE` of an address. -/
def isCone : Bool := (in6TeredoFlags a).toList.getD 0 0 &&& 0x80 != 0

theorem in6Addr_ext {a b : In6Addr} (hpfx : in6TeredoPrefix a = in6TeredoPrefix b)
    (hserver : in6TeredoServer a = in6TeredoServer b) (hflags : in6TeredoFlags a = in6TeredoFlags b)
    (hport : in6TeredoPort a = in6TeredoPort b) (hip : in6TeredoIpv4 a = in6TeredoIpv4 b) :
      a = b := by
  have hall : field a.toList 0 16 = field b.toList 0 16 :=
    field_add (field_add (field_add (field_add hpfx hserver) hflags) (flip_inj hport))
      (flip_inj hip)
  rwa [field_toList, field_toList] at hall

def teredoAddr (pfx : Bytes 4) (server : Ipv4) (flags : Bytes 2) (port : Port) (ip : Ipv4) :
    In6Addr :=
  field (pfx.toList ++ server.toList ++ flags.toList ++ (flip port).toList ++ (flip ip).toList) 0 16

section TeredoAddr

variable {pfx : Bytes 4} {server : Ipv4} {flags : Bytes 2} {port : Port} {ip : Ipv4}

@[simp] theorem in6TeredoPrefix_teredoAddr :
    in6TeredoPrefix (teredoAddr pfx server flags port ip) = pfx := by
  unfold in6TeredoPrefix teredoAddr
  rw [field_field (by omega), field_append_left (by simp), field_append_left (by simp),
    field_append_left (by simp), field_append_left (by simp)]
  simp

@[simp] theorem in6TeredoServer_teredoAddr :
    in6TeredoServer (teredoAddr pfx server flags port ip) = server := by
  unfold in6TeredoServer teredoAddr
  rw [field_field (by omega), field_append_left (by simp), field_append_left (by simp),
    field_append_left (by simp), field_append_right (by simp)]
  simp

@[simp] theorem in6TeredoFlags_teredoAddr :
    in6TeredoFlags (teredoAddr pfx server flags port ip) = flags := by
  unfold in6TeredoFlags teredoAddr
  rw [field_field (by omega), field_append_left (by simp), field_append_left (by simp),
    field_append_right (by simp)]
  simp

@[simp] theorem in6TeredoPort_teredoAddr :
    in6TeredoPort (teredoAddr pfx server flags port ip) = port := by
  have hfield : field (teredoAddr pfx server flags port ip).toList 10 2 = flip port := by
    unfold teredoAddr
    rw [field_field (by omega), field_append_left (by simp), field_append_right (by simp)]
    simp
  unfold in6TeredoPort
  rw [hfield]
  exact flip_flip port

@[simp] theorem in6TeredoIpv4_teredoAddr :
    in6TeredoIpv4 (teredoAddr pfx server flags port ip) = ip := by
  have hfield : field (teredoAddr pfx server flags port ip).toList 12 4 = flip ip := by
    unfold teredoAddr
    rw [field_field (by omega), field_append_right (by simp)]
    simp
  unfold in6TeredoIpv4
  rw [hfield]
  exact flip_flip ip

theorem eq_teredoAddr {a : In6Addr} (hpfx : in6TeredoPrefix a = pfx)
    (hserver : in6TeredoServer a = server) (hflags : in6TeredoFlags a = flags)
    (hport : in6TeredoPort a = port) (hip : in6TeredoIpv4 a = ip) :
    a = teredoAddr pfx server flags port ip := by
  apply in6Addr_ext
  · rw [hpfx, in6TeredoPrefix_teredoAddr]
  · rw [hserver, in6TeredoServer_teredoAddr]
  · rw [hflags, in6TeredoFlags_teredoAddr]
  · rw [hport, in6TeredoPort_teredoAddr]
  · rw [hip, in6TeredoIpv4_teredoAddr]

end TeredoAddr

def in6MatchesTeredoClient (a : In6Addr) (ip : Ipv4) (port : Port) : Prop :=
  ip = in6TeredoIpv4 a ∧ port = in6TeredoPort a

instance (a : In6Addr) (ip : Ipv4) (port : Port) : Decidable (in6MatchesTeredoClient a ip port) :=
  inferInstanceAs (Decidable (_ ∧ _))

/-- The first byte of a multicast address is `0xff`. -/
def isMulticast (a : In6Addr) : Prop := a.toList.getD 0 0 = 0xff

instance (a : In6Addr) : Decidable (isMulticast a) := inferInstanceAs (Decidable (_ = _))

/-- The addresses of `fe80::/10`. -/
def isLinkLocal (a : In6Addr) : Prop :=
  a.toList.getD 0 0 &&& 0xff = 0xfe ∧ a.toList.getD 1 0 &&& 0xc0 = 0x80

instance (a : In6Addr) : Decidable (isLinkLocal a) := inferInstanceAs (Decidable (_ ∧ _))

def teredoCone : In6Addr :=
  bytes [0xfe, 0x80, 0, 0, 0, 0, 0, 0, 0x80, 0, 0x54, 0x45, 0x52, 0x45, 0x44, 0x4f]

def teredoRestrict : In6Addr :=
  bytes [0xfe, 0x80, 0, 0, 0, 0, 0, 0, 0, 0, 0xff, 0xff, 0xff, 0xff, 0xff, 0xff]

def in6addrAllnodes : In6Addr := bytes [0xff, 2, 0, 0, 0, 0, 0, 0, 0, 0, 0, 0, 0, 0, 0, 1]

/-- `htonl (TEREDO_DISCOVERY_IPV4)`. -/
def teredoDiscoveryIpv4 : Ipv4 := bytes [224, 0, 0, 253]

/-- `htons (IPPORT_TEREDO)`. -/
def ipportTeredo : Port := bytes (be 2 3544)

/-- `ntohl` of a word in network order. -/
def ntohl (a : Bytes 4) : UInt32 := UInt32.ofNat (ofBe a.toList)

def htonl (x : UInt32) : Bytes 4 := bytes (be 4 x.toNat)

@[simp] theorem ntohl_htonl (x : UInt32) : ntohl (htonl x) = x := by
  have hbe : ofBe (htonl x).toList = x.toNat :=
    ofBe_be.trans (Nat.mod_eq_of_lt x.toNat_lt)
  unfold ntohl
  rw [hbe, UInt32.ofNat_toNat]

def isIpv4GlobalUnicast (a : Ipv4) : Bool :=
  let ip := ntohl a
  if ip &&& 0x80000000 = 0 then
    let ip := ip &&& 0xff000000
    ip != 0x0a000000 && ip != 0x7f000000 && ip != 0x00000000
  else if ip &&& 0x40000000 = 0 then
    ip &&& 0xffff0000 != 0xa9fe0000 && ip &&& 0xfff00000 != 0xac100000
  else if ip &&& 0x20000000 = 0 then
    ip &&& 0xffff0000 != 0xc0a80000 && ip &&& 0xffffff00 != 0xc0586200
  else if ip &&& 0x10000000 = 0 then false
  else ip != 0xffffffff

/-! ## IPv6 headers -/

def ipprotoNone : UInt8 := 59

def ipprotoIcmpv6 : UInt8 := 58

variable (ip6 : List UInt8)

def ip6Vfc : UInt8 := ip6.getD 0 0

/-- `ntohs (ip6_plen)`. -/
def ip6Plen : ℕ := ofBe (field ip6 4 2).toList

def ip6Nxt : UInt8 := ip6.getD 6 0

def ip6Src : In6Addr := field ip6 8 16

def ip6Dst : In6Addr := field ip6 24 16

/-- The packet without what follows its payload: the header has 40 bytes. -/
def trimmed : List UInt8 := ip6.take (40 + ip6Plen ip6)

theorem ip6Src_trimmed : ip6Src (trimmed ip6) = ip6Src ip6 :=
  field_take (by omega)

def isBubble : Bool := decide (ip6Plen ip6 = 0) && decide (ip6Nxt ip6 = ipprotoNone)

/-- The list `ip6` is the packet inside, so `ip6_len` is its length. -/
structure TeredoPacket where
  ip6 : List UInt8
  sourceIpv4 : Ipv4
  sourcePort : Port
  /-- The origin indication, or zero if there is none. -/
  origIpv4 : Ipv4
  origPort : Port
  destIpv4 : Ipv4
  authPresent : Bool
  authFail : Bool
  authNonce : Bytes 8
  deriving DecidableEq

/-- A packet without an authentication header and an origin indication. -/
def TeredoPacket.plain (ip6 : List UInt8) (ip : Ipv4) (port : Port) : TeredoPacket :=
  ⟨ip6, ip, port, anyIpv4, anyPort, anyIpv4, false, false, field [] 0 8⟩

variable (p : TeredoPacket)

/-- The two tests at the start of `teredo_run_inner`. -/
def TeredoPacket.WellFormed : Prop :=
  40 ≤ p.ip6.length ∧ ip6Vfc p.ip6 >>> 4 = 6 ∧ 40 + ip6Plen p.ip6 ≤ p.ip6.length

instance (p : TeredoPacket) : Decidable p.WellFormed := inferInstanceAs (Decidable (_ ∧ _))

/-- The packets that `teredo_maintenance_process` takes. -/
def TeredoPacket.ForMaintenance : Prop :=
  p.sourcePort = ipportTeredo ∧ p.authPresent = true ∧ ip6Dst p.ip6 = teredoRestrict

instance (p : TeredoPacket) : Decidable p.ForMaintenance := inferInstanceAs (Decidable (_ ∧ _))

def isDiscoveryBubble : Bool :=
  isBubble p.ip6 && decide (p.destIpv4 = teredoDiscoveryIpv4) &&
    decide (ip6Dst p.ip6 = in6addrAllnodes)

/-! ## Keyed checks -/

/-- `hmac_pid` and `teredo_hash`, with the key inside. The last argument of the hash is the time
stamp as it lies in memory. -/
structure Keyed where
  pid : Bytes 2
  hash : List UInt8 → List UInt8 → Bytes 4 → Bytes 16

section Checks

variable (key : Keyed) (timestamp : Bytes 4)

def teredoGetNonce (ip : Ipv4) (port : Port) : Bytes 8 :=
  field (key.hash ip.toList port.toList timestamp).toList 0 8

/-- `teredo_get_flbits`, as the bytes lie in memory: the second byte of the hash is the low one. -/
def teredoGetFlbits : Bytes 2 :=
  let buf := key.hash [] [] timestamp
  bytes [buf.toList.getD 1 0, buf.toList.getD 0 0]

/-- The last eight bytes of the destination are the hash of the address and port in the source, with
two bits cleared. -/
def checkBubble (p : TeredoPacket) : Bool :=
  let it := ip6Src p.ip6
  let hash := (teredoGetNonce key (bytes [0, 0, 0, 0]) (in6TeredoIpv4 it) (in6TeredoPort it)).toList
  decide ((hash.headD 0 &&& 0xfc) :: hash.tail = (field (ip6Dst p.ip6).toList 8 8).toList)

/-- `teredo_verify_pinghash`, at the time `now`. The time stamp is sent with its low half first. -/
def teredoVerifyPinghash (now : UInt32) (src dst : In6Addr) (hash : List UInt8) : Bool :=
  let timestamp : Bytes 4 := field ((field hash 4 2).toList ++ (field hash 2 2).toList) 0 4
  decide (field hash 0 2 = key.pid) && decide (now - ntohl timestamp < 30) &&
    decide (key.hash src.toList dst.toList timestamp = field hash 6 16)

def icmp6DstUnreach : UInt8 := 1

def icmp6EchoRequest : UInt8 := 128

def icmp6EchoReply : UInt8 := 129

/-- `sizeof (struct icmp6_hdr) + PING_PAYLOAD`. -/
def pingLength : ℕ := 26

/-- At the time `now`: an echo reply, or an unreachable error that quotes an echo request, with a
hash that was made less than 30 seconds ago. -/
def checkPing (now : UInt32) (p : TeredoPacket) : Bool :=
  let ip6 := p.ip6
  let length := ip6Plen ip6
  if ip6Nxt ip6 ≠ ipprotoIcmpv6 ∨ length < pingLength then false else
  let icmp6 := ip6.drop 40
  let me := ip6Dst ip6
  let it := ip6Src ip6
  if icmp6.getD 0 0 = icmp6DstUnreach then
    let ip6 := icmp6.drop 8
    if length - 8 < 40 + pingLength ∨ ip6Nxt ip6 ≠ ipprotoIcmpv6 then false else
    if ip6Plen ip6 ≠ pingLength then false else
    let icmp6 := ip6.drop 40
    if ip6Src ip6 ≠ me ∨ icmp6.getD 0 0 ≠ icmp6EchoRequest then false else
    if ip6Dst ip6 ≠ it then false else
    if icmp6.getD 1 0 ≠ 0 then false else
    teredoVerifyPinghash key now (ip6Src ip6) (ip6Dst ip6) (icmp6.drop 4)
  else if icmp6.getD 0 0 ≠ icmp6EchoReply then false
  else if icmp6.getD 1 0 ≠ 0 then false
  else teredoVerifyPinghash key now me it (icmp6.drop 4)

end Checks

/-! ## The state of a client -/

structure TeredoState where
  addr : In6Addr
  mtu : ℕ
  ipv4 : Ipv4
  up : Bool

end Maiccu.Teredo
