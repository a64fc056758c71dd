import Maiccu.Teredo.Packets

/-!
# Router advertisements

How a client reads the answer of its server: `teredo_parse_ra` and `maintenance_recv`. Both write
into the new state as they go, so a packet that is rejected half way leaves traces in it; the
functions here return the new state in either case.
-/

namespace Maiccu.Teredo

open Maiccu.Lib

/-! ## Parts of an address -/

/-- The address with another server, as by an assignment to `server_ip`. -/
def setServer (a : In6Addr) (ip : Ipv4) : In6Addr := setField a 4 ip.toList

def setFlags (a : In6Addr) (flags : Bytes 2) : In6Addr := setField a 8 flags.toList

section Parts

variable {a : In6Addr} {ip : Ipv4} {flags : Bytes 2}

@[simp] theorem in6TeredoFlags_setServer : in6TeredoFlags (setServer a ip) = in6TeredoFlags a :=
  field_setField_of_disjoint (by omega) (by simp)

@[simp] theorem in6TeredoServer_setServer : in6TeredoServer (setServer a ip) = ip :=
  field_setField (by omega)

@[simp] theorem in6TeredoPrefix_setFlags : in6TeredoPrefix (setFlags a flags) = in6TeredoPrefix a :=
  field_setField_of_disjoint (by omega) (by simp)

@[simp] theorem in6TeredoServer_setFlags : in6TeredoServer (setFlags a flags) = in6TeredoServer a :=
  field_setField_of_disjoint (by omega) (by simp)

@[simp] theorem in6TeredoFlags_setFlags : in6TeredoFlags (setFlags a flags) = flags :=
  field_setField (by omega)

@[simp] theorem in6TeredoPort_setFlags : in6TeredoPort (setFlags a flags) = in6TeredoPort a :=
  congrArg flip (field_setField_of_disjoint (by omega) (by simp))

@[simp] theorem in6TeredoIpv4_setFlags : in6TeredoIpv4 (setFlags a flags) = in6TeredoIpv4 a :=
  congrArg flip (field_setField_of_disjoint (by omega) (by simp))

theorem setClient_eq {port : Port} :
    setField (setField (setFlags a flags) 10 (flip port).toList) 12 (flip ip).toList =
      teredoAddr (in6TeredoPrefix a) (in6TeredoServer a) flags port ip := by
  apply eq_teredoAddr
  · unfold in6TeredoPrefix
    rw [field_setField_of_disjoint (by omega) (by simp),
      field_setField_of_disjoint (by omega) (by simp)]
    exact in6TeredoPrefix_setFlags
  · unfold in6TeredoServer
    rw [field_setField_of_disjoint (by omega) (by simp),
      field_setField_of_disjoint (by omega) (by simp)]
    exact in6TeredoServer_setFlags
  · unfold in6TeredoFlags
    rw [field_setField_of_disjoint (by omega) (by simp),
      field_setField_of_disjoint (by omega) (by simp)]
    exact in6TeredoFlags_setFlags
  · unfold in6TeredoPort
    rw [field_setField_of_disjoint (by omega) (by simp), field_setField (by omega)]
    exact flip_flip port
  · unfold in6TeredoIpv4
    rw [field_setField (by omega)]
    exact flip_flip ip

end Parts

/-- `htonl (TEREDO_PREFIX)`. -/
def teredoPrefix : Bytes 4 := bytes (be 4 0x20010000)

/-- `htonl (TEREDO_PREFIX_OBSOLETE)`. -/
def teredoPrefixObsolete : Bytes 4 := bytes (be 4 0x3ffe831f)

/-- The mask is applied to the word as it lies in memory, whose most significant byte is the last
one. -/
def isValidTeredoPrefix (w : Bytes 4) : Bool :=
  UInt32.ofNat (ofBe w.toList.reverse) &&& 0xff000000 != 0xff000000

/-- `htons (TEREDO_FLAG_CONE)`, or zero. -/
def coneFlags (cone : Bool) : Bytes 2 := bytes (be 2 (if cone then 0x8000 else 0))

/-- The bits of `htons (TEREDO_RANDOM_MASK)`. -/
def randomFlags (flbits : Bytes 2) : Bytes 2 :=
  bytes [flbits.get 0 &&& 0x3c, flbits.get 1 &&& 0xff]

/-! ## The options -/

def ndRouterAdvert : UInt8 := 134

def ndOptPrefixInformation : UInt8 := 3

def ndOptMtu : UInt8 := 5

/-- `nd_opt_len << 3`. -/
def optLen (opts : List UInt8) : ℕ := (opts.getD 1 0).toNat * 8

/-- The body of the `switch` of `teredo_parse_ra`: what the first option does to the new address and
to `net_mtu`. On failure the address is left as it is. -/
def raOption (opts : List UInt8) (newaddr : In6Addr) (netMtu : ℕ) : Option (In6Addr × ℕ) :=
  if opts.getD 0 0 = ndOptPrefixInformation then
    if optLen opts < 32 ∨ opts.getD 2 0 ≠ 64 then none
    else if in6TeredoServer newaddr ≠ anyIpv4 then none
    else some (setField newaddr 0 (field opts 16 8).toList, netMtu)
  else if opts.getD 0 0 = ndOptMtu then
    let netMtu := ofBe (field opts 4 4).toList
    if netMtu < 1280 ∨ 65535 < netMtu then none else some (newaddr, netMtu)
  else some (newaddr, netMtu)

/-- The loop of `teredo_parse_ra` over the options. An error carries the address so far. -/
@[semireducible] def raOptions (opts : List UInt8) (newaddr : In6Addr) (netMtu : ℕ) :
    Except In6Addr (In6Addr × ℕ) :=
  if 8 ≤ opts.length then
    if opts.length < optLen opts ∨ optLen opts = 0 then .error newaddr
    else
      match raOption opts newaddr netMtu with
      | none => .error newaddr
      | some (newaddr, netMtu) => raOptions (opts.drop (optLen opts)) newaddr netMtu
  else .ok (newaddr, netMtu)
termination_by opts.length
decreasing_by
  rw [List.length_drop]
  omega

/-! ## The advertisement -/

/-- Whether the packet is accepted, with `newaddr` and `mtu` after the call. -/
def teredoParseRa (p : TeredoPacket) (newaddr : In6Addr) (cone : Bool) (mtu : ℕ) :
    Bool × In6Addr × ℕ :=
  if p.origIpv4 = anyIpv4 then (false, newaddr, mtu) else
  let length := ip6Plen p.ip6
  if ip6Dst p.ip6 ≠ (if cone then teredoCone else teredoRestrict) ∨
      ip6Nxt p.ip6 ≠ ipprotoIcmpv6 ∨ length < 16 then (false, newaddr, mtu) else
  let ra := slice p.ip6 40 length
  if ra.getD 0 0 ≠ ndRouterAdvert ∨ ra.getD 1 0 ≠ 0 ∨ length - 16 < 32 then
    (false, newaddr, mtu)
  else
  match raOptions (ra.drop 16) (setServer newaddr anyIpv4) 0 with
  | .error newaddr => (false, newaddr, mtu)
  | .ok (newaddr, netMtu) =>
    let newaddr :=
      if in6TeredoPrefix newaddr = teredoPrefixObsolete then setField newaddr 0 teredoPrefix.toList
      else newaddr
    if !isValidTeredoPrefix (in6TeredoPrefix newaddr) then (false, newaddr, mtu)
    else
      let newaddr := setFlags newaddr (coneFlags cone)
      let newaddr := setField newaddr 10 (p.origPort.map (· ^^^ 0xff)).toList
      let newaddr := setField newaddr 12 (p.origIpv4.map (· ^^^ 0xff)).toList
      (true, newaddr, if netMtu ≠ 0 then netMtu % 65536 else mtu)

inductive RecvError where
  | eperm
  | eacces
  | einval
  deriving DecidableEq

/-- The error, if any, and the state after the call. -/
def maintenanceRecv (p : TeredoPacket) (serverIp : Ipv4) (nonce : Bytes 8) (cone : Bool)
    (state : TeredoState) : Option RecvError × TeredoState :=
  if p.authNonce ≠ nonce then (some .eperm, state)
  else if p.authFail then (some .eacces, state)
  else
    match teredoParseRa p state.addr cone state.mtu with
    | (ok, addr, mtu) =>
      let state := { state with addr, mtu }
      if ok = false ∨ in6TeredoServer addr ≠ serverIp then (some .einval, state)
      else (none, { state with ipv4 := p.destIpv4 })

end Maiccu.Teredo
