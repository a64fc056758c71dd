import Maiccu.Teredo.Packets

/-!
# Teredo encapsulation

The headers of `teredo.h`, the datagrams that `packets.c` sends, and the decoder
`teredo_recv_inner`, which works in a buffer with the bytes of earlier datagrams behind the length
received. `Decodes`: the headers and the packet it returns are all of the datagram.
-/

namespace Maiccu.Teredo

open Maiccu.Lib List

/-! ## Headers -/

/-- The authentication header, without client identifier and authentication value. -/
def authHeader (nonce : Bytes 8) : List UInt8 := [0, 1, 0, 0] ++ nonce.toList ++ [0]

/-- `struct teredo_orig_ind`. -/
def origHeader (ip : Ipv4) (port : Port) : List UInt8 :=
  [0, 0] ++ (flip port).toList ++ (flip ip).toList

/-- An IPv6 header with the flow `0x60000000`. -/
def ip6Hdr (plen : ℕ) (nxt hlim : UInt8) (src dst : In6Addr) : List UInt8 :=
  [0x60, 0, 0, 0] ++ be 2 plen ++ [nxt, hlim] ++ src.toList ++ dst.toList

section Ip6Hdr

variable {plen : ℕ} {nxt hlim : UInt8} {src dst : In6Addr} {rest : List UInt8}

@[simp] theorem ip6Hdr_length : (ip6Hdr plen nxt hlim src dst).length = 40 := by
  simp [ip6Hdr]

theorem ip6Plen_ip6Hdr (h : plen < 65536) :
    ip6Plen (ip6Hdr plen nxt hlim src dst ++ rest) = plen := by
  have hfield : field (ip6Hdr plen nxt hlim src dst ++ rest) 4 2 = bytes (be 2 plen) := rfl
  unfold ip6Plen
  show ofBe (be 2 plen) = plen
  rw [ofBe_be]
  exact Nat.mod_eq_of_lt h

@[simp] theorem ip6Nxt_ip6Hdr : ip6Nxt (ip6Hdr plen nxt hlim src dst ++ rest) = nxt := rfl

@[simp] theorem ip6Src_ip6Hdr : ip6Src (ip6Hdr plen nxt hlim src dst ++ rest) = src := by
  unfold ip6Src ip6Hdr
  rw [field_append_left (by simp), field_append_left (by simp), field_append_right (by simp)]
  exact field_toList

@[simp] theorem ip6Dst_ip6Hdr : ip6Dst (ip6Hdr plen nxt hlim src dst ++ rest) = dst := by
  unfold ip6Dst ip6Hdr
  rw [field_append_left (by simp), field_append_right (by simp)]
  simp

@[simp] theorem drop_ip6Hdr : (ip6Hdr plen nxt hlim src dst ++ rest).drop 40 = rest :=
  drop_left' ip6Hdr_length

end Ip6Hdr

/-! ## Checksums -/

/-- A turn of the loop of `in_cksum`: a word is added, in the byte order of the machine. -/
def addWord (sum : ℕ) (lo hi : UInt8) : ℕ :=
  let sum := sum + (lo.toNat + 256 * hi.toNat)
  if 0xffff < sum then sum - 0xffff else sum

/-- The loop of `in_cksum` over the bytes of all parts; a last odd byte is followed by zero. -/
def inSum (sum : ℕ) : List UInt8 → ℕ
  | [] => sum
  | [lo] => addWord sum lo 0
  | lo :: hi :: b => inSum (addWord sum lo hi) b

/-- `in_cksum`, as the result lies in memory. -/
def inCksum (b : List UInt8) : Bytes 2 :=
  let sum := inSum 0 b ^^^ 0xffff
  bytes [UInt8.ofNat sum, UInt8.ofNat (sum / 256)]

/-- The sum over the addresses, the length, the protocol and the message. -/
def icmp6Checksum (src dst : In6Addr) (icmp6 : List UInt8) : Bytes 2 :=
  inCksum (src.toList ++ dst.toList ++ be 4 icmp6.length ++ be 4 ipprotoIcmpv6.toNat ++ icmp6)

/-! ## Sending -/

def ndRouterSolicit : UInt8 := 133

def in6addrAllrouters : In6Addr := bytes [0xff, 2, 0, 0, 0, 0, 0, 0, 0, 0, 0, 0, 0, 0, 0, 2]

def solicitation (cone : Bool) : List UInt8 :=
  ip6Hdr 8 ipprotoIcmpv6 255 (if cone then teredoCone else teredoRestrict) in6addrAllrouters ++
    [ndRouterSolicit, 0] ++ be 2 (if cone then 0x125d else 0x7d37) ++ [0, 0, 0, 0]

/-- The datagram. -/
def teredoSendRs (nonce : Bytes 8) (cone : Bool) : List UInt8 :=
  authHeader nonce ++ solicitation cone

/-- The datagram. -/
def teredoSendBubbleAnyway (src dst : In6Addr) : List UInt8 := ip6Hdr 0 ipprotoNone 0 src dst

section Bubble

variable (src dst : In6Addr) (rest : List UInt8)

theorem ip6Src_bubble_append : ip6Src (teredoSendBubbleAnyway src dst ++ rest) = src :=
  ip6Src_ip6Hdr

theorem ip6Dst_bubble_append : ip6Dst (teredoSendBubbleAnyway src dst ++ rest) = dst :=
  ip6Dst_ip6Hdr

@[simp] theorem ip6Src_bubble : ip6Src (teredoSendBubbleAnyway src dst) = src := by
  rw [← append_nil (teredoSendBubbleAnyway src dst), ip6Src_bubble_append]

@[simp] theorem ip6Dst_bubble : ip6Dst (teredoSendBubbleAnyway src dst) = dst := by
  rw [← append_nil (teredoSendBubbleAnyway src dst), ip6Dst_bubble_append]

end Bubble

/-! ## The decoder -/

/-- The nonce and the confirmation byte, if there is an authentication header, and the buffer and
the length behind it. The rest of the datagram is moved to the start of the buffer. -/
def recvAuth (buf : List UInt8) (length : ℕ) :
    Option (Option (Bytes 8 × UInt8) × List UInt8 × ℕ) :=
  if buf.getD 0 0 = 0 ∧ buf.getD 1 0 = 1 then
    if length < 13 then none else
    let idAu := (buf.getD 2 0).toNat + (buf.getD 3 0).toNat
    if length - 13 < idAu then none else
    let rest := length - 13 - idAu
    some (some (field buf (4 + idAu) 8, buf.getD (12 + idAu) 0),
      slice buf (13 + idAu) rest ++ buf.drop rest, rest)
  else some (none, buf, length)

/-- The address and port, if there is an origin indication, and the packet behind it. -/
def recvOrig (buf : List UInt8) (length : ℕ) : Option (Option (Ipv4 × Port) × List UInt8) :=
  if buf.getD 0 0 = 0 ∧ buf.getD 1 0 = 0 then
    if length < 8 then none else
    some (some (flip (field buf 4 4), flip (field buf 2 2)), slice buf 8 (length - 8))
  else some (none, slice buf 0 length)

/-- Where a datagram comes from, where it was sent to, and what is in the fields of the packet that
the decoder does not always set. -/
structure Outer where
  sourceIpv4 : Ipv4
  sourcePort : Port
  destIpv4 : Ipv4
  junkFail : Bool
  junkNonce : Bytes 8

def Outer.packet (o : Outer) (auth : Option (Bytes 8 × UInt8)) (orig : Option (Ipv4 × Port))
    (ip6 : List UInt8) : TeredoPacket where
  ip6 := ip6
  sourceIpv4 := o.sourceIpv4
  sourcePort := o.sourcePort
  origIpv4 := (orig.map Prod.fst).getD anyIpv4
  origPort := (orig.map Prod.snd).getD anyPort
  destIpv4 := o.destIpv4
  authPresent := auth.isSome
  authFail := (auth.map fun a => decide (a.2 ≠ 0)).getD o.junkFail
  authNonce := (auth.map Prod.fst).getD o.junkNonce

/-- `teredo_recv_inner`, after `recvmsg` has put `length` bytes into the buffer. -/
def teredoRecvInner (o : Outer) (buf : List UInt8) (length : ℕ) : Option TeredoPacket :=
  if length < 2 then none else
  match recvAuth buf length with
  | none => none
  | some (auth, buf, length) => (recvOrig buf length).map fun x => o.packet auth x.1 x.2

/-! ## What the decoder accepts -/

/-- The bytes of an authentication header, with the client identifier and the authentication value
that it skips. -/
def AuthHdr (b : List UInt8) : Option (Bytes 8 × UInt8) → Prop
  | none => b = []
  | some (nonce, fail) => ∃ idLen auLen : UInt8, ∃ idAu : List UInt8,
      idAu.length = idLen.toNat + auLen.toNat ∧
        b = [0, 1, idLen, auLen] ++ idAu ++ nonce.toList ++ [fail]

def OrigHdr (b : List UInt8) : Option (Ipv4 × Port) → Prop
  | none => b = []
  | some (ip, port) => b = origHeader ip port

/-- The packet is what the datagram encapsulates: the datagram is made of the headers found and of
the bytes of the packet. -/
def Decodes (o : Outer) (d : List UInt8) (p : TeredoPacket) : Prop :=
  ∃ auth orig a b, AuthHdr a auth ∧ OrigHdr b orig ∧ d = a ++ b ++ p.ip6 ∧
    p = o.packet auth orig p.ip6

section Decoder

variable {o : Outer} {a b d rest stale buf inner ip6 : List UInt8}
  {auth : Option (Bytes 8 × UInt8)} {orig : Option (Ipv4 × Port)} {n : ℕ}

theorem authHdr_authHeader {nonce : Bytes 8} : AuthHdr (authHeader nonce) (some (nonce, 0)) :=
  ⟨0, 0, [], rfl, rfl⟩

theorem authHdr_slices {r : List UInt8} {idLen auLen : UInt8} {k : ℕ}
    (hk : k = idLen.toNat + auLen.toNat) (hr : 9 + k ≤ r.length) :
    AuthHdr ([0, 1, idLen, auLen] ++ slice r 0 k ++ slice r k 8 ++ [r.getD (k + 8) 0])
      (some (field r k 8, r.getD (k + 8) 0)) ∧
      r = slice r 0 k ++ slice r k 8 ++ [r.getD (k + 8) 0] ++ r.drop (k + 9) := by
  constructor
  · refine ⟨idLen, auLen, slice r 0 k, ?_, ?_⟩
    · rw [slice_length (by omega), hk]
    · rw [toList_field (by omega)]
  · have hlast : [r.getD (k + 8) 0] ++ r.drop (k + 9) = r.drop (k + 8) := by
      rw [getD_eq_getElem _ _ (by omega), singleton_append]
      exact (drop_eq_getElem_cons (by omega)).symm
    rw [append_assoc _ [_], hlast, append_assoc, slice_append_drop]
    have := slice_append_drop r 0 k
    rw [Nat.zero_add, drop_zero] at this
    exact this.symm

theorem recvAuth_header {r s : List UInt8} {idLen auLen : UInt8} {k : ℕ}
    (hk : k = idLen.toNat + auLen.toNat) :
    recvAuth ([0, 1, idLen, auLen] ++ r ++ s) (r.length + 4) =
      if r.length < 9 + k then none else
        some (some (field r k 8, r.getD (k + 8) 0),
          r.drop (k + 9) ++ ([0, 1, idLen, auLen] ++ r ++ s).drop (r.length - (k + 9)),
          r.length - (k + 9)) := by
  unfold recvAuth
  change (if r.length + 4 < 13 then none else
    if r.length + 4 - 13 < idLen.toNat + auLen.toNat then none else
      some (some (field ([0, 1, idLen, auLen] ++ r ++ s) (4 + (idLen.toNat + auLen.toNat)) 8,
          ([0, 1, idLen, auLen] ++ r ++ s).getD (12 + (idLen.toNat + auLen.toNat)) 0),
        slice ([0, 1, idLen, auLen] ++ r ++ s) (13 + (idLen.toNat + auLen.toNat))
            (r.length + 4 - 13 - (idLen.toNat + auLen.toNat)) ++
          ([0, 1, idLen, auLen] ++ r ++ s).drop
            (r.length + 4 - 13 - (idLen.toNat + auLen.toNat)),
        r.length + 4 - 13 - (idLen.toNat + auLen.toNat))) = _
  rw [← hk]
  by_cases hlen : r.length < 9 + k
  · split_ifs
    · rfl
    · rfl
    · omega
  · have hfield : field ([0, 1, idLen, auLen] ++ r ++ s) (4 + k) 8 = field r k 8 := by
      rw [field_append_left (by simp; omega), field_append_right (by simp)]
      simp
    have hfail : ([0, 1, idLen, auLen] ++ r ++ s).getD (12 + k) 0 = r.getD (k + 8) 0 := by
      rw [getD_append _ _ _ _ (by simp; omega), show 12 + k = k + 8 + 4 by omega]
      rfl
    have hrest : slice ([0, 1, idLen, auLen] ++ r ++ s) (13 + k) (r.length - (k + 9)) =
        r.drop (k + 9) := by
      rw [slice_append_of_le (by simp; omega), slice_eq_drop (by simp; omega),
        show 13 + k = k + 9 + 4 by omega]
      rfl
    rw [if_neg (by omega), if_neg (by omega), if_neg hlen, hfield, hfail,
      show r.length + 4 - 13 - k = r.length - (k + 9) by omega, hrest]

/-- The authentication header of a datagram, whatever stands behind the datagram. If what remains is
shorter than the start of a header, the second byte of the buffer is still that of the
authentication header. -/
theorem recvAuth_cases (h2 : 2 ≤ d.length) : (∀ stale, recvAuth (d ++ stale) d.length = none) ∨
      ∃ auth a rest, AuthHdr a auth ∧ d = a ++ rest ∧ ∀ stale, ∃ old,
        recvAuth (d ++ stale) d.length = some (auth, rest ++ old, rest.length) ∧
          (rest.length < 2 → (rest ++ old).getD 1 0 = 1) := by
  obtain ⟨x₀, x₁, r, rfl⟩ : ∃ x₀ x₁ r, d = x₀ :: x₁ :: r := by
    match d, h2 with
    | x₀ :: x₁ :: r, _ => exact ⟨_, _, _, rfl⟩
  by_cases hhdr : x₀ = 0 ∧ x₁ = 1
  · obtain ⟨rfl, rfl⟩ := hhdr
    match r with
    | idLen :: auLen :: r =>
      obtain ⟨k, hk⟩ : ∃ k, k = idLen.toNat + auLen.toNat := ⟨_, rfl⟩
      have hheader : ∀ stale, recvAuth (0 :: 1 :: idLen :: auLen :: r ++ stale) _ = _ :=
        fun stale => recvAuth_header hk
      by_cases hlen : r.length < 9 + k
      · simp only [if_pos hlen] at hheader
        exact .inl hheader
      · simp only [if_neg hlen] at hheader
        obtain ⟨hauth, hr⟩ := authHdr_slices hk (Nat.le_of_not_lt hlen)
        have hlast : (r.drop (k + 9)).length = r.length - (k + 9) := length_drop
        refine .inr ⟨_, _, r.drop (k + 9), hauth, ?_, fun stale =>
          ⟨([0, 1, idLen, auLen] ++ r ++ stale).drop (r.length - (k + 9)), ?_, fun hshort => ?_⟩⟩
        · rw [append_assoc, append_assoc, append_assoc,
            ← append_assoc (slice r 0 k), ← append_assoc _ [_], ← hr]
          rfl
        · rw [hlast]
          exact hheader stale
        · -- the bytes that were not overwritten
          rw [getD_append_right _ _ _ _ (by omega), hlast, getD_eq_getElem?_getD,
            getElem?_drop, Nat.add_sub_cancel' (by omega)]
          rfl
    | [] | [_] => exact .inl fun stale => by simp [recvAuth]
  · refine .inr ⟨none, [], x₀ :: x₁ :: r, rfl, rfl, fun stale => ⟨stale, ?_, fun hlt => ?_⟩⟩
    · exact if_neg hhdr
    · exact nomatch hlt

theorem recvOrig_cases (rest : List UInt8) :
    (∀ old, (rest.length < 2 → (rest ++ old).getD 1 0 = 1) →
      recvOrig (rest ++ old) rest.length = none) ∨
      ∃ orig b ip6, OrigHdr b orig ∧ rest = b ++ ip6 ∧
        ∀ old, (rest.length < 2 → (rest ++ old).getD 1 0 = 1) →
          recvOrig (rest ++ old) rest.length = some (orig, ip6) := by
  have hplain : ∀ old, ¬ ((rest ++ old).getD 0 0 = 0 ∧ (rest ++ old).getD 1 0 = 0) →
      recvOrig (rest ++ old) rest.length = some (none, rest) := by
    intro old hhdr
    rw [recvOrig, if_neg hhdr, slice_append_of_le (by simp), slice_eq_drop (by simp), drop_zero]
  match rest with
  | [] | [_] =>
    refine .inr ⟨none, [], _, rfl, rfl, fun old hold => hplain old fun hhdr => ?_⟩
    rw [hold (by simp)] at hhdr
    exact nomatch hhdr.2
  | x₀ :: x₁ :: r =>
    by_cases hhdr : x₀ = 0 ∧ x₁ = 0
    · obtain ⟨rfl, rfl⟩ := hhdr
      by_cases hr : r.length < 6
      · refine .inl fun old _ => ?_
        rw [recvOrig, if_pos ⟨rfl, rfl⟩, if_pos (by simp; omega)]
      · have hip : ∀ old, field (0 :: 0 :: r ++ old) 4 4 = field r 2 4 := by
          intro old
          rw [field_append_left (by simp; omega)]
          exact field_append_right (a := [0, 0]) (by simp) r
        have hport : ∀ old, field (0 :: 0 :: r ++ old) 2 2 = field r 0 2 := by
          intro old
          rw [field_append_left (by simp; omega)]
          exact field_append_right (a := [0, 0]) (by simp) r
        have hrest : ∀ old, slice (0 :: 0 :: r ++ old) 8 ((0 :: 0 :: r).length - 8) = r.drop 6 := by
          intro old
          rw [slice_append_of_le (by simp; omega), slice_eq_drop (by simp; omega)]
          rfl
        refine .inr ⟨some (flip (field r 2 4), flip (field r 0 2)), _, r.drop 6, rfl, ?_,
          fun old _ => ?_⟩
        · rw [origHeader, flip_flip, flip_flip, toList_field (by omega), toList_field (by omega),
            append_assoc, append_assoc, slice_append_drop, slice_append_drop]
          rfl
        · rw [recvOrig, if_pos ⟨rfl, rfl⟩, if_neg (by simp; omega), hip, hport, hrest]
    · exact .inr ⟨none, [], _, rfl, rfl, fun old _ => hplain old hhdr⟩

theorem recv_cases (o : Outer) (d : List UInt8) :
    (∀ stale, teredoRecvInner o (d ++ stale) d.length = none) ∨
      ∃ p, Decodes o d p ∧ ∀ stale, teredoRecvInner o (d ++ stale) d.length = some p := by
  by_cases h2 : d.length < 2
  · exact .inl fun stale => if_pos h2
  rcases recvAuth_cases (Nat.le_of_not_lt h2) with hnone | ⟨auth, a, rest, ha, rfl, hauth⟩
  · refine .inl fun stale => ?_
    rw [teredoRecvInner, if_neg h2, hnone]
  rcases recvOrig_cases rest with hnone | ⟨orig, b, ip6, hb, rfl, horig⟩
  · refine .inl fun stale => ?_
    obtain ⟨old, hsome, hshort⟩ := hauth stale
    rw [teredoRecvInner, if_neg h2, hsome]
    show (recvOrig (rest ++ old) rest.length).map _ = none
    rw [hnone old hshort]
    rfl
  · refine .inr ⟨o.packet auth orig ip6, ⟨auth, orig, a, b, ha, hb, ?_, rfl⟩, fun stale => ?_⟩
    · exact (append_assoc ..).symm
    · obtain ⟨old, hsome, hshort⟩ := hauth stale
      rw [teredoRecvInner, if_neg h2, hsome]
      show (recvOrig (b ++ ip6 ++ old) (b ++ ip6).length).map _ = _
      rw [horig old hshort]
      rfl

theorem recvOrig_of_hdr (hb : OrigHdr b orig) (hinner : inner.headD 0 ≠ 0) (old : List UInt8) :
    recvOrig (b ++ inner ++ old) (b ++ inner).length = some (orig, inner) := by
  cases orig with
  | none =>
    obtain rfl : b = [] := hb
    have hne : ¬ ((inner ++ old).getD 0 0 = 0 ∧ (inner ++ old).getD 1 0 = 0) := by
      cases inner with
      | nil => exact absurd rfl hinner
      | cons x r => exact fun h => hinner h.1
    rw [nil_append, recvOrig, if_neg hne, slice_append_of_le (by simp), slice_eq_drop (by simp),
      drop_zero]
  | some x =>
    obtain rfl : b = origHeader x.1 x.2 := hb
    have hlen : (origHeader x.1 x.2).length = 8 := by simp [origHeader]
    have hip : field (origHeader x.1 x.2 ++ inner ++ old) 4 4 = flip x.1 := by
      rw [field_append_left (by simp [hlen]), field_append_left (by omega), origHeader,
        field_append_right (by simp)]
      simp
    have hport : field (origHeader x.1 x.2 ++ inner ++ old) 2 2 = flip x.2 := by
      rw [field_append_left (by simp [hlen]; omega), field_append_left (by omega), origHeader,
        field_append_left (by simp), field_append_right (by simp)]
      exact field_toList
    have hrest : slice (origHeader x.1 x.2 ++ inner ++ old) 8 inner.length = inner := by
      rw [append_assoc, slice_append_right hlen, take_left]
    rw [recvOrig, if_pos ⟨rfl, rfl⟩, length_append, hlen, if_neg (by omega), hip, hport,
      flip_flip, flip_flip, Nat.add_sub_cancel_left, hrest]

theorem recvAuth_of_hdr {x : Bytes 8 × UInt8} (ha : AuthHdr a (some x)) :
    ∃ old, recvAuth (a ++ rest ++ stale) (a ++ rest).length =
      some (some x, rest ++ old, rest.length) := by
  obtain ⟨idLen, auLen, idAu, hlen, rfl⟩ := ha
  obtain ⟨r, hr⟩ : ∃ r, r = idAu ++ x.1.toList ++ [x.2] ++ rest := ⟨_, rfl⟩
  have hd : [0, 1, idLen, auLen] ++ idAu ++ x.1.toList ++ [x.2] ++ rest =
      [0, 1, idLen, auLen] ++ r := by
    simp [hr]
  have hrest : r.length - (idAu.length + 9) = rest.length := by
    simp [hr]
    omega
  have hnonce : field r idAu.length 8 = x.1 := by
    rw [hr, field_append_left (by simp), field_append_left (by simp), field_append_right (by simp)]
    simp
  have hfail : r.getD (idAu.length + 8) 0 = x.2 := by
    rw [hr, getD_append _ _ _ _ (by simp), getD_append_right _ _ _ _ (by simp)]
    simp
  have hdrop : r.drop (idAu.length + 9) = rest := by
    rw [hr, drop_left' (by simp)]
  have hheader := recvAuth_header (r := r) (s := stale) hlen
  rw [if_neg (by simp [hr]; omega), hnonce, hfail, hdrop, hrest] at hheader
  rw [hd]
  exact ⟨_, hheader⟩

theorem recv_of_headers (ha : AuthHdr a auth) (hb : OrigHdr b orig) (hinner : inner.headD 0 ≠ 0)
    (h2 : 2 ≤ inner.length) :
    teredoRecvInner o (a ++ b ++ inner ++ stale) (a ++ b ++ inner).length =
      some (o.packet auth orig inner) := by
  have hauth : ∃ old, recvAuth (a ++ (b ++ inner) ++ stale) (a ++ (b ++ inner)).length =
      some (auth, b ++ inner ++ old, (b ++ inner).length) := by
    cases auth with
    | some x => exact recvAuth_of_hdr ha
    | none =>
      obtain rfl : a = [] := ha
      refine ⟨stale, if_neg ?_⟩
      cases orig with
      | none =>
        obtain rfl : b = [] := hb
        cases inner with
        | nil => exact absurd rfl hinner
        | cons x r => exact fun h => hinner h.1
      | some x =>
        obtain rfl : b = origHeader x.1 x.2 := hb
        exact fun h => absurd h.2 (show ¬ (0 : UInt8) = 1 by decide)
  obtain ⟨old, hauth⟩ := hauth
  rw [append_assoc a, teredoRecvInner, if_neg (by simp; omega), hauth]
  show (recvOrig (b ++ inner ++ old) (b ++ inner).length).map _ = _
  rw [recvOrig_of_hdr hb hinner old]
  rfl

end Decoder

end Maiccu.Teredo
