import Maiccu.Teredo.PacketReads
import Maiccu.Teredo.Relay

/-!
# What the relay reads of a packet

`teredo_run_inner` with the bytes of the packet that it reads. The header is read at once, after the
test that it is there, and the tests for bubbles get a packet that consists of its header. The rest
reads the packet through `Reads`. Without the reads the program is that of `Relay`.
-/

namespace Maiccu.Teredo

open Maiccu.Lib PeerProg

/-- A program of the relay that calls other functions and reads parts of the packet. -/
abbrev ReadProg := PeerProg In6Addr Peer (RelayCall ⊕ List (ℕ × ℕ))

namespace ReadProg

variable {α β : Type} {Ψ : RelayCall ⊕ List (ℕ × ℕ) → Prop} (x : Reads α)

def look : ReadProg α := .call (.inr x.spans) fun _ => .ret x.val

def quiet (x : RelayProg α) : ReadProg α := x.mapCalls fun c => some (.inl c)

def erase (x : ReadProg α) : RelayProg α := x.mapCalls Sum.getLeft?

theorem erase_bind (x : ReadProg α) (f : α → ReadProg β) :
    erase (x >>= f) = erase x >>= fun a => erase (f a) := mapCalls_bind x f

theorem erase_quiet (x : RelayProg α) : erase (quiet x) = x := mapCalls_mapCalls (fun _ => rfl) x

theorem erase_look : erase (look x) = pure x.val := rfl

theorem erase_ite {p : Prop} [Decidable p] (x y : ReadProg α) :
    erase (if p then x else y) = if p then erase x else erase y := by split_ifs <;> rfl

theorem calls_quiet {x : RelayProg α} (h : x.Calls fun c => Ψ (.inl c)) : (quiet x).Calls Ψ :=
  h.mapCalls fun _ hc _ hd => Option.some.inj hd ▸ hc

theorem calls_look {x : Reads α} {f : α → ReadProg β} (hx : Ψ (.inr x.spans))
    (hf : (f x.val).Calls Ψ) : (look x >>= f).Calls Ψ := ⟨hx, fun _ => hf⟩

end ReadProg

/-! ## Reception -/

namespace Read

open ReadProg

section RunInner

variable (key : Keyed) (tun : Tunnel) (now : UInt64) (time : UInt32)

def header (packet : TeredoPacket) : Reads TeredoPacket := do
  let ip6 ← readSlice packet.ip6 0 40
  pure { packet with ip6 }

variable (hdr packet : TeredoPacket) (length : ℕ)

/-- `tunnel->recv_cb (tunnel->opaque, ip6, length)` -/
def recvCb : ReadProg Unit := do
  let data ← look (readSlice packet.ip6 0 length)
  let _ ← invoke (.inl (.recvCb data packet.sourceIpv4 packet.sourcePort))

def receiveTrusted : ReadProg Unit := do
  modifyPeer fun p => { p.setMapping packet.sourceIpv4 packet.sourcePort with trusted := true }
  quiet (teredoPredecap now)
  if isBubble hdr.ip6 then pure () else recvCb packet length

variable (p : Option Peer)

/-- Client cases 3 and 5. -/
def receiveTeredo : ReadProg Unit :=
  match p with
  | some _ => receiveTrusted now hdr packet length
  | none =>
    if tun.client then do
      let r ← teredoListLookup (Teredo.ip6Src hdr.ip6) true
      match r with
      | .null => pure ()
      | _ => do
        modifyPeer fun p => { p with isLocal := teredoIslocal tun hdr }
        receiveTrusted now hdr packet length
    else pure ()

def receivePing : ReadProg Unit := do
  let data ← look (readSlice packet.ip6 0 length)
  modifyPeer (·.enqueueIn data packet.sourceIpv4 packet.sourcePort)
  modifyPeer (·.touchReceive now)
  let res ← withPeer (·.countPing now)
  teredoListRelease
  if res = .send then
    let _ ← invoke (.inl (.sendPing tun.state.addr (Teredo.ip6Src hdr.ip6)))

/-- Client case 6. -/
def receiveOther : ReadProg Unit :=
  match p with
  | some _ => receivePing tun now hdr packet length
  | none => do
    let r ← teredoListLookup (Teredo.ip6Src hdr.ip6) true
    match r with
    | .null => pure ()
    | .found => receivePing tun now hdr packet length
    | .created => do
      modifyPeer fun p => { p.setMapping anyIpv4 anyPort with
        trusted := false, isLocal := false, bubbles := 0, pings := 0 }
      receivePing tun now hdr packet length

def receiveUntrusted : ReadProg Unit :=
  if in6TeredoPrefix (Teredo.ip6Src hdr.ip6) = in6TeredoPrefix tun.state.addr then
    if acceptsTeredo key tun hdr p then receiveTeredo tun now hdr packet length p
    else if p.isSome then teredoListRelease
    else pure ()
  else receiveOther tun now hdr packet length p

def receiveListed : ReadProg Unit := do
  let p ← getPeer
  -- client case 1
  if p.trusted && fromMapping packet p then do
    quiet (teredoPredecap now)
    recvCb packet length
  else do
  -- client case 2
  let ping ← look (if tun.client then checkPing key time packet else pure false)
  if ping then do
    modifyPeer fun p => { p.setMapping packet.sourceIpv4 packet.sourcePort with trusted := true }
    quiet (teredoPredecap now)
  else receiveUntrusted key tun now hdr packet length (some p)

def receive : ReadProg Unit := do
  let r ← teredoListLookup (Teredo.ip6Src hdr.ip6) false
  -- client case 4
  if teredoIslocal tun hdr && isDiscoveryBubble hdr then quiet (receiveDiscovery tun now hdr r)
  else if isMulticast (Teredo.ip6Dst hdr.ip6) then
    if r = .null then pure () else teredoListRelease
  else if r = .null then receiveUntrusted key tun now hdr packet length none
  else receiveListed key tun now time hdr packet length

/-- `teredo_run_inner` -/
def teredoRunInner : ReadProg Unit :=
  if packet.ip6.length < 40 then pure () else do
  let hdr ← look (header packet)
  let length := 40 + Teredo.ip6Plen hdr.ip6
  if ip6Vfc hdr.ip6 >>> 4 ≠ 6 ∨ packet.ip6.length < length then pure () else
  if tun.client then
    if hdr.ForMaintenance then do
      let _ ← invoke (.inl (.maintenance packet))
    else if ¬ tun.state.up then pure ()
    else do
      let bubble ← quiet (fromServer tun hdr)
      if bubble ∨ isLinkLocal (Teredo.ip6Src hdr.ip6) then pure ()
      else receive key tun now time hdr packet length
  else if in6TeredoPrefix (Teredo.ip6Src hdr.ip6) ≠ in6TeredoPrefix tun.state.addr then pure ()
  else receive key tun now time hdr packet length

end RunInner

/-! ## Without the reads -/

section Header

variable (tun : Tunnel) (packet : TeredoPacket)

theorem ip6Src_header : Teredo.ip6Src (header packet).val.ip6 = Teredo.ip6Src packet.ip6 :=
  field_take (by omega)

theorem ip6Dst_header : Teredo.ip6Dst (header packet).val.ip6 = Teredo.ip6Dst packet.ip6 :=
  field_take (by omega)

theorem ip6Plen_header : Teredo.ip6Plen (header packet).val.ip6 = Teredo.ip6Plen packet.ip6 :=
  congrArg (fun w : Bytes 2 => ofBe w.toList) (field_take (by omega))

theorem getD_header {i : ℕ} (h : i < 40) :
    (header packet).val.ip6.getD i 0 = packet.ip6.getD i 0 := by
  show (packet.ip6.take 40).getD i 0 = _
  simp only [List.getD_eq_getElem?_getD, List.getElem?_take_of_lt h]

theorem ip6Nxt_header : Teredo.ip6Nxt (header packet).val.ip6 = Teredo.ip6Nxt packet.ip6 :=
  getD_header packet (by omega)

theorem isBubble_header : isBubble (header packet).val.ip6 = isBubble packet.ip6 := by
  unfold isBubble
  rw [ip6Plen_header, ip6Nxt_header]

theorem teredoIslocal_header : teredoIslocal tun (header packet).val =
    teredoIslocal tun packet := by
  unfold teredoIslocal
  rw [ip6Src_header]
  rfl

theorem isDiscoveryBubble_header :
    isDiscoveryBubble (header packet).val = isDiscoveryBubble packet := by
  unfold isDiscoveryBubble
  rw [isBubble_header, ip6Dst_header]
  rfl

theorem acceptsTeredo_header (key : Keyed) (p : Option Peer) :
    acceptsTeredo key tun (header packet).val p = acceptsTeredo key tun packet p := by
  unfold acceptsTeredo checkBubble
  rw [ip6Src_header, ip6Dst_header, isBubble_header, teredoIslocal_header]
  rfl

theorem receiveDiscovery_header (now : UInt64) (r : Lookup) :
    receiveDiscovery tun now (header packet).val r = receiveDiscovery tun now packet r := by
  unfold receiveDiscovery receiveDiscovered
  rw [ip6Src_header]
  rfl

theorem fromServer_header : fromServer tun (header packet).val = fromServer tun packet := by
  unfold fromServer serverOrigin teredoReplyBubble
  rw [ip6Src_header, ip6Dst_header, isBubble_header]
  rfl

theorem forMaintenance_header : (header packet).val.ForMaintenance ↔ packet.ForMaintenance := by
  unfold TeredoPacket.ForMaintenance
  rw [ip6Dst_header]
  rfl

theorem malformed_iff (h : 40 ≤ packet.ip6.length) : (ip6Vfc (header packet).val.ip6 >>> 4 ≠ 6 ∨
      packet.ip6.length < 40 + Teredo.ip6Plen (header packet).val.ip6) ↔ ¬ packet.WellFormed := by
  rw [ip6Vfc, getD_header packet (by omega), ip6Plen_header]
  simp only [TeredoPacket.WellFormed, ip6Vfc, h, true_and, not_and_or, not_le, ne_eq]

end Header

section Erase

variable (key : Keyed) (tun : Tunnel) (now : UInt64) (time : UInt32) (packet : TeredoPacket)

theorem erase_receiveTrusted :
    erase (receiveTrusted now (header packet).val packet (40 + Teredo.ip6Plen packet.ip6)) =
      Teredo.receiveTrusted now packet := by
  unfold receiveTrusted
  simp only [erase_bind, erase_quiet, erase_ite]
  rw [isBubble_header]
  rfl

variable (p : Option Peer)

theorem erase_receiveTeredo :
    erase (receiveTeredo tun now (header packet).val packet (40 + Teredo.ip6Plen packet.ip6) p) =
      Teredo.receiveTeredo tun now packet p := by
  cases p with
  | some p => exact erase_receiveTrusted now packet
  | none =>
    refine (erase_ite _ _).trans (if_congr Iff.rfl ?_ rfl)
    rw [erase_bind, ip6Src_header]
    refine congrArg (PeerProg.bind (teredoListLookup _ true)) (funext fun r => ?_)
    cases r with
    | null => rfl
    | _ => rw [erase_bind, erase_receiveTrusted, teredoIslocal_header]; rfl

theorem erase_receivePing :
    erase (receivePing tun now (header packet).val packet (40 + Teredo.ip6Plen packet.ip6)) =
      Teredo.receivePing tun now packet := by
  unfold receivePing
  simp only [erase_bind, erase_ite]
  rw [ip6Src_header]
  rfl

theorem erase_receiveOther :
    erase (receiveOther tun now (header packet).val packet (40 + Teredo.ip6Plen packet.ip6) p) =
      Teredo.receiveOther tun now packet p := by
  cases p with
  | some p => exact erase_receivePing tun now packet
  | none =>
    unfold receiveOther
    rw [erase_bind, ip6Src_header]
    refine congrArg (PeerProg.bind (teredoListLookup _ true)) (funext fun r => ?_)
    cases r with
    | null => rfl
    | found => exact erase_receivePing tun now packet
    | created => rw [erase_bind, erase_receivePing]; rfl

theorem erase_receiveUntrusted : erase (receiveUntrusted key tun now (header packet).val packet
      (40 + Teredo.ip6Plen packet.ip6) p) = Teredo.receiveUntrusted key tun now packet p := by
  unfold receiveUntrusted
  simp only [erase_ite, erase_receiveTeredo, erase_receiveOther]
  rw [ip6Src_header, acceptsTeredo_header]
  rfl

theorem erase_receiveListed : erase (receiveListed key tun now time (header packet).val packet
      (40 + Teredo.ip6Plen packet.ip6)) = Teredo.receiveListed key tun now time packet := by
  unfold receiveListed
  have hping : (if tun.client then checkPing key time packet else pure false).val =
      (tun.client && Teredo.checkPing key time packet) := by
    rw [Reads.val_ite, val_checkPing]
    cases tun.client <;> rfl
  simp only [erase_bind, erase_ite, erase_quiet, erase_receiveUntrusted]
  rw [erase_look, hping]
  rfl

theorem erase_receive :
    erase (receive key tun now time (header packet).val packet (40 + Teredo.ip6Plen packet.ip6)) =
      Teredo.receive key tun now time packet := by
  unfold receive
  simp only [erase_bind, erase_ite, erase_quiet, erase_receiveUntrusted, erase_receiveListed,
    receiveDiscovery_header]
  rw [ip6Src_header, ip6Dst_header, teredoIslocal_header, isDiscoveryBubble_header]
  rfl

theorem erase_teredoRunInner :
    erase (teredoRunInner key tun now time packet) = Teredo.teredoRunInner key tun now time
      packet := by
  unfold teredoRunInner Teredo.teredoRunInner
  by_cases hlen : packet.ip6.length < 40
  · rw [if_pos hlen, if_pos fun hwf => absurd hwf.1 (by omega)]
    rfl
  rw [if_neg hlen]
  show erase (if ip6Vfc (header packet).val.ip6 >>> 4 ≠ 6 ∨
    packet.ip6.length < 40 + Teredo.ip6Plen (header packet).val.ip6 then _ else _) = _
  rw [erase_ite]
  refine if_congr (malformed_iff packet (not_lt.mp hlen)) rfl ?_
  rw [ip6Plen_header]
  simp only [erase_ite, erase_bind, erase_quiet, erase_receive, fromServer_header,
    forMaintenance_header]
  rw [ip6Src_header]
  rfl

end Erase

end Read

/-! ## The bounds -/

/-- What comes of a packet: all that is read of it is inside it, the parser of router advertisements
returns if the packet is passed on to the maintenance thread, and no error is sent. -/
def Served (p : TeredoPacket) : RelayCall ⊕ List (ℕ × ℕ) → Prop
  | .inr spans => ∀ s ∈ spans, s.1 + s.2 ≤ (trimmed p.ip6).length
  | .inl (.maintenance q) => ∀ (newaddr : In6Addr) (cone : Bool) (mtu : ℕ),
      (Read.teredoParseRa newaddr q cone mtu (ip6Plen q.ip6 / 8)).Within (trimmed p.ip6).length ∧
      (Read.teredoParseRa newaddr q cone mtu (ip6Plen q.ip6 / 8)).val =
        some (teredoParseRa q newaddr cone mtu)
  | .inl (.sendUnreach _ _) => False
  | .inl _ => True

variable {now : UInt64}

section Quiet

variable {tun : Tunnel} {hdr packet : TeredoPacket}

theorem calls_teredoQueueEmit {q : List Queued} {ip : Ipv4} {port : Port} :
    (teredoQueueEmit q ip port).Calls fun c => Served packet (.inl c) := by
  induction q with
  | nil => trivial
  | cons x q ih =>
    refine Calls.bind (Calls.ite (fun _ => Calls.ite (fun _ => ?_) fun _ => trivial) fun _ => ?_)
      fun _ => ih
    · exact Calls.bind (calls_invoke trivial) fun _ => trivial
    · exact Calls.bind (calls_invoke trivial) fun _ => trivial

theorem calls_teredoPredecap :
    (teredoPredecap now).Calls fun c => Served packet (.inl c) := by
  refine Calls.bind trivial fun _ => Calls.bind (fun _ => trivial) fun q => ?_
  refine Calls.bind trivial fun _ => ?_
  refine Calls.ite (fun _ => trivial) fun _ => Calls.bind (fun _ => trivial) fun p => ?_
  exact calls_teredoQueueEmit

theorem calls_receiveDiscovered :
    (receiveDiscovered tun now hdr).Calls fun c => Served packet (.inl c) := by
  refine Calls.bind trivial fun _ => Calls.bind trivial fun _ => Calls.bind trivial fun _ => ?_
  refine Calls.bind (fun _ => trivial) fun res => Calls.ite (fun _ => ?_) fun _ => trivial
  exact Calls.bind (calls_invoke trivial) fun _ => trivial

theorem calls_receiveDiscovery (r : Lookup) :
    (receiveDiscovery tun now hdr r).Calls fun c => Served packet (.inl c) := by
  cases r with
  | null =>
    refine Calls.bind (fun _ => trivial) fun r => ?_
    cases r with
    | null => trivial
    | _ => exact Calls.bind trivial fun _ => calls_receiveDiscovered
  | _ => exact calls_receiveDiscovered

theorem calls_fromServer : (fromServer tun hdr).Calls fun c => Served packet (.inl c) := by
  refine Calls.ite (fun _ => Calls.ite (fun _ => trivial) fun _ => Calls.bind ?_ fun _ => trivial)
    fun _ => trivial
  exact Calls.ite (fun _ => Calls.bind (calls_invoke trivial) fun _ => trivial) fun _ => trivial

end Quiet

namespace Read

open ReadProg

section Bounds

variable {key : Keyed} {tun : Tunnel} {time : UInt32} {hdr packet : TeredoPacket}
  (h : packet.WellFormed)
include h

theorem length_trimmed : (trimmed packet.ip6).length = 40 + Teredo.ip6Plen packet.ip6 := by
  rw [trimmed, List.length_take, min_eq_left h.2.2]

theorem served_slice :
    Served packet (.inr (readSlice packet.ip6 0 (40 + Teredo.ip6Plen packet.ip6)).spans) := by
  refine within_readSlice.mpr ?_
  rw [length_trimmed h]
  omega

theorem calls_recvCb : (recvCb packet (40 + Teredo.ip6Plen packet.ip6)).Calls (Served packet) :=
  calls_look (served_slice h) (Calls.bind (calls_invoke trivial) fun _ => trivial)

theorem calls_receiveTrusted :
    (receiveTrusted now hdr packet (40 + Teredo.ip6Plen packet.ip6)).Calls (Served packet) := by
  refine Calls.bind trivial fun _ => Calls.bind (calls_quiet calls_teredoPredecap) fun _ => ?_
  exact Calls.ite (fun _ => trivial) fun _ => calls_recvCb h

theorem calls_receivePing :
    (receivePing tun now hdr packet (40 + Teredo.ip6Plen packet.ip6)).Calls (Served packet) := by
  refine calls_look (served_slice h) ?_
  refine Calls.bind trivial fun _ => Calls.bind trivial fun _ => ?_
  refine Calls.bind (fun _ => trivial) fun res => Calls.bind trivial fun _ => ?_
  refine Calls.ite (fun _ => ?_) fun _ => trivial
  exact Calls.bind (calls_invoke trivial) fun _ => trivial

theorem calls_receiveUntrusted {p : Option Peer} :
    (receiveUntrusted key tun now hdr packet (40 + Teredo.ip6Plen packet.ip6) p).Calls
      (Served packet) := by
  refine Calls.ite (fun _ => Calls.ite (fun _ => ?_) fun _ => ?_) fun _ => ?_
  · cases p with
    | some p => exact calls_receiveTrusted h
    | none =>
      refine Calls.ite (fun _ => Calls.bind (fun _ => trivial) fun r => ?_) fun _ => trivial
      cases r with
      | null => trivial
      | _ => exact Calls.bind trivial fun _ => calls_receiveTrusted h
  · exact Calls.ite (fun _ => trivial) fun _ => trivial
  · cases p with
    | some p => exact calls_receivePing h
    | none =>
      refine Calls.bind (fun _ => trivial) fun r => ?_
      cases r with
      | null => trivial
      | found => exact calls_receivePing h
      | created => exact Calls.bind trivial fun _ => calls_receivePing h

theorem calls_receive : (receive key tun now time hdr packet (40 + Teredo.ip6Plen packet.ip6)).Calls
      (Served packet) := by
  refine Calls.bind (fun _ => trivial) fun r => ?_
  refine Calls.ite (fun _ => calls_quiet (calls_receiveDiscovery r)) fun _ => ?_
  refine Calls.ite (fun _ => Calls.ite (fun _ => trivial) fun _ => trivial) fun _ => ?_
  refine Calls.ite (fun _ => calls_receiveUntrusted h) fun _ => ?_
  refine Calls.bind (fun _ => trivial) fun p => Calls.ite (fun _ => ?_) fun _ => ?_
  · exact Calls.bind (calls_quiet calls_teredoPredecap) fun _ => calls_recvCb h
  · refine calls_look ?_ (Calls.ite (fun _ => ?_) fun _ => calls_receiveUntrusted h)
    · show Reads.Within (trimmed packet.ip6).length (if _ then _ else _)
      rw [length_trimmed h]
      exact Reads.within_ite.mpr ⟨fun _ => within_checkPing key time packet,
        fun _ => Reads.within_pure⟩
    · exact Calls.bind trivial fun _ => calls_quiet calls_teredoPredecap

end Bounds

theorem calls_teredoRunInner {key : Keyed} {tun : Tunnel} {time : UInt32} {packet : TeredoPacket} :
    (teredoRunInner key tun now time packet).Calls (Served packet) := by
  refine Calls.ite (fun _ => trivial) fun hlen => calls_look ?_ ?_
  · refine Reads.within_bind.mpr ⟨within_readSlice.mpr ?_, Reads.within_pure⟩
    rw [trimmed, List.length_take]
    omega
  refine Calls.ite (fun _ => trivial) fun hwf => ?_
  rw [malformed_iff packet (not_lt.mp hlen), not_not] at hwf
  rw [ip6Plen_header]
  refine Calls.ite (fun _ => Calls.ite (fun _ => ?_) fun _ => ?_) fun _ => ?_
  · refine Calls.bind (calls_invoke fun newaddr cone mtu => ?_) fun _ => trivial
    rw [length_trimmed hwf]
    exact ⟨within_teredoParseRa _ _ _ _ _, val_teredoParseRa newaddr packet cone mtu hwf.2.2⟩
  · refine Calls.ite (fun _ => trivial) fun _ =>
      Calls.bind (calls_quiet calls_fromServer) fun _ => ?_
    exact Calls.ite (fun _ => trivial) fun _ => calls_receive hwf
  · exact Calls.ite (fun _ => trivial) fun _ => calls_receive hwf

end Read

/-- **Reads.** All that is read of a packet is inside it: its own length and that of the datagram
are not exceeded. -/
theorem reads_inside (key : Keyed) (tun : Tunnel) (now : UInt64) (time : UInt32)
    (packet : TeredoPacket) :
    (Read.teredoRunInner key tun now time packet).Calls (Served packet) ∧
      (Read.teredoRunInner key tun now time packet).erase =
        teredoRunInner key tun now time packet :=
  ⟨Read.calls_teredoRunInner, Read.erase_teredoRunInner key tun now time packet⟩

end Maiccu.Teredo
