import Maiccu.Teredo.RelayReads
import Maiccu.Teredo.RelayRuns

/-!
# Unreachable errors

`teredo_send_unreach` counts down from ten in each second, builds an ICMPv6 error in reply to a
packet and passes it to a callback. The builder returns zero for a packet that must not be answered,
but the caller calls the callback with an empty message, and has counted it. And the builder reads
the type of an ICMPv6 packet behind the header even if the packet ends there. The counter starts
anew whenever the clock differs from the last time, so a clock that goes back and forth gets past
the limit.
-/

namespace Maiccu.Teredo

open Maiccu.Lib PeerProg Reads List

/-! ## The code -/

/-- `in6addr_any` -/
def in6addrAny : In6Addr := bytes (replicate 16 0)

/-- The rest of `BuildICMPv6Error`, for a packet that is no ICMPv6 error. -/
def quoteIcmp6Error (type code : UInt8) (packet : List UInt8) : Reads (List UInt8) := do
  let dst ← readByte packet 24
  if dst = 0xff then pure [] else do
  let src ← readByte packet 8
  if src = 0xff then pure [] else do
  let src ← readField packet 8 16
  if src = in6addrAny then pure [] else do
  let data ← readSlice packet 0 (min packet.length 1232)
  pure ([type, code, 0, 0, 0, 0, 0, 0] ++ data)

/-- `BuildICMPv6Error`, with what it reads of the packet; no bytes if it returns zero. -/
def buildIcmp6Error (type code : UInt8) (packet : List UInt8) : Reads (List UInt8) :=
  if packet.length < 40 then pure [] else do
  let nxt ← readByte packet 6
  if nxt = ipprotoIcmpv6 then do
    let icmp6Type ← readByte packet 40
    if icmp6Type &&& 0x80 = 0 then pure [] else quoteIcmp6Error type code packet
  else quoteIcmp6Error type code packet

structure Icmp6Cb where
  message : List UInt8
  dst : In6Addr

structure UnreachCall where
  code : UInt8
  packet : List UInt8
  now : UInt64

/-- The message is built and passed to `miredo_icmp6_callback`, which reads the source address. -/
def UnreachCall.callback (c : UnreachCall) : Reads Icmp6Cb := do
  let message ← buildIcmp6Error icmp6DstUnreach c.code c.packet
  let dst ← readField c.packet 8 16
  pure ⟨message, dst⟩

/-- `ratelimit` of a tunnel. -/
structure Ratelimit where
  count : ℤ
  last : UInt64

/-- As `teredo_create` sets it. -/
def Ratelimit.start : Ratelimit := ⟨1, 0⟩

/-- The first test of `teredo_send_unreach`. `ICMP_RATE_LIMIT_MS` is 100. -/
def Ratelimit.renew (r : Ratelimit) (now : UInt64) : Ratelimit :=
  if now ≠ r.last then ⟨10, now⟩ else r

/-- `teredo_send_unreach`, with the call of the callback if there is one. -/
def teredoSendUnreach (r : Ratelimit) (c : UnreachCall) : Ratelimit × Option (Reads Icmp6Cb) :=
  let r := r.renew c.now
  if r.count = 0 then (r, none)
  else (if 0 < r.count then { r with count := r.count - 1 } else r, some c.callback)

/-- The calls of the callback in a sequence of calls, each with the call it comes from. -/
def unreachRun : Ratelimit → List UnreachCall → List (UnreachCall × Reads Icmp6Cb)
  | _, [] => []
  | r, c :: cs =>
    let x := teredoSendUnreach r c
    ((x.2.map (Prod.mk c)).toList) ++ unreachRun x.1 cs

/-! ## The purpose -/

/-- The packet is an ICMPv6 error: its type is below 128. -/
def IsIcmp6Error (packet : List UInt8) : Prop :=
  ip6Nxt packet = ipprotoIcmpv6 ∧ packet.getD 40 0 &&& 0x80 = 0

def UsableSource (a : In6Addr) : Prop := ¬ isMulticast a ∧ a ≠ in6addrAny

structure CallbackRight (c : UnreachCall) (x : Reads Icmp6Cb) : Prop where
  /-- It has a complete message: a header, and what fits of the packet. -/
  message : x.val.message = [icmp6DstUnreach, c.code, 0, 0, 0, 0, 0, 0] ++ c.packet.take 1232
  /-- It answers a packet that may be answered. -/
  error : ¬ IsIcmp6Error c.packet
  dst : ¬ isMulticast (ip6Dst c.packet)
  src : UsableSource (ip6Src c.packet)
  /-- Nothing behind the packet was read. -/
  reads : x.Within c.packet.length

/-- The callbacks are right, and at most ten have the same time. -/
structure UnreachRight (cs : List UnreachCall) : Prop where
  callbacks : ∀ x ∈ unreachRun Ratelimit.start cs, CallbackRight x.1 x.2
  rate : ∀ t : UInt64, (unreachRun Ratelimit.start cs).countP (fun x => x.1.now = t) ≤ 10

/-! ## Which calls are answered -/

variable (before : List UnreachCall) (now : UInt64)

/-- The calls right before, at the same time. The last one is first. -/
def sameClock : List UnreachCall :=
  before.takeWhile fun c => c.now = now

/-- How many calls in a row are answered: ten, but only one while the clock has not moved from zero
since the tunnel was made. -/
def quota : ℕ :=
  if (sameClock before now).length = before.length ∧ now = 0 then 1 else 10

def answered : List UnreachCall → List UnreachCall → List UnreachCall
  | _, [] => []
  | before, c :: cs =>
    (if (sameClock before c.now).length < quota before c.now then [c] else []) ++
      answered (c :: before) cs

structure Answerable (packet : List UInt8) : Prop where
  length : 40 ≤ packet.length
  error : ip6Nxt packet = ipprotoIcmpv6 → 41 ≤ packet.length ∧ packet.getD 40 0 &&& 0x80 ≠ 0
  src : UsableSource (ip6Src packet)

/-! ## The message -/

section Message

variable {packet : List UInt8} {type code : UInt8}

theorem within_quoteIcmp6Error (hlen : 40 ≤ packet.length) (type code : UInt8) :
    (quoteIcmp6Error type code packet).Within packet.length := by
  refine within_bind.mpr ⟨within_readByte.mpr (by omega), ?_⟩
  refine within_ite.mpr ⟨fun _ => within_pure, fun _ => ?_⟩
  refine within_bind.mpr ⟨within_readByte.mpr (by omega), ?_⟩
  refine within_ite.mpr ⟨fun _ => within_pure, fun _ => ?_⟩
  refine within_bind.mpr ⟨within_readField.mpr (by omega), ?_⟩
  refine within_ite.mpr ⟨fun _ => within_pure, fun _ => ?_⟩
  exact within_bind.mpr ⟨within_readSlice.mpr (by omega), within_pure⟩

/-- What is read, of a packet with a whole header: the type of an ICMPv6 packet may be missing. -/
theorem within_buildIcmp6Error (hlen : 40 ≤ packet.length) :
    (buildIcmp6Error type code packet).Within packet.length ↔
      (ip6Nxt packet = ipprotoIcmpv6 → 41 ≤ packet.length) := by
  have hquote := within_quoteIcmp6Error hlen type code
  unfold buildIcmp6Error
  rw [if_neg (by omega), within_bind, within_readByte, and_iff_right (by omega), val_readByte,
    show packet.getD 6 0 = ip6Nxt packet from rfl]
  by_cases hnxt : ip6Nxt packet = ipprotoIcmpv6
  · rw [if_pos hnxt, within_bind, within_readByte, imp_iff_right hnxt]
    exact and_iff_left (within_ite.mpr ⟨fun _ => within_pure, fun _ => hquote⟩)
  · rw [if_neg hnxt]
    exact iff_of_true hquote fun h => absurd h hnxt

theorem val_quoteIcmp6Error (hdst : ¬ isMulticast (ip6Dst packet))
    (hsrc : UsableSource (ip6Src packet)) :
    (quoteIcmp6Error type code packet).val =
      [type, code, 0, 0, 0, 0, 0, 0] ++ packet.take 1232 := by
  have hdata : slice packet 0 (min packet.length 1232) = packet.take 1232 := by
    unfold slice
    rw [drop_zero, Nat.min_comm, ← take_take, take_length]
  have hdst' : ¬ packet.getD 24 0 = 0xff := hdst
  have hsrc' : ¬ packet.getD 8 0 = 0xff := hsrc.1
  have hany : ¬ field packet 8 16 = in6addrAny := hsrc.2
  unfold quoteIcmp6Error
  rw [val_bind, val_readByte, if_neg hdst', val_bind, val_readByte, if_neg hsrc', val_bind,
    val_readField, if_neg hany, val_bind, val_readSlice, hdata, val_pure]

theorem val_buildIcmp6Error (hlen : 40 ≤ packet.length) (herror : ¬ IsIcmp6Error packet)
    (hdst : ¬ isMulticast (ip6Dst packet)) (hsrc : UsableSource (ip6Src packet))
    (type code : UInt8) :
    (buildIcmp6Error type code packet).val =
      [type, code, 0, 0, 0, 0, 0, 0] ++ packet.take 1232 := by
  unfold buildIcmp6Error
  rw [if_neg (by omega), val_bind, val_readByte, show packet.getD 6 0 = ip6Nxt packet from rfl]
  by_cases hnxt : ip6Nxt packet = ipprotoIcmpv6
  · rw [if_pos hnxt, val_bind, val_readByte, if_neg fun htype => herror ⟨hnxt, htype⟩]
    exact val_quoteIcmp6Error hdst hsrc
  · rw [if_neg hnxt]
    exact val_quoteIcmp6Error hdst hsrc

theorem callbackRight_iff {c : UnreachCall} (hdst : ¬ isMulticast (ip6Dst c.packet)) :
    CallbackRight c c.callback ↔ Answerable c.packet := by
  constructor
  · intro h
    have hlen : 40 ≤ c.packet.length := by
      by_contra hshort
      have hmessage : (buildIcmp6Error icmp6DstUnreach c.code c.packet).val = _ := h.message
      rw [buildIcmp6Error, if_pos (by omega)] at hmessage
      cases hmessage
    have hreads := (within_buildIcmp6Error hlen).mp
      (within_bind.mp h.reads).1
    exact ⟨hlen, fun hnxt => ⟨hreads hnxt, fun htype => h.error ⟨hnxt, htype⟩⟩, h.src⟩
  · intro h
    have herror : ¬ IsIcmp6Error c.packet := fun herror => (h.error herror.1).2 herror.2
    refine ⟨val_buildIcmp6Error h.length herror hdst h.src _ _, herror, hdst, h.src, ?_⟩
    refine within_bind.mpr ⟨?_, ?_⟩
    · exact (within_buildIcmp6Error h.length).mpr fun hnxt => (h.error hnxt).1
    · have hlen := h.length
      exact within_bind.mpr ⟨within_readField.mpr (by omega), within_pure⟩

end Message

/-! ## The limit -/

section Limit

variable {r : Ratelimit} {cs : List UnreachCall} {before} {c : UnreachCall} {t : UInt64} {now}

theorem sameClock_cons (c : UnreachCall) (before : List UnreachCall) :
    sameClock (c :: before) c.now = c :: sameClock before c.now :=
  takeWhile_cons_of_pos (by simp)

theorem sameClock_cons_of_ne (h : c.now ≠ now) : sameClock (c :: before) now = [] :=
  takeWhile_cons_of_neg (by simpa using h)

theorem quota_cons (c : UnreachCall) (before : List UnreachCall) :
    quota (c :: before) c.now = quota before c.now := by
  simp only [quota, sameClock_cons, length_cons, Nat.add_right_cancel_iff]

theorem quota_le (before : List UnreachCall) (now : UInt64) : quota before now ≤ 10 := by
  unfold quota
  split_ifs <;> omega

def remaining (before : List UnreachCall) (now : UInt64) : ℕ :=
  quota before now - (sameClock before now).length

structure Counts (r : Ratelimit) (before : List UnreachCall) : Prop where
  last : r.last = (before.head?.map UnreachCall.now).getD 0
  count : r.count = remaining before r.last

theorem Counts.renew (h : Counts r before) (now : UInt64) :
    (r.renew now).last = now ∧ (r.renew now).count = remaining before now := by
  unfold Ratelimit.renew
  by_cases hnow : now = r.last
  · rw [if_neg (not_not.mpr hnow), hnow]
    exact ⟨rfl, h.count⟩
  · rw [if_pos hnow]
    refine ⟨rfl, ?_⟩
    have hlast := h.last
    have hnone : sameClock before now = [] ∧ quota before now = 10 := by
      cases before with
      | nil =>
        refine ⟨rfl, if_neg ?_⟩
        rintro ⟨-, rfl⟩
        exact hnow hlast.symm
      | cons b before =>
        have hne : sameClock (b :: before) now = [] :=
          sameClock_cons_of_ne fun hb => hnow (hb.symm.trans hlast.symm)
        refine ⟨hne, if_neg ?_⟩
        rw [hne]
        rintro ⟨hlen, -⟩
        cases hlen
    rw [remaining, hnone.1, hnone.2]
    rfl

theorem Counts.step (h : Counts r before) (c : UnreachCall) :
    Counts (teredoSendUnreach r c).1 (c :: before) ∧ (teredoSendUnreach r c).2 =
        if (sameClock before c.now).length < quota before c.now then some c.callback else none := by
  obtain ⟨hlast, hcount⟩ := h.renew c.now
  have hremaining : remaining (c :: before) c.now = remaining before c.now - 1 := by
    unfold remaining
    rw [quota_cons, sameClock_cons, length_cons]
    omega
  have hzero : remaining before c.now = 0 ↔
      ¬ (sameClock before c.now).length < quota before c.now := by
    unfold remaining
    omega
  unfold teredoSendUnreach
  dsimp only
  rw [hcount]
  by_cases hleft : remaining before c.now = 0
  · rw [if_pos (by omega), if_neg (hzero.mp hleft)]
    refine ⟨⟨hlast, ?_⟩, rfl⟩
    show (r.renew c.now).count = remaining (c :: before) (r.renew c.now).last
    rw [hlast, hcount, hremaining, hleft]
  · rw [if_neg (by omega), if_pos (by omega), if_pos (not_not.mp (mt hzero.mpr hleft))]
    refine ⟨⟨hlast, ?_⟩, rfl⟩
    show (remaining before c.now : ℤ) - 1 = remaining (c :: before) (r.renew c.now).last
    rw [hlast, hremaining]
    omega

theorem Counts.run (h : Counts r before) (cs : List UnreachCall) :
    unreachRun r cs = (answered before cs).map fun c => (c, c.callback) := by
  induction cs generalizing r before with
  | nil => rfl
  | cons c cs ih =>
    obtain ⟨hcounts, hcall⟩ := h.step c
    rw [unreachRun, answered, map_append, ih hcounts, hcall]
    split_ifs <;> rfl

theorem mem_of_mem_answered (h : c ∈ answered before cs) : c ∈ cs := by
  induction cs generalizing before with
  | nil => cases h
  | cons d cs ih =>
    rcases mem_append.mp h with h | h
    · split_ifs at h
      · exact mem_singleton.mp h ▸ mem_cons_self
      · cases h
    · exact mem_cons_of_mem _ (ih h)

theorem countP_answered_cons_of_ne (h : c.now ≠ t) :
    (answered before (c :: cs)).countP (fun c => c.now = t) =
      (answered (c :: before) cs).countP (fun c => c.now = t) := by
  rw [answered, countP_append]
  split_ifs
  · simp [h]
  · simp

theorem now_of_sameClock (h : sameClock before t ≠ []) : ∃ b ∈ before.head?, b.now = t := by
  cases before with
  | nil => exact absurd rfl h
  | cons b before => exact ⟨b, rfl, by_contra fun hne => h (sameClock_cons_of_ne hne)⟩

theorem countP_answered_le (hcs : cs.Pairwise fun c c' => c.now ≤ c'.now)
    (hbefore : ∀ b ∈ before.head?, ∀ c ∈ cs, b.now ≤ c.now) :
    (answered before cs).countP (fun c => c.now = t) ≤ 10 - (sameClock before t).length := by
  induction cs generalizing before with
  | nil => exact Nat.zero_le _
  | cons c cs ih =>
    obtain ⟨hc, hcs'⟩ := pairwise_cons.mp hcs
    have hrest := ih hcs' fun b (hb : b ∈ (c :: before).head?) => Option.some.inj hb ▸ hc
    by_cases hnow : c.now = t
    · subst hnow
      rw [sameClock_cons, length_cons] at hrest
      have hquota := quota_le before c.now
      rw [answered, countP_append]
      split_ifs with hans
      · rw [countP_singleton, if_pos (by simp)]
        omega
      · rw [countP_nil]
        omega
    · rw [countP_answered_cons_of_ne hnow]
      by_cases hbegun : sameClock before t = []
      · rw [sameClock_cons_of_ne hnow] at hrest
        rwa [hbegun]
      · -- the clock has moved on from this time, so it does not come again
        obtain ⟨b, hb, rfl⟩ := now_of_sameClock hbegun
        have hover : ∀ d ∈ answered (c :: before) cs, d.now ≠ b.now := by
          intro d hd heq
          have hle : c.now ≤ b.now := heq ▸ hc d (mem_of_mem_answered hd)
          exact hnow (UInt64.le_antisymm hle (hbefore b hb c mem_cons_self))
        rw [countP_eq_zero.mpr (by simpa using hover)]
        exact Nat.zero_le _

theorem unreachRight_iff (hdst : ∀ c ∈ cs, ¬ isMulticast (ip6Dst c.packet)) :
    UnreachRight cs ↔ (∀ c ∈ answered [] cs, Answerable c.packet) ∧
      ∀ t : UInt64, (answered [] cs).countP (fun c => c.now = t) ≤ 10 := by
  have hrun := (⟨rfl, rfl⟩ : Counts Ratelimit.start []).run cs
  have hcallbacks : (∀ x ∈ unreachRun Ratelimit.start cs, CallbackRight x.1 x.2) ↔
      ∀ c ∈ answered [] cs, Answerable c.packet := by
    rw [hrun, forall_mem_map]
    exact forall₂_congr fun c hc => callbackRight_iff (hdst c (mem_of_mem_answered hc))
  have hrate : ∀ t : UInt64, (unreachRun Ratelimit.start cs).countP (fun x => x.1.now = t) =
      (answered [] cs).countP (fun c => c.now = t) := by
    intro t
    rw [hrun, countP_map]
    rfl
  constructor
  · exact fun h => ⟨hcallbacks.mp h.callbacks, fun t => hrate t ▸ h.rate t⟩
  · exact fun h => ⟨hcallbacks.mpr h.1, fun t => (hrate t).symm ▸ h.2 t⟩

end Limit

/-! ## The relay -/

/-- Of the calls, no error is sent for a packet to a multicast address. -/
def UnicastOnly : RelayCall → Prop
  | .sendUnreach _ packet => ¬ isMulticast (ip6Dst packet)
  | _ => True

section Transmit

variable {tun : Tunnel} {now} {packet : List UInt8}

theorem calls_unreachable (h : ¬ isMulticast (ip6Dst packet)) {code : UInt8} :
    (unreachable code packet).Calls UnicastOnly := ⟨h, fun _ => trivial⟩

theorem calls_teredoEncap : (teredoEncap now packet).Calls UnicastOnly := by
  refine Calls.bind (fun _ => trivial) fun _ => Calls.bind trivial fun _ => ?_
  exact Calls.bind trivial fun _ => Calls.bind (calls_invoke trivial) fun _ => trivial

variable {created : Bool}

section

variable (h : ¬ isMulticast (ip6Dst packet))
include h

theorem calls_transmitPing : (transmitPing tun now packet created).Calls UnicastOnly := by
  refine Calls.bind trivial fun _ => Calls.bind trivial fun _ => ?_
  refine Calls.bind (fun _ => trivial) fun res => Calls.bind trivial fun _ => ?_
  cases res with
  | send =>
    refine Calls.bind (calls_invoke trivial) fun ok => Calls.ite (fun _ => trivial) fun _ => ?_
    exact calls_unreachable h
  | later => trivial
  | tooMany => exact calls_unreachable h

theorem calls_transmitLocal : (transmitLocal tun now packet).Calls UnicastOnly := by
  refine Calls.bind trivial fun _ => Calls.bind (fun _ => trivial) fun res => ?_
  refine Calls.bind (fun _ => trivial) fun p => Calls.bind trivial fun _ => ?_
  cases res with
  | send =>
    refine Calls.bind (calls_invoke trivial) fun _ => Calls.ite (fun _ => ?_) fun _ => ?_
    · refine Calls.bind (calls_invoke trivial) fun _ => ?_
      exact Calls.bind (calls_invoke trivial) fun _ => trivial
    · exact Calls.bind (calls_invoke trivial) fun _ => trivial
  | later => trivial
  | tooMany => exact calls_unreachable h

theorem calls_transmitBubble : (transmitBubble tun now packet created).Calls UnicastOnly := by
  refine Calls.bind trivial fun _ => Calls.bind trivial fun _ => ?_
  refine Calls.bind (fun _ => trivial) fun res => Calls.bind trivial fun _ => ?_
  cases res with
  | send =>
    have hindirect : ∀ direct : Bool, Calls UnicastOnly (if ¬ direct then pure (-1) else do
        let ok ← invoke (.bubbleFromDst (ip6Dst packet) true)
        pure (if ok then 0 else -1) : RelayProg ℤ) := by
      intro direct
      exact Calls.ite (fun _ => trivial) fun _ => Calls.bind (calls_invoke trivial) fun _ => trivial
    refine Calls.ite (fun _ => hindirect true) fun _ => Calls.bind (calls_invoke trivial) hindirect
  | later => trivial
  | tooMany => exact calls_unreachable h

theorem calls_transmitConnect : (transmitConnect tun now packet created).Calls UnicastOnly := by
  refine Calls.ite (fun _ => calls_transmitPing h) fun _ => Calls.bind (fun _ => trivial) ?_
  intro p
  exact Calls.ite (fun _ => calls_transmitLocal h) fun _ => calls_transmitBubble h

end

/-- `teredo_transmit` drops packets to multicast addresses before anything else. -/
theorem calls_teredoTransmit (tun : Tunnel) (now : UInt64) (packet : List UInt8) :
    (teredoTransmit tun now packet).Calls UnicastOnly := by
  refine Calls.ite (fun _ => trivial) fun h => ?_
  refine Calls.ite (fun _ => calls_unreachable h) fun _ => ?_
  refine Calls.ite (fun _ => calls_unreachable h) fun _ => ?_
  refine Calls.ite (fun _ => calls_unreachable h) fun _ => ?_
  refine Calls.ite (fun _ => trivial) fun _ => Calls.bind (fun _ => trivial) fun r => ?_
  cases r with
  | null => trivial
  | found =>
    refine Calls.bind (fun _ => trivial) fun p => Calls.ite (fun _ => calls_teredoEncap) fun _ => ?_
    exact calls_transmitConnect h
  | created => exact Calls.bind trivial fun _ => calls_transmitConnect h

end Transmit

theorem unicastOnly_teredoRunInner (key : Keyed) (tun : Tunnel) (now : UInt64) (time : UInt32)
    (packet : TeredoPacket) : (teredoRunInner key tun now time packet).Calls UnicastOnly := by
  rw [← Read.erase_teredoRunInner]
  refine Read.calls_teredoRunInner.mapCalls fun c hc d hd => ?_
  obtain rfl := Sum.getLeft?_eq_some_iff.mp hd
  cases d with
  | sendUnreach code packet => exact hc.elim
  | _ => trivial

section Runs

variable {A : Type} [DecidableEq A] {key : Keyed} {r r' : Relay A} {e : RelayEvent A}

variable {c : RelayCall} {ok : Bool}

theorem unicastOnly_of_runProg {α : Type} {x : RelayProg α} (hx : x.Calls UnicastOnly)
    {env : Env In6Addr Peer A} {evs : List RelayEv} (hrun : runProg r x env = some (evs, r'))
      (hc : .called c ok ∈ evs) : UnicastOnly c := by
  obtain ⟨⟨a, evs', l⟩, hrun', heq⟩ := Option.map_eq_some_iff.mp hrun
  cases heq
  exact hx.of_run hrun' hc

omit [DecidableEq A] in
theorem unicastOnly_of_stateChange {s : TeredoState} {ifaces : Option (List Iface)}
    (hc : .called c ok ∈ (teredoStateChange r s ifaces).1) : UnicastOnly c := by
  unfold teredoStateChange at hc
  by_cases hup : s.up = true
  · rw [if_pos hup] at hc
    cases mem_singleton.mp hc
    trivial
  · rw [if_neg hup] at hc
    replace hc : .called c ok ∈
        (if r.tunnel.state.up = true then [.called .downCb true] else [] : List RelayEv) := hc
    split_ifs at hc
    · cases mem_singleton.mp hc
      trivial
    · cases hc

theorem unicastOnly_of_step (hstep : RelayStep key r e r')
    (hc : .called c ok ∈ e.effects) : UnicastOnly c := by
  obtain ⟨input, env, effects⟩ := e
  have hrelay : relayStep key r env input = some (effects, r') := hstep
  have hop : ∀ op, runOp r op = some (effects, r') → UnicastOnly c := by
    intro op hop
    obtain ⟨y, -, heq⟩ := Option.map_eq_some_iff.mp hop
    cases heq
    cases hc
  cases input with
  | packet now time p => exact unicastOnly_of_runProg (unicastOnly_teredoRunInner ..) hrelay hc
  | transmit now p => exact unicastOnly_of_runProg (calls_teredoTransmit ..) hrelay hc
  | gc =>
    rw [relayStep] at hrelay
    split_ifs at hrelay
    exact hop .gc hrelay
  | free i => exact hop (.free i) hrelay
  | state s ifaces =>
    rw [relayStep] at hrelay
    split_ifs at hrelay with hheld
    have heffects : effects = (teredoStateChange r s ifaces).1 :=
      (congrArg Prod.fst (Option.some.inj hrelay)).symm
    exact unicastOnly_of_stateChange (heffects ▸ hc)

/-- The errors for which `teredo_send_unreach` is called in a run. -/
def unreachCalls (es : List (RelayEvent A)) : List (UInt8 × List UInt8) :=
  (history es).filterMap fun
    | .called (.sendUnreach code packet) _ => some (code, packet)
    | _ => none

/-- The calls with their clock: `clock i` is what the call number `i` reads. -/
def withClock (clock : ℕ → UInt64) (cs : List (UInt8 × List UInt8)) : List UnreachCall :=
  cs.mapIdx fun i c => ⟨c.1, c.2, clock i⟩

variable {r₀ : Relay A} {es : List (RelayEvent A)}

theorem unicast_of_run (hrun : Run (RelayStep key) r₀ es r) :
    ∀ c ∈ unreachCalls es, ¬ isMulticast (ip6Dst c.2) := by
  refine hrun.induct ?_ ?_
  · exact nofun
  · intro es r e r' _ ih hstep c hc
    rw [unreachCalls, history_append, filterMap_append] at hc
    rcases mem_append.mp hc with hc | hc
    · exact ih c hc
    · obtain ⟨ev, hev, heq⟩ := mem_filterMap.mp hc
      split at heq
      · cases heq
        exact unicastOnly_of_step hstep (mem_of_ne_of_mem (by simp) hev)
      · cases heq

variable {clock : ℕ → UInt64}

theorem pairwise_withClock (hclock : ∀ i j, i ≤ j → clock i ≤ clock j)
    (cs : List (UInt8 × List UInt8)) :
    (withClock clock cs).Pairwise fun c c' => c.now ≤ c'.now := by
  rw [pairwise_iff_getElem]
  intro i j hi hj hij
  simp only [withClock, getElem_mapIdx]
  exact hclock i j hij.le

theorem unicast_withClock (hrun : Run (RelayStep key) r₀ es r) :
    ∀ c ∈ withClock clock (unreachCalls es), ¬ isMulticast (ip6Dst c.packet) := by
  intro c hc
  obtain ⟨i, hi, rfl⟩ := mem_mapIdx.mp hc
  exact unicast_of_run hrun _ (getElem_mem hi)

/-- **The errors of a relay.** With every clock, the errors are sent as they should be if and only
if each packet that is answered can be, and no time of the clock comes up again with more than ten
answers in all. A clock that does not go back sees to the latter. -/
theorem unreach_iff (hrun : Run (RelayStep key) r₀ es r) (clock : ℕ → UInt64) :
    (UnreachRight (withClock clock (unreachCalls es)) ↔
        (∀ c ∈ answered [] (withClock clock (unreachCalls es)), Answerable c.packet) ∧
          ∀ t : UInt64, (answered [] (withClock clock (unreachCalls es))).countP
            (fun c => c.now = t) ≤ 10) ∧
      ((∀ i j, i ≤ j → clock i ≤ clock j) →
        ∀ t : UInt64, (answered [] (withClock clock (unreachCalls es))).countP
          (fun c => c.now = t) ≤ 10) := by
  refine ⟨unreachRight_iff (unicast_withClock hrun), fun hclock t => ?_⟩
  exact countP_answered_le (pairwise_withClock hclock _) nofun

end Runs

/-! ## Packets that are refused -/

def refused (packet : List UInt8) : RelayEvent ℕ :=
  ⟨.transmit 5 packet, ⟨[], []⟩, [.called (.sendUnreach icmp6DstUnreachAddr packet) true]⟩

theorem run_refused (packet : List UInt8) (h : ¬ isMulticast (ip6Dst packet)) (n : ℕ) :
    Run (RelayStep constKey) (Relay.newClient clientMem clientState)
      (replicate n (refused packet)) (Relay.newClient clientMem clientState) := by
  have hstep : RelayStep constKey (Relay.newClient clientMem clientState) (refused packet)
      (Relay.newClient clientMem clientState) := by
    show runProg _ (teredoTransmit _ _ _) _ = _
    rw [teredoTransmit, if_neg h]
    rfl
  induction n with
  | zero => exact .start
  | succ n ih => exact ih.head hstep

def refusedCalls (clock : ℕ → UInt64) (n : ℕ) (packet : List UInt8) : List UnreachCall :=
  withClock clock (unreachCalls (replicate n (refused packet)))

theorem unreach_plain : UnreachRight (refusedCalls (fun _ => 5) 1 clientPacket.ip6) := by
  have hrun := run_refused clientPacket.ip6 (by decide) 1
  apply (unreach_iff hrun fun _ => 5).1.mpr
  constructor
  · intro c hc
    obtain rfl := mem_singleton.mp hc
    exact ⟨by decide, by decide, by decide, by decide⟩
  · exact (unreach_iff hrun fun _ => 5).2 fun _ _ _ => UInt64.le_refl _

def icmp6Packet (payload : List UInt8) : List UInt8 :=
  [0x60, 0, 0, 0, 0, UInt8.ofNat payload.length, 58, 64] ++ clientAddr.toList ++
    clientAddr.toList ++ payload

/-- An error is answered, with an empty message. The byte behind a packet that ends with its header
is read. And if the clock goes back and forth, there are eleven answers at one time. -/
theorem unreach_wrong :
    ¬ UnreachRight (refusedCalls (fun _ => 5) 1 (icmp6Packet [1])) ∧
      ¬ UnreachRight (refusedCalls (fun _ => 5) 1 (icmp6Packet [])) ∧
      ¬ UnreachRight (refusedCalls (fun i => if i % 2 = 0 then 5 else 6) 21 clientPacket.ip6) := by
  refine ⟨fun h => ?_, fun h => ?_, fun h => ?_⟩
  · have hright := ((unreachRight_iff (unicast_withClock (run_refused _ (by decide) 1))).mp h).1
    exact ((hright _ mem_cons_self).error (by decide)).2 (by decide)
  · have hright := ((unreachRight_iff (unicast_withClock (run_refused _ (by decide) 1))).mp h).1
    exact nomatch ((hright _ mem_cons_self).error (by decide)).1
  · have hright := ((unreachRight_iff (unicast_withClock (run_refused _ (by decide) 21))).mp h).2
    exact nomatch hright 5

end Maiccu.Teredo
