import Maiccu.Teredo.RelayDiscovery
import Maiccu.Teredo.RelayFields
import Maiccu.Teredo.RelayFieldsKnown

/-!
# The relay uses what was written

Each part of `teredo_transmit` and `teredo_run_inner` keeps the invariant `Known`, and uses only
fields that were written, but for `last_rx` in the text of `debug`.
-/

namespace Maiccu.Teredo

open Maiccu.Lib PeerProg List

abbrev FieldEv := Ev Input In6Addr FieldCall

/-! ## Programs -/

def CallsOnly {α : Type} : RelayProg α → Prop
  | .ret _ => True
  | .call _ next => ∀ b, CallsOnly (next b)
  | _ => False

theorem CallsOnly.bind {α β : Type} {x : RelayProg α} {k : α → RelayProg β} (hx : CallsOnly x)
    (hk : ∀ a, CallsOnly (k a)) : CallsOnly (x >>= k) := by
  show CallsOnly (x.bind k)
  induction x with
  | ret a => exact hk a
  | call c next ih => exact fun b => ih b (hx b)
  | lookup | read | write | release => exact hx.elim

/-- What a step may leave behind: `late` if records may be without `last_rx`, `told` for what must
hold of its calls at the end. With `logs` it may use `last_rx` for a text. -/
structure Terms where
  tun : Tunnel
  late : List FieldEv → Prop
  told : List FieldEv → Prop
  logs : Prop
  late_append : ∀ {h} ev, late h → late (h ++ [ev])
  told_called : ∀ {h} x ok, told h → told (h ++ [.called x ok])

namespace Terms

variable (T : Terms) (h : List FieldEv)

def Inv (k : In6Addr) (t : Tracked) : Prop := Known T.tun (T.late h) k t

def Allowed : FieldCall → Prop
  | .call _ => True
  | .unwritten f => f = .lastRx ∧ T.logs ∧ T.late h

def Done (c : Cur In6Addr Tracked) (h : List FieldEv) : Prop := c.Closed T.Inv h ∧ T.told h

/-- The program uses no field too early, `last_rx` apart, and leaves records as they should be. -/
def Safe {α : Type} (x : FieldProg α) (c : Cur In6Addr Tracked) (h : List FieldEv) : Prop :=
  x.wp Tracked.init T.Inv T.Allowed (fun _ => T.Done) c h

variable {T}

variable {h}

theorem Inv.append {k : In6Addr} {t : Tracked} (hk : T.Inv h k t) (ev : FieldEv) :
    T.Inv (h ++ [ev]) k t := hk.imp (T.late_append ev)

theorem late_mono (evs : List FieldEv) (hl : T.late h) : T.late (h ++ evs) := by
  induction evs generalizing h with
  | nil => rwa [append_nil]
  | cons ev evs ih =>
    rw [append_cons]
    exact ih (T.late_append ev hl)

theorem stable_inv : Stable T.Inv where
  created _ hk _ := hk.append _
  called _ _ hk := hk.append _

theorem Done.called {c : Cur In6Addr Tracked} (hd : T.Done c h) (x : FieldCall) (ok : Bool) :
    T.Done c (h ++ [.called x ok]) := by
  refine ⟨?_, T.told_called x ok hd.2⟩
  cases c with
  | none => trivial
  | locked k t => exact hd.1
  | stale k t => exact Inv.append hd.1 _

end Terms

namespace Fields

section Rules

variable {T : Terms} {α : Type} {c : Cur In6Addr Tracked} {h : List FieldEv} {k : In6Addr}
  {t : Tracked} {Q : α → Cur In6Addr Tracked → List FieldEv → Prop}

theorem check_eq {u : Uses α} (hu : u.unwritten = []) : check u = pure u.val := by
  unfold check
  rw [hu]
  rfl

variable {f : Tracked → Uses (α × Tracked)} {x : RelayProg α}

theorem wp_changePeer_locked (hf : (f t).unwritten = []) :
    (changePeer f).wp Tracked.init T.Inv T.Allowed Q (.locked k t) h ↔
      Q (f t).val.1 (.locked k (f t).val.2) h := by
  show (report _ (f t).unwritten).wp _ _ _ _ _ _ ↔ _
  rw [hf]
  rfl

theorem wp_changePeer_stale (hf : (f t).unwritten = []) :
    (changePeer f).wp Tracked.init T.Inv T.Allowed Q (.stale k t) h ↔
      Q (f t).val.1 (.stale k (f t).val.2) h := by
  show (report _ (f t).unwritten).wp _ _ _ _ _ _ ↔ _
  rw [hf]
  rfl

theorem wp_lift (hx : CallsOnly x) {R : List FieldEv → Prop}
    (hR : ∀ {h} x ok, R h → R (h ++ [.called x ok])) (hQ : ∀ a h, R h → Q a c h) (h₀ : R h) :
    (lift x).wp Tracked.init T.Inv T.Allowed Q c h := by
  induction x generalizing h with
  | ret a => exact hQ a h h₀
  | call x next ih => exact ⟨trivial, fun b => ih b (hx b) (hR _ b h₀)⟩
  | lookup | read | write | release => exact hx.elim

theorem safe_lift (hx : CallsOnly x) (hd : T.Done c h) : T.Safe (lift x) c h :=
  wp_lift hx (fun x ok hd => hd.called x ok) (fun _ _ hd => hd) hd

end Rules

/-! ### Calls -/

section Calls

variable {tun : Tunnel} {packet : List UInt8}

theorem callsOnly_unreachable {code : UInt8} : CallsOnly (unreachable code packet) :=
  fun _ => trivial

theorem callsOnly_pingCounted (res : Count) : CallsOnly (pingCounted tun packet res) := by
  cases res with
  | send =>
    intro ok
    show CallsOnly (if ok = true then _ else _)
    split_ifs
    · trivial
    · exact callsOnly_unreachable
  | later => trivial
  | tooMany => exact callsOnly_unreachable

theorem callsOnly_localCounted (m : Ipv4 × Port) (res : Count) :
    CallsOnly (localCounted tun packet m res) := by
  cases res with
  | send =>
    intro ok
    show CallsOnly (if tun.discovery.isSome = true then _ else _)
    split_ifs
    · exact fun _ _ => trivial
    · exact fun _ => trivial
  | later => trivial
  | tooMany => exact callsOnly_unreachable

theorem callsOnly_bubbleCounted (res : Count) : CallsOnly (bubbleCounted tun packet res) := by
  cases res with
  | send =>
    have hindirect : ∀ direct : Bool, CallsOnly (α := ℤ) (if ¬ direct then pure (-1) else do
        let ok ← invoke (.bubbleFromDst (ip6Dst packet) true)
        pure (if ok then 0 else -1)) := by
      intro direct
      split_ifs
      · exact fun _ => trivial
      · trivial
    unfold bubbleCounted
    dsimp only
    split_ifs
    · exact hindirect true
    · exact hindirect
  | later => trivial
  | tooMany => exact callsOnly_unreachable

theorem callsOnly_teredoQueueEmit {qs : List Queued} {ip : Ipv4} {port : Port} :
    CallsOnly (teredoQueueEmit qs ip port) := by
  induction qs with
  | nil => trivial
  | cons q qs ih =>
    refine CallsOnly.bind ?_ fun _ => ih
    unfold emitOne
    split_ifs
    · exact fun _ => trivial
    · trivial
    · exact fun _ => trivial

theorem callsOnly_fromServer {packet : TeredoPacket} : CallsOnly (fromServer tun packet) := by
  unfold fromServer teredoReplyBubble
  split_ifs
  · dsimp only
    split_ifs
    · trivial
    · exact fun _ => trivial
    · trivial
  · trivial

end Calls

variable {Q : Unit → Cur In6Addr Tracked → List FieldEv → Prop}

/-! ### Sending -/

section Transmit

variable {T : Terms} {h : List FieldEv} {k : In6Addr} {t : Tracked} {now : UInt64}
  {packet : List UInt8}

theorem safe_teredoEncap (hk : T.Inv h k t) (htold : T.told h) :
    T.Safe (teredoEncap now packet) (.locked k t) h := by
  unfold Terms.Safe teredoEncap
  simp only [wp_bind, wp_getPeer_locked]
  rw [check_eq (Tracked.unwritten_mapped hk.mappedAddr hk.mappedPort)]
  simp only [wp_pure, wp_modifyPeer, wp_teredoListRelease]
  refine safe_lift (fun _ => trivial) ⟨?_, htold⟩
  exact Known.touch hk _ (by decide)

variable {created : Bool}

theorem safe_transmitPing
    (hk : T.Inv h k (t.stores (if created then
      [⟨.mappedPort, anyPort⟩, ⟨.mappedAddr, anyIpv4⟩] else [])))
    (hpings : (t.stores (if created then
      [⟨.mappedPort, anyPort⟩, ⟨.mappedAddr, anyIpv4⟩] else [])).written .pings = true)
    (htold : T.told h) :
    T.Safe (transmitPing T.tun now packet created) (.locked k t) h := by
  unfold Terms.Safe transmitPing
  simp only [wp_bind, wp_modifyPeer]
  generalize t.stores (if created then [⟨.mappedPort, anyPort⟩,
    ⟨.mappedAddr, anyIpv4⟩] else []) = t'
    at hk hpings ⊢
  have hk' := Known.enqueueOut hk packet
  have hclean : ((t'.onQueue (·.enqueueOut packet)).countPing now).unwritten = [] :=
    Tracked.unwritten_countPing hpings (hk'.lastPing hpings)
  rw [wp_changePeer_locked hclean]
  simp only [wp_teredoListRelease]
  exact safe_lift (callsOnly_pingCounted _) ⟨hk'.countPing now, htold⟩

theorem safe_transmitLocal (hk : T.Inv h k t) (htold : T.told h) :
    T.Safe (transmitLocal T.tun now packet) (.locked k t) h := by
  have hk' := Known.enqueueOut hk packet
  have hlast := hk'.countBubble now
  unfold Terms.Safe transmitLocal
  simp only [wp_bind, wp_modifyPeer]
  rw [wp_changePeer_locked (Tracked.unwritten_countBubble hk'.bubbles hk'.lastTx)]
  simp only [wp_getPeer_locked]
  rw [check_eq (Tracked.unwritten_mapped hlast.mappedAddr hlast.mappedPort)]
  simp only [wp_pure, wp_teredoListRelease]
  exact safe_lift (callsOnly_localCounted _ _) ⟨hlast, htold⟩

theorem safe_transmitBubble
    (hk : T.Inv h k (t.stores (if created then Tracked.mapping (in6TeredoIpv4 (ip6Dst packet))
      (in6TeredoPort (ip6Dst packet)) else [])))
    (htold : T.told h) : T.Safe (transmitBubble T.tun now packet created) (.locked k t) h := by
  have hk' := Known.enqueueOut hk packet
  unfold Terms.Safe transmitBubble
  simp only [wp_bind, wp_modifyPeer]
  rw [wp_changePeer_locked (Tracked.unwritten_countBubble hk'.bubbles hk'.lastTx)]
  simp only [wp_teredoListRelease]
  exact safe_lift (callsOnly_bubbleCounted _) ⟨hk'.countBubble now, htold⟩

/-- The only field that the text of `debug` needs and that may be missing is `last_rx`. -/
theorem wp_logConnecting (htrusted : t.written .trusted = true) (hlocal : t.written .isLocal = true)
    (hrx : t.written .lastRx = true → Q () (.locked k t) h)
    (hnorx : t.written .lastRx = false → T.Allowed h (.unwritten .lastRx) ∧
      ∀ ok, Q () (.locked k t) (h ++ [.called (.unwritten .lastRx) ok])) :
    (logConnecting now).wp Tracked.init T.Inv T.Allowed Q (.locked k t) h := by
  unfold logConnecting
  simp only [wp_bind, wp_getPeer_locked]
  rw [check_eq (Tracked.unwritten_use hlocal), wp_pure, check_eq (Tracked.unwritten_use htrusted),
    wp_pure]
  cases hw : t.written .lastRx with
  | true =>
    rw [check_eq (Tracked.unwritten_isValid hw hlocal)]
    exact hrx hw
  | false =>
    have hu : (t.isValid now).unwritten = [.lastRx] := by
      simp [Tracked.isValid, Tracked.use, hw, hlocal]
    unfold check
    rw [hu]
    exact hnorx hw

/-- A peer in the list. It has `pings` if it may be pinged, and `last_rx` if it is local. -/
theorem safe_transmitUntrusted_found (hk : T.Inv h (ip6Dst packet) t)
    (hclient : in6TeredoPrefix (ip6Dst packet) ≠ in6TeredoPrefix T.tun.state.addr →
      T.tun.client = true ∧ T.tun.state.up = true) (htold : T.told h) :
    T.Safe (transmitUntrusted T.tun now packet false) (.locked (ip6Dst packet) t) h := by
  unfold transmitUntrusted
  split_ifs with hpfx
  · refine safe_transmitPing hk (hk.pings.resolve_right fun hnot => ?_) htold
    exact hpfx (hnot (hclient hpfx).1 (hclient hpfx).2)
  · unfold Terms.Safe
    simp only [wp_bind, wp_getPeer_locked]
    rw [check_eq (Tracked.unwritten_andThen (Tracked.unwritten_use hk.isLocal) fun hlocal =>
      Tracked.unwritten_isValid (hk.heard (Or.inr hlocal)) hk.isLocal), wp_pure]
    split_ifs
    · exact safe_transmitLocal hk htold
    · exact safe_transmitBubble hk htold

theorem safe_transmitUntrusted_created (hb : Begun t) (hlate : T.late h) (htold : T.told h) :
    T.Safe (transmitUntrusted T.tun now packet true) (.locked k t) h := by
  unfold transmitUntrusted
  split_ifs
  · have hb' : Begun (t.stores [⟨.mappedPort, anyPort⟩, ⟨.mappedAddr, anyIpv4⟩]) :=
      (hb.touch _ (by decide)).touch _ (by decide)
    exact safe_transmitPing (hb'.known hlate (by simp [Tracked.stores]) (by simp [Tracked.stores]))
      (hb'.written _ (by decide)) htold
  · have hb' : Begun (t.stores
        (Tracked.mapping (in6TeredoIpv4 (ip6Dst packet)) (in6TeredoPort (ip6Dst packet)))) :=
      (hb.touch (f := .mappedAddr) _ (by decide)).touch (f := .mappedPort) _ (by decide)
    have hlocal : (t.use .isLocal).val = false := hb.notLocal
    unfold Terms.Safe
    simp only [wp_bind, wp_getPeer_locked]
    rw [check_eq (Tracked.unwritten_andThen (Tracked.unwritten_use (hb.written _ (by decide)))
      fun htrue => nomatch hlocal.symm.trans htrue), wp_pure, Tracked.val_andThen, hlocal,
      Bool.false_and, if_neg Bool.false_ne_true]
    exact safe_transmitBubble (hb'.known hlate (by simp [Tracked.stores, Tracked.mapping])
      (by simp [Tracked.stores, Tracked.mapping])) htold

section Connect

variable {debug : Bool} (hlogs : debug = true → T.logs)

include hlogs

theorem safe_transmitConnect_found (hk : T.Inv h (ip6Dst packet) t)
    (hclient : in6TeredoPrefix (ip6Dst packet) ≠ in6TeredoPrefix T.tun.state.addr →
      T.tun.client = true ∧ T.tun.state.up = true) (htold : T.told h) :
    T.Safe (transmitConnect debug T.tun now packet false) (.locked (ip6Dst packet) t) h := by
  cases debug with
  | false => exact safe_transmitUntrusted_found hk hclient htold
  | true =>
    refine wp_bind.mpr (wp_logConnecting hk.trusted hk.isLocal (fun _ => ?_) fun hw =>
      ⟨⟨rfl, hlogs rfl, hk.lastRx.resolve_left (by simp [hw])⟩, fun ok => ?_⟩)
    · exact safe_transmitUntrusted_found hk hclient htold
    · exact safe_transmitUntrusted_found (hk.append _) hclient (T.told_called _ _ htold)

theorem safe_transmitConnect_created (hb : Begun t) (hw : t.written .lastRx = false)
    (hlate : T.late h) (htold : debug = false → T.told h)
    (hreported : ∀ ok, T.told (h ++ [.called (.unwritten .lastRx) ok])) :
    T.Safe (transmitConnect debug T.tun now packet true) (.locked k t) h := by
  cases debug with
  | false => exact safe_transmitUntrusted_created hb hlate (htold rfl)
  | true =>
    refine wp_bind.mpr (wp_logConnecting (hb.written _ (by decide)) (hb.written _ (by decide))
      (fun hw' => nomatch hw.symm.trans hw')
      fun _ => ⟨⟨rfl, hlogs rfl, hlate⟩, fun ok => ?_⟩)
    exact safe_transmitUntrusted_created hb (T.late_append _ hlate) (hreported ok)

end Connect

/-- **Sending.** With `debug` the `last_rx` of a record that it makes is used. -/
theorem safe_teredoTransmit {debug : Bool} (hlogs : debug = true → T.logs) (htold : T.told h)
    (hlate : ∀ k, T.late (h ++ [.created k]))
    (hnew : ∀ k, (debug = false → T.told (h ++ [.created k])) ∧
      ∀ ok, T.told ((h ++ [.created k]) ++ [.called (.unwritten .lastRx) ok])) :
    T.Safe (teredoTransmit debug T.tun now packet) .none h := by
  have hdone : T.Done .none h := ⟨trivial, htold⟩
  unfold teredoTransmit
  dsimp only
  split_ifs with hmulticast hup hadmin haddr hserver
  · exact hdone
  · exact safe_lift callsOnly_unreachable hdone
  · exact safe_lift callsOnly_unreachable hdone
  · exact safe_lift callsOnly_unreachable hdone
  · exact hdone
  · have hclient : in6TeredoPrefix (ip6Dst packet) ≠ in6TeredoPrefix T.tun.state.addr →
        T.tun.client = true ∧ T.tun.state.up = true := by
      intro hne
      have hc : T.tun.client = true := by
        by_contra hc
        exact haddr ⟨hne, hc⟩
      refine ⟨hc, ?_⟩
      by_contra hu
      exact hup ⟨hc, hu⟩
    unfold Terms.Safe
    simp only [wp_bind, wp_teredoListLookup]
    refine ⟨trivial, hdone, fun t hk => ?_, fun _ junk => ?_⟩
    · simp only [wp_getPeer_locked]
      rw [check_eq (Tracked.unwritten_andThen (Tracked.unwritten_use hk.trusted) fun htr =>
        Tracked.unwritten_isValid (hk.heard (Or.inl htr)) hk.isLocal), wp_pure]
      split_ifs
      · exact safe_teredoEncap hk htold
      · exact safe_transmitConnect_found hlogs hk hclient htold
    · simp only [wp_modifyPeer]
      exact safe_transmitConnect_created hlogs ⟨by simp [Tracked.stores], rfl, rfl, rfl, rfl⟩
        (by simp [Tracked.stores, Tracked.init]) (hlate _) (hnew _).1 (hnew _).2

end Transmit

/-! ### Receiving -/

section Receive

attribute [local irreducible] trimmed

variable {T : Terms} {h : List FieldEv} {k : In6Addr} {t : Tracked} {now : UInt64} {time : UInt32}
  {key : Keyed} {packet : TeredoPacket} {c : Cur In6Addr Tracked}

/-- `teredo_predecap`: after it the record is known, whatever was missing but the flags and the
mapping. -/
theorem wp_teredoPredecap
    (htrusted : t.written .trusted = true) (hlocal : t.written .isLocal = true)
    (haddr : t.written .mappedAddr = true) (hport : t.written .mappedPort = true)
    (hQ : ∀ h t', T.Inv h k t' → Q () (.stale k t') h) :
    (teredoPredecap now).wp Tracked.init T.Inv T.Allowed Q (.locked k t) h := by
  have hk : ∀ h, T.Inv h k ((t.stores [⟨.lastRx, now⟩, ⟨.pings, 0⟩, ⟨.bubbles, 0⟩]).onQueue
      (·.queueYield.2)) := fun h =>
    (known_received htrusted hlocal haddr hport).onQueue fun f => by cases f <;> rfl
  unfold teredoPredecap
  simp only [wp_bind, wp_modifyPeer, wp_withPeer, wp_teredoListRelease]
  split_ifs
  · exact hQ _ _ (hk h)
  · simp only [wp_bind, wp_getPeer_stale]
    rw [check_eq (Tracked.unwritten_mapped (hk h).mappedAddr (hk h).mappedPort), wp_pure]
    exact wp_lift (R := fun _ => True) callsOnly_teredoQueueEmit (fun _ _ _ => trivial)
      (fun _ h _ => hQ h _ (hk h)) trivial

def AtRecord (T : Terms) (h : List FieldEv) (k : In6Addr) :
    Option Tracked → Cur In6Addr Tracked → Prop
  | none, c => c = .none
  | some t, c => c = .locked k t ∧ T.Inv h k t

variable (htold : ∀ h, T.told h)

include htold

theorem safe_receiveTrusted (hlocal : t.written .isLocal = true) :
    T.Safe (receiveTrusted now packet) (.locked k t) h := by
  unfold Terms.Safe receiveTrusted
  simp only [wp_bind, wp_modifyPeer]
  refine wp_teredoPredecap ?_ ?_ ?_ ?_ fun h t' hk => ?_
  · simp [Tracked.stores, Tracked.mapping]
  · simp [Tracked.stores, Tracked.mapping, hlocal]
  · simp [Tracked.stores, Tracked.mapping]
  · simp [Tracked.stores, Tracked.mapping]
  · refine safe_lift ?_ ⟨hk, htold h⟩
    split_ifs
    · trivial
    · exact fun _ => trivial

variable {o : Option Tracked}

theorem safe_receiveTeredo (hat : AtRecord T h (ip6Src packet.ip6) o c) :
    T.Safe (receiveTeredo T.tun now packet o) c h := by
  cases o with
  | some t =>
    obtain ⟨rfl, hk⟩ := hat
    exact safe_receiveTrusted htold hk.isLocal
  | none =>
    obtain rfl : c = .none := hat
    unfold receiveTeredo
    dsimp only
    split_ifs
    · unfold Terms.Safe
      simp only [wp_bind, wp_teredoListLookup]
      refine ⟨trivial, ⟨trivial, htold h⟩, fun t hk => ?_, fun _ junk => ?_⟩
      · simp only [wp_modifyPeer]
        exact safe_receiveTrusted htold (by simp)
      · simp only [wp_modifyPeer]
        exact safe_receiveTrusted htold (by simp)
    · exact ⟨trivial, htold h⟩

/-- A peer that is pinged: its record may be without `last_rx` before. -/
theorem safe_receivePing (hk : Known T.tun True k t) (hpings : t.written .pings = true) :
    T.Safe (receivePing T.tun now packet) (.locked k t) h := by
  have hqueue : Known T.tun True k (t.onQueue
      (·.enqueueIn (trimmed packet.ip6) packet.sourceIpv4 packet.sourcePort)) :=
    hk.onQueue fun f => Peer.get_enqueue _ _ _ _ _ f
  have hk' : T.Inv h k ((t.onQueue (·.enqueueIn (trimmed packet.ip6) packet.sourceIpv4
      packet.sourcePort)).store .lastRx now) :=
    { hqueue.touch (f := .lastRx) now (by decide) with lastRx := Or.inl (by simp) }
  have hpings' : ((t.onQueue (·.enqueueIn (trimmed packet.ip6) packet.sourceIpv4
      packet.sourcePort)).store .lastRx now).written .pings = true := by
    rw [Tracked.written_store]
    exact hpings
  unfold Terms.Safe receivePing
  simp only [wp_bind, wp_modifyPeer]
  rw [wp_changePeer_locked (Tracked.unwritten_countPing hpings' (hk'.lastPing hpings'))]
  simp only [wp_teredoListRelease]
  refine safe_lift ?_ ⟨Known.countPing hk' now, htold h⟩
  split_ifs
  · exact fun _ => trivial
  · trivial

theorem safe_receiveOther (hclient : T.tun.client = true) (hup : T.tun.state.up = true)
    (hpfx : in6TeredoPrefix (ip6Src packet.ip6) ≠ in6TeredoPrefix T.tun.state.addr)
    (hat : AtRecord T h (ip6Src packet.ip6) o c) :
    T.Safe (receiveOther T.tun now packet o) c h := by
  have hlisted : ∀ t, T.Inv h (ip6Src packet.ip6) t →
      T.Safe (receivePing T.tun now packet) (.locked (ip6Src packet.ip6) t) h := fun t hk =>
    safe_receivePing htold (hk.imp fun _ => trivial)
      (hk.pings.resolve_right fun hnot => hpfx (hnot hclient hup))
  cases o with
  | some t =>
    obtain ⟨rfl, hk⟩ := hat
    exact hlisted t hk
  | none =>
    obtain rfl : c = .none := hat
    unfold Terms.Safe receiveOther
    simp only [wp_bind, wp_teredoListLookup]
    refine ⟨trivial, ⟨trivial, htold h⟩, hlisted, fun _ junk => ?_⟩
    simp only [wp_modifyPeer]
    have hb : Begun (junk.init.stores [⟨.mappedPort, anyPort⟩, ⟨.mappedAddr, anyIpv4⟩,
        ⟨.isLocal, false⟩, ⟨.trusted, false⟩, ⟨.pings, 0⟩, ⟨.bubbles, 0⟩]) :=
      ⟨by simp [Tracked.stores], rfl, rfl, rfl, rfl⟩
    exact safe_receivePing htold (hb.known trivial (by simp [Tracked.stores])
      (by simp [Tracked.stores])) (hb.written _ (by decide))

omit htold in
theorem unwritten_acceptsTeredo (hat : AtRecord T h k o c) :
    (acceptsTeredo key T.tun packet o).unwritten = [] := by
  have hlocal : (fromLocal packet o).unwritten = [] := by
    cases o with
    | none => rfl
    | some t =>
      exact Tracked.unwritten_andThen (Tracked.unwritten_use hat.2.isLocal) fun _ =>
        Tracked.unwritten_fromMapping hat.2.mappedAddr hat.2.mappedPort
  unfold acceptsTeredo
  split_ifs
  · rfl
  · simp [hlocal]

section

variable (hclient : in6TeredoPrefix (ip6Src packet.ip6) ≠ in6TeredoPrefix T.tun.state.addr →
  T.tun.client = true ∧ T.tun.state.up = true)
include hclient

theorem safe_receiveUntrusted (hat : AtRecord T h (ip6Src packet.ip6) o c) :
    T.Safe (receiveUntrusted key T.tun now packet o) c h := by
  unfold receiveUntrusted
  by_cases hpfx : in6TeredoPrefix (ip6Src packet.ip6) = in6TeredoPrefix T.tun.state.addr
  · rw [if_pos hpfx]
    unfold Terms.Safe
    rw [wp_bind, check_eq (unwritten_acceptsTeredo hat), wp_pure]
    split_ifs with hok hsome
    · exact safe_receiveTeredo htold hat
    · obtain ⟨t, rfl⟩ := Option.isSome_iff_exists.mp hsome
      obtain ⟨rfl, hk⟩ := hat
      exact ⟨hk, htold h⟩
    · obtain rfl : o = none := by simpa using hsome
      obtain rfl : c = .none := hat
      exact ⟨trivial, htold h⟩
  · rw [if_neg hpfx]
    exact safe_receiveOther htold (hclient hpfx).1 (hclient hpfx).2 hpfx hat

theorem safe_receiveListed (hk : T.Inv h (ip6Src packet.ip6) t) :
    T.Safe (receiveListed key T.tun now time packet) (.locked (ip6Src packet.ip6) t) h := by
  unfold Terms.Safe receiveListed
  simp only [wp_bind, wp_getPeer_locked]
  rw [check_eq (Tracked.unwritten_andThen (Tracked.unwritten_use hk.trusted) fun _ =>
    Tracked.unwritten_fromMapping hk.mappedAddr hk.mappedPort), wp_pure]
  split_ifs
  · rw [wp_bind]
    exact wp_teredoPredecap hk.trusted hk.isLocal hk.mappedAddr hk.mappedPort fun h t' hk' =>
      safe_lift (fun _ => trivial) ⟨hk', htold h⟩
  · simp only [wp_bind, wp_modifyPeer]
    refine wp_teredoPredecap ?_ ?_ ?_ ?_ fun h t' hk' => ⟨hk', htold h⟩
    · simp [Tracked.stores, Tracked.mapping]
    · simp [Tracked.stores, Tracked.mapping, hk.isLocal]
    · simp [Tracked.stores, Tracked.mapping]
    · simp [Tracked.stores, Tracked.mapping]
  · exact safe_receiveUntrusted htold hclient ⟨rfl, hk⟩

end

/-- Client case 4. A new record has no `pings`; it is not that of a peer that is pinged. -/
theorem safe_receiveDiscovered (htrusted : t.written .trusted = true)
    (hlocal : t.written .isLocal = true) (hbubbles : t.peer.isLocal = true →
      t.written .bubbles = true ∧ (t.peer.bubbles ≠ 0 → t.written .lastTx = true))
    (hpings : t.written .pings = true ∨ NotPinged T.tun k)
    (hlast : t.written .pings = true → t.peer.pings ≠ 0 → t.written .lastPing = true) :
    T.Safe (receiveDiscovered T.tun now packet) (.locked k t) h := by
  have hk : T.Inv h k ((t.stores ((if t.peer.isLocal then [] else [⟨.bubbles, 0⟩]) ++
      Tracked.mapping packet.sourceIpv4 packet.sourcePort ++ [⟨.isLocal, true⟩])).store .lastRx
        now) :=
    known_discovered htrusted hbubbles hpings hlast
  unfold Terms.Safe receiveDiscovered
  simp only [wp_bind]
  rw [wp_changePeer_locked (by simp [Tracked.unwritten_use hlocal])]
  simp only [wp_modifyPeer, wp_teredoListRelease]
  rw [wp_changePeer_stale (Tracked.unwritten_countBubble hk.bubbles hk.lastTx)]
  refine safe_lift ?_ ⟨Known.countBubble hk now, htold h⟩
  split_ifs
  · exact fun _ => trivial
  · trivial

omit htold in
theorem notPinged_of_discovers (hd : discovers T.tun packet = true) :
    NotPinged T.tun (ip6Src packet.ip6) := fun _ _ => prefix_of_discovers hd

theorem safe_receiveDiscovery_null (hd : discovers T.tun packet = true) :
    T.Safe (receiveDiscovery T.tun now packet .null) .none h := by
  unfold Terms.Safe receiveDiscovery
  simp only [wp_bind, wp_teredoListLookup]
  refine ⟨trivial, ⟨trivial, htold h⟩, fun t hk => ?_, fun _ junk => ?_⟩
  · simp only [wp_modifyPeer]
    refine safe_receiveDiscovered htold ?_ ?_ (fun hl => by cases hl)
      (Or.inr (notPinged_of_discovers hd)) fun hw hne => ?_
    · simp [Tracked.stores]
    · simp [Tracked.stores]
    · simp only [Tracked.stores, Tracked.written_store, foldl_cons, foldl_nil,
        reduceCtorEq, if_false] at hw ⊢
      exact hk.lastPing hw hne
  · simp only [wp_modifyPeer]
    refine safe_receiveDiscovered htold ?_ ?_ (fun hl => by cases hl)
      (Or.inr (notPinged_of_discovers hd)) fun hw _ => ?_
    · simp [Tracked.stores]
    · simp [Tracked.stores]
    · simp [Tracked.stores, Tracked.init] at hw

theorem safe_receive
    (hclient : in6TeredoPrefix (ip6Src packet.ip6) ≠ in6TeredoPrefix T.tun.state.addr →
      T.tun.client = true ∧ T.tun.state.up = true) :
    T.Safe (receive key T.tun now time packet) .none h := by
  have hdone : T.Done .none h := ⟨trivial, htold h⟩
  unfold Terms.Safe receive
  simp only [wp_bind, wp_teredoListLookup]
  refine ⟨trivial, ?_, fun t hk => ?_, fun hc => by cases hc⟩
  · split_ifs with hd hm
    · exact safe_receiveDiscovery_null htold hd
    · exact hdone
    · exact safe_receiveUntrusted htold hclient rfl
  · simp only [reduceCtorEq, if_false]
    split_ifs with hd hm
    · exact safe_receiveDiscovered htold hk.trusted hk.isLocal (fun _ => ⟨hk.bubbles, hk.lastTx⟩)
        hk.pings hk.lastPing
    · exact ⟨hk, htold h⟩
    · exact safe_receiveListed htold hclient hk

/-- **Receiving.** -/
theorem safe_teredoRunInner : T.Safe (teredoRunInner key T.tun now time packet) .none h := by
  have hdone : T.Done .none h := ⟨trivial, htold h⟩
  unfold teredoRunInner
  by_cases hwf : packet.WellFormed
  swap
  · rw [if_pos hwf]
    exact hdone
  rw [if_neg (not_not.mpr hwf)]
  by_cases hclient : T.tun.client = true
  · rw [if_pos hclient]
    by_cases hmaint : packet.ForMaintenance
    · rw [if_pos hmaint]
      exact safe_lift (fun _ => trivial) hdone
    rw [if_neg hmaint]
    by_cases hup : T.tun.state.up = true
    swap
    · rw [if_pos hup]
      exact hdone
    rw [if_neg (not_not.mpr hup)]
    refine wp_bind.mpr (wp_lift (R := fun _ => True) callsOnly_fromServer
      (fun _ _ _ => trivial) (fun bubble h _ => ?_) trivial)
    split_ifs
    · exact ⟨trivial, htold h⟩
    · exact safe_receive htold fun _ => ⟨hclient, hup⟩
  · rw [if_neg hclient]
    by_cases hpfx : in6TeredoPrefix (ip6Src packet.ip6) = in6TeredoPrefix T.tun.state.addr
    · rw [if_neg (not_not.mpr hpfx)]
      exact safe_receive htold fun hne => absurd hpfx hne
    · rw [if_pos hpfx]
      exact hdone

end Receive

end Fields

end Maiccu.Teredo
