import Maiccu.Teredo.PeerFields
import Maiccu.Teredo.Relay

/-!
# Which fields of a record are written

`Known` says which fields of a record in the list were written, and on which others nothing depends
yet. A record that `teredo_transmit` has made has no `last_rx` until a packet comes in; one that a
discovery bubble has made has no `pings`, and only peers without a Teredo address are pinged.
-/

namespace Maiccu.Teredo

open List

/-- The peer `k` is not pinged, as long as the client is in this state. -/
def NotPinged (tun : Tunnel) (k : In6Addr) : Prop :=
  tun.client = true → tun.state.up = true → in6TeredoPrefix k = in6TeredoPrefix tun.state.addr

/-- What is known of the record of `k`. It may be without `last_rx` only if `late`. -/
structure Known (tun : Tunnel) (late : Prop) (k : In6Addr) (t : Tracked) : Prop where
  trusted : t.written .trusted = true
  isLocal : t.written .isLocal = true
  mappedAddr : t.written .mappedAddr = true
  mappedPort : t.written .mappedPort = true
  bubbles : t.written .bubbles = true
  heard : t.peer.trusted = true ∨ t.peer.isLocal = true → t.written .lastRx = true
  lastRx : t.written .lastRx = true ∨ late
  lastTx : t.peer.bubbles ≠ 0 → t.written .lastTx = true
  pings : t.written .pings = true ∨ NotPinged tun k
  lastPing : t.written .pings = true → t.peer.pings ≠ 0 → t.written .lastPing = true

namespace Tracked

variable (t : Tracked) (now : UInt64)

@[simp] theorem written_store (f g : Field) (v : f.Val) :
    (t.store f v).written g = if g = f then true else t.written g := by
  exact Function.update_apply _ _ _ _

theorem countPing_cases : (t.countPing now).val.2 = t ∨
    (t.countPing now).val.2 = t.stores [⟨.lastPing, now⟩, ⟨.pings, t.peer.pings + 1⟩] := by
  unfold countPing
  rw [Uses.val_bind, Uses.val_ite]
  split_ifs
  · exact Or.inr rfl
  · exact Or.inl rfl

theorem countBubble_cases : (t.countBubble now).val.2 = t ∨
    ∃ n, (t.countBubble now).val.2 = t.stores [⟨.lastTx, now⟩, ⟨.bubbles, n⟩] := by
  unfold countBubble
  rw [Uses.val_bind, Uses.val_pure]
  split_ifs
  · exact Or.inr ⟨_, rfl⟩
  · exact Or.inl rfl

end Tracked

theorem Peer.get_enqueue (p : Peer) (data : List UInt8) (ip : Ipv4) (port : Port) (incoming : Bool)
    (f : Field) : (p.enqueue data ip port incoming).get f = p.get f := by
  unfold Peer.enqueue
  split_ifs
  · rfl
  · cases f <;> rfl

theorem Peer.set_keeps (p : Peer) {f : Field} (v : f.Val)
    (hf : f ∉ [.trusted, .isLocal, .bubbles, .pings]) :
    (p.set f v).trusted = p.trusted ∧ (p.set f v).isLocal = p.isLocal ∧
      (p.set f v).bubbles = p.bubbles ∧ (p.set f v).pings = p.pings := by
  cases f with
  | lastRx | lastTx | lastPing | mappedAddr | mappedPort => exact ⟨rfl, rfl, rfl, rfl⟩
  | trusted | isLocal | bubbles | pings => exact nomatch hf

section Known

variable {tun : Tunnel} {late : Prop} {k : In6Addr} {t : Tracked} {now : UInt64}

theorem Known.onQueue (hk : Known tun late k t) {g : Peer → Peer}
    (hg : ∀ f, (g t.peer).get f = t.peer.get f) : Known tun late k (t.onQueue g) := by
  have htrusted : (g t.peer).trusted = t.peer.trusted := hg .trusted
  have hlocal : (g t.peer).isLocal = t.peer.isLocal := hg .isLocal
  have hbubbles : (g t.peer).bubbles = t.peer.bubbles := hg .bubbles
  have hpings : (g t.peer).pings = t.peer.pings := hg .pings
  refine ⟨hk.trusted, hk.isLocal, hk.mappedAddr, hk.mappedPort, hk.bubbles, ?_, hk.lastRx, ?_,
    hk.pings, ?_⟩
  · show (g t.peer).trusted = true ∨ (g t.peer).isLocal = true → _
    rw [htrusted, hlocal]
    exact hk.heard
  · show (g t.peer).bubbles ≠ 0 → _
    rw [hbubbles]
    exact hk.lastTx
  · show _ → (g t.peer).pings ≠ 0 → _
    rw [hpings]
    exact hk.lastPing

theorem Known.enqueueOut (hk : Known tun late k t) (packet : List UInt8) :
    Known tun late k (t.onQueue (·.enqueueOut packet)) :=
  hk.onQueue fun f => Peer.get_enqueue _ _ _ _ _ f

variable {f : Field} {ip : Ipv4} {port : Port}

section

variable (hk : Known tun late k t)
include hk

theorem Known.store (v : f.Val)
    (hrx : (t.peer.set f v).trusted = true ∨ (t.peer.set f v).isLocal = true →
      (t.store f v).written .lastRx = true)
    (htx : (t.peer.set f v).bubbles ≠ 0 → (t.store f v).written .lastTx = true)
    (hping : (t.peer.set f v).pings ≠ 0 → (t.store f v).written .pings = true →
      (t.store f v).written .lastPing = true) :
    Known tun late k (t.store f v) where
  trusted := by simp [hk.trusted]
  isLocal := by simp [hk.isLocal]
  mappedAddr := by simp [hk.mappedAddr]
  mappedPort := by simp [hk.mappedPort]
  bubbles := by simp [hk.bubbles]
  heard := hrx
  lastRx := hk.lastRx.imp_left fun h => by simp [h]
  lastTx := htx
  pings := hk.pings.imp_left fun h => by simp [h]
  lastPing hpings hne := hping hne hpings

theorem Known.touch (v : f.Val)
    (hf : f ∉ [.trusted, .isLocal, .bubbles, .pings]) : Known tun late k (t.store f v) := by
  obtain ⟨htrusted, hlocal, hbubbles, hpings⟩ := t.peer.set_keeps v hf
  refine hk.store v ?_ ?_ ?_
  · rw [htrusted, hlocal]
    exact fun h => by simp [hk.heard h]
  · rw [hbubbles]
    exact fun h => by simp [hk.lastTx h]
  · rw [hpings]
    intro hne hw
    have hw' : t.written .pings = true := by
      rw [Tracked.written_store, if_neg] at hw
      · exact hw
      · rintro rfl
        exact hf (by decide)
    simp [hk.lastPing hw' hne]

theorem Known.countPing (now : UInt64) : Known tun late k (t.countPing now).val.2 := by
  rcases t.countPing_cases now with heq | heq
  · rwa [heq]
  · rw [heq]
    have hk' : Known tun late k (t.store .lastPing now) := hk.touch _ (by decide)
    exact hk'.store (f := .pings) _ (fun h => by simpa using hk'.heard h)
      (fun h => by simpa using hk'.lastTx h) fun _ _ => by simp

theorem Known.countBubble (now : UInt64) : Known tun late k (t.countBubble now).val.2 := by
  rcases t.countBubble_cases now with heq | ⟨n, heq⟩
  · rwa [heq]
  · rw [heq]
    have hk' : Known tun late k (t.store .lastTx now) := hk.touch _ (by decide)
    exact hk'.store (f := .bubbles) _ (fun h => by simpa using hk'.heard h) (fun _ => by simp)
      fun hne hw => by simpa using hk'.lastPing (by simpa using hw) hne

end

theorem known_received (htrusted : t.written .trusted = true) (hlocal : t.written .isLocal = true)
    (haddr : t.written .mappedAddr = true) (hport : t.written .mappedPort = true) :
    Known tun late k (t.stores [⟨.lastRx, now⟩, ⟨.pings, 0⟩, ⟨.bubbles, 0⟩]) where
  trusted := by simp [Tracked.stores, htrusted]
  isLocal := by simp [Tracked.stores, hlocal]
  mappedAddr := by simp [Tracked.stores, haddr]
  mappedPort := by simp [Tracked.stores, hport]
  bubbles := by simp [Tracked.stores]
  heard _ := by simp [Tracked.stores]
  lastRx := Or.inl (by simp [Tracked.stores])
  lastTx h := absurd rfl h
  pings := Or.inl (by simp [Tracked.stores])
  lastPing _ h := absurd rfl h

structure Begun (t : Tracked) : Prop where
  written : ∀ f ∈ [Field.trusted, .isLocal, .bubbles, .pings], t.written f = true
  untrusted : t.peer.trusted = false
  notLocal : t.peer.isLocal = false
  noBubbles : t.peer.bubbles = 0
  noPings : t.peer.pings = 0

theorem Begun.touch (hb : Begun t) (v : f.Val) (hf : f ∉ [.trusted, .isLocal, .bubbles, .pings]) :
    Begun (t.store f v) := by
  obtain ⟨htrusted, hlocal, hbubbles, hpings⟩ := t.peer.set_keeps v hf
  exact ⟨fun g hg => by simp [hb.written g hg], htrusted.trans hb.untrusted,
    hlocal.trans hb.notLocal, hbubbles.trans hb.noBubbles, hpings.trans hb.noPings⟩

theorem Begun.known (hb : Begun t) (hlate : late) (haddr : t.written .mappedAddr = true)
    (hport : t.written .mappedPort = true) : Known tun late k t where
  trusted := hb.written _ (by decide)
  isLocal := hb.written _ (by decide)
  mappedAddr := haddr
  mappedPort := hport
  bubbles := hb.written _ (by decide)
  heard h := by simp [hb.untrusted, hb.notLocal] at h
  lastRx := Or.inr hlate
  lastTx h := absurd hb.noBubbles h
  pings := Or.inl (hb.written _ (by decide))
  lastPing _ h := absurd hb.noPings h

theorem known_located (htrusted : t.written .trusted = true) (hbubbles : t.written .bubbles = true)
    (htx : t.peer.bubbles ≠ 0 → t.written .lastTx = true)
    (hpings : t.written .pings = true ∨ NotPinged tun k)
    (hlast : t.written .pings = true → t.peer.pings ≠ 0 → t.written .lastPing = true) :
    Known tun late k ((t.stores (Tracked.mapping ip port ++ [⟨.isLocal, true⟩])).store .lastRx
      now) where
  trusted := by simp [Tracked.stores, Tracked.mapping, htrusted]
  isLocal := by simp [Tracked.stores, Tracked.mapping]
  mappedAddr := by simp [Tracked.stores, Tracked.mapping]
  mappedPort := by simp [Tracked.stores, Tracked.mapping]
  bubbles := by simp [Tracked.stores, Tracked.mapping, hbubbles]
  heard _ := by simp
  lastRx := Or.inl (by simp)
  lastTx hne := by simpa [Tracked.stores, Tracked.mapping] using htx hne
  pings := hpings.imp_left fun hw => by simpa [Tracked.stores, Tracked.mapping] using hw
  lastPing hw hne := by
    simp only [Tracked.stores, Tracked.mapping, Tracked.written_store, foldl_cons,
      foldl_nil, cons_append, nil_append, reduceCtorEq, if_false] at hw ⊢
    exact hlast hw hne

/-- The record for a discovery bubble: bubbles sent to a peer that was not local do not count. -/
theorem known_discovered (htrusted : t.written .trusted = true)
    (hbubbles : t.peer.isLocal = true → t.written .bubbles = true ∧
      (t.peer.bubbles ≠ 0 → t.written .lastTx = true))
    (hpings : t.written .pings = true ∨ NotPinged tun k)
    (hlast : t.written .pings = true → t.peer.pings ≠ 0 → t.written .lastPing = true) :
    Known tun late k ((t.stores ((if t.peer.isLocal then [] else [⟨.bubbles, 0⟩]) ++
      Tracked.mapping ip port ++ [⟨.isLocal, true⟩])).store .lastRx now) := by
  cases hlocal : t.peer.isLocal with
  | true =>
    obtain ⟨hwritten, htx⟩ := hbubbles hlocal
    exact known_located htrusted hwritten htx hpings hlast
  | false =>
    have hkeep : ∀ f, f ≠ .bubbles → (t.store .bubbles 0).written f = t.written f := by
      intro f hf
      rw [Tracked.written_store, if_neg hf]
    refine known_located (t := t.store .bubbles 0) ?_ (by simp) (fun hne => absurd rfl hne) ?_ ?_
    · rwa [hkeep _ (by decide)]
    · rwa [hkeep _ (by decide)]
    · rwa [hkeep _ (by decide), hkeep _ (by decide)]

theorem Known.imp {late' : Prop} (hk : Known tun late k t) (h : late → late') :
    Known tun late' k t :=
  { hk with lastRx := hk.lastRx.imp_right h }

end Known

end Maiccu.Teredo
