import Maiccu.Lib.Limiter
import Maiccu.Teredo.Peer

/-!
# How often a peer is pinged

`CountPing` and `CountBubble` decide from a counter of three bits and one time whether a ping or a
bubble may be sent. After four pings none is allowed until something is received; the counter of the
bubbles starts again after 300 seconds without a transmission.
-/

namespace Maiccu.Teredo

open Maiccu.Lib

def pingLimits : Limits := ⟨4, 2, none, by decide, by simp⟩

def bubbleLimits : Limits := ⟨4, 2, some 300, by decide, by simp⟩

/-! ## The limiters of a peer -/

section Counter

variable {c : Fin 8}

theorem counter_zero_iff : c.val = 0 ↔ c = 0 := by rw [Fin.ext_iff]; rfl

theorem four_le_counter_iff : 4 ≤ c.val ↔ 4 ≤ c := Iff.rfl

theorem counter_succ (h : c.val < 4) : (c + 1).val = c.val + 1 := by
  rw [Fin.val_add, Fin.val_one, Nat.mod_eq_of_lt (by omega)]

end Counter

namespace Peer

variable (p : Peer) (now : UInt64)

/-- The fields of `CountPing`. -/
def pingLimiter : Limiter := ⟨p.pings, p.lastPing⟩

/-- The fields of `CountBubble`. -/
def bubbleLimiter : Limiter := ⟨p.bubbles, p.lastTx⟩

variable {p now}

theorem grant_pingLimiter : p.pingLimiter.grant pingLimits now =
    if p.pingResult now = .send then some p.pings.val else none := by
  have hgap : (now - p.lastPing).toNat ≤ 2 ↔ now - p.lastPing ≤ 2 := by
    rfl
  unfold Limiter.grant pingResult
  simp only [pingLimiter, pingLimits, counter_zero_iff, four_le_counter_iff, hgap]
  split_ifs <;> simp_all

theorem grant_bubbleLimiter : p.bubbleLimiter.grant bubbleLimits now =
    if (p.bubbleResult now).1 = .send then some (p.bubbleResult now).2.val else none := by
  have hgap : (now - p.lastTx).toNat ≤ 2 ↔ now - p.lastTx ≤ 2 := by
    rfl
  have hperiod : (now - p.lastTx).toNat ≤ 300 ↔ now - p.lastTx ≤ 300 := by
    rfl
  have hpos : 0 < p.bubbles ↔ ¬ p.bubbles = 0 := Fin.pos_iff_ne_zero
  unfold Limiter.grant bubbleResult
  simp only [bubbleLimiter, bubbleLimits, counter_zero_iff, four_le_counter_iff, hgap,
    hperiod, hpos]
  split_ifs <;> simp_all

theorem pings_of_send (h : p.pingResult now = .send) : (p.pings + 1).val = p.pings.val + 1 := by
  have hgrant : p.pingLimiter.grant pingLimits now = some p.pings.val := by
    rw [grant_pingLimiter, if_pos h]
  exact counter_succ (Limiter.lt_max_of_grant hgrant)

theorem bubbles_of_send (h : (p.bubbleResult now).1 = .send) :
    ((p.bubbleResult now).2 + 1).val = (p.bubbleResult now).2.val + 1 := by
  have hgrant : p.bubbleLimiter.grant bubbleLimits now = some (p.bubbleResult now).2.val := by
    rw [grant_bubbleLimiter, if_pos h]
  exact counter_succ (Limiter.lt_max_of_grant hgrant)

theorem countPing_fst : (p.countPing now).1 = p.pingResult now := by
  unfold countPing
  dsimp only
  split_ifs <;> rfl

theorem countBubble_fst : (p.countBubble now).1 = (p.bubbleResult now).1 := by
  unfold countBubble
  dsimp only
  split_ifs <;> rfl

theorem limiters_countPing :
    (p.countPing now).2.pingLimiter = p.pingLimiter.step pingLimits (.ask now) ∧
      (p.countPing now).2.bubbleLimiter = p.bubbleLimiter := by
  have hgrant : p.pingLimiter.grant pingLimits now = _ := grant_pingLimiter
  unfold countPing
  dsimp only
  split_ifs at hgrant ⊢ with h
  · refine ⟨?_, rfl⟩
    rw [Limiter.step_ask_some hgrant]
    exact congrArg (Limiter.mk · now) (pings_of_send h)
  · exact ⟨(Limiter.step_ask_none hgrant).symm, rfl⟩

theorem limiters_countBubble :
    (p.countBubble now).2.bubbleLimiter = p.bubbleLimiter.step bubbleLimits (.ask now) ∧
      (p.countBubble now).2.pingLimiter = p.pingLimiter := by
  have hgrant : p.bubbleLimiter.grant bubbleLimits now = _ := grant_bubbleLimiter
  unfold countBubble
  dsimp only
  split_ifs at hgrant ⊢ with h
  · refine ⟨?_, rfl⟩
    rw [Limiter.step_ask_some hgrant]
    exact congrArg (Limiter.mk · now) (bubbles_of_send h)
  · exact ⟨(Limiter.step_ask_none hgrant).symm, rfl⟩

end Peer

/-! ## Sequences of calls -/

inductive PeerCall where
  | countPing (now : UInt64)
  | countBubble (now : UInt64)
  | touchTransmit (now : UInt64)
  | enqueueIn (data : List UInt8) (ip : Ipv4) (port : Port)
  | enqueueOut (data : List UInt8)
  | queueYield
  | setMapping (ip : Ipv4) (port : Port)

namespace PeerCall

def clock : PeerCall → Option UInt64
  | .countPing now | .countBubble now | .touchTransmit now => some now
  | _ => none

def run (p : Peer) : PeerCall → Peer
  | .countPing now => (p.countPing now).2
  | .countBubble now => (p.countBubble now).2
  | .touchTransmit now => p.touchTransmit now
  | .enqueueIn data ip port => p.enqueueIn data ip port
  | .enqueueOut data => p.enqueueOut data
  | .queueYield => p.queueYield.2
  | .setMapping ip port => p.setMapping ip port

def ping (p : Peer) : PeerCall → List UInt64
  | .countPing now => if (p.countPing now).1 = .send then [now] else []
  | _ => []

def bubble (p : Peer) : PeerCall → List UInt64
  | .countBubble now => if (p.countBubble now).1 = .send then [now] else []
  | _ => []

def toPing : PeerCall → Option LimiterCall
  | .countPing now => some (.ask now)
  | _ => none

def toBubble : PeerCall → Option LimiterCall
  | .countBubble now => some (.ask now)
  | .touchTransmit now => some (.touch now)
  | _ => none

end PeerCall

def pingTimes : Peer → List PeerCall → List UInt64 := along PeerCall.ping PeerCall.run

def bubbleTimes : Peer → List PeerCall → List UInt64 := along PeerCall.bubble PeerCall.run

section Calls

variable {p : Peer} {cs : List PeerCall}

theorem limiters_enqueue {data : List UInt8} {ip : Ipv4} {port : Port} {incoming : Bool} :
    (p.enqueue data ip port incoming).pingLimiter = p.pingLimiter ∧
      (p.enqueue data ip port incoming).bubbleLimiter = p.bubbleLimiter := by
  unfold Peer.enqueue
  split_ifs
  · exact ⟨rfl, rfl⟩
  · exact ⟨rfl, rfl⟩

theorem viewed_pingLimiter :
    Limiter.Viewed pingLimits PeerCall.ping PeerCall.run Peer.pingLimiter PeerCall.toPing where
  other p c hc := by
    cases c with
    | countPing now => cases hc
    | countBubble now => exact ⟨rfl, Peer.limiters_countBubble.2⟩
    | enqueueIn data ip port | enqueueOut data => exact ⟨rfl, limiters_enqueue.1⟩
    | _ => exact ⟨rfl, rfl⟩
  call p c k hc := by
    cases c with
    | countPing now =>
      cases hc
      refine ⟨?_, Peer.limiters_countPing.1⟩
      rw [PeerCall.ping, Limiter.grantedAt, Peer.countPing_fst, Peer.grant_pingLimiter]
      split_ifs <;> simp_all
    | _ => cases hc

theorem viewed_bubbleLimiter :
    Limiter.Viewed bubbleLimits PeerCall.bubble PeerCall.run Peer.bubbleLimiter
      PeerCall.toBubble where
  other p c hc := by
    cases c with
    | countBubble now | touchTransmit now => cases hc
    | countPing now => exact ⟨rfl, Peer.limiters_countPing.2⟩
    | enqueueIn data ip port | enqueueOut data => exact ⟨rfl, limiters_enqueue.2⟩
    | _ => exact ⟨rfl, rfl⟩
  call p c k hc := by
    cases c with
    | countBubble now =>
      cases hc
      refine ⟨?_, Peer.limiters_countBubble.1⟩
      rw [PeerCall.bubble, Limiter.grantedAt, Peer.countBubble_fst, Peer.grant_bubbleLimiter]
      split_ifs <;> simp_all
    | touchTransmit now =>
      cases hc
      exact ⟨rfl, rfl⟩
    | _ => cases hc

theorem ordered_of_clock {toCall : PeerCall → Option LimiterCall}
    (hclock : (cs.filterMap PeerCall.clock).Pairwise (· ≤ ·))
    (hnow : ∀ c k, toCall c = some k → c.clock = some k.now) :
    Limiter.Ordered (cs.filterMap toCall) := by
  rw [List.pairwise_filterMap] at hclock
  unfold Limiter.Ordered
  rw [List.pairwise_filterMap]
  refine hclock.imp fun h k hk k' hk' => ?_
  exact h k.now (hnow _ k hk) k'.now (hnow _ k' hk')

end Calls

/-- **Pings and bubbles.** With a clock that does not go back, at most four pings and four bubbles
are allowed in 300 seconds, each at least 3 seconds after the one before. No call makes a counter
wrap. -/
theorem counters_limit (p : Peer) (cs : List PeerCall)
    (hclock : (cs.filterMap PeerCall.clock).Pairwise (· ≤ ·)) :
    (∀ t, Limiter.inWindow t 300 (pingTimes p cs) ≤ 4) ∧
    (∀ t, Limiter.inWindow t 300 (bubbleTimes p cs) ≤ 4) ∧
    ((pingTimes p cs).Pairwise fun a b => a.toNat + 3 ≤ b.toNat) ∧
    ((bubbleTimes p cs).Pairwise fun a b => a.toNat + 3 ≤ b.toNat) ∧
    ∀ (q : Peer) (now : UInt64),
      ((q.countPing now).1 = .send → (q.countPing now).2.pings.val = q.pings.val + 1) ∧
      ((q.countBubble now).1 = .send →
        (q.countBubble now).2.bubbles.val = (q.bubbleResult now).2.val + 1) := by
  have hping : Limiter.Ordered (cs.filterMap PeerCall.toPing) := by
    refine ordered_of_clock hclock fun c k hk => ?_
    cases c <;> cases hk
    rfl
  have hbubble : Limiter.Ordered (cs.filterMap PeerCall.toBubble) := by
    refine ordered_of_clock hclock fun c k hk => ?_
    cases c <;> cases hk
    · rfl
    · rfl
  have heq : pingTimes p cs = _ := viewed_pingLimiter.along_eq
  have heq' : bubbleTimes p cs = _ := viewed_bubbleLimiter.along_eq
  rw [heq, heq']
  refine ⟨fun t => ?_, fun t => ?_, ?_, ?_, fun q now => ⟨fun h => ?_, fun h => ?_⟩⟩
  · exact (Limiter.inWindow_granted_le (by simp [pingLimits]) hping).1
  · exact (Limiter.inWindow_granted_le (by simp [bubbleLimits]) hbubble).1
  · exact @Limiter.granted_spaced pingLimits _ _ hping
  · exact @Limiter.granted_spaced bubbleLimits _ _ hbubble
  · rw [Peer.countPing_fst] at h
    unfold Peer.countPing
    rw [if_pos h]
    exact Peer.pings_of_send h
  · rw [Peer.countBubble_fst] at h
    unfold Peer.countBubble
    rw [if_pos h]
    exact Peer.bubbles_of_send h

def bubbleCalls : List PeerCall :=
  [.countBubble 10, .countBubble 13, .countBubble 16, .countBubble 19, .countBubble 22,
    .countBubble 320]

theorem bubbleCalls_limited :
    bubbleTimes ⟨[], 1280, 0, 0, 0, anyIpv4, anyPort, false, false, 0, 0⟩ bubbleCalls =
      [10, 13, 16, 19, 320] ∧
    ∀ t, Limiter.inWindow t 300
      (bubbleTimes ⟨[], 1280, 0, 0, 0, anyIpv4, anyPort, false, false, 0, 0⟩ bubbleCalls) ≤ 4 :=
  ⟨by decide, (counters_limit _ bubbleCalls (by decide)).2.1⟩

end Maiccu.Teredo
