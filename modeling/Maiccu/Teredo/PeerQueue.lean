import Maiccu.Lib.Custody
import Maiccu.Teredo.Relay

/-!
# The packets that wait for a peer

Packets are queued for a peer until its mapping is known. The queue is then detached under the lock,
and emitted after the lock was given back; meanwhile packets may be queued again, and the peer may
be destroyed. Several detached queues may wait, in any order.
-/

namespace Maiccu.Teredo

open Maiccu.Lib PeerProg Option List

/-! ## Emission -/

/-- What `teredo_queue_emit` does with a packet for the mapping `m`. -/
def Queued.emit (m : Ipv4 × Port) (q : Queued) : List RelayCall :=
  if q.incoming then if m = (q.ipv4, q.port) then [.recvCb q.data q.ipv4 q.port] else []
  else [.send q.data m.1 m.2]

def callAll : List RelayCall → RelayProg Unit
  | [] => pure ()
  | c :: cs => .call c fun _ => callAll cs

theorem callAll_bind (cs cs' : List RelayCall) :
    (callAll cs).bind (fun _ => callAll cs') = callAll (cs ++ cs') := by
  induction cs with
  | nil => rfl
  | cons c cs ih =>
    exact congrArg _ (funext fun _ => ih)

theorem emitOne_eq (q : Queued) (ip : Ipv4) (port : Port) :
    emitOne q ip port = callAll (q.emit (ip, port)) := by
  unfold emitOne Queued.emit
  simp only [Prod.mk.injEq]
  split_ifs <;> rfl

theorem teredoQueueEmit_eq (qs : List Queued) (ip : Ipv4) (port : Port) :
    teredoQueueEmit qs ip port = callAll (qs.flatMap (Queued.emit (ip, port))) := by
  induction qs with
  | nil => rfl
  | cons q qs ih =>
    show (emitOne q ip port).bind (fun _ => teredoQueueEmit qs ip port) = _
    rw [ih, emitOne_eq, callAll_bind, flatMap_cons]

/-! ## The queue of a peer -/

/-- The peer, and the queues that were detached from it and not emitted yet. -/
structure PeerQueue where
  peer : Option Peer
  detached : List (List Queued)

inductive QueueOp where
  | enqueueIn (data : List UInt8) (ip : Ipv4) (port : Port)
  | enqueueOut (data : List UInt8)
  | yield
  /-- The `i`-th of the detached queues is emitted for a mapping. -/
  | emit (i : ℕ) (ip : Ipv4) (port : Port)
  | destroy

/-- An operation, the packets it put into the queue, and its calls. -/
structure QueueEvent where
  op : QueueOp
  accepted : List Queued
  calls : List RelayCall

variable (s : PeerQueue)

def PeerQueue.onPeer (f : Peer → Peer) : Option (List Queued × List RelayCall × PeerQueue) :=
  s.peer.map fun p =>
    -- what came in front of the queue that was there
    ((f p).queue.take ((f p).queue.length - p.queue.length), [], { s with peer := some (f p) })

def queueStep : QueueOp → Option (List Queued × List RelayCall × PeerQueue)
  | .enqueueIn data ip port => s.onPeer (·.enqueueIn data ip port)
  | .enqueueOut data => s.onPeer (·.enqueueOut data)
  | .yield => s.peer.map fun p =>
      ([], [], ⟨some p.queueYield.2, s.detached ++ [p.queueYield.1]⟩)
  | .emit i ip port => s.detached[i]?.map fun q =>
      ([], q.flatMap (Queued.emit (ip, port)), { s with detached := s.detached.eraseIdx i })
  | .destroy => s.peer.map fun _ => ([], [], { s with peer := none })

def QueueStep (e : QueueEvent) (s' : PeerQueue) : Prop :=
  queueStep s e.op = some (e.accepted, e.calls, s')

def QueueOp.offered : QueueOp → Option Queued
  | .enqueueIn data ip port => some ⟨data, ip, port, true⟩
  | .enqueueOut data => some ⟨data, anyIpv4, anyPort, false⟩
  | _ => none

def QueueOp.mapping : QueueOp → Option (Ipv4 × Port)
  | .emit _ ip port => some (ip, port)
  | _ => none

def PeerQueue.new (junk : Peer) : PeerQueue := ⟨some junk.init, []⟩

/-! ## The budget -/

def queuedBytes (qs : List Queued) : ℕ := (qs.map fun q => q.data.length).sum

def Peer.Budgeted (p : Peer) : Prop := p.queueLeft + queuedBytes p.queue = teredoMaxQueueBytes

variable {data : List UInt8} {p : Peer}

theorem Peer.enqueue_of_le (h : data.length ≤ p.queueLeft) (ip : Ipv4)
    (port : Port) (incoming : Bool) : p.enqueue data ip port incoming =
      { p with
        queue := ⟨data, ip, port, incoming⟩ :: p.queue
        queueLeft := p.queueLeft - data.length } :=
  if_neg (not_lt.mpr h)

theorem Peer.enqueue_of_lt (h : p.queueLeft < data.length) (ip : Ipv4)
    (port : Port) (incoming : Bool) : p.enqueue data ip port incoming = p :=
  if_pos h

theorem Peer.Budgeted.enqueue (h : p.Budgeted) (data : List UInt8) (ip : Ipv4) (port : Port)
    (incoming : Bool) : (p.enqueue data ip port incoming).Budgeted := by
  by_cases hfits : data.length ≤ p.queueLeft
  · rw [enqueue_of_le hfits]
    unfold Budgeted queuedBytes at h
    show p.queueLeft - data.length + (data.length + (p.queue.map fun q => q.data.length).sum) = _
    omega
  · rw [enqueue_of_lt (not_le.mp hfits)]
    exact h

variable {q : Queued}

theorem queueStep_offered {s : PeerQueue} {op : QueueOp} (hp : s.peer = some p)
    (hq : op.offered = some q) : queueStep s op =
      some (if q.data.length ≤ p.queueLeft then [q] else [], [],
        { s with peer := some (p.enqueue q.data q.ipv4 q.port q.incoming) }) := by
  have honPeer : s.onPeer (·.enqueue q.data q.ipv4 q.port q.incoming) =
      some (if q.data.length ≤ p.queueLeft then [q] else [], [],
        { s with peer := some (p.enqueue q.data q.ipv4 q.port q.incoming) }) := by
    unfold PeerQueue.onPeer
    rw [hp, map_some]
    split_ifs with hfits
    · simp [Peer.enqueue_of_le hfits]
    · simp [Peer.enqueue_of_lt (not_le.mp hfits)]
  cases op with
  | enqueueIn data ip port | enqueueOut data =>
    cases hq
    exact honPeer
  | _ => cases hq

/-! ## Custody -/

def acceptedPackets (es : List QueueEvent) : List (Queued × ℕ) :=
  (es.flatMap fun e => e.accepted).zipIdx

def emissions (es : List QueueEvent) : List ((Ipv4 × Port) × List RelayCall) :=
  es.filterMap fun e => e.op.mapping.map fun m => (m, e.calls)

/-- The custody `c` accounts for a run: each accepted packet is in one place of it, and an emission
made the calls for the packets of its batch, which no other operation makes. -/
structure Accounts (es : List QueueEvent) (s : PeerQueue) (c : Custody (Queued × ℕ)) : Prop where
  all : c.all.Perm (acceptedPackets es)
  queued : c.queued.map Prod.fst = (s.peer.map fun p => p.queue).getD []
  detached : c.detached.map (map Prod.fst) = s.detached
  emitted : Forall₂ (fun e batch => e.2 = batch.flatMap fun q => q.1.emit e.1) (emissions es)
    c.emitted
  silent : ∀ e ∈ es, e.op.mapping = none → e.calls = []

section Step

variable {es : List QueueEvent} {s' : PeerQueue} {s} {c : Custody (Queued × ℕ)} {e : QueueEvent}

theorem acceptedPackets_append_nil (h : e.accepted = []) :
    acceptedPackets (es ++ [e]) = acceptedPackets es := by
  unfold acceptedPackets
  rw [flatMap_append, flatMap_singleton, h, append_nil]

theorem acceptedPackets_append_one (h : e.accepted = [q]) :
    ∃ n, acceptedPackets (es ++ [e]) = acceptedPackets es ++ [(q, n)] := by
  unfold acceptedPackets
  rw [flatMap_append, flatMap_singleton, h, zipIdx_append]
  exact ⟨_, rfl⟩

theorem emissions_append_silent (h : e.op.mapping = none) :
    emissions (es ++ [e]) = emissions es := by
  unfold emissions
  simp [h]

theorem Accounts.emitted_silent (hc : Accounts es s c) (h : e.op.mapping = none) :
    Forall₂ (fun e batch => e.2 = batch.flatMap fun q => q.1.emit e.1) (emissions (es ++ [e]))
      c.emitted := by
  rw [emissions_append_silent h]
  exact hc.emitted

theorem emissions_append {m : Ipv4 × Port} (h : e.op.mapping = some m) :
    emissions (es ++ [e]) = emissions es ++ [(m, e.calls)] := by
  unfold emissions
  simp [h]

theorem silent_append (h : ∀ e ∈ es, e.op.mapping = none → e.calls = [])
    (he : e.op.mapping = none → e.calls = []) :
    ∀ e' ∈ es ++ [e], e'.op.mapping = none → e'.calls = [] := by
  intro e' he'
  rcases mem_append.mp he' with he' | he'
  · exact h e' he'
  · rw [mem_singleton.mp he']
    exact he

theorem queueStep_cases (h : QueueStep s e s') :
    (∃ p q, s.peer = some p ∧ e.op.offered = some q ∧ e.op.mapping = none ∧ e.calls = [] ∧
      e.accepted = (if q.data.length ≤ p.queueLeft then [q] else []) ∧
      s' = { s with peer := some (p.enqueue q.data q.ipv4 q.port q.incoming) }) ∨
    e.op.offered = none ∧ e.accepted = [] ∧
      ((∃ p, s.peer = some p ∧ e.op.mapping = none ∧ e.calls = [] ∧
        s' = ⟨some p.queueYield.2, s.detached ++ [p.queue]⟩) ∨
      (∃ i m q, s.detached[i]? = some q ∧ e.op.mapping = some m ∧
        e.calls = q.flatMap (Queued.emit m) ∧ s' = { s with detached := s.detached.eraseIdx i }) ∨
      (∃ p, s.peer = some p ∧ e.op.mapping = none ∧ e.calls = [] ∧
        s' = { s with peer := none })) := by
  obtain ⟨op, accepted, calls⟩ := e
  unfold QueueStep at h
  have hoffered : ∀ q, op.offered = some q → op.mapping = none → ∃ p, s.peer = some p ∧
      calls = [] ∧ accepted = (if q.data.length ≤ p.queueLeft then [q] else []) ∧
      s' = { s with peer := some (p.enqueue q.data q.ipv4 q.port q.incoming) } := by
    intro q hq _
    cases hp : s.peer with
    | none => cases op <;> simp [QueueOp.offered, queueStep, PeerQueue.onPeer, hp] at hq h
    | some p =>
      rw [queueStep_offered hp hq] at h
      simp only [Option.some.injEq, Prod.mk.injEq] at h
      exact ⟨p, rfl, h.2.1.symm, h.1.symm, h.2.2.symm⟩
  cases op with
  | enqueueIn data ip port | enqueueOut data =>
    obtain ⟨p, hp, hcalls, haccepted, hs'⟩ := hoffered _ rfl rfl
    exact Or.inl ⟨p, _, hp, rfl, rfl, hcalls, haccepted, hs'⟩
  | yield =>
    obtain ⟨p, hp, hs⟩ := map_eq_some_iff.mp h
    simp only [Prod.mk.injEq] at hs
    exact Or.inr ⟨rfl, hs.1.symm, Or.inl ⟨p, hp, rfl, hs.2.1.symm, hs.2.2.symm⟩⟩
  | emit i ip port =>
    obtain ⟨q, hq, hs⟩ := map_eq_some_iff.mp h
    simp only [Prod.mk.injEq] at hs
    exact Or.inr ⟨rfl, hs.1.symm, Or.inr (Or.inl ⟨i, _, q, hq, rfl, hs.2.1.symm, hs.2.2.symm⟩)⟩
  | destroy =>
    obtain ⟨p, hp, hs⟩ := map_eq_some_iff.mp h
    simp only [Prod.mk.injEq] at hs
    exact Or.inr ⟨rfl, hs.1.symm, Or.inr (Or.inr ⟨p, hp, rfl, hs.2.1.symm, hs.2.2.symm⟩)⟩

theorem budgeted_step (h : QueueStep s e s') (hs : ∀ p ∈ s.peer, p.Budgeted) :
    ∀ p ∈ s'.peer, p.Budgeted := by
  rcases queueStep_cases h with ⟨p, q, hp, -, -, -, -, rfl⟩ | ⟨-, -, ⟨p, hp, -, -, rfl⟩ |
    ⟨i, m, q, -, -, -, rfl⟩ | ⟨p, hp, -, -, rfl⟩⟩
  · rintro _ ⟨⟩
    exact (hs p hp).enqueue _ _ _ _
  · rintro _ ⟨⟩
    exact Nat.add_zero _
  · exact hs
  · rintro _ ⟨⟩

theorem Accounts.step (hc : Accounts es s c) (h : QueueStep s e s') :
    ∃ c', Accounts (es ++ [e]) s' c' := by
  rcases queueStep_cases h with ⟨p, q, hp, -, hmap, hcalls, haccepted, rfl⟩ |
    ⟨-, haccepted, ⟨p, hp, hmap, hcalls, rfl⟩ | ⟨i, m, q, hq, hmap, hcalls, rfl⟩ |
      ⟨p, hp, hmap, hcalls, rfl⟩⟩
  · have hqueue : c.queued.map Prod.fst = p.queue := by rw [hc.queued, hp]; rfl
    have hsilent := silent_append hc.silent fun _ => hcalls
    have hemitted := hc.emitted_silent hmap
    split_ifs at haccepted with hfits
    · obtain ⟨n, hn⟩ : ∃ n, acceptedPackets (es ++ [e]) = acceptedPackets es ++ [(q, n)] :=
        acceptedPackets_append_one haccepted
      refine ⟨c.accept (q, n), ?_, ?_, hc.detached, hemitted, hsilent⟩
      · rw [Custody.all_accept, hn]
        exact (hc.all.cons _).trans (perm_append_singleton _ _).symm
      · rw [Peer.enqueue_of_le hfits]
        exact congrArg (q :: ·) hqueue
    · refine ⟨c, ?_, ?_, hc.detached, hemitted, hsilent⟩
      · rw [acceptedPackets_append_nil haccepted]
        exact hc.all
      · rw [Peer.enqueue_of_lt (not_le.mp hfits)]
        exact hqueue
  · refine ⟨c.detach, ?_, rfl, ?_, hc.emitted_silent hmap, silent_append hc.silent fun _ => hcalls⟩
    · rw [acceptedPackets_append_nil haccepted]
      exact c.all_detach.trans hc.all
    · show (c.detached ++ [c.queued]).map (map Prod.fst) = s.detached ++ [p.queue]
      rw [map_append, hc.detached, map_singleton, hc.queued, hp]
      rfl
  · -- the batch is the detached queue with its numbers
    obtain ⟨batch, hbatch, hq'⟩ : ∃ batch, c.detached[i]? = some batch ∧
      batch.map Prod.fst = q := by
      rw [← hc.detached, getElem?_map] at hq
      exact map_eq_some_iff.mp hq
    refine ⟨c.emit i batch, ?_, hc.queued, ?_, ?_, ?_⟩
    · rw [acceptedPackets_append_nil haccepted]
      exact (Custody.all_emit hbatch).trans hc.all
    · show (c.detached.eraseIdx i).map (map Prod.fst) = s.detached.eraseIdx i
      rw [← hc.detached, eraseIdx_map]
    · rw [emissions_append hmap]
      refine rel_append hc.emitted (.cons ?_ .nil)
      rw [hcalls, ← hq', flatMap_map]
    · exact silent_append hc.silent fun hnone => by rw [hmap] at hnone; cases hnone
  · refine ⟨c.free, ?_, rfl, hc.detached, hc.emitted_silent hmap, silent_append hc.silent fun _ =>
      hcalls⟩
    rw [acceptedPackets_append_nil haccepted]
    exact c.all_free.trans hc.all

theorem accounts_new {junk : Peer} : Accounts [] (PeerQueue.new junk) ⟨[], [], [], []⟩ :=
  ⟨List.Perm.refl _, rfl, rfl, .nil, by simp⟩

end Step

/-- **The queue of a peer.** What is left of the budget and the bytes in the queue make 1280, a
packet is accepted just if it fits, and a custody accounts for the packets accepted. When the peer
is gone and nothing is detached, each of them was in one emission or was freed. -/
theorem queue_accounted (junk : Peer) (es : List QueueEvent) (s : PeerQueue)
    (hrun : Run QueueStep (PeerQueue.new junk) es s) :
    (∀ p, s.peer = some p → p.queueLeft + queuedBytes p.queue = 1280 ∧
      ∀ e s' q, QueueStep s e s' → e.op.offered = some q →
        e.accepted = if q.data.length ≤ p.queueLeft then [q] else []) ∧
    (∀ e s', QueueStep s e s' → e.op.offered = none → e.accepted = []) ∧
    ∃ c, Accounts es s c ∧ c.all.Nodup ∧ (s.peer = none → s.detached = [] →
        (c.emitted.flatten ++ c.freed).Perm (acceptedPackets es)) := by
  obtain ⟨hbudget, c, hc⟩ := hrun.induct
    (p := fun es s => (∀ p ∈ s.peer, p.Budgeted) ∧ ∃ c, Accounts es s c)
    ⟨by rintro _ ⟨⟩; rfl, _, accounts_new⟩
    fun es s e s' _ ih hstep => ⟨budgeted_step hstep ih.1, ih.2.elim fun c hc => hc.step hstep⟩
  refine ⟨fun p hp => ⟨hbudget p hp, fun e s' q hstep hq => ?_⟩, fun e s' hstep hq =>
    ?_, c, hc, ?_, ?_⟩
  · rcases queueStep_cases hstep with ⟨p', q', hp', hq', -, -, haccepted, -⟩ | ⟨hnone, -⟩
    · cases hp.symm.trans hp'
      cases hq.symm.trans hq'
      exact haccepted
    · cases hq.symm.trans hnone
  · rcases queueStep_cases hstep with ⟨p', q', -, hq', -⟩ | ⟨-, haccepted, -⟩
    · cases hq.symm.trans hq'
    · exact haccepted
  · refine hc.all.nodup_iff.mpr (List.Nodup.of_map Prod.snd ?_)
    unfold acceptedPackets
    rw [zipIdx_map_snd]
    exact nodup_range'
  · intro hpeer hdetached
    have hall := hc.all
    have hqueued := hc.queued
    have hdet := hc.detached
    rw [hpeer] at hqueued
    rw [hdetached] at hdet
    unfold Custody.all at hall
    rw [map_eq_nil_iff.mp hqueued, map_eq_nil_iff.mp hdet] at hall
    exact hall

def unwrittenPeer : Peer := ⟨[], 0, 0, 0, 0, anyIpv4, anyPort, true, true, 7, 7⟩

/-- Two packets are queued, and emitted after a third one was queued. That one is freed. -/
def emissionRun : List QueueEvent :=
  [⟨.enqueueOut [1], [⟨[1], anyIpv4, anyPort, false⟩], []⟩,
   ⟨.enqueueIn [2] anyIpv4 anyPort, [⟨[2], anyIpv4, anyPort, true⟩], []⟩,
   ⟨.yield, [], []⟩,
   ⟨.enqueueOut [3], [⟨[3], anyIpv4, anyPort, false⟩], []⟩,
   ⟨.emit 0 anyIpv4 anyPort, [], [.recvCb [2] anyIpv4 anyPort, .send [1] anyIpv4 anyPort]⟩,
   ⟨.destroy, [], []⟩]

theorem emissionRun_accounted : Run QueueStep (PeerQueue.new unwrittenPeer) emissionRun ⟨none, []⟩ ∧
      ∃ c, Accounts emissionRun ⟨none, []⟩ c ∧
        (c.emitted.flatten ++ c.freed).Perm (acceptedPackets emissionRun) := by
  have h₀ : QueueStep (PeerQueue.new unwrittenPeer) emissionRun[0] _ := rfl
  have h₁ := (Run.start.next h₀).next (e := emissionRun[1]) rfl
  have h₂ := (h₁.next (e := emissionRun[2]) rfl).next (e := emissionRun[3]) rfl
  have hrun : Run QueueStep (PeerQueue.new unwrittenPeer) emissionRun ⟨none, []⟩ :=
    (h₂.next (e := emissionRun[4]) rfl).next rfl
  obtain ⟨-, -, c, hc, -, hdone⟩ := queue_accounted unwrittenPeer emissionRun ⟨none, []⟩ hrun
  exact ⟨hrun, c, hc, hdone rfl rfl⟩

end Maiccu.Teredo
