import Maiccu.Gogoc.EchoRuns
import Maiccu.Lib.Reads

/-!
# Events and replies of the echo engine

What the list of events is after any insertions and removals, which replies are on time, and which
bytes of a packet are read.
-/

namespace Maiccu.Gogoc.Iee

open Maiccu.Lib List

/-! ## Insertions and removals -/

inductive EventOp where
  | insert (v : EchoEvent)
  | remove (seq : UInt16)

/-- The events pending after the operation, in the order of insertion. -/
def EventOp.pending (vs : List EchoEvent) : EventOp → List EchoEvent
  | .insert v => vs ++ [v]
  | .remove seq => vs.eraseP fun x => x.echoSeq = seq

/-- The operation on the list in memory; none if it does not end or touches a freed event. -/
def EventOp.run (m : Cells EchoEvent) : EventOp → Option (Cells EchoEvent)
  | .insert v => insertEchoEvent (m.alloc v) m.size
  | .remove seq => (removeFreeEchoEvent m seq).map Prod.fst

/-- The list ends, has the events `vs` in the order of their deadlines, and can be freed. -/
def InOrder (m : Cells EchoEvent) (vs : List EchoEvent) : Prop :=
  ∃ xs, ChainAt m .head xs ∧ (xs.map Prod.snd).Perm vs ∧
    (xs.Pairwise fun x y => x.2.tvTimeout.micros ≤ y.2.tvTimeout.micros) ∧
    (m.freeAll xs.length m.head).isSome

def RightAfter (m : Cells EchoEvent) (vs : List EchoEvent) : List EventOp → Prop
  | [] => True
  | op :: ops => ∃ m', op.run m = some m' ∧ InOrder m' (op.pending vs) ∧
      RightAfter m' (op.pending vs) ops

def EventOp.Later (vs : List EchoEvent) (op : EventOp) : Prop :=
  ∀ v, op = .insert v → ∀ x ∈ vs, x.tvTimeout.micros < v.tvTimeout.micros

/-- Each insertion is due after all that is pending then. -/
def DueLater (vs : List EchoEvent) : List EventOp → Prop
  | [] => True
  | op :: ops => op.Later vs ∧ DueLater (op.pending vs) ops

/-- The pending events are due in the order in which they were inserted. -/
structure InTurn (m : Cells EchoEvent) (xs : List (ℕ × EchoEvent)) : Prop extends Pending m xs where
  due : xs.Pairwise fun x y => x.2.tvTimeout.micros < y.2.tvTimeout.micros

variable {m : Cells EchoEvent} {xs : List (ℕ × EchoEvent)}

theorem InTurn.inOrder (h : InTurn m xs) : InOrder m (xs.map Prod.snd) := by
  obtain ⟨p, hp, hchain⟩ := h.chain
  cases hp
  obtain ⟨m', hm', -⟩ := Cells.freeAll_chain hchain h.nodup le_rfl
  exact ⟨xs, h.chain, .refl _, h.due.imp le_of_lt, by rw [hm']; rfl⟩

variable {op : EventOp}

theorem InTurn.run (h : InTurn m xs) (hlater : op.Later (xs.map Prod.snd)) :
    ∃ m' xs', op.run m = some m' ∧ InTurn m' xs' ∧
      xs'.map Prod.snd = op.pending (xs.map Prod.snd) := by
  cases op with
  | insert v =>
    have hv : ∀ x ∈ xs, x.2.tvTimeout.micros < v.tvTimeout.micros :=
      fun x hx => hlater v rfl x.2 (mem_map_of_mem hx)
    obtain ⟨m', hm', h', -⟩ := h.insert hv
    refine ⟨m', _, hm', ⟨h', ?_⟩, by simp [EventOp.pending]⟩
    refine pairwise_append.mpr ⟨h.due, pairwise_singleton _ _, fun x hx y hy => ?_⟩
    rw [mem_singleton.mp hy]
    exact hv x hx
  | remove seq =>
    obtain ⟨m', hm', h', -⟩ := h.remove seq
    refine ⟨m', _, ?_, ⟨h', h.due.sublist (eraseP_sublist ..)⟩, ?_⟩
    · rw [EventOp.run, hm']
      rfl
    · rw [EventOp.pending, eraseP_map]
      rfl

theorem InTurn.run_cycle (h : InTurn m xs) (hearly : ¬op.Later (xs.map Prod.snd)) :
    ∃ m', op.run m = some m' ∧ ∀ ys, ¬ChainAt m' .head ys := by
  unfold EventOp.Later at hearly
  push Not at hearly
  obtain ⟨v, rfl, x, hx, hle⟩ := hearly
  obtain ⟨y, hy, rfl⟩ := mem_map.mp hx
  exact h.insert_cycle ⟨y, hy, hle⟩

theorem InTurn.rightAfter_iff (ops : List EventOp) (h : InTurn m xs) :
    RightAfter m (xs.map Prod.snd) ops ↔ DueLater (xs.map Prod.snd) ops := by
  induction ops generalizing m xs with
  | nil => exact Iff.rfl
  | cons op ops ih =>
    by_cases hlater : op.Later (xs.map Prod.snd)
    · obtain ⟨m', xs', hm', h', hpending⟩ := h.run hlater
      rw [RightAfter, DueLater, hm', ← hpending, ← ih h']
      simp only [Option.some.injEq, exists_eq_left', hlater, h'.inOrder]
    · obtain ⟨m', hm', hcycle⟩ := h.run_cycle hlater
      refine iff_of_false ?_ fun hdue => hlater hdue.1
      rintro ⟨m'', hm'', ⟨ys, hys, -⟩, -⟩
      cases hm'.symm.trans hm''
      exact hcycle ys hys

/-- The list ends, is in the order of the deadlines and has the pending events, exactly if each
event is due after those that are pending when it is inserted. -/
theorem echo_events_iff (ops : List EventOp) : RightAfter ⟨none, []⟩ [] ops ↔ DueLater [] ops := by
  have h : InTurn ⟨none, []⟩ [] := ⟨⟨⟨none, rfl, rfl⟩, .nil⟩, by simp⟩
  exact h.rightAfter_iff ops

theorem equal_deadlines_cycle :
    (((EventOp.insert ⟨0, ⟨5, 0⟩⟩).run ⟨none, []⟩).bind (EventOp.insert ⟨1, ⟨5, 0⟩⟩).run).map
      (fun m => (m.get .head, m.get (.next 0), m.get (.next 1))) =
        some (some (some 0), some (some 1), some (some 0)) := by
  decide +kernel

/-! ## Replies on time -/

variable {s s' s₁ s₂ s₃ : Process} {e e' : Engine} {h : EchoHeader} {buf : Bytes 2048} {len : ℕ}

/-- `count_send` after the step, and its value when a request was last sent. -/
def Obs.count (n : UInt32 × UInt32) : Obs → UInt32 × UInt32
  | .sent _ => (n.1 + 1, n.1 + 1)
  | .starved => (n.1 + 1, n.2)
  | _ => n

/-- `Obs.count` along a run. -/
def counts (es : List (Input × Obs)) (n : UInt32 × UInt32) : UInt32 × UInt32 :=
  es.foldl (fun n x => x.2.count n) n

def Engine.Timed (e : Engine) (n : UInt32 × UInt32) : Prop :=
  e.countSend = n.1 ∧ (e.engMode = .acd → e.echoTimeout = e.timeoutAt n.2)

variable {pc : Pc} {i : Input} {o : Obs} {n : UInt32 × UInt32}

theorem Effect.timed_sent {k : ℕ} (h : Effect e pc i (.sent k) e') :
    e'.Timed (e.countSend + 1, e.countSend + 1) := by
  cases h with
  | sent _ _ _ hsame =>
    rw [← hsame]
    unfold Engine.setEchoTimeout
    split_ifs with hacd
    · exact ⟨rfl, fun _ => rfl⟩
    · exact ⟨rfl, fun hmode => absurd hmode hacd⟩

theorem Effect.timed (h : Effect e pc i o e') (ht : e.Timed n) : e'.Timed (o.count n) := by
  have heffect := h
  cases h with
  | nap hsame | idle _ hsame | quiet _ hsame | expired _ _ _ _ _ hsame | answered _ _ hsame =>
    rw [← hsame]
    exact ht
  | starved _ _ hsame =>
    rw [← hsame]
    exact ⟨congrArg (· + 1) ht.1, ht.2⟩
  | sent =>
    rw [Obs.count, ← ht.1]
    exact heffect.timed_sent

theorem setup_of_run {es : List (Input × Obs)} (hrun : Run Steps s es s')
    (hpc : s'.pc ≠ .fault) : s.pc ≠ .fault ∧ s.engine.SameSetup s'.engine ∧
      (s.engine.Timed n → s'.engine.Timed (counts es n)) := by
  revert hpc
  refine hrun.induct (fun hpc => ⟨hpc, ⟨rfl, rfl, rfl, fun _ => rfl⟩, id⟩) ?_
  intro es s₁ x s₂ _ ih hstep hpc
  -- a process at a fault makes no step
  have hpc₁ : s₁.pc ≠ .fault := by
    intro hfault
    unfold Steps step at hstep
    rw [hfault] at hstep
    cases hstep
  obtain ⟨hpc₀, hsetup, htimed⟩ := ih hpc₁
  have heffect := effect_of_step hstep hpc
  refine ⟨hpc₀, hsetup.trans heffect.setup, fun hn => ?_⟩
  rw [counts, foldl_append]
  exact heffect.timed (htimed hn)

/-- The packet is a reply to the request of the sequence number `seq`, sent at the time `sent`, with
the data of the request. -/
def Echoes (e : Engine) (buf : Bytes 2048) (len : ℕ) (seq : UInt16) (sent : Timeval) : Prop :=
  ∃ h, icmpHdr e.icmpSaf buf len = some h ∧ h.icmpType = e.icmpSaf.replyType ∧ h.icmpCode = 0 ∧
    h.echoId = e.icmpEchoId ∧ h.echoSeq = seq ∧ h.echoData = sent

theorem Echoes.ontime_iff {seq : UInt16} {sent : Timeval} (hreply : Echoes e buf len seq sent)
    (now : Timeval) : decodeIcmpPacket e buf len now = .pinginOntime seq ↔
      now.micros - sent.micros ≤ 1000 * (e.echoTimeout.toNat : ℤ) := by
  obtain ⟨h, hh, htype, hcode, hid, rfl, rfl⟩ := hreply
  have hlate : e.IsLate h now ↔
      1000 * (e.echoTimeout.toNat : ℤ) < now.micros - h.echoData.micros := by
    rw [Engine.IsLate, compareTv_eq]
    omega
  rw [decodeIcmpPacket, hh]
  simp only [htype, hcode, hid, ne_eq, not_true_eq_false, if_false, hlate]
  split_ifs with hlt
  · exact iff_of_false (by simp) (by omega)
  · exact iff_of_true rfl (by omega)

/-- A reply with the data of a request is on time exactly if it comes by the deadline stored with
the request, unless the mode is `ACD` and the timeouts of the counts when a request was last sent
and when this one was judge it differently. -/
theorem reply_ontime_iff {r : Request} {k : ℕ} {es : List (Input × Obs)} {tvRef : Timeval}
    {timeLeft : ℤ} {w : Wait} (hsend : Steps s₁ (.request r, .sent k) s₂)
    (hrun : Run Steps s₂ es s₃) (hpc : s₃.pc = .reading tvRef timeLeft)
    (hselect : w.select = .packet buf len)
    (hreply : Echoes s₃.engine buf len s₁.engine.countSend.toUInt16 r.now) :
    (s₃.engine.readRet w = .pinginOntime s₁.engine.countSend.toUInt16 ↔
        w.nowRtt.micros ≤ (s₁.engine.nextEvent r.now).tvTimeout.micros) ↔
      (s₁.engine.engMode = .acd →
        let sent := s₁.engine.countSend + 1
        let within (c : UInt32) : Prop :=
          w.nowRtt.micros - r.now.micros ≤ 1000 * ((s₁.engine.timeoutAt c).toNat : ℤ)
        (within (counts es (sent, sent)).2 ↔ within sent)) := by
  have hread : s₃.engine.readRet w =
      decodeIcmpPacket (s₃.engine.stopIf w.stop) buf len w.nowRtt := by
    rw [Engine.readRet, doRead, hselect]
  obtain ⟨hpc₂, hsetup, htimed⟩ := setup_of_run
    (n := (s₁.engine.countSend + 1, s₁.engine.countSend + 1)) hrun (by simp [hpc])
  have heffect : Effect s₁.engine s₁.pc (.request r) (.sent k) s₂.engine :=
    effect_of_step hsend hpc₂
  -- the deadline is that of the timeout which the engine has after sending
  have hdue : (s₁.engine.nextEvent r.now).tvTimeout.micros =
      r.now.micros + 1000 * s₂.engine.echoTimeout.toNat := by
    rw [Engine.nextEvent, micros_echoDue]
    obtain ⟨e₁, pc₁⟩ := s₁
    cases heffect with
    | sent _ _ _ hsame => rw [← hsame]
  have hontime := Echoes.ontime_iff (e := s₃.engine.stopIf w.stop) hreply w.nowRtt
  rw [hread, hontime, hdue, ← sub_le_iff_le_add']
  have hboth := heffect.setup.trans hsetup
  by_cases hacd : s₁.engine.engMode = .acd
  · have hread := (htimed heffect.timed_sent).2 (hboth.mode.trans hacd)
    have hsent := heffect.timed_sent.2 (heffect.setup.mode.trans hacd)
    rw [hboth.timeoutAt] at hread
    rw [hsent, heffect.setup.timeoutAt, show (s₃.engine.stopIf w.stop).echoTimeout = _ from hread]
    exact ⟨fun h _ => h, fun h => h hacd⟩
  · refine iff_of_true ?_ fun h => absurd h hacd
    rw [← hsetup.timeout (heffect.setup.mode.trans_ne hacd)]
    exact Iff.rfl

def sampleAcd : Process := .start (.init .acd 1000 3 0 3 7 .inet6)

theorem reply_ontime_iff_first : ∃ s₂, Steps sampleAcd (.request (sampleRequest 0), .sent 0) s₂ ∧
      s₂.engine.readRet (sampleWait (.packet (sampleReply 0 7 0) 24) ⟨0, 0⟩ ⟨2, 0⟩) =
        .pinginOntime 0 := by
  have hsend : Steps sampleAcd (.request (sampleRequest 0), .sent 0) _ := rfl
  refine ⟨_, hsend, ((reply_ontime_iff hsend .start rfl rfl ⟨_, rfl, ?_⟩).mpr
    fun _ => Iff.rfl).mpr ?_⟩
  · decide +kernel
  · decide +kernel

/-- The first of three requests, one a second, is answered after 1.5 seconds. Its deadline was 2
seconds, but since the second request the timeout is 1 second. -/
theorem acd_reply_late :
    ∃ s₁ s₂ s₃ es, Steps s₁ (.request (sampleRequest 0), .sent 0) s₂ ∧ Run Steps s₂ es s₃ ∧
      s₃.engine.readRet (sampleWait (.packet (sampleReply 0 7 0) 24) ⟨1, 500000⟩ ⟨1, 500000⟩) =
        .pinginLate 0 ∧
      (s₁.engine.nextEvent ⟨0, 0⟩).tvTimeout = ⟨2, 0⟩ := by
  obtain ⟨s₃, hs, hp⟩ := exists_run
    (s := (send sampleAcd.engine (sampleRequest 0)).1) (fun _ _ => true)
    (fun _ _ _ _ hstep => hstep) [(.wait (sampleWait .timeout ⟨0, 0⟩ ⟨1, 0⟩), .none),
      (.request { sampleRequest 1 with now := ⟨1, 1⟩ }, .sent 1)]
    (fun s => s.engine.readRet
      (sampleWait (.packet (sampleReply 0 7 0) 24) ⟨1, 500000⟩ ⟨1, 500000⟩) = .pinginLate 0)
    (by decide +kernel)
  exact ⟨sampleAcd, _, s₃, _, rfl, hs, of_decide_eq_true hp, by decide +kernel⟩

/-! ## What is read of a packet -/

/-- `_decode_icmp_packet` from the test of the type on, with what it reads. -/
def readReply (e : Engine) (h : EchoHeader) (off : ℕ) (now : Timeval) : Reads ReadRet := do
  let icmpType ← ⟨h.icmpType, [(off, 1)]⟩
  if icmpType ≠ e.icmpSaf.replyType then pure .packetIgnored else
  let icmpCode ← ⟨h.icmpCode, [(off + 1, 1)]⟩
  if icmpCode ≠ 0 then pure .generalEchoError else
  let echoId ← ⟨h.echoId, [(off + 4, 2)]⟩
  if echoId ≠ e.icmpEchoId then pure .packetIgnored else
  let echoSeq ← ⟨h.echoSeq, [(off + 6, 2)]⟩
  let late ← ⟨decide (e.IsLate h now), [(off + 8, 8), (off + 16, 4)]⟩
  pure (if late then .pinginLate echoSeq else .pinginOntime echoSeq)

/-- Where the ICMP header begins. -/
def hdrOff (af : Family) (buf : Bytes 2048) : ℕ :=
  match af with
  | .inet => (ipLen buf).toNat
  | .inet6 => 0

/-- `_decode_icmp_packet` with what it reads. The version and the length of the IP header are in the
first byte. -/
def readPacket (e : Engine) (buf : Bytes 2048) (len : ℕ) (now : Timeval) : Reads ReadRet := do
  let hdr ← ⟨icmpHdr e.icmpSaf buf len, if e.icmpSaf = .inet then [(0, 1)] else []⟩
  match hdr with
  | none => pure .packetBad
  | some h => readReply e h (hdrOff e.icmpSaf buf) now

variable {now : Timeval}

theorem readPacket_val : (readPacket e buf len now).val = decodeIcmpPacket e buf len now := by
  rw [readPacket, decodeIcmpPacket, Reads.val_bind]
  cases icmpHdr e.icmpSaf buf len with
  | none => rfl
  | some h =>
    simp only [readReply, Reads.val_bind, Reads.val_ite, Reads.val_pure, decide_eq_true_eq]

/-- The header belongs to a reply to the engine. -/
def Engine.OwnReply (e : Engine) (h : EchoHeader) : Prop :=
  h.icmpType = e.icmpSaf.replyType ∧ h.icmpCode = 0 ∧ h.echoId = e.icmpEchoId

theorem within_mk {α : Type} {a : α} {spans : List (ℕ × ℕ)} {n : ℕ} :
    (Reads.mk a spans).Within n ↔ ∀ s ∈ spans, s.1 + s.2 ≤ n := Iff.rfl

theorem within_readReply {off : ℕ} (hoff : off + 8 ≤ len) :
    (readReply e h off now).Within len ↔ (e.OwnReply h → off + 20 ≤ len) := by
  unfold readReply Engine.OwnReply
  simp only [Reads.within_bind, Reads.within_ite, Reads.within_pure, within_mk,
    forall_mem_singleton, forall_mem_cons, ne_eq, not_not, implies_true, and_true,
    true_and]
  constructor
  · rintro ⟨-, hx⟩ ⟨htype, hcode, hid⟩
    have := ((hx htype).2 hcode).2 hid
    omega
  · intro hx
    refine ⟨by omega, fun htype => ⟨by omega, fun hcode => ⟨by omega, fun hid => ?_⟩⟩⟩
    have := hx ⟨htype, hcode, hid⟩
    omega

variable {af : Family}

theorem hdrOff_add_le (hwhole : Whole af buf len) (hh : icmpHdr af buf len = some h) :
    hdrOff af buf + 8 ≤ len := by
  cases af with
  | inet =>
    simp only [icmpHdr] at hh
    split_ifs at hh with hver hlen
    exact add_eight_le (hwhole rfl) hlen
  | inet6 =>
    simp only [icmpHdr] at hh
    split_ifs at hh with hlen
    exact not_lt.mp hlen

theorem lt_hdrOff (hpart : ¬Whole af buf len) : len < hdrOff af buf := by
  obtain ⟨rfl, hlt⟩ := Classical.not_imp.mp hpart
  exact not_le.mp hlt

/-- Only bytes of the packet are read, unless it ends inside its IP header, where the test of the
length is passed with a negative number, or it is a reply to the engine without the whole time. The
packet is not empty. -/
theorem decode_reads_iff (e : Engine) (buf : Bytes 2048) (len : ℕ) (now : Timeval) :
    (readPacket e buf len now).val = decodeIcmpPacket e buf len now ∧
      ((readPacket e buf len now).Within len ↔ (e.icmpSaf = .inet → 0 < len) ∧
        ∀ h, icmpHdr e.icmpSaf buf len = some h → Whole e.icmpSaf buf len ∧
          (e.OwnReply h → hdrOff e.icmpSaf buf + 20 ≤ len)) := by
  refine ⟨readPacket_val, ?_⟩
  rw [readPacket, Reads.within_bind]
  refine and_congr ?_ ?_
  · rw [within_mk]
    split_ifs with haf
    · simp [haf, Nat.one_le_iff_ne_zero, Nat.pos_iff_ne_zero]
    · simp [haf]
  · cases hh : icmpHdr e.icmpSaf buf len with
    | none => exact iff_of_true Reads.within_pure nofun
    | some h =>
      simp only [Option.some.injEq, forall_eq']
      by_cases hwhole : Whole e.icmpSaf buf len
      · rw [within_readReply (hdrOff_add_le hwhole hh)]
        exact (and_iff_right hwhole).symm
      · refine iff_of_false (fun hwithin => ?_) fun hx => hwhole hx.1
        have htype := (Reads.within_bind.mp hwithin).1 _ (mem_singleton_self _)
        have := lt_hdrOff hwhole
        omega

/-- A reply of 8 bytes to the engine passes for one of the time in the bytes behind it. -/
theorem short_reply_read_behind :
    let x := readPacket (keepalive 1000 7 .inet6) (sampleReply 0 7 0) 8 ⟨0, 0⟩
    ¬x.Within 8 ∧ x.val = .pinginOntime 0 := by
  decide +kernel

end Maiccu.Gogoc.Iee
