import Maiccu.Gogoc.EchoEngine

/-!
# The reliable exchange over UDP

`internal_send_recv` of `net_rudp.c`, for a connected socket, and what it keeps between the requests
of a session, `rttengine_stats`. A request is sent again whenever `select` times out. The network
may lose, repeat, reorder and delay datagrams: what `select` and `recv` give is an arbitrary list of
events.
-/

namespace Maiccu.Gogoc.Rudp

open Maiccu.Lib List
open Maiccu.Gogoc.Iee (Timeval)

/-! ## The state of a session -/

/-- `rttengine_stat_t`. The times are in seconds. -/
structure RttEngine where
  rtt : Float32
  srtt : Float32
  rttvar : Float32
  rto : Float32
  sequence : UInt32
  retries : ℕ
  initialTimestamp : ℤ
  applyBackoff : Bool
  hasPeer : Bool
  initiated : Bool

/-- `RTTENGINE_MAXRTT`. -/
def maxRtt : ℕ := 3

/-- `RTTENGINE_MAXRT`. -/
def maxRt : ℕ := 8

/-- After `memset`. -/
def zeroed : RttEngine := ⟨0, 0, 0, 0, 0, 0, 0, false, false, false⟩

variable (s : RttEngine) (now : Option Timeval)

def rttengineInit : RttEngine :=
  if s.initiated then s
  else
    { rtt := 0
      srtt := 0
      rttvar := 0.50
      rto := 2
      sequence := 240
      retries := 0
      initialTimestamp := (now.map Timeval.sec).getD 0
      applyBackoff := false
      hasPeer := false
      initiated := true }

def netRUDPInit : RttEngine := rttengineInit zeroed now

def rttengineDeinit : RttEngine := { s with initiated := false }

def internalGetAdjustedRto (rto : Float32) : Float32 :=
  if rto < 2 then 2 else if 30 < rto then 30 else rto

def rttengineUpdate (rtt : UInt32) : RttEngine :=
  let seconds := rtt.toFloat32 / 1000.0
  let delta := seconds - s.srtt
  let srtt := s.srtt + 1 / 8 * delta
  let rttvar := s.rttvar + 1 / 4 * (if delta < 0 then -delta else delta)
  { s with
    rtt := seconds
    srtt := srtt
    rttvar := rttvar
    rto := internalGetAdjustedRto (srtt + 4 * rttvar)
    retries := 0 }

/-- The milliseconds since the start of the session; 0 if the time cannot be read. -/
def internalGetTimestamp : UInt32 :=
  match now with
  | none => 0
  | some tv => UInt32.ofInt ((tv.sec - s.initialTimestamp) * 1000 + tv.usec.tdiv 1000)

/-! ## One exchange -/

/-- What the exchange comes to. It has no result if `memset` gets a null pointer or `memcpy` a
negative length. -/
inductive Outcome where
  | waiting
  | returned (payload : List UInt8)
  | failed
  | undefined
  deriving DecidableEq

/-- The variables of `internal_send_recv`, and the messages that were sent. -/
structure Exchange where
  engine : RttEngine
  /-- The number of the request, once it has one. -/
  sequence : Option UInt32
  body : List UInt8
  ol : ℕ
  im : List UInt8
  tvSel : Timeval
  tvBeg : Timeval
  sent : List (List UInt8)
  outcome : Outcome

/-- `rudp_msghdr_t` in network order, and the message behind it. -/
def message (sequence timestamp : UInt32) (body : List UInt8) : List UInt8 :=
  be 4 sequence.toNat ++ be 4 timestamp.toNat ++ body

/-- What happens in a turn of `sendloop`: the times that are read, and whether `send` succeeds. -/
structure Attempt where
  stamp : Option Timeval
  sendOk : Bool
  begun : Timeval

variable (x : Exchange)

def Exchange.fail : Exchange :=
  { x with engine := rttengineDeinit x.engine, outcome := .failed }

/-- `tv_sel`: the remainder is multiplied by 1000, as in the source. -/
def selectTime (rto : Float32) : Timeval :=
  ⟨rto.toInt64.toInt, ((rto - rto.toInt64.toFloat32) * 1000).toInt64.toInt⟩

variable (seq : UInt32)

/-- From `sendloop` to `selectloop`. -/
def sendLoop (a : Attempt) : Exchange :=
  if x.engine.retries = maxRtt ∧ x.engine.hasPeer = false then x.fail
  else
    let engine := if x.engine.retries = maxRtt then { x.engine with applyBackoff := true }
      else x.engine
    if engine.retries = maxRt ∨ a.sendOk = false then { x with engine := engine }.fail
    else
      { x with
        engine := engine
        tvSel := selectTime engine.rto
        tvBeg := a.begun
        sent := x.sent ++ [message seq (internalGetTimestamp engine a.stamp) x.body]
        outcome := .waiting }

/-- What `select` and `recv` give. -/
inductive Event where
  /-- The time is over, and the next turn of `sendloop` follows. -/
  | timeout (a : Attempt)
  /-- A datagram, and the time that is read afterwards. -/
  | datagram (d : List UInt8) (now : Timeval) (stamp : Option Timeval)
  | recvError
  | selectError

/-- `recv`: the datagram overwrites the start of the buffer. -/
def received (im d : List UInt8) (size : ℕ) : List UInt8 :=
  d.take size ++ im.drop (d.take size).length

/-- `imh->timestamp`. -/
def timestampOf (im : List UInt8) : UInt32 := UInt32.ofNat (ofBe ((im.drop 4).take 4))

def onDatagram (d : List UInt8) (now : Timeval) (stamp : Option Timeval) : Exchange :=
  let im := received x.im d (8 + x.ol)
  let ret : ℤ := (d.take (8 + x.ol)).length
  if im.take 4 = be 4 seq.toNat then
    let engine := rttengineUpdate x.engine (internalGetTimestamp x.engine stamp - timestampOf im)
    if ret - 8 < 0 then { x with im := im, engine := engine, outcome := .undefined }
    else
      { x with
        im := im
        engine := { engine with hasPeer := true, retries := 0 }
        outcome := .returned ((im.drop 8).take (ret - 8).toNat) }
  else
    -- The microseconds stay as they are.
    { x with
      im := im
      tvSel := ⟨x.tvSel.sec - (now.sec - x.tvBeg.sec), x.tvSel.usec⟩
      tvBeg := now }

def onEvent : Event → Exchange
  | .timeout a =>
    let engine :=
      if x.engine.applyBackoff then
        { x.engine with rto := internalGetAdjustedRto (x.engine.rto * 2) }
      else x.engine
    sendLoop { x with engine := { engine with retries := engine.retries + 1 } } seq a
  | .datagram d now stamp => onDatagram x seq d now stamp
  | .recvError => x.fail
  | .selectError => x.fail

def step (e : Event) : Exchange :=
  match x.outcome, x.sequence with
  | .waiting, some seq => onEvent x seq e
  | _, _ => x

/-- The arguments, whether there is memory for the messages, what is in the memory for the incoming
one, and what happens. -/
structure Request where
  input : List UInt8
  ol : ℕ
  outMemory : Bool
  inMemory : Bool
  im : List UInt8
  first : Attempt
  events : List Event

def start (s : RttEngine) (r : Request) : Exchange :=
  let x : Exchange :=
    { engine := s
      sequence := none
      body := r.input
      ol := r.ol
      im := r.im
      tvSel := ⟨0, 0⟩
      tvBeg := ⟨0, 0⟩
      sent := []
      outcome := .failed }
  if s.initiated = false then x
  else if (r.outMemory = false ∧ r.input ≠ []) ∨ (r.inMemory = false ∧ r.ol ≠ 0) then
    { x with outcome := .undefined }
  else if r.outMemory = false ∨ r.inMemory = false then x.fail
  else
    let seq := s.sequence ||| 0xf0000000
    sendLoop
      { x with engine := { s with sequence := s.sequence + 1 }, sequence := some seq } seq r.first

def internalSendRecv (s : RttEngine) (r : Request) : Exchange := r.events.foldl step (start s r)

/-- The requests of a session, one after the other, until one does not end. -/
def session (s : RttEngine) : List Request → List Exchange
  | [] => []
  | r :: rs =>
    internalSendRecv s r ::
      match (internalSendRecv s r).outcome with
      | .waiting => []
      | .undefined => []
      | _ => session (internalSendRecv s r).engine rs

/-! ## What an exchange does -/

section Exchange

variable {s} {r : Request} {x} {es : List Event} {e : Event} {seq} {a : Attempt}

def limit (s : RttEngine) : ℕ := if s.hasPeer then maxRt else maxRtt

def timeouts (es : List Event) : ℕ :=
  es.countP fun e => match e with
    | .timeout _ => true
    | _ => false

theorem sendLoop_cases :
    (∃ engine : RttEngine, engine.initiated = false ∧
      sendLoop x seq a = { x with engine := engine, outcome := .failed }) ∨
    (¬(x.engine.retries = maxRtt ∧ x.engine.hasPeer = false) ∧ x.engine.retries ≠ maxRt ∧
      ∃ backoff tvSel tvBeg stamp, sendLoop x seq a =
        { x with
          engine := { x.engine with applyBackoff := backoff }
          tvSel := tvSel
          tvBeg := tvBeg
          sent := x.sent ++ [message seq stamp x.body]
          outcome := .waiting }) := by
  obtain ⟨backoff, hbackoff⟩ : ∃ backoff,
      (if x.engine.retries = maxRtt then { x.engine with applyBackoff := true } else x.engine) =
        { x.engine with applyBackoff := backoff } := by
    split_ifs
    · exact ⟨true, rfl⟩
    · exact ⟨x.engine.applyBackoff, rfl⟩
  unfold sendLoop
  dsimp only
  rw [hbackoff]
  split_ifs with hpeer hend
  · exact .inl ⟨_, rfl, rfl⟩
  · exact .inl ⟨_, rfl, rfl⟩
  · exact .inr ⟨hpeer, fun h => hend (.inl h), backoff, _, _, _, rfl⟩

/-- What holds during an exchange that began in the state `s`, after the events `es`. -/
structure Inv (s : RttEngine) (r : Request) (es : List Event) (x : Exchange) : Prop where
  ol : x.ol = r.ol
  sent_le : x.sent.length ≤ limit s
  carries : ∀ m ∈ x.sent, ∃ q, x.sequence = some q ∧ m.take 4 = be 4 q.toNat
  sequence : ∀ q, x.sequence = some q → s.initiated = true ∧ q = s.sequence ||| 0xf0000000
  waiting : x.outcome = .waiting → x.engine.initiated = true ∧
    x.engine.sequence = s.sequence + 1 ∧ x.engine.hasPeer = s.hasPeer ∧
    x.sent.length = x.engine.retries + 1 ∧ x.engine.retries = timeouts es
  returned : ∀ p, x.outcome = .returned p → x.engine.initiated = true ∧
    x.engine.sequence = s.sequence + 1 ∧ x.engine.hasPeer = true ∧ x.engine.retries = 0 ∧
    ∃ q d now stamp, x.sequence = some q ∧ .datagram d now stamp ∈ es ∧ 8 ≤ d.length ∧
      d.take 4 = be 4 q.toNat ∧ p = (d.drop 8).take r.ol
  failed : x.outcome = .failed → x.engine.initiated = false

structure Turn (s : RttEngine) (r : Request) (es : List Event) (x : Exchange) (seq : UInt32) :
    Prop where
  ol : x.ol = r.ol
  carries : ∀ m ∈ x.sent, m.take 4 = be 4 seq.toNat
  sequence : x.sequence = some seq
  stamped : s.initiated = true ∧ seq = s.sequence ||| 0xf0000000
  initiated : x.engine.initiated = true
  next : x.engine.sequence = s.sequence + 1
  hasPeer : x.engine.hasPeer = s.hasPeer
  sent : x.sent.length = x.engine.retries
  retries : x.engine.retries = timeouts es
  le : x.engine.retries ≤ limit s

theorem Turn.inv (h : Turn s r es x seq) (a : Attempt) : Inv s r es (sendLoop x seq a) := by
  have hsequence (q : UInt32) (hq : x.sequence = some q) :
      s.initiated = true ∧ q = s.sequence ||| 0xf0000000 := by
    cases h.sequence.symm.trans hq
    exact h.stamped
  rcases sendLoop_cases with ⟨engine, hdeinit, heq⟩ | ⟨hpeer, hmax, backoff, tvSel, tvBeg,
      stamp, heq⟩
  · rw [heq]
    refine ⟨h.ol, h.sent.trans_le h.le, fun m hm => ⟨seq, h.sequence, h.carries m hm⟩, hsequence,
      nofun, nofun, fun _ => hdeinit⟩
  · rw [heq]
    -- There is a try left, for the number of tries is not the limit.
    have hlt : x.engine.retries < limit s := by
      refine lt_of_le_of_ne h.le fun hlimit => ?_
      unfold limit at hlimit
      rw [← h.hasPeer] at hlimit
      cases hp : x.engine.hasPeer with
      | false =>
        rw [hp] at hlimit
        exact hpeer ⟨hlimit, hp⟩
      | true =>
        rw [hp] at hlimit
        exact hmax hlimit
    have hlength : (x.sent ++ [message seq stamp x.body]).length = x.engine.retries + 1 := by
      rw [length_append, h.sent]
      rfl
    refine ⟨h.ol, hlength.trans_le hlt, fun m hm => ⟨seq, h.sequence, ?_⟩, hsequence, fun _ => ?_,
      nofun, nofun⟩
    · rcases mem_append.mp hm with hm | hm
      · exact h.carries m hm
      · rw [mem_singleton.mp hm]
        exact take_left' (be_length 4 _)
    · exact ⟨h.initiated, h.next, h.hasPeer, hlength, h.retries⟩

theorem start_inv (hs : s.initiated = true → s.retries = 0) (r : Request) :
    Inv s r [] (start s r) := by
  unfold start
  split_ifs with hinit hnull hmemory
  · exact ⟨rfl, Nat.zero_le _, nofun, nofun, nofun, nofun, fun _ => hinit⟩
  · exact ⟨rfl, Nat.zero_le _, nofun, nofun, nofun, nofun, nofun⟩
  · exact ⟨rfl, Nat.zero_le _, nofun, nofun, nofun, nofun, fun _ => rfl⟩
  · have hinit : s.initiated = true := Bool.not_eq_false _ ▸ hinit
    apply Turn.inv
    exact ⟨rfl, nofun, rfl, ⟨hinit, rfl⟩, hinit, rfl, rfl, (hs hinit).symm, hs hinit,
      (hs hinit).trans_le (Nat.zero_le _)⟩

theorem timeouts_append (es : List Event) (e : Event) :
    timeouts (es ++ [e]) = timeouts es + timeouts [e] := by
  exact countP_append

theorem Inv.over (h : Inv s r es x) (hover : x.outcome ≠ .waiting) (e : Event) :
    Inv s r (es ++ [e]) x := by
  refine ⟨h.ol, h.sent_le, h.carries, h.sequence, fun hw => absurd hw hover, fun p hp => ?_,
    h.failed⟩
  obtain ⟨hinit, hnext, hpeer, hretries, q, d, now, stamp, hq, hmem, hd⟩ := h.returned p hp
  exact ⟨hinit, hnext, hpeer, hretries, q, d, now, stamp, hq, mem_append_left _ hmem, hd⟩

theorem Inv.fail (h : Inv s r es x) (e : Event) : Inv s r (es ++ [e]) x.fail :=
  ⟨h.ol, h.sent_le, h.carries, h.sequence, nofun, nofun, fun _ => rfl⟩

theorem Inv.timeout (h : Inv s r es x) (hwaiting : x.outcome = .waiting)
    (hseq : x.sequence = some seq) (a : Attempt) :
    Inv s r (es ++ [.timeout a]) (onEvent x seq (.timeout a)) := by
  obtain ⟨hinit, hnext, hpeer, hsent, hretries⟩ := h.waiting hwaiting
  obtain ⟨rto, hrto⟩ : ∃ rto, (if x.engine.applyBackoff then
      { x.engine with rto := internalGetAdjustedRto (x.engine.rto * 2) } else x.engine) =
        { x.engine with rto := rto } := by
    split_ifs
    · exact ⟨_, rfl⟩
    · exact ⟨x.engine.rto, rfl⟩
  unfold onEvent
  rw [hrto]
  apply Turn.inv
  refine ⟨h.ol, fun m hm => ?_, hseq, h.sequence seq hseq, hinit, hnext, hpeer, hsent, ?_, ?_⟩
  · obtain ⟨q, hq, hcarries⟩ := h.carries m hm
    cases hseq.symm.trans hq
    exact hcarries
  · rw [timeouts_append]
    exact congrArg (· + 1) hretries
  · exact hsent.symm.trans_le h.sent_le

variable {im d : List UInt8}

theorem received_take {size : ℕ} (n : ℕ) (hn : n ≤ (d.take size).length) :
    (received im d size).take n = d.take n := by
  unfold received
  rw [take_append_of_le_length hn, take_take]
  rw [length_take] at hn
  rw [Nat.min_eq_left (hn.trans (Nat.min_le_left _ _))]

theorem received_payload {ol : ℕ} (hd : 8 ≤ d.length) :
    ((received im d (8 + ol)).drop 8).take (min (8 + ol) d.length - 8) = (d.drop 8).take ol := by
  have hlength : 8 + (min (8 + ol) d.length - 8) = (d.take (8 + ol)).length := by
    rw [length_take]
    omega
  unfold received
  rw [take_drop, hlength, take_left, drop_take, Nat.add_sub_cancel_left]

theorem Inv.datagram (h : Inv s r es x) (hwaiting : x.outcome = .waiting)
    (hseq : x.sequence = some seq) {now : Timeval} {stamp : Option Timeval} :
    Inv s r (es ++ [.datagram d now stamp]) (onDatagram x seq d now stamp) := by
  obtain ⟨hinit, hnext, hpeer, hsent, hretries⟩ := h.waiting hwaiting
  unfold onDatagram
  dsimp only
  split_ifs with hmatch hshort
  · exact ⟨h.ol, h.sent_le, h.carries, h.sequence, nofun, nofun, nofun⟩
  · refine ⟨h.ol, h.sent_le, h.carries, h.sequence, nofun, fun p hp => ?_, nofun⟩
    rw [length_take] at hshort hp
    have hlength : 8 ≤ d.length := by omega
    refine ⟨hinit, hnext, rfl, rfl, seq, d, now, stamp, hseq,
      mem_append_right _ mem_cons_self, hlength, ?_, ?_⟩
    · rw [← hmatch, received_take]
      rw [length_take]
      omega
    · have hpayload := Outcome.returned.inj hp
      rw [← hpayload, ← h.ol]
      have hnat : (((min (8 + x.ol) d.length : ℕ) : ℤ) - 8).toNat =
          min (8 + x.ol) d.length - 8 := by omega
      rw [hnat, received_payload hlength]
  · refine ⟨h.ol, h.sent_le, h.carries, h.sequence, fun _ => ?_, fun p hp => ?_, fun hf => ?_⟩
    · rw [timeouts_append]
      exact ⟨hinit, hnext, hpeer, hsent, hretries⟩
    · cases hwaiting.symm.trans hp
    · cases hwaiting.symm.trans hf

theorem Inv.step (h : Inv s r es x) (e : Event) : Inv s r (es ++ [e]) (step x e) := by
  unfold Rudp.step
  split
  · rename_i seq hwaiting hseq
    cases e with
    | timeout a => exact h.timeout hwaiting hseq a
    | datagram d now stamp => exact h.datagram hwaiting hseq
    | recvError | selectError => exact h.fail _
  · rename_i hother
    refine h.over (fun hwaiting => ?_) e
    -- An exchange that waits has sent its message, with a number.
    obtain ⟨-, -, -, hsent, -⟩ := h.waiting hwaiting
    have hpos : 0 < x.sent.length := hsent.symm ▸ Nat.succ_pos _
    obtain ⟨m, hm⟩ := exists_mem_of_length_pos hpos
    obtain ⟨q, hq, -⟩ := h.carries m hm
    exact hother q hwaiting hq

theorem internalSendRecv_inv (hs : s.initiated = true → s.retries = 0) (r : Request) :
    Inv s r r.events (internalSendRecv s r) := by
  refine (run_foldl Rudp.step r.events (start s r)).induct (p := Inv s r) (start_inv hs r) ?_
  rintro es x e x' - hx rfl
  exact hx.step e

theorem sendLoop_defined :
    (sendLoop x seq a).outcome ≠ .undefined := by
  rcases sendLoop_cases with ⟨engine, -, heq⟩ | ⟨-, -, backoff, tvSel, tvBeg, stamp, heq⟩
  · rw [heq]
    nofun
  · rw [heq]
    nofun

theorem step_defined (hx : x.outcome ≠ .undefined)
    (he : ∀ d now stamp, e = .datagram d now stamp → 8 ≤ d.length) :
    (step x e).outcome ≠ .undefined := by
  unfold step
  split
  · rename_i seq hwaiting hseq
    cases e with
    | timeout a => exact sendLoop_defined
    | datagram d now stamp =>
      have hlength : 8 ≤ (d.take (8 + x.ol)).length := by
        rw [length_take]
        exact le_min (Nat.le_add_right _ _) (he d now stamp rfl)
      show (onDatagram x seq d now stamp).outcome ≠ .undefined
      unfold onDatagram
      dsimp only
      rw [if_neg (by omega : ¬((d.take (8 + x.ol)).length : ℤ) - 8 < 0)]
      split_ifs
      · nofun
      · exact hx
    | recvError | selectError => nofun
  · exact hx

theorem internalSendRecv_defined (hmemory : r.outMemory = true ∧ r.inMemory = true)
    (hheader : ∀ d now stamp, .datagram d now stamp ∈ r.events → 8 ≤ d.length) :
    (internalSendRecv s r).outcome ≠ .undefined := by
  refine (run_foldl step r.events (start s r)).induct
    (p := fun es x => (∀ d now stamp, .datagram d now stamp ∈ es → 8 ≤ d.length) →
      x.outcome ≠ .undefined) ?_ ?_ hheader
  · intro _
    unfold start
    rw [hmemory.1, hmemory.2]
    split_ifs with hinit hnull hnull
    · nofun
    · rcases hnull with ⟨h, -⟩ | ⟨h, -⟩
      · cases h
      · cases h
    · nofun
    · exact sendLoop_defined
  · rintro es x e x' - hx rfl hall
    refine step_defined (hx fun d now stamp hmem => hall d now stamp ?_) fun d now stamp heq => ?_
    · exact mem_append_left _ hmem
    · exact hall d now stamp (mem_append_right _ (heq ▸ mem_cons_self))

end Exchange

/-! ## The requests of a session -/

/-- Between two requests: as long as the session is not over, `n` requests were answered. -/
structure Between (n : ℕ) (s : RttEngine) : Prop where
  retries : s.initiated = true → s.retries = 0
  sequence : s.initiated = true → s.sequence = 240 + UInt32.ofNat n
  hasPeer : s.initiated = true → (s.hasPeer = true ↔ 0 < n)

theorem between_init (now : Option Timeval) : Between 0 (netRUDPInit now) :=
  ⟨fun _ => rfl, fun _ => rfl, fun _ => ⟨nofun, nofun⟩⟩

variable {n i : ℕ} {s} {r : Request} {x}

theorem Between.next {es : List Event} {p : List UInt8} (h : Between n s) (hx : Inv s r es x)
    (hreturned : x.outcome = .returned p) :
    Between (n + 1) x.engine := by
  obtain ⟨-, hnext, hpeer, hretries, q, -, -, -, hq, -⟩ := hx.returned p hreturned
  refine ⟨fun _ => hretries, fun _ => ?_, fun _ => ⟨fun _ => n.succ_pos, fun _ => hpeer⟩⟩
  rw [hnext, h.sequence (hx.sequence q hq).1, UInt32.add_assoc]
  exact congrArg (240 + ·) (UInt32.ofNat_add n 1).symm

theorem between_of_over (h : s.initiated = false) : Between n s := by
  have hover {p : Prop} (hinit : s.initiated = true) : p := by
    cases h.symm.trans hinit
  exact ⟨hover, hover, hover⟩

theorem session_succ {rs : List Request} (h : (session s (r :: rs))[i + 1]? = some x) :
    ((internalSendRecv s r).outcome = .failed ∨
        ∃ p, (internalSendRecv s r).outcome = .returned p) ∧
      session s (r :: rs) = internalSendRecv s r :: session (internalSendRecv s r).engine rs := by
  rw [session] at h ⊢
  cases hout : (internalSendRecv s r).outcome with
  | waiting | undefined =>
    rw [hout] at h
    cases h
  | failed => exact ⟨.inl rfl, rfl⟩
  | returned p => exact ⟨.inr ⟨p, rfl⟩, rfl⟩

/-- The exchange number `i` of a session begins in the state after `n + i` answered requests, or
when the session is over. -/
theorem session_getElem (rs : List Request) (hs : Between n s) (hx : (session s rs)[i]? = some x) :
    ∃ r s', rs[i]? = some r ∧ Between (n + i) s' ∧ x = internalSendRecv s' r ∧
      (s'.initiated = true → s.initiated = true ∧
        ∀ j < i, ∃ y p, (session s rs)[j]? = some y ∧ y.outcome = .returned p) := by
  induction rs generalizing s n i with
  | nil => cases hx
  | cons r rs ih =>
    cases i with
    | zero =>
      obtain rfl : internalSendRecv s r = x := Option.some.inj hx
      exact ⟨r, s, rfl, hs, rfl, fun hinit => ⟨hinit, nofun⟩⟩
    | succ i =>
      obtain ⟨hout, heq⟩ := session_succ hx
      rw [heq] at hx ⊢
      have hinv : Inv s r r.events (internalSendRecv s r) := internalSendRecv_inv hs.retries r
      have hbetween : Between (n + 1) (internalSendRecv s r).engine := by
        rcases hout with hfailed | ⟨p, hreturned⟩
        · exact between_of_over (hinv.failed hfailed)
        · exact hs.next hinv hreturned
      obtain ⟨r', s', hr', hs', hx', hearlier⟩ := ih hbetween hx
      rw [Nat.add_right_comm, Nat.add_assoc] at hs'
      refine ⟨r', s', hr', hs', hx', fun hinit => ?_⟩
      obtain ⟨hopen, hall⟩ := hearlier hinit
      -- The session is still open, so the first request was answered.
      obtain ⟨p, hreturned⟩ : ∃ p, (internalSendRecv s r).outcome = .returned p := by
        rcases hout with hfailed | hreturned
        · cases (hinv.failed hfailed).symm.trans hopen
        · exact hreturned
      obtain ⟨-, -, -, -, q, -, -, -, hq, -⟩ := hinv.returned p hreturned
      refine ⟨(hinv.sequence q hq).1, fun j hj => ?_⟩
      cases j with
      | zero => exact ⟨_, p, rfl, hreturned⟩
      | succ j => exact hall j (Nat.lt_of_succ_lt_succ hj)

theorem sequence_ne {j : ℕ} (hlt : i < j) (hclose : j < i + 2 ^ 28) :
    ((240 + UInt32.ofNat i) ||| 0xf0000000) ≠ ((240 + UInt32.ofNat j) ||| 0xf0000000) := by
  have hmod (k : ℕ) : ((240 + UInt32.ofNat k) ||| 0xf0000000).toNat % 2 ^ 28 =
      (240 + k) % 2 ^ 28 := by
    rw [UInt32.toNat_or, Nat.or_mod_two_pow]
    show (240 + UInt32.ofNat k).toNat % 2 ^ 28 ||| 0 = _
    rw [Nat.or_zero, UInt32.toNat_add, UInt32.toNat_ofNat']
    show (240 + k % 2 ^ 32) % 2 ^ 32 % 2 ^ 28 = _
    omega
  intro heq
  have hnat : (240 + i) % 2 ^ 28 = (240 + j) % 2 ^ 28 := by
    rw [← hmod i, ← hmod j, heq]
  omega

theorem Inv.sent_le_maxRt (h : Inv s r es x) : x.sent.length ≤ maxRt := by
  refine h.sent_le.trans ?_
  unfold limit
  split_ifs
  · exact le_rfl
  · decide

theorem Inv.sent_le_maxRtt (h : Inv s r es x) (hpeer : s.initiated = true → s.hasPeer = false) :
    x.sent.length ≤ maxRtt := by
  cases hinit : s.initiated with
  | false =>
    -- The session is over, and nothing was sent.
    have hnil : x.sent = [] := by
      refine eq_nil_iff_forall_not_mem.mpr fun m hm => ?_
      obtain ⟨q, hq, -⟩ := h.carries m hm
      cases hinit.symm.trans (h.sequence q hq).1
    rw [hnil]
    exact Nat.zero_le maxRtt
  | true =>
    refine h.sent_le.trans ?_
    unfold limit
    rw [hpeer hinit]
    exact le_rfl

/-- The payload of a request comes from a datagram with the number of the request. The numbers of 2
^ 28 requests in a row are different. A request is sent at most 8 times, and at most 3 times if none
was answered before; all its messages carry its number. While an exchange waits, it has sent one
message more than there were timeouts. -/
theorem exchange_of_session (now : Option Timeval) (rs : List Request) :
    (∀ (i : ℕ) (r : Request) (x : Exchange) (p : List UInt8), rs[i]? = some r →
      (session (netRUDPInit now) rs)[i]? = some x → x.outcome = .returned p →
        ∃ q d t stamp, x.sequence = some q ∧ .datagram d t stamp ∈ r.events ∧ 8 ≤ d.length ∧
          d.take 4 = be 4 q.toNat ∧ p = (d.drop 8).take r.ol) ∧
    (∀ (i j : ℕ) (x y : Exchange) (q q' : UInt32), i < j → j < i + 2 ^ 28 →
      (session (netRUDPInit now) rs)[i]? = some x →
      (session (netRUDPInit now) rs)[j]? = some y → x.sequence = some q → y.sequence = some q' →
        q ≠ q') ∧
    ∀ (i : ℕ) (r : Request) (x : Exchange), rs[i]? = some r →
      (session (netRUDPInit now) rs)[i]? = some x →
      x.sent.length ≤ 8 ∧
      ((∀ j < i, ∀ y p, (session (netRUDPInit now) rs)[j]? = some y → y.outcome ≠ .returned p) →
        x.sent.length ≤ 3) ∧
      (∀ m ∈ x.sent, ∃ q, x.sequence = some q ∧ m.take 4 = be 4 q.toNat) ∧
      (x.outcome = .waiting → x.sent.length = timeouts r.events + 1) ∧
      (r.outMemory = true ∧ r.inMemory = true →
        (∀ d t stamp, .datagram d t stamp ∈ r.events → 8 ≤ d.length) →
          x.outcome ≠ .undefined) := by
  have hget {i : ℕ} {x : Exchange} (hx : (session (netRUDPInit now) rs)[i]? = some x) :=
    session_getElem rs (between_init now) hx
  refine ⟨fun i r x p hr hx hreturned => ?_, fun i j x y q q' hlt hclose hx hy hq hq' => ?_,
    fun i r x hr hx => ?_⟩
  · obtain ⟨r', s, hr', hs, rfl, -⟩ := hget hx
    cases hr.symm.trans hr'
    exact ((internalSendRecv_inv hs.retries r).returned p hreturned).2.2.2.2
  · obtain ⟨r, s, -, hs, rfl, -⟩ := hget hx
    obtain ⟨r', s', -, hs', rfl, -⟩ := hget hy
    obtain ⟨hinit, rfl⟩ := (internalSendRecv_inv hs.retries r).sequence q hq
    obtain ⟨hinit', rfl⟩ := (internalSendRecv_inv hs'.retries r').sequence q' hq'
    rw [hs.sequence hinit, hs'.sequence hinit', Nat.zero_add, Nat.zero_add]
    exact sequence_ne hlt hclose
  · obtain ⟨r', s, hr', hs, rfl, hearlier⟩ := hget hx
    cases hr.symm.trans hr'
    have hinv := internalSendRecv_inv hs.retries r
    refine ⟨hinv.sent_le_maxRt, fun hnone => ?_, hinv.carries, fun hwaiting => ?_,
      internalSendRecv_defined⟩
    · refine hinv.sent_le_maxRtt fun hinit => Bool.eq_false_iff.mpr fun hpeer => ?_
      have hpos : 0 < i := Nat.zero_add i ▸ (hs.hasPeer hinit).mp hpeer
      obtain ⟨y, p, hy, hreturned⟩ := (hearlier hinit).2 0 hpos
      exact hnone 0 hpos y p hy hreturned
    · obtain ⟨-, -, -, hsent, hretries⟩ := hinv.waiting hwaiting
      rw [hsent, hretries]

end Maiccu.Gogoc.Rudp
