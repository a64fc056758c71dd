import Maiccu.Lib.Bytes
import Maiccu.Lib.Chain
import Maiccu.Lib.Run

/-!
# The ICMP echo engine

`icmp_echo_engine.c` sends echo requests at a fixed interval, keeps an event for each request that
waits for its reply, and ends with a general timeout after a number of requests that nobody
answered. `IEE_process` is a machine here; the clock, the socket, the memory and the calls of
`IEE_stop` are the input of a step. The milliseconds of type `double` are exact here, in
microseconds, the resolution of the clock.
-/

namespace Maiccu.Gogoc.Iee

open Maiccu.Lib Option List

/-! ## Time -/

/-- `struct timeval`. -/
structure Timeval where
  sec : ℤ
  usec : ℤ
  deriving DecidableEq

def Timeval.micros (t : Timeval) : ℤ := 1000000 * t.sec + t.usec

/-- `_compare_tv`, and with the time of the clock `_compute_tv_diff_now`. -/
def compareTv (t₁ t₂ : Timeval) : ℤ := (t₁.sec - t₂.sec) * 1000000 + (t₁.usec - t₂.usec)

theorem compareTv_eq (t₁ t₂ : Timeval) : compareTv t₁ t₂ = t₁.micros - t₂.micros := by
  unfold compareTv Timeval.micros
  ring

/-- `_conv_ms_to_tv` -/
def convMsToTv (d : ℤ) : Timeval := if 0 < d then ⟨d / 1000000, d % 1000000⟩ else ⟨0, 0⟩

theorem convMsToTv_micros (d : ℤ) : (convMsToTv d).micros = max d 0 := by
  unfold convMsToTv Timeval.micros
  split_ifs with h
  · show 1000000 * (d / 1000000) + d % 1000000 = _
    omega
  · show (1000000 * 0 + 0 : ℤ) = _
    omega

def Timeval.addMs (t : Timeval) (ms : UInt32) : Timeval :=
  ⟨t.sec + (ms.toNat / 1000 : ℕ), t.usec + ((ms.toNat % 1000) * 1000 : ℕ)⟩

theorem Timeval.micros_addMs (t : Timeval) (ms : UInt32) :
    (t.addMs ms).micros = t.micros + 1000 * ms.toNat := by
  show 1000000 * (t.sec + (ms.toNat / 1000 : ℕ)) + (t.usec + ((ms.toNat % 1000) * 1000 : ℕ)) =
    1000000 * t.sec + t.usec + 1000 * ms.toNat
  omega

/-- The loop on `tv_usec` in `_compute_echo_timeout`; `n` bounds its turns. -/
def carry : ℕ → Timeval → Timeval
  | 0, t => t
  | n + 1, t => if 1000000 < t.usec then carry n ⟨t.sec + 1, t.usec - 1000000⟩ else t

theorem micros_carry (n : ℕ) (t : Timeval) : (carry n t).micros = t.micros := by
  induction n generalizing t with
  | zero => rfl
  | succ n ih =>
    unfold carry
    split_ifs
    · rw [ih]
      show 1000000 * (t.sec + 1) + (t.usec - 1000000) = 1000000 * t.sec + t.usec
      ring
    · rfl

def echoDue (timeout : UInt32) (t : Timeval) : Timeval :=
  carry ((t.addMs timeout).usec / 1000000).toNat (t.addMs timeout)

theorem micros_echoDue (timeout : UInt32) (t : Timeval) :
    (echoDue timeout t).micros = t.micros + 1000 * timeout.toNat := by
  unfold echoDue
  rw [micros_carry, Timeval.micros_addMs]

/-! ## The engine -/

/-- `iee_mode_t` -/
inductive Mode where
  | other
  | ka
  | acd
  deriving DecidableEq

/-- `AF_INET` and `AF_INET6`. -/
inductive Family where
  | inet
  | inet6
  deriving DecidableEq

/-- `iee_ret_t` -/
inductive Ret where
  | success
  | invalidParms
  | resourceStarvation
  | connectivityAssessed
  | generalEchoTimeout
  | generalEchoError
  deriving DecidableEq

/-- `ECHO_EVENT` -/
structure EchoEvent where
  echoSeq : UInt16
  tvTimeout : Timeval
  deriving DecidableEq

/-- `ICMP_ECHO_ENGINE_PARMS`, without the callbacks, the socket and the addresses. -/
structure Engine where
  sendInterval : UInt32
  echoNum : UInt32
  echoTimeout : UInt32
  echoTimeoutThreshold : UInt32
  engMode : Mode
  engOngoing : Bool
  countSend : UInt32
  countOntime : UInt32
  countLate : UInt32
  countConsecLate : UInt8
  events : Cells EchoEvent
  icmpEchoId : UInt16
  icmpSaf : Family

def Engine.init (mode : Mode) (sendInterval echoNum echoTimeout : UInt32)
    (echoTimeoutThreshold : UInt8) (id : UInt16) (af : Family) : Engine where
  sendInterval := sendInterval
  echoNum := echoNum
  echoTimeout := echoTimeout
  echoTimeoutThreshold := echoTimeoutThreshold.toUInt32
  engMode := mode
  engOngoing := true
  countSend := 0
  countOntime := 0
  countLate := 0
  countConsecLate := 0
  events := ⟨none, []⟩
  icmpEchoId := id
  icmpSaf := af

/-- The engine of the keepalive, as `KA_init` sets it up. -/
def keepalive (sendInterval : UInt32) (id : UInt16) (af : Family) : Engine :=
  .init .ka sendInterval 0 5000 3 id af

/-- `IEE_stop` may have run in another thread. -/
def Engine.stopIf (e : Engine) (stop : Bool) : Engine :=
  { e with engOngoing := e.engOngoing && !stop }

/-! ## The list of events -/

/-- An event that is not due later than the current one is linked behind it and gets it as its own
successor: the pointer to the current event is not changed. None if a freed event is touched, or if
the loop has no end; `fuel` is more than there are events. -/
def insertLoop (k : ℕ) (m : Cells EchoEvent) : ℕ → Slot → Option (Cells EchoEvent)
  | 0, _ => none
  | fuel + 1, pp => do
    match ← m.get pp with
    | none =>
      let m ← m.set pp (some k)
      m.set (.next k) none
    | some a =>
      let new ← m.node k
      let cur ← m.node a
      if 0 < compareTv new.val.tvTimeout cur.val.tvTimeout then insertLoop k m fuel (.next a)
      else
        let m ← m.set (.next k) (some a)
        m.set (.next a) (some k)

/-- `_insert_echo_event` -/
def insertEchoEvent (m : Cells EchoEvent) (k : ℕ) : Option (Cells EchoEvent) :=
  insertLoop k m (m.size + 1) .head

/-- The loop of `_remove_free_echo_event`, with the event that was found. -/
def removeLoop (seq : UInt16) (m : Cells EchoEvent) : ℕ → Slot → Option (Cells EchoEvent × Option ℕ)
  | 0, _ => none
  | fuel + 1, pp => do
    match ← m.get pp with
    | none => some (m, none)
    | some a =>
      let cur ← m.node a
      if cur.val.echoSeq = seq then
        let m ← m.set pp cur.next
        some (m.free a, some a)
      else removeLoop seq m fuel (.next a)

/-- `_remove_free_echo_event` -/
def removeFreeEchoEvent (m : Cells EchoEvent) (seq : UInt16) :
    Option (Cells EchoEvent × Option ℕ) :=
  removeLoop seq m (m.size + 1) .head

/-! ## Sending -/

/-- What a step does to a request. The number of a request is that of its event. -/
inductive Obs where
  | sent (k : ℕ)
  /-- The request is counted, but there is no memory for its event. -/
  | starved
  /-- The request is counted as late. -/
  | expired (k : ℕ)
  /-- A reply on time, to a request with a pending event or to another one. -/
  | answered (k : Option ℕ)
  | none
  deriving DecidableEq

/-- What the world does while a request is sent. -/
structure Request where
  /-- `IEE_stop` runs before the test of the main loop. -/
  stop : Bool
  now : Timeval
  /-- `pal_malloc` returns null. -/
  starved : Bool
  /-- `sendto` does not send the whole packet. -/
  refused : Bool
  /-- `IEE_stop` runs before the test after sending. -/
  stopSent : Bool
  nowRef : Timeval
  nowLeft : Timeval

variable (e : Engine)

def Engine.setEchoTimeout : Engine :=
  if e.engMode = .acd then { e with echoTimeout := e.sendInterval * (e.echoNum - e.countSend) }
  else e

/-- `(p_engine->count_send)++` -/
def Engine.countRequest : Engine := { e with countSend := e.countSend + 1 }

def Engine.nextEvent (now : Timeval) : EchoEvent :=
  ⟨e.countSend.toUInt16, echoDue e.countRequest.setEchoTimeout.echoTimeout now⟩

/-- `_do_send_wrap` around `_do_send`. None if the list of events is damaged. -/
def doSend (r : Request) : Option (Engine × Ret × Obs) :=
  if r.starved then some (e.countRequest, .resourceStarvation, .starved)
  else
    (insertEchoEvent (e.events.alloc (e.nextEvent r.now)) e.events.size).map fun m =>
      ({ e.countRequest.setEchoTimeout with events := m },
        if r.refused then .generalEchoError else .success, .sent e.events.size)

/-! ## Reading -/

/-- `ICMP_ECHO_HEADER`, without the checksum, and the time behind it. -/
structure EchoHeader where
  icmpType : UInt8
  icmpCode : UInt8
  echoId : UInt16
  echoSeq : UInt16
  echoData : Timeval

def ofLe (b : List UInt8) : ℕ := ofBe b.reverse

variable (buf : Bytes 2048)

def headerAt (off : ℕ) : EchoHeader where
  icmpType := buf.toList.getD off 0
  icmpCode := buf.toList.getD (off + 1) 0
  echoId := .ofNat (ofLe (slice buf.toList (off + 4) 2))
  echoSeq := .ofNat (ofLe (slice buf.toList (off + 6) 2))
  echoData :=
    ⟨Int.bmod (ofLe (slice buf.toList (off + 8) 8)) (2 ^ 64),
      Int.bmod (ofLe (slice buf.toList (off + 16) 4)) (2 ^ 32)⟩

def ipLen : UInt8 := (buf.toList.getD 0 0 &&& 0x0F) <<< 2

/-- The header that `_decode_icmp_packet` goes on with, if the version and the length let it. The
length is compared as a `size_t`. -/
def icmpHdr (af : Family) (buf : Bytes 2048) (len : ℕ) : Option EchoHeader :=
  match af with
  | .inet =>
    if (buf.toList.getD 0 0 &&& 0xF0) >>> 4 ≠ 4 then none
    else if UInt64.ofNat len - (ipLen buf).toUInt64 < 8 then none
    else some (headerAt buf (ipLen buf).toNat)
  | .inet6 => if len < 8 then none else some (headerAt buf 0)

/-- `ICMP4_ECHO_REPLY_TYPE` and `ICMP6_ECHO_REPLY_TYPE`. -/
def Family.replyType : Family → UInt8
  | .inet => 0
  | .inet6 => 129

/-- What `_do_read` returns. -/
inductive ReadRet where
  | selectError
  | selectTimeout
  | socketClosed
  | recvError
  | packetBad
  | packetIgnored
  | pinginLate (seq : UInt16)
  | pinginOntime (seq : UInt16)
  | generalEchoError
  deriving DecidableEq

/-- The round trip of the reply, computed at the time `now`, took longer than the timeout. -/
def Engine.IsLate (h : EchoHeader) (now : Timeval) : Prop :=
  1000 * (e.echoTimeout.toNat : ℤ) < -compareTv h.echoData now

instance (e : Engine) (h : EchoHeader) (now : Timeval) : Decidable (e.IsLate h now) :=
  inferInstanceAs (Decidable (_ < _))

/-- `now` is the time at which the round trip is computed. Every type of message but the reply is
ignored. -/
def decodeIcmpPacket (len : ℕ) (now : Timeval) : ReadRet :=
  match icmpHdr e.icmpSaf buf len with
  | none => .packetBad
  | some h =>
    if h.icmpType ≠ e.icmpSaf.replyType then .packetIgnored
    else if h.icmpCode ≠ 0 then .generalEchoError
    else if h.echoId ≠ e.icmpEchoId then .packetIgnored
    else if e.IsLate h now then .pinginLate h.echoSeq
    else .pinginOntime h.echoSeq

/-- How `select` and, where there is something to read, `recv` return. -/
inductive Select where
  | timeout
  /-- `recv` stores `len` bytes at the start of the buffer. -/
  | packet (buf : Bytes 2048) (len : ℕ)
  /-- `recv` returns -1. -/
  | recvFailed
  /-- `recv` returns 0. -/
  | recvEmpty
  /-- `EINTR` -/
  | interrupted
  /-- `EBADF` -/
  | badFd
  | failed
  deriving DecidableEq

/-- What the world does during one turn of the loop in `_do_read_wrap`. -/
structure Wait where
  nowDelay : Timeval
  select : Select
  /-- `IEE_stop` runs before `select` returns. -/
  stop : Bool
  nowBack : Timeval
  nowRtt : Timeval
  nowLeft : Timeval
  /-- `IEE_stop` runs before the test of the loop. -/
  stopLeft : Bool

/-- `_do_read` -/
def doRead (w : Wait) : ReadRet :=
  match w.select with
  | .timeout => .selectTimeout
  | .packet buf len => decodeIcmpPacket e buf len w.nowRtt
  | .recvFailed => if e.engOngoing then .recvError else .socketClosed
  | .recvEmpty => .recvError
  | .interrupted => .selectTimeout
  | .badFd => if e.engOngoing then .selectError else .socketClosed
  | .failed => .selectError

def Engine.lastReply : Engine :=
  if e.echoNum ≠ 0 ∧ e.echoNum ≤ e.countSend then { e with engOngoing := false } else e

def Engine.assess : Engine × Ret :=
  if e.engMode = .acd then ({ e with engOngoing := false }, .connectivityAssessed)
  else (e, .success)

def Engine.expire (m : Cells EchoEvent) : Engine :=
  { e with countLate := e.countLate + 1, countConsecLate := e.countConsecLate + 1, events := m }

/-- A reply has come on time, for the pending event `k` or for none. -/
def Engine.answer (m : Cells EchoEvent) (k : Option ℕ) : Engine :=
  { e with
    countConsecLate := 0
    countOntime := e.countOntime + 1
    countLate := if k = none then e.countLate - 1 else e.countLate
    events := m }

/-- The switch in `_do_read_wrap`. None if the list of events is damaged. -/
def onRead (timeLeft readDelay : ℤ) : ReadRet → Option (Engine × Ret × Obs)
  | .packetBad | .packetIgnored => some (e, .success, .none)
  | .selectTimeout =>
    match e.events.head with
    | none => some (e, .success, .none)
    | some a =>
      if readDelay < timeLeft then do
        let l ← e.events.node a
        let (m, _) ← removeFreeEchoEvent e.events l.val.echoSeq
        some (e.expire m, .success, .expired a)
      else some (e, .success, .none)
  | .pinginOntime seq => do
    let (m, k) ← removeFreeEchoEvent e.events seq
    let e := e.answer m k
    some (e.assess.1.lastReply, e.assess.2, .answered k)
  | .pinginLate _ => some (e.lastReply, .success, .none)
  | .socketClosed => some ({ e with engOngoing := false }, .success, .none)
  | .selectError | .recvError | .generalEchoError =>
    some ({ e with engOngoing := false }, .generalEchoError, .none)

/-- The time until the first event runs out, or the interval if there is none. -/
def readDelay (now : Timeval) : Option ℤ :=
  match e.events.head with
  | none => some (1000 * e.sendInterval.toNat)
  | some a => (e.events.node a).map fun l => compareTv l.val.tvTimeout now

def checkTimeouts (ret : Ret) : Engine × Ret :=
  if e.echoTimeoutThreshold ≤ e.countConsecLate.toUInt32 then
    ({ e with engOngoing := false }, .generalEchoTimeout)
  else (e, ret)

/-- One turn of the loop in `_do_read_wrap`, up to the new time left. -/
def readTurn (timeLeft : ℤ) (w : Wait) : Option (Engine × Ret × Obs) := do
  let delay ← readDelay e w.nowDelay
  let e := e.stopIf w.stop
  let (e, ret, obs) ← onRead e timeLeft delay (doRead e w)
  let (e, ret) := checkTimeouts e ret
  some (e, ret, obs)

/-! ## The process -/

/-- Where `IEE_process` is. -/
inductive Pc where
  /-- Before the first request, with some milliseconds to sleep. -/
  | sleeping (left : UInt32)
  /-- At the test of the main loop. -/
  | top
  /-- In the loop of `_do_read_wrap`. -/
  | reading (tvRef : Timeval) (timeLeft : ℤ)
  | done (ret : Ret)
  /-- A freed event was touched, or a walk through the list has no end. -/
  | fault
  deriving DecidableEq

structure Process where
  engine : Engine
  pc : Pc

def Process.start : Process :=
  ⟨e, if e.engMode = .ka then .sleeping e.sendInterval else .top⟩

/-- The input of a step. -/
inductive Input where
  | nap (stop : Bool)
  | request (r : Request)
  | wait (w : Wait)

def nap (left : UInt32) : Pc :=
  if e.engOngoing ∧ 0 < left then .sleeping (left - if 1000 < left then 1000 else left) else .top

def send (r : Request) : Process × Obs :=
  let e := e.stopIf r.stop
  if e.engOngoing ∧ (e.echoNum = 0 ∨ e.countSend < e.echoNum) then
    match doSend e r with
    | none => (⟨e, .fault⟩, .none)
    | some (e, ret, obs) =>
      let e := e.stopIf r.stopSent
      if ret ≠ .success then (⟨e, .done ret⟩, obs)
      else if e.engOngoing = false then (⟨e, .done .success⟩, obs)
      else
        let tvRef := r.nowRef.addMs e.sendInterval
        let timeLeft := compareTv tvRef r.nowLeft
        (⟨e, if timeLeft ≤ 0 then .top else .reading tvRef timeLeft⟩, obs)
  else (⟨e, .done .success⟩, .none)

def read (tvRef : Timeval) (timeLeft : ℤ) (w : Wait) : Process × Obs :=
  match readTurn e timeLeft w with
  | none => (⟨e, .fault⟩, .none)
  | some (e, ret, obs) =>
    let e := e.stopIf w.stopLeft
    let left := compareTv tvRef w.nowLeft
    (⟨e, if 0 < left ∧ e.engOngoing then .reading tvRef left
      else if ret = .success then .top else .done ret⟩, obs)

/-- A step of `IEE_process`; none if the input is not one the process waits for. -/
def step (s : Process) (i : Input) : Option (Process × Obs) :=
  match s.pc, i with
  | .sleeping left, .nap stop =>
    some (⟨s.engine.stopIf stop, nap (s.engine.stopIf stop) left⟩, .none)
  | .top, .request r => some (send s.engine r)
  | .reading tvRef timeLeft, .wait w => some (read s.engine tvRef timeLeft w)
  | _, _ => none

/-! ## Lists in good order -/

/-- The events that are pending: a list without a cycle, in the order of the requests. -/
structure Pending (m : Cells EchoEvent) (xs : List (ℕ × EchoEvent)) : Prop where
  chain : ChainAt m .head xs
  sorted : xs.Pairwise fun x y => x.1 < y.1

section Lists

variable {m : Cells EchoEvent} {xs pre : List (ℕ × EchoEvent)} {s : Slot} {k n : ℕ} {v : EchoEvent}

section

variable (h : Pending m xs)
include h

theorem Pending.nodup : (xs.map Prod.fst).Nodup := by
  rw [Nodup, pairwise_map]
  exact h.sorted.imp fun hlt => hlt.ne

theorem Pending.length_le : xs.length ≤ m.size := h.chain.length_le h.nodup

theorem Pending.node_of_mem {x : ℕ × EchoEvent} (hx : x ∈ xs) :
    ∃ q, m.node x.1 = some ⟨x.2, q⟩ := by
  obtain ⟨l, hl, hv⟩ := map_eq_some_iff.mp (h.chain.val_of_mem x hx)
  exact ⟨l.next, by rw [hl, ← hv]⟩

end

theorem insertLoop_append (h : ChainAt m s (pre ++ xs)) (hk : (m.node k).map Link.val = some v)
    (hlater : ∀ x ∈ pre, x.2.tvTimeout.micros < v.tvTimeout.micros) :
    insertLoop k m (n + pre.length) s = insertLoop k m n (s.last pre) ∧
      ChainAt m (s.last pre) xs := by
  obtain ⟨l, hl, hlv⟩ := map_eq_some_iff.mp hk
  induction pre generalizing s with
  | nil => exact ⟨rfl, h⟩
  | cons x pre ih =>
    obtain ⟨a, w⟩ := x
    obtain ⟨hget, hw, htail⟩ := chainAt_cons.mp h
    obtain ⟨c, hc, hcw⟩ := map_eq_some_iff.mp hw
    rw [forall_mem_cons] at hlater
    have hcmp : 0 < compareTv l.val.tvTimeout c.val.tvTimeout := by
      rw [compareTv_eq, hlv, hcw]
      have := hlater.1
      simp only at this
      omega
    rw [Slot.last_cons]
    refine ⟨?_, (ih htail hlater.2).2⟩
    rw [← (ih htail hlater.2).1, length_cons, ← Nat.add_assoc]
    simp [insertLoop, hget, hl, hc, hcmp]

theorem insertLoop_chain (h : ChainAt m .head xs) (hnodup : (xs.map Prod.fst).Nodup)
    (hk : k ∉ xs.map Prod.fst) (hnode : m.node k = some ⟨v, none⟩)
    (hlater : ∀ x ∈ xs, x.2.tvTimeout.micros < v.tvTimeout.micros) (hfuel : xs.length < n) :
    ∃ m', insertLoop k m n .head = some m' ∧ ChainAt m' .head (xs ++ [(k, v)]) ∧
      m'.size = m.size := by
  obtain ⟨i, rfl⟩ : ∃ i, n = i + 1 + xs.length := ⟨n - 1 - xs.length, by omega⟩
  obtain ⟨hloop, hend⟩ := insertLoop_append (by rwa [append_nil]) (by rw [hnode]; rfl) hlater
  obtain ⟨m', hset⟩ := Cells.exists_set hend.nil (some k)
  have hr := Cells.relinked_of_set hset
  have hnext : m'.get (.next k) = some none := by
    rw [Cells.get, hr.node (Slot.last_ne (by simp) hk).symm, hnode]
    rfl
  refine ⟨m', ?_, h.concat hnodup hnode hk hset, hr.size⟩
  rw [hloop]
  simp [insertLoop, hend.nil, hset, Cells.set_eq_self hnext]

theorem insertLoop_cycle (h : ChainAt m .head xs) (hnodup : (xs.map Prod.fst).Nodup)
    (hk : k ∉ xs.map Prod.fst) (hnode : m.node k = some ⟨v, none⟩)
    (hearly : ∃ x ∈ xs, v.tvTimeout.micros ≤ x.2.tvTimeout.micros) (hfuel : xs.length < n) :
    ∃ m', insertLoop k m n .head = some m' ∧ ∀ ys, ¬ChainAt m' .head ys := by
  -- the first event that is not due before the new one
  obtain ⟨x, hx⟩ : ∃ x, xs.find? (fun x => v.tvTimeout.micros ≤ x.2.tvTimeout.micros) = some x := by
    rw [← isSome_iff_exists, find?_isSome]
    simpa using hearly
  obtain ⟨hle, pre, post, rfl, hpre⟩ := List.find?_eq_some_iff_append.mp hx
  obtain ⟨a, w⟩ := x
  obtain ⟨i, rfl⟩ : ∃ i, n = i + 1 + pre.length :=
    ⟨n - 1 - pre.length, by rw [length_append, length_cons] at hfuel; omega⟩
  obtain ⟨hloop, hat⟩ := insertLoop_append h (by rw [hnode]; rfl)
    (fun x hx => by simpa using hpre x hx)
  obtain ⟨hget, hw, -⟩ := chainAt_cons.mp hat
  obtain ⟨c, hc, hcw⟩ := map_eq_some_iff.mp hw
  simp only [map_append, map_cons, mem_append, mem_cons, not_or] at hk
  have hka : Slot.next a ≠ Slot.next k := fun heq => hk.2.1 (Slot.next.inj heq).symm
  obtain ⟨m₁, h₁⟩ := Cells.exists_set (m := m) (s := .next k) (q := none)
    (by rw [Cells.get, hnode]; rfl) (some a)
  have hr₁ := Cells.relinked_of_set h₁
  have hgeta : m₁.get (.next a) = some c.next := by
    rw [hr₁.get _ hka, Cells.get, hc]
    rfl
  obtain ⟨m₂, h₂⟩ := Cells.exists_set hgeta (some k)
  have hr₂ := Cells.relinked_of_set h₂
  have hcmp : ¬0 < compareTv v.tvTimeout c.val.tvTimeout := by
    rw [compareTv_eq, hcw]
    simp only [decide_eq_true_eq] at hle
    omega
  have ha : a ∉ pre.map Prod.fst := by
    rw [map_append, nodup_append] at hnodup
    exact fun ha => hnodup.2.2 a ha a (by simp) rfl
  have hsame : ∀ t, t ≠ .next k → t ≠ .next a → m₂.get t = m.get t :=
    fun t htk hta => (hr₂.get t hta).trans (hr₁.get t htk)
  refine ⟨m₂, ?_, fun ys hys => ?_⟩
  · rw [hloop]
    simp [insertLoop, hget, hnode, hc, hcmp, h₁, h₂]
  · obtain ⟨zs, hzs⟩ := h.exists_last hys (hsame _ (by simp) (by simp)) fun x hx =>
      hsame _ (fun heq => hk.1 (mem_map.mpr ⟨x, hx, Slot.next.inj heq⟩))
        fun heq => ha (mem_map.mpr ⟨x, hx, Slot.next.inj heq⟩)
    have hlast : m₂.get (Slot.head.last pre) = some (some a) :=
      (hsame _ (Slot.last_ne (by simp) hk.1) (Slot.last_ne (by simp) ha)).trans hget
    obtain ⟨ys, -, hys⟩ := hzs.exists_tail hlast
    exact not_chain_of_cycle (Cells.get_of_set h₂)
      ((hr₂.get _ hka.symm).trans (Cells.get_of_set h₁)) (ys.length + 1) ys (by omega) hys

theorem removeLoop_eq (seq : UInt16) (m : Cells EchoEvent) (n : ℕ) (s : Slot) :
    removeLoop seq m n s =
      (m.removeFirst (fun e => e.echoSeq = seq) n s).map fun x => (x.1, x.2.map Prod.fst) := by
  induction n generalizing s with
  | zero => rfl
  | succ n ih =>
    rw [removeLoop, Cells.removeFirst]
    rcases hget : m.get s with _ | _ | a
    · rfl
    · rfl
    · rcases hc : m.node a with _ | c
      · simp [hc]
      · by_cases hseq : c.val.echoSeq = seq
        · cases hset : m.set s c.next <;> simp [hc, hseq, hset]
        · simp [hc, hseq, ih]

variable (h : Pending m xs)
include h

theorem Pending.length_lt (v : EchoEvent) : xs.length < (m.alloc v).size + 1 := by
  have := h.length_le
  rw [Cells.size_alloc]
  omega

theorem Pending.insert_cycle (hearly : ∃ x ∈ xs, v.tvTimeout.micros ≤ x.2.tvTimeout.micros) :
    ∃ m', insertEchoEvent (m.alloc v) m.size = some m' ∧ ∀ ys, ¬ChainAt m' .head ys := by
  exact insertLoop_cycle (h.chain.alloc v) h.nodup h.chain.size_notMem (m.node_alloc_size v) hearly
    (h.length_lt v)

theorem Pending.insert (hlater : ∀ x ∈ xs, x.2.tvTimeout.micros < v.tvTimeout.micros) :
    ∃ m', insertEchoEvent (m.alloc v) m.size = some m' ∧ Pending m' (xs ++ [(m.size, v)]) ∧
      m'.size = m.size + 1 := by
  obtain ⟨m', hm', hchain', hsize⟩ := insertLoop_chain (h.chain.alloc v) h.nodup h.chain.size_notMem
    (m.node_alloc_size v) hlater (h.length_lt v)
  rw [Cells.size_alloc] at hsize
  refine ⟨m', hm', ⟨hchain', pairwise_append.mpr ⟨h.sorted, pairwise_singleton _ _, ?_⟩⟩, hsize⟩
  intro x hx y hy
  rw [mem_singleton.mp hy]
  exact h.chain.lt x hx

theorem Pending.remove (seq : UInt16) : ∃ m', removeFreeEchoEvent m seq =
        some (m', (xs.find? fun x => x.2.echoSeq = seq).map Prod.fst) ∧
      Pending m' (xs.eraseP fun x => x.2.echoSeq = seq) ∧ m'.size = m.size := by
  obtain ⟨m', hm', hrem⟩ := Cells.removeFirst_chain (fun e => e.echoSeq = seq) (n := m.size + 1)
    h.chain Slot.outside_head h.nodup (Nat.lt_succ_of_le h.length_le)
  refine ⟨m', ?_, ⟨hrem.chain, h.sorted.sublist (eraseP_sublist ..)⟩, hrem.size⟩
  rw [removeFreeEchoEvent, removeLoop_eq, hm']
  rfl

end Lists

/-! ## Packets of others -/

/-- The identifier in a packet that has a whole ICMP header. -/
def carriedId (af : Family) (buf : Bytes 2048) (len : ℕ) : Option UInt16 :=
  match af with
  | .inet =>
    if (ipLen buf).toNat + 8 ≤ len then some (headerAt buf (ipLen buf).toNat).echoId else none
  | .inet6 => if 8 ≤ len then some (headerAt buf 0).echoId else none

/-- The IPv4 header is in the packet. -/
def Whole (af : Family) (buf : Bytes 2048) (len : ℕ) : Prop := af = .inet → (ipLen buf).toNat ≤ len

/-- The engine goes on, with the counters and the events of `e`. -/
def Harmless (e : Engine) (r : Option (Engine × Ret × Obs)) : Prop :=
  ∃ e' ret obs, r = some (e', ret, obs) ∧ ret ≠ .generalEchoError ∧
    e'.countSend = e.countSend ∧ e'.countOntime = e.countOntime ∧ e'.countLate = e.countLate ∧
    e'.countConsecLate = e.countConsecLate ∧ e'.events = e.events

variable {e}

theorem harmless_same : Harmless e (some (e, .success, .none)) :=
  ⟨e, .success, .none, rfl, by decide, rfl, rfl, rfl, rfl, rfl⟩

variable {seq : UInt16} {timeLeft : ℤ}

theorem harmless_late {readDelay : ℤ} :
    Harmless e (onRead e timeLeft readDelay (.pinginLate seq)) := by
  refine ⟨e.lastReply, .success, .none, rfl, by decide, ?_⟩
  unfold Engine.lastReply
  split_ifs <;> exact ⟨rfl, rfl, rfl, rfl, rfl⟩

theorem not_harmless_error {readDelay : ℤ} :
    ¬Harmless e (onRead e timeLeft readDelay .generalEchoError) := by
  rintro ⟨e', ret, obs, hr, hret, -⟩
  obtain ⟨-, hret', -⟩ := by simpa [onRead] using hr
  exact hret hret'.symm

theorem Engine.lastReply_countOntime (e : Engine) : e.lastReply.countOntime = e.countOntime := by
  unfold Engine.lastReply
  split_ifs <;> rfl

theorem Engine.assess_countOntime (e : Engine) : e.assess.1.countOntime = e.countOntime := by
  unfold Engine.assess
  split_ifs <;> rfl

theorem not_harmless_ontime {readDelay : ℤ} :
    ¬Harmless e (onRead e timeLeft readDelay (.pinginOntime seq)) := by
  rintro ⟨e', ret, obs, hr, -, -, hontime, -⟩
  obtain ⟨⟨m, k⟩, -, h⟩ := bind_eq_some_iff.mp hr
  obtain ⟨rfl, -⟩ := Prod.mk.inj (some.inj h)
  rw [Engine.lastReply_countOntime, Engine.assess_countOntime] at hontime
  have := congrArg UInt32.toNat hontime
  rw [Engine.answer, UInt32.toNat_add] at this
  have hlt := e.countOntime.toNat_lt
  simp only [UInt32.reduceToNat] at this
  omega

theorem add_eight_le {len : ℕ} {n : UInt8} (h : n.toNat ≤ len)
    (h' : ¬UInt64.ofNat len - n.toUInt64 < 8) : n.toNat + 8 ≤ len := by
  have hn := n.toNat_lt
  rw [UInt64.lt_iff_toNat_lt, UInt64.toNat_sub, UInt64.toNat_ofNat', UInt8.toNat_toUInt64] at h'
  simp only [UInt64.reduceToNat] at h'
  omega

theorem carriedId_of_icmpHdr {af : Family} {buf : Bytes 2048} {len : ℕ} {h : EchoHeader}
    (hwhole : Whole af buf len) (hh : icmpHdr af buf len = some h) :
    carriedId af buf len = some h.echoId := by
  cases af with
  | inet =>
    simp only [icmpHdr] at hh
    split_ifs at hh with h₁ h₂
    have hle := add_eight_le (hwhole rfl) h₂
    rw [carriedId, if_pos hle, ← some.inj hh]
  | inet6 =>
    simp only [icmpHdr] at hh
    split_ifs at hh with h₁
    rw [carriedId, if_pos (by omega), ← some.inj hh]

/-- A packet with a foreign identifier, or with none, does no harm unless it is a reply whose code
is not zero: the code is looked at before the identifier. In an IPv4 packet that ends inside its IP
header the difference of the lengths is below zero and passes for a large one, and what an earlier
packet left in the buffer is taken for the header. -/
theorem foreign_packet_harmless_iff {w : Wait} {buf : Bytes 2048} {len : ℕ}
    (timeLeft readDelay : ℤ) (hselect : w.select = .packet buf len)
    (hforeign : carriedId e.icmpSaf buf len ≠ some e.icmpEchoId) :
    Harmless e (onRead e timeLeft readDelay (doRead e w)) ↔
      ∀ h, icmpHdr e.icmpSaf buf len = some h → h.icmpType = e.icmpSaf.replyType → h.icmpCode = 0 ∧
          (¬Whole e.icmpSaf buf len → h.echoId = e.icmpEchoId → e.IsLate h w.nowRtt) := by
  have hread : doRead e w = decodeIcmpPacket e buf len w.nowRtt := by rw [doRead, hselect]
  rw [hread, decodeIcmpPacket]
  cases hh : icmpHdr e.icmpSaf buf len with
  | none => exact iff_of_true harmless_same nofun
  | some h =>
    simp only [Option.some.injEq, forall_eq']
    by_cases htype : h.icmpType = e.icmpSaf.replyType
    swap
    · rw [if_pos htype]
      exact iff_of_true harmless_same fun hx => absurd hx htype
    rw [if_neg (not_not.mpr htype)]
    by_cases hcode : h.icmpCode = 0
    swap
    · rw [if_pos hcode]
      exact iff_of_false not_harmless_error fun hx => hcode (hx htype).1
    rw [if_neg (not_not.mpr hcode)]
    by_cases hid : h.echoId = e.icmpEchoId
    swap
    · rw [if_pos hid]
      exact iff_of_true harmless_same fun _ => ⟨hcode, fun _ hx => absurd hx hid⟩
    -- the engine's own identifier can only have been left there by another packet
    have hpart : ¬Whole e.icmpSaf buf len := by
      intro hwhole
      apply hforeign
      rw [carriedId_of_icmpHdr hwhole hh, hid]
    rw [if_neg (not_not.mpr hid)]
    by_cases hlate : e.IsLate h w.nowRtt
    · rw [if_pos hlate]
      exact iff_of_true harmless_late fun _ => ⟨hcode, fun _ _ => hlate⟩
    · rw [if_neg hlate]
      exact iff_of_false not_harmless_ontime fun hx => hlate ((hx htype).2 hpart hid)

/-- An ICMPv6 reply to the request `seq` of the engine `id`, which was sent at the time 0. -/
def sampleReply (code id seq : UInt8) : Bytes 2048 :=
  ⟨[129, code, 0, 0, id, 0, seq, 0] ++ replicate 2040 0, by
    rw [length_append, length_replicate]; rfl⟩

def sampleWait (select : Select) (t₁ t₂ : Timeval) : Wait where
  nowDelay := t₁
  select := select
  stop := false
  nowBack := t₂
  nowRtt := t₂
  nowLeft := t₂
  stopLeft := false

theorem foreign_packet_harmless_iff_reply : carriedId .inet6 (sampleReply 0 8 0) 24 ≠ some 7 ∧
      Harmless (keepalive 1000 7 .inet6) (onRead (keepalive 1000 7 .inet6) 1000000 1000000
        (doRead (keepalive 1000 7 .inet6)
          (sampleWait (.packet (sampleReply 0 8 0) 24) ⟨0, 0⟩ ⟨0, 1000⟩))) := by
  have hforeign : carriedId .inet6 (sampleReply 0 8 0) 24 ≠ some 7 := by decide +kernel
  refine ⟨hforeign, (foreign_packet_harmless_iff 1000000 1000000 rfl hforeign).mpr fun h hh _ => ?_⟩
  have hcode : (icmpHdr .inet6 (sampleReply 0 8 0) 24).all (fun h => h.icmpCode = 0) = true := by
    decide +kernel
  have hwhole : Whole .inet6 (sampleReply 0 8 0) 24 := nofun
  refine ⟨?_, fun hpart => absurd hwhole hpart⟩
  rw [show icmpHdr .inet6 (sampleReply 0 8 0) 24 = some h from hh] at hcode
  simpa using hcode

theorem foreign_reply_ends_engine : carriedId .inet6 (sampleReply 1 8 0) 24 = some 8 ∧
      ((onRead (keepalive 1000 7 .inet6) 1000000 1000000 (doRead (keepalive 1000 7 .inet6)
        (sampleWait (.packet (sampleReply 1 8 0) 24) ⟨0, 0⟩ ⟨0, 1000⟩))).any fun x =>
          x.2.1 = .generalEchoError ∧ x.1.engOngoing = false) = true ∧
      ¬Harmless (keepalive 1000 7 .inet6) (onRead (keepalive 1000 7 .inet6) 1000000 1000000
        (doRead (keepalive 1000 7 .inet6)
          (sampleWait (.packet (sampleReply 1 8 0) 24) ⟨0, 0⟩ ⟨0, 1000⟩))) := by
  refine ⟨by decide +kernel, by decide +kernel, ?_⟩
  have hret : doRead (keepalive 1000 7 .inet6)
      (sampleWait (.packet (sampleReply 1 8 0) 24) ⟨0, 0⟩ ⟨0, 1000⟩) = .generalEchoError := by
    decide +kernel
  exact not_harmless_error

end Maiccu.Gogoc.Iee
