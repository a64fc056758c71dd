import Maiccu.Teredo.Packets

/-!
# Peers

The record that a relay keeps for a peer: `teredo_peer` of `peerlist.h` with its queue of packets,
and the counters of `relay.c` that limit pings and bubbles. A clock value is an `unsigned long`, so
differences wrap.
-/

namespace Maiccu.Teredo

open Maiccu.Lib

/-- A packet of a `teredo_queue`. For an incoming one `ipv4` and `port` are where it came from. -/
structure Queued where
  data : List UInt8
  ipv4 : Ipv4
  port : Port
  incoming : Bool
  deriving DecidableEq

/-- `teredo_peer`. -/
structure Peer where
  /-- The last packet queued comes first. -/
  queue : List Queued
  queueLeft : ℕ
  lastRx : UInt64
  lastTx : UInt64
  lastPing : UInt64
  mappedAddr : Ipv4
  mappedPort : Port
  trusted : Bool
  isLocal : Bool
  bubbles : Fin 8
  pings : Fin 8
  deriving DecidableEq

/-- The counters have three bits. -/
instance neZero_counter : NeZero 8 := ⟨by decide⟩

def teredoMaxQueueBytes : ℕ := 1280

namespace Peer

variable (p : Peer)

/-- `teredo_peer_init`: the other fields stay as `malloc` left them. -/
def init : Peer := { p with queue := [], queueLeft := teredoMaxQueueBytes }

/-! ## The queue -/

variable (data : List UInt8) (ip : Ipv4) (port : Port)

/-- `teredo_peer_queue`, where `malloc` does not fail. -/
def enqueue (incoming : Bool) : Peer :=
  if p.queueLeft < data.length then p else
  { p with
    queue := ⟨data, ip, port, incoming⟩ :: p.queue
    queueLeft := p.queueLeft - data.length }

/-- `teredo_enqueue_in`. -/
def enqueueIn : Peer := p.enqueue data ip port true

/-- `teredo_enqueue_out`. -/
def enqueueOut : Peer :=
  p.enqueue data anyIpv4 anyPort false

/-- `teredo_peer_queue_yield`: the queue, and the peer without it. -/
def queueYield : List Queued × Peer :=
  (p.queue, { p with queue := [], queueLeft := teredoMaxQueueBytes })

/-! ## Fields -/

def setMapping : Peer := { p with mappedAddr := ip, mappedPort := port }

def touchReceive (now : UInt64) : Peer := { p with lastRx := now }

def touchTransmit (now : UInt64) : Peer := { p with lastTx := now }

def isValid (now : UInt64) : Bool := decide (now - p.lastRx ≤ if p.isLocal then 600 else 30)

end Peer

/-! ## Counters -/

/-- What `CountPing` and `CountBubble` return. -/
inductive Count where
  /-- The value `0`: send now. -/
  | send
  /-- The value `1`: one was sent just before. -/
  | later
  /-- The value `-1`: too many were sent. -/
  | tooMany
  deriving DecidableEq

namespace Peer

variable (p : Peer)

/-- `CountPing`: the result. -/
def pingResult (now : UInt64) : Count :=
  if p.pings = 0 then .send
  else if 4 ≤ p.pings then .tooMany
  else if now - p.lastPing ≤ 2 then .later
  else .send

def countPing (now : UInt64) : Count × Peer :=
  let res := p.pingResult now
  if res = .send then (res, { p with lastPing := now, pings := p.pings + 1 }) else (res, p)

/-- `CountBubble`: the result, with the counter it starts from. -/
def bubbleResult (now : UInt64) : Count × Fin 8 :=
  if 0 < p.bubbles then
    if 4 ≤ p.bubbles then
      -- the counter is reset every 300 seconds
      if now - p.lastTx ≤ 300 then (.tooMany, p.bubbles) else (.send, 0)
    else if now - p.lastTx ≤ 2 then (.later, p.bubbles)
    else (.send, p.bubbles)
  else (.send, p.bubbles)

def countBubble (now : UInt64) : Count × Peer :=
  let r := p.bubbleResult now
  if r.1 = .send then (r.1, { p with lastTx := now, bubbles := r.2 + 1 }) else (r.1, p)

end Peer

end Maiccu.Teredo
