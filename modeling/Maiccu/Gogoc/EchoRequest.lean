import Maiccu.Gogoc.BrokerFile
import Maiccu.Gogoc.Rudp

/-!
# Echo requests to the brokers

`net_echo_request.c`: the brokers of a redirection are sorted by their distances, and the distance
of a broker is the round trip of an echo request, or more than that if something fails. The request
goes over UDP with the header of `net_rudp.c`.
-/

namespace Maiccu.Gogoc

open Maiccu.Lib List Function

/-! ## Sorting -/

/-- All addresses of a redirection with their types. -/
def Redirection.entries (r : Redirection) : List (List UInt8 × BrokerType) :=
  r.ipv4.map (·, .ipv4) ++ r.ipv6.map (·, .ipv6) ++ r.dn.map (·, .fqdn)

def Redirection.Fits (r : Redirection) : Prop :=
  1 ≤ r.entries.length ∧ r.entries.length ≤ maxRedirectBrokersInList ∧
    ∀ e ∈ r.entries, e.1.length < maxRedirectAddressLength

variable {r : Redirection}

theorem Created.eq_entries {nodes : List Broker} (h : Created r nodes) :
    nodes = r.entries.map fun e => ⟨e.1, e.2, 0⟩ := by
  rw [h.eq]
  simp [Redirection.entries, comp_def]

theorem Redirection.Fits.create (h : r.Fits) :
    tspCreateBrokerList r = .ok (r.entries.map fun e => ⟨e.1, e.2, 0⟩) := by
  obtain ⟨-, hfew, hshort⟩ := h
  simp only [Redirection.entries, forall_mem_append, forall_mem_map, length_append,
    length_map] at hfew hshort
  obtain ⟨⟨h₄, h₆⟩, hdn⟩ := hshort
  rw [tspCreateBrokerList, addBrokers_ok_iff.mpr ⟨rfl, h₄, by simp; omega⟩]
  dsimp only
  rw [addBrokers_ok_iff.mpr ⟨rfl, h₆, by simp; omega⟩]
  dsimp only
  rw [addBrokers_ok_iff.mpr ⟨rfl, hdn, by simp; omega⟩]
  simp [Redirection.entries, comp_def]

variable {l : List Broker}

instance : Std.Total fun x y : Broker => x.distance ≤ y.distance := ⟨fun _ _ => Nat.le_total _ _⟩

instance : IsTrans Broker fun x y => x.distance ≤ y.distance := ⟨fun _ _ _ => Nat.le_trans⟩

theorem tspSortBrokerList_sorted {distances : ℕ → ℕ} :
    (tspSortBrokerList distances l).Pairwise fun x y => x.distance ≤ y.distance := by
  refine foldlRecOn _ _ List.Pairwise.nil fun sorted h b _ => ?_
  rw [tspInsertInBrokerList_eq]
  exact h.orderedInsert b sorted

/-- How `timeEchoRequestReply` ends: with a reply, or without one. -/
inductive EchoEnd where
  | waiting
  /-- The round trip and the data of the reply. -/
  | replied (trip : UInt32) (data : List UInt8)
  | timedOut
  | failed
  /-- `memcpy` gets a negative length. -/
  | undefined
  deriving DecidableEq

/-- The variables of `timeEchoRequestReply`. -/
structure EchoExchange where
  engine : Rudp.RttEngine
  sequence : UInt32
  /-- `omh->timestamp`. -/
  timestamp : UInt32
  im : List UInt8
  ends : EchoEnd

def echoRequestInBufSize : ℕ := 4096

def echoRequestAttempts : ℕ := 3

/-- From `send_loop` to `select_loop`. -/
def EchoExchange.send (x : EchoExchange) (a : Rudp.Attempt) : EchoExchange :=
  if x.engine.retries = echoRequestAttempts then { x with ends := .timedOut }
  else if a.sendOk = false then { x with ends := .failed }
  else { x with timestamp := Rudp.internalGetTimestamp x.engine a.stamp, ends := .waiting }

/-- A message is received. One with another number changes nothing but the buffer: `tv_select` stays
as it is. -/
def EchoExchange.onDatagram (x : EchoExchange) (d : List UInt8) (stamp : Option Iee.Timeval) :
    EchoExchange :=
  let im := Rudp.received x.im d (8 + echoRequestInBufSize)
  let ret : ℤ := (d.take (8 + echoRequestInBufSize)).length
  if im.take 4 = be 4 x.sequence.toNat then
    { x with
      im := im
      ends := if ret - 8 < 0 then .undefined
        else .replied (Rudp.internalGetTimestamp x.engine stamp - x.timestamp)
          ((im.drop 8).take (ret - 8).toNat) }
  else { x with im := im }

def EchoExchange.step (x : EchoExchange) (e : Rudp.Event) : EchoExchange :=
  match x.ends, e with
  | .waiting, .timeout a => { x with engine.retries := x.engine.retries + 1 }.send a
  | .waiting, .datagram d _ stamp => x.onDatagram d stamp
  | .waiting, .recvError => { x with ends := .failed }
  | .waiting, .selectError => { x with ends := .failed }
  | _, _ => x

/-- `tSocketAddressStatus` -/
inductive SocketAddressStatus where
  | ok
  | wrongFamily
  | problemResolving
  | error
  deriving DecidableEq

/-- The results of `tspDoEchoRequest`. -/
inductive EchoStatus where
  | ok
  | requestError
  | requestTimeout
  deriving DecidableEq

/-- The result of `getSocketAddress`, whether the socket is connected and there is memory for the
engine and for the messages, the end of the memory for the reply, which `memset` leaves as it is,
and what happens. -/
structure EchoRequest where
  address : SocketAddressStatus
  connected : Bool
  engineMemory : Bool
  messageMemory : Bool
  now : Option Iee.Timeval
  im : List UInt8
  first : Rudp.Attempt
  events : List Rudp.Event

/-- `timeEchoRequestReply`, up to the distance. -/
def EchoRequest.exchange (r : EchoRequest) : EchoEnd :=
  if r.messageMemory = false then .failed
  else
    let engine := Rudp.rttengineInit Rudp.zeroed r.now
    let x : EchoExchange :=
      ⟨{ engine with sequence := engine.sequence + 1 }, engine.sequence ||| 0xf0000000, 0,
        replicate echoRequestInBufSize 0 ++ r.im, .waiting⟩
    (r.events.foldl EchoExchange.step (x.send r.first)).ends

/-- `ECHO_REQUEST_TIMEOUT`, in milliseconds. -/
def echoRequestTimeout : UInt32 := 10 * 1000

/-- `ECHO_REQUEST_ERROR_ADJUST`, and `ECHO_REQUEST_TIMEOUT_ADJUST` is the same. -/
def echoRequestErrorAdjust : UInt32 := echoRequestTimeout * 2

def echoRequestWrongFamilyAdjust : UInt32 := echoRequestTimeout * 3

/-- The status and the distance at the end of `timeEchoRequestReply`; none if it has not ended. -/
def EchoEnd.result (distance : UInt32) : EchoEnd → Option (EchoStatus × UInt32)
  | .replied trip data =>
    some (if Tic.atoi data = 200 then .ok else .requestError, distance + trip)
  | .timedOut => some (.requestTimeout, distance + echoRequestErrorAdjust)
  | .failed => some (.requestError, distance + echoRequestErrorAdjust)
  | .waiting | .undefined => none

/-- The distance before the broker is asked. -/
def EchoRequest.adjust (r : EchoRequest) : UInt32 :=
  if r.address = .wrongFamily then echoRequestWrongFamilyAdjust else 0

def tspDoEchoRequest (r : EchoRequest) : Option (EchoStatus × UInt32) :=
  if r.address = .error ∨ r.address = .problemResolving then
    some (.requestError, echoRequestErrorAdjust)
  else if r.connected = false ∨ r.engineMemory = false then
    some (.requestError, r.adjust + echoRequestErrorAdjust)
  else r.exchange.result r.adjust

/-! ## Distances -/

/-- The broker has an address, and the socket and the engine are there to ask it. -/
def EchoRequest.Asked (r : EchoRequest) : Prop :=
  ¬(r.address = .error ∨ r.address = .problemResolving) ∧
    ¬(r.connected = false ∨ r.engineMemory = false)

/-- The broker was asked and replied, but not with the status 200, and so soon that its distance is
less than that of a failure. -/
def EchoRequest.SoonRefused (r : EchoRequest) : Prop :=
  r.Asked ∧ ∃ trip data, r.exchange = .replied trip data ∧
    Tic.atoi data ≠ 200 ∧ r.adjust + trip < echoRequestErrorAdjust

def EchoRequest.Answered (r : EchoRequest) (res : EchoStatus × UInt32) : Prop :=
  r.address = .ok ∧ res.1 = .ok ∧ res.2 ≤ echoRequestTimeout

theorem le_adjust_add (r : EchoRequest) :
    echoRequestErrorAdjust ≤ r.adjust + echoRequestErrorAdjust := by
  unfold EchoRequest.adjust
  split_ifs <;> decide

variable {res : EchoStatus × UInt32}

theorem EchoRequest.distance_iff {r : EchoRequest} (h : tspDoEchoRequest r = some res) :
    (res.1 ≠ .ok → echoRequestErrorAdjust ≤ res.2) ↔ ¬r.SoonRefused := by
  unfold tspDoEchoRequest at h
  split_ifs at h with haddress hconnected
  · cases h
    exact iff_of_true (fun _ => UInt32.le_refl _) fun hsoon => hsoon.1.1 haddress
  · cases h
    exact iff_of_true (fun _ => le_adjust_add r) fun hsoon => hsoon.1.2 hconnected
  cases hend : r.exchange with
  | replied trip data =>
    rw [hend] at h
    cases h
    refine ⟨fun hfailed hsoon => ?_, fun hsoon hfailed => ?_⟩
    · obtain ⟨-, trip', data', hreply, hcode, hlt⟩ := hsoon
      obtain ⟨rfl, rfl⟩ := EchoEnd.replied.inj (hend.symm.trans hreply)
      exact UInt32.not_lt.mpr (hfailed (by simp [hcode])) hlt
    · refine UInt32.not_lt.mp fun hlt =>
        hsoon ⟨⟨haddress, hconnected⟩, trip, data, hend, ?_, hlt⟩
      simpa using hfailed
  | timedOut | failed =>
    rw [hend] at h
    cases h
    refine iff_of_true (fun _ => le_adjust_add r) ?_
    rintro ⟨-, trip, data, hreply, -⟩
    exact EchoEnd.noConfusion (hend.symm.trans hreply)
  | waiting | undefined =>
    rw [hend] at h
    cases h

/-- A request that is not `OK` has at least the distance of an error, unless the broker replied soon
with another status; and without such replies no broker that failed is sorted before one that
answered in time. -/
theorem echo_distance_iff (brokers : List Broker) (r : ℕ → EchoRequest)
    (res : ℕ → EchoStatus × UInt32) :
    (∀ i, tspDoEchoRequest (r i) = some (res i) →
      (((res i).1 ≠ .ok → echoRequestErrorAdjust ≤ (res i).2) ↔ ¬(r i).SoonRefused)) ∧
    ((∀ i < brokers.length, tspDoEchoRequest (r i) = some (res i) ∧ ¬(r i).SoonRefused) →
      (tspSortBrokerList (fun i => (res i).2.toNat) brokers).Pairwise fun x y =>
        ∀ i < brokers.length, ∀ j, x.distance = (res i).2.toNat → y.distance = (res j).2.toNat →
          (res i).1 ≠ .ok → ¬(r j).Answered (res j)) := by
  refine ⟨fun i h => (r i).distance_iff h, fun h => ?_⟩
  refine tspSortBrokerList_sorted.imp ?_
  rintro x y hle i hi j hx hy hfailed ⟨-, -, hsoon⟩
  have hlate := ((r i).distance_iff (h i hi).1).mpr (h i hi).2 hfailed
  rw [UInt32.le_iff_toNat_le] at hlate hsoon
  have hlt : echoRequestTimeout.toNat < echoRequestErrorAdjust.toNat := by decide
  omega

theorem refused_first :
    let r (text : String) (ms : ℤ) : EchoRequest := ⟨.ok, true, true, true, some ⟨0, 0⟩,
      replicate 8 0, ⟨some ⟨0, 0⟩, true, ⟨0, 0⟩⟩,
      [.datagram (be 4 0xf00000f0 ++ be 4 0 ++ ascii text) ⟨0, 0⟩ (some ⟨0, 1000 * ms⟩)]⟩
    tspDoEchoRequest (r "403" 5) = some (.requestError, 5) ∧
      tspDoEchoRequest (r "200" 50) = some (.ok, 50) ∧
      tspSortBrokerList (fun i => if i = 0 then 50 else 5)
        [⟨ascii "a", .fqdn, 0⟩, ⟨ascii "b", .fqdn, 0⟩] =
        [⟨ascii "b", .fqdn, 5⟩, ⟨ascii "a", .fqdn, 50⟩] := by
  decide +kernel

/-! ## Datagrams -/

/-- The exchange compares only received bytes, copies a part that the buffer of the caller can hold,
and after a datagram with another number it waits on, with a time that `select` takes. -/
structure Rudp.Treated (x x' : Rudp.Exchange) (seq : UInt32) (d : List UInt8) : Prop where
  compared : 4 ≤ d.length
  defined : x'.outcome ≠ .undefined
  copied : ∀ p, x'.outcome = .returned p → p.length ≤ x.ol
  other : d.take 4 ≠ be 4 seq.toNat → x'.outcome = .waiting ∧ 0 ≤ x'.tvSel.sec

structure EchoExchange.Treated (x x' : EchoExchange) (d : List UInt8) : Prop where
  compared : 4 ≤ d.length
  defined : x'.ends ≠ .undefined
  copied : ∀ trip p, x'.ends = .replied trip p → p.length ≤ echoRequestInBufSize
  other : d.take 4 ≠ be 4 x.sequence.toNat → x'.ends = .waiting

variable {d im : List UInt8} {ol : ℕ}

theorem take_received (hd : 4 ≤ d.length) : (Rudp.received im d (8 + ol)).take 4 = d.take 4 :=
  Rudp.received_take 4 (by rw [length_take]; omega)

theorem length_payload_le {n : ℕ} (hn : n ≤ 8 + ol) :
    ((im.drop 8).take ((n : ℤ) - 8).toNat).length ≤ ol := by
  rw [length_take]
  omega

variable {stamp : Option Iee.Timeval}

theorem rudp_treated_iff {x : Rudp.Exchange} (hwaiting : x.outcome = .waiting) {seq : UInt32}
    {now : Iee.Timeval} :
    Rudp.Treated x (Rudp.onDatagram x seq d now stamp) seq d ↔
      4 ≤ d.length ∧ (d.take 4 = be 4 seq.toNat → 8 ≤ d.length) ∧
        (d.take 4 ≠ be 4 seq.toNat → now.sec - x.tvBeg.sec ≤ x.tvSel.sec) := by
  by_cases hlen : 4 ≤ d.length
  swap
  · exact iff_of_false (fun h => hlen h.compared) fun h => hlen h.1
  have htake := length_take (i := 8 + x.ol) (l := d)
  unfold Rudp.onDatagram
  dsimp only
  rw [take_received hlen]
  by_cases hown : d.take 4 = be 4 seq.toNat
  · split_ifs with hshort
    · refine iff_of_false (fun h => h.defined rfl) fun h => ?_
      have := h.2.1 hown
      omega
    · refine iff_of_true ⟨hlen, nofun, ?_, fun h => absurd hown h⟩
        ⟨hlen, fun _ => by omega, fun h => absurd hown h⟩
      rintro p hp
      rw [← Rudp.Outcome.returned.inj hp]
      exact length_payload_le (by omega)
  · rw [if_neg hown]
    refine ⟨fun h => ⟨hlen, fun h => absurd h hown, fun _ => ?_⟩,
      fun h => ⟨hlen, ?_, ?_, fun _ => ⟨hwaiting, ?_⟩⟩⟩
    · have := (h.other hown).2
      dsimp only at this
      omega
    · simp [hwaiting]
    · simp [hwaiting]
    · have := h.2.2 hown
      dsimp only
      omega

theorem echo_treated_iff {x : EchoExchange} (hwaiting : x.ends = .waiting) :
    EchoExchange.Treated x (x.onDatagram d stamp) d ↔
      4 ≤ d.length ∧ (d.take 4 = be 4 x.sequence.toNat → 8 ≤ d.length) := by
  by_cases hlen : 4 ≤ d.length
  swap
  · exact iff_of_false (fun h => hlen h.compared) fun h => hlen h.1
  have htake := length_take (i := 8 + echoRequestInBufSize) (l := d)
  unfold EchoExchange.onDatagram
  dsimp only
  rw [take_received hlen]
  by_cases hown : d.take 4 = be 4 x.sequence.toNat
  · split_ifs with hshort
    · refine iff_of_false (fun h => h.defined rfl) fun h => ?_
      have := h.2 hown
      omega
    · refine iff_of_true ⟨hlen, nofun, ?_, fun h => absurd hown h⟩ ⟨hlen, fun _ => by omega⟩
      rintro trip p hp
      rw [← (EchoEnd.replied.inj hp).2]
      exact length_payload_le (by omega)
  · rw [if_neg hown]
    refine iff_of_true ⟨hlen, ?_, ?_, fun _ => hwaiting⟩ ⟨hlen, fun h => absurd h hown⟩
    · simp [hwaiting]
    · simp [hwaiting]

/-- A datagram must have the four bytes of the number, the whole header if the number is the right
one, and otherwise it must come before the seconds of `tv_sel` are over, which only `net_rudp.c`
takes away. -/
theorem datagram_treated_iff (x : Rudp.Exchange) (seq : UInt32) (y : EchoExchange) (d : List UInt8)
    (now : Iee.Timeval) (stamp : Option Iee.Timeval) :
    (x.outcome = .waiting → x.sequence = some seq →
      (Rudp.Treated x (Rudp.step x (.datagram d now stamp)) seq d ↔
        4 ≤ d.length ∧ (d.take 4 = be 4 seq.toNat → 8 ≤ d.length) ∧
          (d.take 4 ≠ be 4 seq.toNat → now.sec - x.tvBeg.sec ≤ x.tvSel.sec))) ∧
    (y.ends = .waiting → (EchoExchange.Treated y (y.step (.datagram d now stamp)) d ↔
        4 ≤ d.length ∧ (d.take 4 = be 4 y.sequence.toNat → 8 ≤ d.length))) := by
  refine ⟨fun hwaiting hseq => ?_, fun hwaiting => ?_⟩
  · rw [Rudp.step, hwaiting, hseq]
    exact rudp_treated_iff hwaiting
  · unfold EchoExchange.step
    rw [hwaiting]
    exact echo_treated_iff hwaiting

/-- A datagram with the number of the request and nothing else: `memcpy` gets the length -4. -/
theorem number_only_undefined :
    (Rudp.internalSendRecv (Rudp.netRUDPInit none) ⟨[], 16, true, true, replicate 24 0,
      ⟨none, true, ⟨0, 0⟩⟩, [.datagram (be 4 0xf00000f0) ⟨0, 0⟩ none]⟩).outcome = .undefined ∧
    (⟨.ok, true, true, true, none, replicate 8 0, ⟨none, true, ⟨0, 0⟩⟩,
      [.datagram (be 4 0xf00000f0) ⟨0, 0⟩ none]⟩ : EchoRequest).exchange = .undefined := by
  decide +kernel

end Maiccu.Gogoc
