import Mathlib.Data.List.Basic

/-!
# Messages between the client and its user interface

A message is cut into packets (`servent.cc`), which go through a pipe that keeps them whole and in
order. The threads that send and receive take turns in any order.
-/

namespace Maiccu.Gogoc.Messaging

open List

/-- `PACKET`, with the bit fields of its header. -/
structure Packet where
  header : BitVec 4
  msgtype : BitVec 6
  seq : BitVec 6
  fragseq : BitVec 6
  datalen : BitVec 10
  data : List UInt8
  data_le : data.length ≤ 1020

def makePacket (data : List UInt8) (h : data.length ≤ 1020) (msgtype seq : BitVec 6) (frag : ℕ) :
    Packet :=
  ⟨0x0A, msgtype, seq, .ofNat 6 frag, .ofNat 10 data.length, data, h⟩

/-- None for a bad packet. One that is shorter than it says counts as bad here; the code copies
what is in its buffer. -/
def extractPacketData (p : Packet) : Option (List UInt8) :=
  let n := p.datalen.toNat
  if p.header ≠ 0x0A ∨ p.msgtype < 0x20 ∨ 0x23 < p.msgtype ∨ 1020 < n ∨ p.data.length < n then none
  else some (p.data.take n)

/-- The numbers of the packet before, the buffer, and the messages that were processed. -/
structure Receiver where
  last : Option (BitVec 6 × BitVec 6)
  buffer : List UInt8
  processed : List (List UInt8)

/-- A turn of `_ReadData`, and the next call at the end of a message; none is an error. -/
def readTurn (r : Receiver) (p : Packet) : Option Receiver :=
  (extractPacketData p).bind fun data =>
    if data = [] ∨ (∃ x ∈ r.last, p.seq ≠ x.1 ∨ p.fragseq.toNat ≠ x.2.toNat + 1) ∨
      64260 < r.buffer.length + data.length then none
    else if p.msgtype = 0x20 ∨ p.msgtype = 0x23 then
      some ⟨none, [], r.processed ++ [r.buffer ++ data]⟩
    else some ⟨some (p.seq, p.fragseq), r.buffer ++ data, r.processed⟩

def messageType (frag : ℕ) (rest : List UInt8) : BitVec 6 :=
  if 1020 < rest.length then if frag = 0 then 0x21 else 0x22
  else if frag = 0 then 0x20 else 0x23

/-- The loop of `_WriteData`, with the number of packets that it may still write. -/
def writeLoop (seq : BitVec 6) : ℕ → ℕ → List UInt8 → Option (List Packet)
  | 0, _, rest => if rest = [] then some [] else none
  | n + 1, frag, rest =>
    if rest = [] then some []
    else (writeLoop seq n (frag + 1) (rest.drop 1020)).map
      (makePacket (rest.take 1020) (length_take_le ..) (messageType frag rest) seq frag :: ·)

def writeData (seq : BitVec 6) (data : List UInt8) : Option (List Packet) :=
  if 64260 < data.length then none else writeLoop seq 63 0 data

/-- What `CreateMessage` makes: a header and less than `MSG_MAX_USERDATA` bytes. -/
abbrev Message := { m : List UInt8 // 4 ≤ m.length ∧ m.length < 64260 }

/-- The packets that the sender thread writes. -/
def sent (seq : BitVec 6) : List Message → Option (List Packet)
  | [] => some []
  | m :: ms => (writeData seq m).bind fun ps => (sent (seq + 1) ms).map (ps ++ ·)

def lastOf (seq : BitVec 6) : ℕ → Option (BitVec 6 × BitVec 6)
  | 0 => none
  | frag + 1 => some (seq, .ofNat 6 frag)

variable {seq : BitVec 6} {n frag : ℕ} {rest buffer : List UInt8} {ms : List (List UInt8)}

theorem readTurn_makePacket (hne : rest ≠ []) (hfrag : frag < 63)
    (hroom : buffer.length + rest.length ≤ 64260) : readTurn ⟨lastOf seq frag, buffer, ms⟩
      (makePacket (rest.take 1020) (length_take_le ..) (messageType frag rest) seq frag) =
    if 1020 < rest.length then some ⟨lastOf seq (frag + 1), buffer ++ rest.take 1020, ms⟩
    else some ⟨none, [], ms ++ [buffer ++ rest.take 1020]⟩ := by
  have hlen : min 1020 rest.length % 1024 = min 1020 rest.length := Nat.mod_eq_of_lt (by omega)
  have htake : (rest.take 1020).take (min 1020 rest.length) = rest.take 1020 :=
    take_of_length_le (Nat.le_of_eq length_take)
  have hroom' : ¬64260 < buffer.length + min 1020 rest.length := by omega
  have hfit : ¬1020 < min 1020 rest.length := by omega
  have hseq : ∀ i, frag = i + 1 → frag % 64 = i % 64 + 1 := by omega
  cases frag <;> by_cases hlong : 1020 < rest.length <;> simp [readTurn, extractPacketData,
    makePacket, messageType, lastOf, hlong, hne, hlen, htake, hfit, hroom', hseq]

theorem read_writeLoop (hne : rest ≠ []) (hn : rest.length ≤ 1020 * n) (hfrag : frag + n ≤ 63)
    (hroom : buffer.length + rest.length ≤ 64260) : ∃ ps, writeLoop seq n frag rest = some ps ∧
      ps.foldlM readTurn ⟨lastOf seq frag, buffer, ms⟩ =
        some ⟨none, [], ms ++ [buffer ++ rest]⟩ := by
  induction n generalizing frag rest buffer with
  | zero => exact absurd (length_eq_zero_iff.mp (by omega)) hne
  | succ n ih =>
    have hturn := @readTurn_makePacket seq frag rest buffer ms hne (by omega) hroom
    rw [writeLoop, if_neg hne]
    by_cases hlong : 1020 < rest.length
    · obtain ⟨ps, hps, hread⟩ := @ih (frag + 1) (rest.drop 1020) (buffer ++ rest.take 1020)
        (by simpa using hlong) (by rw [length_drop]; omega) (by omega) (by simp; omega)
      refine ⟨_, congrArg _ hps, ?_⟩
      rw [foldlM_cons, hturn, if_pos hlong]
      simpa using hread
    · rw [drop_eq_nil_of_le (by omega)]
      refine ⟨[_], by cases n <;> rfl, ?_⟩
      rw [foldlM_cons, hturn, if_neg hlong, take_of_length_le (by omega)]
      rfl

theorem processed_prefix {r r' : Receiver} {ps : List Packet}
    (h : ps.foldlM readTurn r = some r') : r.processed <+: r'.processed := by
  induction ps generalizing r with
  | nil =>
    cases h
    exact prefix_rfl
  | cons p ps ih =>
    obtain ⟨r₁, hr, h⟩ := Option.bind_eq_some_iff.mp h
    refine IsPrefix.trans ?_ (ih h)
    obtain ⟨data, -, hr⟩ := Option.bind_eq_some_iff.mp hr
    split_ifs at hr <;> cases hr
    · exact prefix_append ..
    · exact prefix_rfl

theorem read_sent (ms : List Message) (done : List (List UInt8)) : ∃ ps, sent seq ms = some ps ∧
    ps.foldlM readTurn ⟨none, [], done⟩ = some ⟨none, [], done ++ ms.map Subtype.val⟩ := by
  induction ms generalizing seq done with
  | nil => exact ⟨[], rfl, by simp⟩
  | cons m ms ih =>
    have hlen := m.2
    obtain ⟨ps, hps, hread⟩ := @read_writeLoop seq 63 0 m [] done
      (ne_nil_of_length_pos (by omega)) (by omega) (by omega) (by rw [length_nil]; omega)
    obtain ⟨ps', hps', hread'⟩ := @ih (seq + 1) (done ++ [m.1])
    refine ⟨ps ++ ps', ?_, ?_⟩
    · rw [sent, writeData, if_neg (by omega), hps, Option.bind_some, hps']
      rfl
    · rw [lastOf] at hread
      rw [foldlM_append, hread]
      simpa using hread'

/-- **Messages.** Every message is written. However many packets the receiver has read by now, it
met no error, and has processed the first messages, whole and in order; in the end all of them. -/
theorem messages_delivered (seq : BitVec 6) (ms : List Message) : ∃ ps, sent seq ms = some ps ∧
    ∀ k, ∃ r, (ps.take k).foldlM readTurn ⟨none, [], []⟩ = some r ∧
      r.processed <+: ms.map Subtype.val ∧
      (ps.length ≤ k → r.processed = ms.map Subtype.val) := by
  obtain ⟨ps, hsent, hread⟩ := @read_sent seq ms []
  refine ⟨ps, hsent, fun k => ?_⟩
  rw [← take_append_drop k ps, foldlM_append] at hread
  obtain ⟨r, hr, hrest⟩ := Option.bind_eq_some_iff.mp hread
  refine ⟨r, hr, processed_prefix hrest, fun hk => ?_⟩
  rw [drop_eq_nil_of_le hk] at hrest
  cases hrest
  rfl

end Maiccu.Gogoc.Messaging
