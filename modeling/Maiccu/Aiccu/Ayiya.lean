import Maiccu.Lib.Bytes
import Maiccu.Aiccu.CheckTime

/-!
# AYIYA datagrams

`ayiyaReader` (`ayiya_reader` of `ayiya.c`) sends a packet of the tunnel device as a datagram, and
`ayiyaWriter` is one turn of the loop of `ayiya_writer`, which checks a datagram and writes its
payload to the device. SHA-1 is a parameter.
-/

namespace Maiccu.Ayiya

open Maiccu.Lib Maiccu.Tic List

/-! ## The header -/

/-- `struct ayiyahdr`. -/
structure AyiyaHdr where
  idlen : Fin 16
  idtype : Fin 16
  siglen : Fin 16
  hshmeth : Fin 16
  autmeth : Fin 16
  opcode : Fin 16
  nextheader : UInt8
  epochtime : ℕ
  deriving DecidableEq, Repr

variable (h : AyiyaHdr)

/-- The layout of the bit fields on a little-endian host, and the time in network order. -/
def AyiyaHdr.encode : List UInt8 :=
  [nibbles h.idlen h.idtype, nibbles h.siglen h.hshmeth, nibbles h.autmeth h.opcode,
    h.nextheader] ++ be 4 h.epochtime

def AyiyaHdr.parse (b : List UInt8) : AyiyaHdr where
  idlen := hiNibble (b.getD 0 0)
  idtype := loNibble (b.getD 0 0)
  siglen := hiNibble (b.getD 1 0)
  hshmeth := loNibble (b.getD 1 0)
  autmeth := hiNibble (b.getD 2 0)
  opcode := loNibble (b.getD 2 0)
  nextheader := b.getD 3 0
  epochtime := ofBe (slice b 4 4)

theorem encode_length : h.encode.length = 8 := by
  simp [AyiyaHdr.encode]

theorem parse_encode_append (rest : List UInt8) :
    AyiyaHdr.parse (h.encode ++ rest) = { h with epochtime := h.epochtime % word } := by
  have htime : slice (h.encode ++ rest) 4 4 = be 4 h.epochtime := by
    rw [slice_append_of_le (by rw [encode_length]), AyiyaHdr.encode,
      slice_append_right (show _ = 4 by simp)]
    exact take_of_length_le (by simp)
  unfold AyiyaHdr.parse
  rw [htime, ofBe_be, word_eq]
  simp [AyiyaHdr.encode]

theorem parse_append {b : List UInt8} (h : 8 ≤ b.length) (rest : List UInt8) :
    AyiyaHdr.parse (b ++ rest) = AyiyaHdr.parse b := by
  have hget : ∀ i < 8, (b ++ rest).getD i 0 = b.getD i 0 := by
    intro i hi
    rw [getD_eq_getElem?_getD, getD_eq_getElem?_getD, getElem?_append_left (by omega)]
  unfold AyiyaHdr.parse
  rw [hget 0 (by omega), hget 1 (by omega), hget 2 (by omega), hget 3 (by omega),
    slice_append_of_le (by omega)]

def ipprotoIpv6 : UInt8 := 41

def ipprotoNone : UInt8 := 59

/-- The fields `ayiya_writer` accepts. -/
def AyiyaHdr.Supported : Prop :=
  h.idlen = 4 ∧ h.idtype = 1 ∧ h.siglen = 5 ∧ h.hshmeth = 2 ∧ h.autmeth = 1 ∧
    (h.nextheader = ipprotoIpv6 ∨ h.nextheader = ipprotoNone) ∧
    (h.opcode = 1 ∨ h.opcode = 2 ∨ h.opcode = 3)

instance (h : AyiyaHdr) : Decidable h.Supported := inferInstanceAs (Decidable (_ ∧ _))

/-! ## Sending and receiving -/

/-- The globals of an endpoint. -/
structure AyiyaConf where
  ipv6Local : Bytes 16
  ipv6Pop : Bytes 16
  /-- `ayiya_hash`, the SHA-1 hash of the shared secret. -/
  hash : Bytes 20

section Endpoint

variable (sha1 : List UInt8 → Bytes 20) (conf : AyiyaConf) (now : ℤ)

/-- The datagram sent for a packet, unless the packet is longer than `payload`. -/
def ayiyaReader (packet : List UInt8) : Option (List UInt8) :=
  if 2048 < packet.length then none else
  let h : AyiyaHdr := ⟨4, 1, 5, 2, 1, 1, ipprotoIpv6, (now % word).toNat⟩
  -- the hash of the secret stands where the hash of the packet will be
  let s := h.encode ++ conf.ipv6Local.toList ++ conf.hash.toList ++ packet
  some (h.encode ++ conf.ipv6Local.toList ++ (sha1 s).toList ++ packet)

inductive WriterEvent where
  | tooShort
  | invalidPacket
  | wrongIdentity
  | timeOff (i : ℤ)
  | incorrectHash
  | notIpv6
  /-- The datagram has no packet inside. -/
  | nothing
  /-- `tun_write`, with the bytes of the buffer and the length it is given. -/
  | tunWrite (bytes : List UInt8) (len : ℕ)
  deriving DecidableEq, Repr

structure Received where
  bytes : List UInt8
  fits : bytes.length ≤ 2048

/-- One turn of the loop of `ayiya_writer`. -/
def ayiyaWriter (d : Received) : WriterEvent :=
  let n := d.bytes.length
  -- the buffer is cleared before each `recvfrom`
  let buf := d.bytes ++ replicate (2048 - n) 0
  if n < 8 then .tooShort else
  let h := AyiyaHdr.parse buf
  if ¬ h.Supported then .invalidPacket else
  if slice buf 8 16 ≠ conf.ipv6Pop.toList then .wrongIdentity else
  let i := ticChecktime now h.epochtime
  if i ≠ 0 then .timeOff i else
  let payloadlen := usub n 44
  let theirHash := slice buf 24 20
  let s := buf.take 24 ++ conf.hash.toList ++ buf.drop 44
  let ourHash := (sha1 (s.take n)).toList
  if theirHash ≠ ourHash then .incorrectHash else
  if h.nextheader = ipprotoIpv6 then
    if hiNibble (s.getD 44 0) ≠ 6 then .notIpv6
    else .tunWrite ((s.drop 44).take payloadlen) payloadlen
  else .nothing

/-- All that is checked of a datagram that carries a packet, but for its time. -/
structure Checked (d : List UInt8) : Prop where
  length : 44 < d.length
  supported : (AyiyaHdr.parse d).Supported
  identity : slice d 8 16 = conf.ipv6Pop.toList
  hash : slice d 24 20 = (sha1 (d.take 24 ++ conf.hash.toList ++ d.drop 44)).toList
  ipv6 : (AyiyaHdr.parse d).nextheader = ipprotoIpv6
  version : hiNibble (d.getD 44 0) = 6

variable {sha1 conf now} {d : List UInt8}

theorem splice_append (hd : 44 ≤ d.length) (k : List UInt8) (pad : List UInt8) :
    (d ++ pad).take 24 ++ k ++ (d ++ pad).drop 44 = (d.take 24 ++ k ++ d.drop 44) ++ pad := by
  rw [take_append_of_le_length (by omega), drop_append_of_le_length hd]
  simp only [append_assoc]

theorem splice_length (hd : 44 ≤ d.length) (k : Bytes 20) :
    (d.take 24 ++ k.toList ++ d.drop 44).length = d.length := by
  simp only [length_append, length_take, length_drop, List.Vector.toList_length]
  omega

theorem splice_drop (hd : 44 ≤ d.length) (k : Bytes 20) :
    (d.take 24 ++ k.toList ++ d.drop 44).drop 44 = d.drop 44 := by
  apply drop_left'
  simp only [length_append, length_take, List.Vector.toList_length]
  omega

theorem getD_splice (k : Bytes 20) :
    ((d ++ replicate (2048 - d.length) 0).take 24 ++ k.toList ++
      (d ++ replicate (2048 - d.length) 0).drop 44).getD 44 0 = d.getD 44 0 := by
  set buf := d ++ replicate (2048 - d.length) 0 with hbuf
  have hlen : 2048 ≤ buf.length := by
    rw [hbuf, length_append, length_replicate]
    omega
  have hfront : (buf.take 24 ++ k.toList).length = 44 := by
    simp only [length_append, length_take, List.Vector.toList_length]
    omega
  have hget : (buf.take 24 ++ k.toList ++ buf.drop 44).getD 44 0 = buf.getD 44 0 := by
    rw [getD_eq_getElem?_getD, getD_eq_getElem?_getD,
      getElem?_append_right (by omega), hfront, getElem?_drop]
  rw [hget, hbuf, getD_eq_getElem?_getD, getD_eq_getElem?_getD]
  by_cases hd : 44 < d.length
  · rw [getElem?_append_left hd]
  · rw [getElem?_append_right (by omega), getElem?_eq_none (l := d) (by omega), getElem?_replicate]
    split_ifs <;> rfl

theorem ayiyaWriter_tunWrite_iff {d : Received} {bytes : List UInt8} {len : ℕ} :
    ayiyaWriter sha1 conf now d = .tunWrite bytes len ↔
      Checked sha1 conf d.bytes ∧ ticChecktime now (AyiyaHdr.parse d.bytes).epochtime = 0 ∧
        bytes = d.bytes.drop 44 ∧ len = d.bytes.length - 44 := by
  have hfits := d.fits
  by_cases hd : 44 < d.bytes.length
  swap
  · -- nothing was received at the place of the payload, so its first nibble is not a 6
    refine iff_of_false (fun h => ?_) (fun h => hd h.1.length)
    unfold ayiyaWriter at h
    simp only [getD_splice] at h
    have hzero : d.bytes.getD 44 0 = 0 := by
      rw [getD_eq_getElem?_getD, getElem?_eq_none (by omega)]
      rfl
    rw [hzero, if_pos (show hiNibble 0 ≠ 6 by decide)] at h
    split_ifs at h
  have hbuf : ∀ off len, off + len ≤ 44 →
      slice (d.bytes ++ replicate (2048 - d.bytes.length) 0) off len =
        slice d.bytes off len := fun off len h => slice_append_of_le (by omega) _
  have hlen : usub d.bytes.length 44 = d.bytes.length - 44 :=
    usub_of_le (by omega) (by rw [word_eq]; omega)
  have hdrop : ((d.bytes.take 24 ++ conf.hash.toList ++ d.bytes.drop 44 ++
      replicate (2048 - d.bytes.length) 0).drop 44).take (d.bytes.length - 44) =
        d.bytes.drop 44 := by
    rw [drop_append_of_le_length (by rw [splice_length (by omega)]; omega),
      splice_drop (by omega), take_left' (by rw [length_drop])]
  unfold ayiyaWriter
  simp only [getD_splice]
  simp only [parse_append (show 8 ≤ d.bytes.length by omega), hbuf 8 16 (by omega),
    hbuf 24 20 (by omega), hlen, splice_append (show 44 ≤ d.bytes.length by omega), hdrop]
  rw [take_left' (splice_length (by omega) _), if_neg (by omega)]
  constructor
  · intro h
    split_ifs at h with h1 h2 h3 h4 h5 h6
    cases h
    exact ⟨⟨hd, h1, not_not.mp h2, not_not.mp h4, h5, not_not.mp h6⟩, not_not.mp h3, rfl, rfl⟩
  · rintro ⟨hc, ht, rfl, rfl⟩
    rw [if_neg (not_not.mpr hc.supported), if_neg (not_not.mpr hc.identity),
      if_neg (not_not.mpr ht), if_neg (not_not.mpr hc.hash), if_pos hc.ipv6,
      if_neg (not_not.mpr hc.version)]

/-! ## Only what was checked -/

/-- What is written is the payload, of 1 to 2004 bytes, of a datagram that passes every check and
whose time is at most two minutes off. -/
def WritesOnlyChecked (sha1 : List UInt8 → Bytes 20) (conf : AyiyaConf) (now : ℤ) (d : Received) :
    Prop :=
  ∀ bytes len, ayiyaWriter sha1 conf now d = .tunWrite bytes len → Checked sha1 conf d.bytes ∧
    (-clockOff ≤ clockDiff now (AyiyaHdr.parse d.bytes).epochtime ∧
      clockDiff now (AyiyaHdr.parse d.bytes).epochtime ≤ clockOff) ∧
    1 ≤ len ∧ len ≤ 2004 ∧ len = d.bytes.length - 44 ∧ bytes = d.bytes.drop 44

/-- **The checks.** A turn of the loop writes only what was checked, unless all other checks are
passed with a time exactly `2 ^ 31` seconds off. -/
theorem writesOnlyChecked_iff (sha1 : List UInt8 → Bytes 20) (conf : AyiyaConf) (now : ℤ)
    (d : Received) : WritesOnlyChecked sha1 conf now d ↔ ¬ (Checked sha1 conf d.bytes ∧
        clockDiff now (AyiyaHdr.parse d.bytes).epochtime = -2147483648) := by
  have hfits := d.fits
  constructor
  · rintro h ⟨hc, hdiff⟩
    have htime := ticChecktime_zero.mpr (Or.inr hdiff)
    have hwin := (h _ _ (ayiyaWriter_tunWrite_iff.mpr ⟨hc, htime, rfl, rfl⟩)).2.1.1
    rw [hdiff] at hwin
    exact nomatch hwin
  · intro h bytes len hw
    obtain ⟨hc, htime, rfl, rfl⟩ := ayiyaWriter_tunWrite_iff.mp hw
    have hlen := hc.length
    refine ⟨hc, ?_, by omega, by omega, rfl, rfl⟩
    rcases ticChecktime_zero.mp htime with hwin | hdiff
    · exact hwin
    · exact absurd ⟨hc, hdiff⟩ h

theorem writes_half_range_off :
    ¬ WritesOnlyChecked (fun _ => .replicate 20 0)
      ⟨.replicate 16 0, .replicate 16 0, .replicate 20 0⟩ 0
      ⟨[0x41, 0x52, 0x11, 41, 0x80, 0, 0, 0] ++ replicate 36 0 ++ [0x60], by decide⟩ := by
  intro h
  have hwrite : ayiyaWriter (fun _ => .replicate 20 0)
      ⟨.replicate 16 0, .replicate 16 0, .replicate 20 0⟩ 0
      ⟨[0x41, 0x52, 0x11, 41, 0x80, 0, 0, 0] ++ replicate 36 0 ++ [0x60], by decide⟩ =
        .tunWrite [0x60] 1 := by decide +kernel
  have hwin := (h _ _ hwrite).2.1.1
  exact absurd hwin (by unfold clockDiff toInt32; rw [word_eq]; decide)

/-! ## Round trip -/

theorem ticChecktime_epoch {sent : ℤ} (h : -clockOff ≤ now - sent) (h' : now - sent ≤ clockOff) :
    ticChecktime now ((sent % word).toNat % word : ℕ) = 0 := by
  unfold clockOff at *
  have hpos : 0 ≤ sent % (word : ℤ) := Int.emod_nonneg _ (by rw [word_eq]; decide)
  have hcast : (((sent % word).toNat % word : ℕ) : ℤ) = sent % word := by
    rw [Int.natCast_mod, Int.toNat_of_nonneg hpos, Int.emod_emod_of_dvd _ (dvd_refl _)]
  rw [ticChecktime_zero, hcast, clockDiff, toInt32_sub_emod, toInt32_of_range (by omega) (by omega)]
  exact Or.inl ⟨h, h'⟩

theorem checked_frame {h : AyiyaHdr} (hsup : h.Supported) (hnext : h.nextheader = ipprotoIpv6)
    {hash : Bytes 20} {packet : List UInt8}
    (hhash : hash = sha1 (h.encode ++ conf.ipv6Pop.toList ++ conf.hash.toList ++ packet))
    (hpos : 1 ≤ packet.length) (hsix : hiNibble (packet.getD 0 0) = 6) :
    Checked sha1 conf (h.encode ++ conf.ipv6Pop.toList ++ hash.toList ++ packet) := by
  have hfl : (h.encode ++ conf.ipv6Pop.toList).length = 24 := by
    rw [length_append, encode_length, List.Vector.toList_length]
  have hdl : (h.encode ++ conf.ipv6Pop.toList ++ hash.toList).length = 44 := by
    rw [length_append, hfl, List.Vector.toList_length]
  have hparse : AyiyaHdr.parse (h.encode ++ conf.ipv6Pop.toList ++ hash.toList ++ packet) =
      { h with epochtime := h.epochtime % word } := by
    rw [append_assoc, append_assoc, parse_encode_append]
  refine ⟨?_, ?_, ?_, ?_, ?_, ?_⟩
  · rw [length_append, hdl]
    omega
  · rw [hparse]
    exact hsup
  · rw [append_assoc, slice_append_of_le (by omega), slice_append_right (encode_length h)]
    exact take_of_length_le (by rw [List.Vector.toList_length])
  · -- the receiver hashes the very bytes the sender hashed
    have htake : (h.encode ++ conf.ipv6Pop.toList ++ hash.toList ++ packet).take 24 =
        h.encode ++ conf.ipv6Pop.toList := by
      rw [append_assoc]
      exact take_left' hfl
    rw [htake, drop_left' hdl, ← hhash, append_assoc, slice_append_right hfl]
    exact take_left' (List.Vector.toList_length _)
  · exact hnext
  · rw [getD_eq_getElem?_getD, getElem?_append_right (by omega), hdl, Nat.sub_self,
      ← getD_eq_getElem?_getD]
    exact hsix

/-- **Round trip.** A packet of 1 to 2004 bytes that starts with the nibble 6 is sent, accepted by
the other side and written there. -/
theorem ayiya_roundtrip (sha1 : List UInt8 → Bytes 20) {here there : AyiyaConf}
    (hid : here.ipv6Local = there.ipv6Pop) (hkey : here.hash = there.hash) {sent now : ℤ}
    (hclock : -clockOff ≤ now - sent) (hclock' : now - sent ≤ clockOff) {packet : List UInt8}
    (hpos : 1 ≤ packet.length) (hlen : packet.length ≤ 2004)
    (hsix : hiNibble (packet.getD 0 0) = 6) :
    ∃ d : Received, ayiyaReader sha1 here sent packet = some d.bytes ∧
      ayiyaWriter sha1 there now d = .tunWrite packet packet.length := by
  obtain ⟨h, hh⟩ : ∃ h : AyiyaHdr, h = ⟨4, 1, 5, 2, 1, 1, ipprotoIpv6, (sent % word).toNat⟩ :=
    ⟨_, rfl⟩
  obtain ⟨hash, hhash⟩ : ∃ hash : Bytes 20,
      hash = sha1 (h.encode ++ there.ipv6Pop.toList ++ there.hash.toList ++ packet) := ⟨_, rfl⟩
  have hread : ayiyaReader sha1 here sent packet =
      some (h.encode ++ there.ipv6Pop.toList ++ hash.toList ++ packet) := by
    unfold ayiyaReader
    rw [if_neg (by omega), hid, hkey, ← hh, hhash]
  have hsup : h.Supported := by
    rw [hh]
    exact ⟨rfl, rfl, rfl, rfl, rfl, Or.inl rfl, Or.inl rfl⟩
  have hchecked := checked_frame hsup (by rw [hh]) hhash hpos hsix
  have hdl : (h.encode ++ there.ipv6Pop.toList ++ hash.toList).length = 44 := by
    rw [length_append, length_append, encode_length, List.Vector.toList_length,
      List.Vector.toList_length]
  have hlen' : (h.encode ++ there.ipv6Pop.toList ++ hash.toList ++ packet).length =
      44 + packet.length := by rw [length_append, hdl]
  refine ⟨⟨_, hlen'.trans_le (by omega)⟩, hread,
    ayiyaWriter_tunWrite_iff.mpr ⟨hchecked, ?_, (drop_left' hdl).symm, ?_⟩⟩
  · show ticChecktime now (AyiyaHdr.parse
      (h.encode ++ there.ipv6Pop.toList ++ hash.toList ++ packet)).epochtime = 0
    rw [append_assoc, append_assoc, parse_encode_append, hh]
    exact ticChecktime_epoch hclock hclock'
  · show packet.length = (h.encode ++ there.ipv6Pop.toList ++ hash.toList ++ packet).length - 44
    omega

theorem ayiya_roundtrip_header :
    ∃ d : Received, ayiyaReader (fun _ => .replicate 20 7)
        ⟨.replicate 16 1, .replicate 16 2, .replicate 20 3⟩ 1000 (0x60 :: replicate 39 0) =
          some d.bytes ∧
      ayiyaWriter (fun _ => .replicate 20 7) ⟨.replicate 16 2, .replicate 16 1, .replicate 20 3⟩
        1120 d = .tunWrite (0x60 :: replicate 39 0) 40 :=
  @ayiya_roundtrip _ ⟨.replicate 16 1, .replicate 16 2, .replicate 20 3⟩
    ⟨.replicate 16 2, .replicate 16 1, .replicate 20 3⟩ rfl rfl 1000 1120 (by decide) (by decide)
    _ (by decide) (by decide) (by decide)

end Endpoint

end Maiccu.Ayiya
