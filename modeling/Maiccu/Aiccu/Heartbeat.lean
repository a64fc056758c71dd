import Maiccu.Aiccu.Config
import Maiccu.Aiccu.GetTunnel
import Maiccu.Gogoc.DigestMd5

/-!
# The heartbeat

`heartbeat_send` prints its message into 1000 bytes, replaces it by the message without the
password, and appends the digest of the first one in hexadecimal. The second print leaves 17 bytes
free where the digest needs 33, and the place of the digest is where the whole message would end.
-/

namespace Maiccu.Aiccu

open Maiccu.Lib List
open Maiccu.Gogoc.Auth (hexDigit hexText hexDigit_ne_zero)

/-! ## The function -/

/-- The arguments of `heartbeat_send`, and the time. `bool` is a number of 32 bits. -/
structure Beat where
  sIPv4Local : Option (List UInt8)
  sIPv6Local : Option (List UInt8)
  sPassword : Option (List UInt8)
  bBehindNAT : UInt32
  time : ℤ

/-- `HEARTBEAT TUNNEL %s %s %ld ` with the name of the sender or its address. -/
def Beat.text (h : Beat) (sender : Bool) : List UInt8 :=
  ascii "HEARTBEAT TUNNEL " ++ (printString h.sIPv6Local ++ 32 ::
    ((if sender then ascii "sender" else printString h.sIPv4Local) ++
      32 :: (showInt h.time ++ [32])))

def Beat.signed (h : Beat) : List UInt8 :=
  snprintf 1000 (h.text (h.bBehindNAT ≠ 0) ++ printString h.sPassword)

/-- The message. The two tests of `bBehindNAT` are different ones. -/
def Beat.message (h : Beat) : List UInt8 := h.text (h.bBehindNAT = 1)

def hexByte (b : UInt8) : List UInt8 := [hexDigit (b.toNat / 16), hexDigit (b.toNat % 16)]

def appendDigest : List UInt8 → List UInt8 → ℕ → Except Fault (List UInt8 × ℕ)
  | [], buf, p => .ok (buf, p)
  | d :: ds, buf, p => do
    let buf ← storeAt buf p (hexByte d ++ [0])
    appendDigest ds buf (p + 2)

/-- The end of the function: the digest is appended at `p`, and the text in the buffer is sent. -/
def sendDigest (digest buf : List UInt8) (p : ℕ) : Except Fault (List UInt8) := do
  let (buf, p) ← appendDigest digest buf p
  let buf ← storeAt buf p [0]
  return cString buf

/-- `heartbeat_send`, with what the buffer has in it before. The result is what is sent. -/
def heartbeatSend (md5 : List UInt8 → Bytes 16) (buf : List UInt8) (h : Beat) :
    Except Fault (List UInt8) := do
  let buf ← storeAt buf 0 (h.signed ++ [0])
  let digest := md5 (cString buf)
  let buf ← storeAt buf 0 (snprintf (1000 - 17) h.message ++ [0])
  sendDigest digest.toList buf h.message.length

/-! ## The digest -/

section Digest

variable {ds buf buf' x r : List UInt8} {p p' : ℕ}

theorem zero_notMem_hexByte (b : UInt8) : 0 ∉ hexByte b := by
  have hb := b.toNat_lt
  simp only [hexByte, mem_cons, not_mem_nil, or_false, not_or]
  exact ⟨(hexDigit_ne_zero (by omega)).symm, (hexDigit_ne_zero (by omega)).symm⟩

theorem length_flatMap_hexByte (ds : List UInt8) : (ds.flatMap hexByte).length = 2 * ds.length := by
  induction ds with
  | nil => rfl
  | cons d ds ih =>
    rw [flatMap_cons, length_append, ih, length_cons]
    simp only [hexByte, length_cons, length_nil]
    omega

theorem of_appendDigest (h : appendDigest ds buf p = .ok (buf', p')) :
    buf'.length = buf.length ∧ p' = p + 2 * ds.length := by
  induction ds generalizing buf p with
  | nil =>
    cases h
    exact ⟨rfl, rfl⟩
  | cons d ds ih =>
    rw [appendDigest] at h
    cases hstore : storeAt buf p (hexByte d ++ [0]) with
    | error why =>
      rw [hstore] at h
      cases h
    | ok buf₁ =>
      rw [hstore] at h
      obtain ⟨hlen, hp⟩ := ih h
      refine ⟨hlen.trans (length_of_storeAt hstore).1, ?_⟩
      rw [hp, length_cons]
      omega

theorem appendDigest_of_room (hroom : 2 * ds.length < r.length) :
    ∃ r', appendDigest ds (x ++ r) x.length =
      .ok (x ++ (ds.flatMap hexByte ++ r'), x.length + 2 * ds.length) ∧
        r'.length + 2 * ds.length = r.length := by
  induction ds generalizing x r with
  | nil => exact ⟨r, rfl, rfl⟩
  | cons d ds ih =>
    rw [length_cons] at hroom
    have hstore : storeAt (x ++ r) x.length (hexByte d ++ [0]) =
        .ok ((x ++ hexByte d) ++ 0 :: r.drop 3) := by
      rw [storeAt_append (by simp [hexByte]; omega)]
      simp [hexByte]
    obtain ⟨r', hloop, hlen⟩ := ih (x := x ++ hexByte d) (r := 0 :: r.drop 3) (by simp; omega)
    have hx : (x ++ hexByte d).length = x.length + 2 := by simp [hexByte]
    rw [hx] at hloop
    refine ⟨r', ?_, ?_⟩
    · rw [appendDigest, hstore]
      refine hloop.trans ?_
      rw [length_cons, flatMap_cons]
      simp only [append_assoc]
      rw [show x.length + 2 + 2 * ds.length = x.length + 2 * (ds.length + 1) by omega]
    · rw [length_cons, length_drop] at hlen
      rw [length_cons]
      omega

end Digest

/-! ## What is sent -/

def Beat.NulFree (h : Beat) : Prop :=
  ∀ v ∈ [h.sIPv4Local, h.sIPv6Local, h.sPassword], ∀ s ∈ v, 0 ∉ s

section Sent

variable {md5 : List UInt8 → Bytes 16} {buf : List UInt8} {h : Beat}

theorem zero_notMem_printString {v : Option (List UInt8)} (hv : ∀ s ∈ v, 0 ∉ s) :
    0 ∉ printString v := by
  cases v with
  | none => decide
  | some s => exact hv s rfl

theorem Beat.NulFree.text (hz : h.NulFree) (sender : Bool) : 0 ∉ h.text sender := by
  simp only [Beat.NulFree, forall_mem_cons] at hz
  obtain ⟨h4, h6, -, -⟩ := hz
  unfold Beat.text
  simp only [mem_append, mem_cons, not_or]
  refine ⟨by decide, zero_notMem_printString h6, by decide, ?_, by decide, fun h0 =>
    (nomatch mem_showInt h0), by decide⟩
  split_ifs
  · decide
  · exact zero_notMem_printString h4

theorem Beat.NulFree.signed (hz : h.NulFree) : 0 ∉ h.signed := by
  intro h0
  have hmem := mem_of_mem_take h0
  rw [mem_append] at hmem
  rcases hmem with hmem | hmem
  · exact hz.text _ hmem
  · exact zero_notMem_printString (hz h.sPassword (by simp)) hmem

theorem storeAt_start {a s : List UInt8} (hlen : s.length < a.length) :
    storeAt a 0 (s ++ [0]) = .ok (s ++ 0 :: a.drop (s.length + 1)) := by
  have hstore := storeAt_append (x := []) (s := s ++ [0]) (r := a)
    (by rw [length_append]; exact hlen)
  simpa using hstore

theorem heartbeatSend_eq (hbuf : buf.length = 1000) (hz : h.NulFree) :
    ∃ r, (snprintf 983 h.message).length + 1 + r.length = 1000 ∧ heartbeatSend md5 buf h =
      sendDigest (md5 h.signed).toList (snprintf 983 h.message ++ 0 :: r) h.message.length := by
  have hsigned : h.signed.length < 1000 := by
    unfold Beat.signed snprintf
    rw [length_take]
    omega
  have hmessage : (snprintf 983 h.message).length < 983 := by
    unfold snprintf
    rw [length_take]
    omega
  obtain ⟨buf₁, hbuf₁⟩ : ∃ b, b = h.signed ++ 0 :: buf.drop (h.signed.length + 1) := ⟨_, rfl⟩
  have hcstr : cString buf₁ = h.signed := by
    rw [hbuf₁, cString_append_of_notMem hz.signed]
    simp [cString]
  have hlen : buf₁.length = 1000 := by
    simp only [hbuf₁, length_append, length_cons, length_drop]
    omega
  have hstore₁ : storeAt buf 0 (h.signed ++ [0]) = .ok buf₁ := hbuf₁ ▸ storeAt_start (by omega)
  refine ⟨buf₁.drop ((snprintf 983 h.message).length + 1), ?_, ?_⟩
  · rw [length_drop]
    omega
  · unfold heartbeatSend
    rw [hstore₁]
    show (storeAt buf₁ 0 (snprintf 983 h.message ++ [0]) >>= fun b =>
      sendDigest (md5 (cString buf₁)).toList b h.message.length) = _
    rw [storeAt_start (by omega), hcstr]
    rfl

theorem sendDigest_of_short {digest x r : List UInt8} (hx : 0 ∉ x)
    (hroom : 2 * digest.length < r.length) :
    sendDigest digest (x ++ r) x.length = .ok (x ++ digest.flatMap hexByte) := by
  obtain ⟨r', hloop, hlen⟩ := appendDigest_of_room (x := x) hroom
  have hp : (x ++ digest.flatMap hexByte).length = x.length + 2 * digest.length := by
    rw [length_append, length_flatMap_hexByte]
  have hzero : 0 ∉ x ++ digest.flatMap hexByte := by
    rw [mem_append, not_or, mem_flatMap]
    exact ⟨hx, fun ⟨b, _, hb⟩ => zero_notMem_hexByte b hb⟩
  have hstore := storeAt_append (x := x ++ digest.flatMap hexByte) (s := [0]) (r := r')
    (by rw [length_singleton]; omega)
  rw [hp, append_assoc] at hstore
  unfold sendDigest
  rw [hloop]
  show (storeAt (x ++ (digest.flatMap hexByte ++ r')) (x.length + 2 * digest.length)
    [0] >>= fun b =>
    (pure (cString b) : Except Fault (List UInt8))) = _
  rw [hstore]
  refine congrArg Except.ok ?_
  rw [singleton_append, cString_append_of_notMem hzero]
  simp [cString]

theorem le_of_sendDigest {digest sent : List UInt8} {p : ℕ}
    (h : sendDigest digest buf p = .ok sent) : p + 2 * digest.length < buf.length := by
  unfold sendDigest at h
  cases hloop : appendDigest digest buf p with
  | error why =>
    rw [hloop] at h
    cases h
  | ok x =>
    obtain ⟨buf', p'⟩ := x
    obtain ⟨hlen, rfl⟩ := of_appendDigest hloop
    rw [hloop] at h
    cases hstore : storeAt buf' (p + 2 * digest.length) [0] with
    | error why =>
      have herror : (storeAt buf' (p + 2 * digest.length) [0] >>= fun b =>
        (pure (cString b) : Except Fault (List UInt8))) = .ok sent := h
      rw [hstore] at herror
      cases herror
    | ok b =>
      have hin := (length_of_storeAt hstore).2
      rw [length_singleton, hlen] at hin
      omega

theorem length_le_of_sent {sent : List UInt8} (hbuf : buf.length = 1000) (hz : h.NulFree)
    (hsent : heartbeatSend md5 buf h = .ok sent) : h.message.length ≤ 967 := by
  obtain ⟨r, hr, heq⟩ := heartbeatSend_eq hbuf hz
  have hdigest : (md5 h.signed).toList.length = 16 := List.Vector.toList_length _
  rw [heq] at hsent
  have hlt := le_of_sendDigest hsent
  rw [hdigest, length_append, length_cons] at hlt
  omega

end Sent

/-- **The heartbeat.** The stores are inside the buffer, and what is sent is the message and its
digest, if and only if the message has at most 967 bytes. -/
theorem heartbeat_sent_iff (md5 : List UInt8 → Bytes 16) (buf : List UInt8)
    (hbuf : buf.length = 1000) (h : Beat) (hz : h.NulFree) :
    heartbeatSend md5 buf h = .ok (h.message ++ hexText (md5 h.signed)) ↔
      h.message.length ≤ 967 := by
  refine ⟨length_le_of_sent hbuf hz, fun hshort => ?_⟩
  obtain ⟨r, hr, heq⟩ := heartbeatSend_eq hbuf hz
  have hdigest : (md5 h.signed).toList.length = 16 := List.Vector.toList_length _
  have hwhole : snprintf 983 h.message = h.message := snprintf_of_lt (by omega)
  rw [hwhole] at hr heq
  rw [heq]
  refine sendDigest_of_short (hz.text _) ?_
  rw [hdigest, length_cons]
  omega

/-- A message that fits. -/
theorem heartbeat_sent_short :
    heartbeatSend (fun _ => List.Vector.replicate 16 0) (replicate 1000 0)
      ⟨none, some (ascii "2001:db8::2"), some (ascii "secret"), 1, 1000000000⟩ = .ok (ascii
        "HEARTBEAT TUNNEL 2001:db8::2 sender 1000000000 00000000000000000000000000000000") := by
  refine ((heartbeat_sent_iff (fun _ => List.Vector.replicate 16 0) (replicate 1000 0)
    length_replicate _ ?_).mpr ?_).trans ?_
  · simp only [Beat.NulFree, forall_mem_cons]
    refine ⟨nofun, ?_, ?_, nofun⟩
    · rintro s ⟨⟩
      decide
    · rintro s ⟨⟩
      decide
  · decide
  · rfl

/-! ## A message that does not fit -/

/-- What `heartbeat_beat` hands on, when `heartbeat_socket` has found the local address. -/
def beatOf (tun : Tic.TicTunnel) (ipv4Local : List UInt8) (time : ℤ) : Beat :=
  ⟨some ipv4Local, tun.data (.string .sIPv6Local), tun.data (.string .sPassword), 1, time⟩

def longEndpoint : List UInt8 := replicate 949 97 ++ [97]

def longLine : List UInt8 := ascii "IPv6 Endpoint: " ++ longEndpoint

def longReply : List Tic.Outcome :=
  [.line 7 (ascii "201 T1"), .line 21 (ascii "Type: 6in4-heartbeat"), .line 966 longLine,
   .line 9 (ascii "202 Done")]

-- The functions are run on the reply; its long line needs the deeper recursion.
set_option maxRecDepth 10000 in
theorem ticGetTunnel_longReply :
    ∃ tun, Tic.ticGetTunnel noInet (List.Vector.replicate 16 0) longReply =
      .returned (some tun) [] ∧
      tun.data (.string .sIPv6Local) = some longEndpoint ∧ tun.data (.string .sPassword) = none :=
  ⟨_, rfl, rfl, rfl⟩

theorem long_endpoint_not_sent :
    ∃ tun, Tic.ticGetTunnel noInet (List.Vector.replicate 16 0) longReply =
      .returned (some tun) [] ∧ ∀ md5 buf sent, buf.length = 1000 →
        heartbeatSend md5 buf (beatOf tun (ascii "192.0.2.1") 1000000000) ≠ .ok sent := by
  obtain ⟨tun, htun, hlocal, hpassword⟩ := ticGetTunnel_longReply
  refine ⟨tun, htun, fun md5 buf sent hbuf hsent => ?_⟩
  rw [beatOf, hlocal, hpassword] at hsent
  have hle := length_le_of_sent hbuf ?_ hsent
  · exact absurd hle (by decide +kernel)
  · simp only [Beat.NulFree, forall_mem_cons]
    refine ⟨?_, ?_, nofun, nofun⟩
    · rintro s ⟨⟩
      decide
    · rintro s ⟨⟩
      decide +kernel

end Maiccu.Aiccu
