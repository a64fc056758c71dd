import Maiccu.Teredo.Packets

/-!
# The key of the hash

`teredo_init_HMAC` of `security.c` fills the key of the hash from the random device. It keeps the
number of bytes it has in an unsigned variable, and subtracts where it should add: after the first
read that returns anything the number is huge, and the loop ends. A call whose process has the
number that is stored already does not read at all, and the number stored at the start is zero.
-/

namespace Maiccu.Teredo

open Maiccu.Lib

/-- What `read` returns: `-1`, or bytes, of which it stores as many as were asked for. -/
inductive ReadResult where
  | error
  | data (b : List UInt8)

/-- The static variables of `security.c`. -/
structure Hmac where
  /-- `hmac_pid`, in network order. -/
  pid : Bytes 2
  /-- `inner_key`, with the padding. -/
  inner : Bytes 64
  /-- `outer_key`, with the padding. -/
  outer : Bytes 64
  /-- The bytes that `read` returned for this key. The code does not keep them. -/
  drawn : List UInt8

def Hmac.start : Hmac where
  pid := bytes [0, 0]
  inner := .replicate 64 0
  outer := .replicate 64 0
  drawn := []

/-- The loop of `teredo_init_HMAC`: the key, and all bytes that were read. It is `none` while the
loop is not done. -/
def fillKey (len : UInt32) (key : Bytes 64) (drawn : List UInt8) :
    List ReadResult → Option (Bytes 64 × List UInt8)
  | [] => if len < 16 then none else some (key, drawn)
  | r :: rs =>
    if len < 16 then
      match r with
      | .error => fillKey len key drawn rs
      | .data b =>
        let b := b.take (16 - len).toNat
        if 0 < b.length then
          fillKey (len - UInt32.ofNat b.length) (setField key len.toNat b) (drawn ++ b) rs
        else fillKey len key drawn rs
    else some (key, drawn)

/-- A call of `teredo_init_HMAC`: the process, whether the device can be opened, what is read. -/
structure HmacCall where
  getpid : ℕ
  opens : Bool
  reads : List ReadResult

/-- `htons ((uint16_t)getpid ())`. -/
def HmacCall.pid (c : HmacCall) : Bytes 2 := bytes (be 2 c.getpid)

/-- The result and the variables after the call; `none` if it does not return. -/
def teredoInitHmac (s : Hmac) (c : HmacCall) : Option (ℤ × Hmac) :=
  if s.pid ≠ c.pid then
    if !c.opens then some (-1, s) else
    (fillKey 0 (.replicate 64 0) [] c.reads).map fun x =>
      (0, { pid := c.pid
            inner := x.1.map (· ^^^ 0x36)
            outer := x.1.map (· ^^^ 0x5c)
            drawn := x.2 })
  else some (0, s)

def Hmac.ofDrawn (pid : Bytes 2) (b : List UInt8) : Hmac where
  pid := pid
  inner := (setField (.replicate 64 0) 0 b).map (· ^^^ 0x36)
  outer := (setField (.replicate 64 0) 0 b).map (· ^^^ 0x5c)
  drawn := b

/-- The key is made of 16 bytes that were read, in their order. -/
structure KeyFilled (s : Hmac) : Prop where
  length : s.drawn.length = 16
  key : s = Hmac.ofDrawn s.pid s.drawn

def SuccessFilled : Hmac → List HmacCall → Prop
  | _, [] => True
  | s, c :: cs => ∀ r s', teredoInitHmac s c = some (r, s') →
    (r = 0 → KeyFilled s') ∧ SuccessFilled s' cs

/-! ## The loop -/

def firstRead : List ReadResult → Option (List UInt8)
  | [] => none
  | .error :: rs => firstRead rs
  | .data b :: rs => if 0 < (b.take 16).length then some (b.take 16) else firstRead rs

theorem not_sub_lt {k : ℕ} (hpos : 0 < k) (hle : k ≤ 16) : ¬ (0 - UInt32.ofNat k) < 16 := by
  show ¬ (2 ^ 32 - k % 2 ^ 32 + 0) % 2 ^ 32 < 16
  omega

theorem fillKey_of_large {len : UInt32} (h : ¬ len < 16) (key : Bytes 64) (drawn : List UInt8)
    (rs : List ReadResult) : fillKey len key drawn rs = some (key, drawn) := by
  cases rs with
  | nil | cons r rs => exact if_neg h

theorem fillKey_eq (key : Bytes 64) (rs : List ReadResult) :
    fillKey 0 key [] rs = (firstRead rs).map fun b => (setField key 0 b, b) := by
  induction rs with
  | nil => rfl
  | cons r rs ih =>
    cases r with
    | error => exact ih
    | data b =>
      show (if 0 < (b.take 16).length then
        fillKey (0 - UInt32.ofNat (b.take 16).length) (setField key 0 (b.take 16)) (b.take 16) rs
        else fillKey 0 key [] rs) = _
      rw [firstRead]
      split_ifs with hpos
      · rw [fillKey_of_large (not_sub_lt hpos (List.length_take_le 16 b))]
        rfl
      · exact ih

/-! ## Calls -/

/-- A call that does not read finds a key that was drawn before, and one that reads gets 16 bytes at
once. -/
def CallDraws (s : Hmac) (c : HmacCall) : Prop :=
  if s.pid = c.pid then s.drawn ≠ []
  else c.opens = true → ∀ b, firstRead c.reads = some b → b.length = 16

def CallsDraw : Hmac → List HmacCall → Prop
  | _, [] => True
  | s, c :: cs => CallDraws s c ∧ ∀ r s', teredoInitHmac s c = some (r, s') → CallsDraw s' cs

section Calls

variable {s s' : Hmac} {c : HmacCall} {r : ℤ}

theorem initHmac_cases (h : teredoInitHmac s c = some (r, s')) :
    (s.pid = c.pid ∧ r = 0 ∧ s' = s) ∨ (s.pid ≠ c.pid ∧ c.opens = false ∧ r = -1 ∧ s' = s) ∨
      (s.pid ≠ c.pid ∧ c.opens = true ∧ r = 0 ∧ ∃ b, firstRead c.reads = some b ∧
        s' = Hmac.ofDrawn c.pid b) := by
  unfold teredoInitHmac at h
  split_ifs at h with hpid hopen
  · cases h
    exact .inr (.inl ⟨hpid, by simpa using hopen, rfl, rfl⟩)
  · rw [fillKey_eq, Option.map_map] at h
    obtain ⟨b, hb, heq⟩ := Option.map_eq_some_iff.mp h
    cases heq
    exact .inr (.inr ⟨hpid, by simpa using hopen, rfl, b, hb, rfl⟩)
  · cases h
    exact .inl ⟨not_not.mp hpid, rfl, rfl⟩

def Hmac.Sound (s : Hmac) : Prop := s.drawn = [] ∨ KeyFilled s

theorem initHmac_filled_iff (hs : s.Sound) :
    (∀ r s', teredoInitHmac s c = some (r, s') → r = 0 → KeyFilled s') ↔ CallDraws s c := by
  unfold CallDraws
  constructor
  · intro h
    split_ifs with hpid
    · intro hnone
      have hfilled := (h 0 s (if_neg (not_not.mpr hpid)) rfl).length
      rw [hnone] at hfilled
      cases hfilled
    · intro hopen b hb
      have hinit : teredoInitHmac s c = some (0, Hmac.ofDrawn c.pid b) := by
        rw [teredoInitHmac, if_pos hpid, hopen, fillKey_eq, hb]
        rfl
      exact (h _ _ hinit rfl).length
  · intro h r s' hinit hr
    rcases initHmac_cases hinit with ⟨hpid, -, rfl⟩ | ⟨-, -, hfail, -⟩
      | ⟨hpid, hopen, -, b, hb, rfl⟩
    · rw [if_pos hpid] at h
      exact hs.resolve_left h
    · rw [hr] at hfail
      cases hfail
    · rw [if_neg hpid] at h
      exact ⟨h hopen b hb, rfl⟩

theorem Hmac.Sound.step (hs : s.Sound) (hc : CallDraws s c)
    (h : teredoInitHmac s c = some (r, s')) : s'.Sound := by
  rcases initHmac_cases h with ⟨-, -, rfl⟩ | ⟨-, -, -, rfl⟩ | ⟨hpid, hopen, hr, -⟩
  · exact hs
  · exact hs
  · exact .inr ((initHmac_filled_iff hs).mpr hc r s' h hr)

theorem successFilled_iff (hs : s.Sound) (cs : List HmacCall) :
    SuccessFilled s cs ↔ CallsDraw s cs := by
  induction cs generalizing s with
  | nil => exact Iff.rfl
  | cons c cs ih =>
    constructor
    · intro h
      have hc : CallDraws s c := (initHmac_filled_iff hs).mp fun r s' hr => (h r s' hr).1
      exact ⟨hc, fun r s' hr => (ih (hs.step hc hr)).mp (h r s' hr).2⟩
    · intro h r s' hr
      exact ⟨(initHmac_filled_iff hs).mpr h.1 r s' hr, (ih (hs.step h.1 hr)).mpr (h.2 r s' hr)⟩

end Calls

/-- Success is reported with a filled key only, if and only if every call that reads gets all 16
bytes from the first read that returns anything, and every other one finds a key that was drawn
before. -/
theorem key_filled_iff (cs : List HmacCall) :
    SuccessFilled Hmac.start cs ↔ CallsDraw Hmac.start cs :=
  successFilled_iff (.inl rfl) cs

/-- A first read of one byte is enough for success; and so is the process number 65536, without any
read. -/
theorem short_read_reported :
    ¬ SuccessFilled Hmac.start [⟨1234, true, [.error, .data [7]]⟩] ∧
      ¬ SuccessFilled Hmac.start [⟨65536, true, []⟩] := by
  constructor
  · intro h
    have hfilled := ((h 0 _ rfl).1 rfl).length
    cases hfilled
  · intro h
    have hfilled := ((h 0 _ rfl).1 rfl).length
    cases hfilled

end Maiccu.Teredo
