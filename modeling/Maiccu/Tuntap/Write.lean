import Mathlib.Algebra.Ring.Nat
import Mathlib.Data.List.Infix
import Mathlib.Tactic.SplitIfs

/-!
# Writing a packet to a tunnel device

`cdev_write` (`tuntap.cc`) cuts what the user writes into buffers, and gives the stack what follows
the link header. The limit of the MTU is applied to each piece, and the sum is looked at only after
a piece is added.
-/

namespace Maiccu.Tuntap

open List

/-- A message buffer, and whether the copy into it fails. -/
structure Mbuf where
  maxlen : ℕ
  fault : Bool

inductive WriteError where
  | io
  | nomem
  | fault

/-- The data of a chain of buffers, and the length in its header. -/
structure Packet where
  parts : List (List UInt8)
  len : ℕ

/-- The loop, for the buffers that `mbuf_get` will give, the first of which is the current one. -/
def writeLoop (mtu : ℕ) : List Mbuf → List UInt8 → ℕ → Option (Except WriteError Packet)
  | [], _, _ => some (.error .nomem)
  | mb :: mbufs, uio, copied =>
    if uio = [] then some (.ok ⟨[[]], copied⟩)
    else
      let chunkLen := min mtu (min uio.length mb.maxlen)
      if mb.fault then some (.error .fault)
      else if uio.drop chunkLen = [] ∨ mtu ≤ copied + chunkLen then
        some (.ok ⟨[uio.take chunkLen], copied + chunkLen⟩)
      else if mb.maxlen - chunkLen = 0 then
        (writeLoop mtu mbufs (uio.drop chunkLen) (copied + chunkLen)).map fun r =>
          r.map fun p => { p with parts := uio.take chunkLen :: p.parts }
      -- the next chunk would go to the start of the same buffer
      else none

/-- What `mbuf_adj` leaves of the buffers: `n` bytes are cut off at the front. -/
def trimHead : ℕ → List (List UInt8) → List (List UInt8)
  | _, [] => []
  | n, d :: ds => if d.length ≤ n then [] :: trimHead (n - d.length) ds else d.drop n :: ds

def mbufAdj (p : Packet) (n : ℕ) : Packet :=
  ⟨trimHead n p.parts, p.len - min n (p.parts.map length).sum⟩

/-- The packet that `ifnet_input` gets. It begins behind the link header of `hdrlen` bytes. -/
def cdevWrite (up : Bool) (mtu hdrlen : ℕ) (mbufs : List Mbuf) (uio : List UInt8) :
    Option (Except WriteError Packet) :=
  if !up then some (.error .io)
  else (writeLoop mtu mbufs uio 0).map fun r => r.map fun p => mbufAdj p hdrlen

/-- No buffer that begins below the MTU, behind the first `c` of the `n` bytes, gets data beyond
the first `k`. -/
def Within (mtu n k : ℕ) : ℕ → List Mbuf → Prop
  | _, [] => True
  | c, mb :: mbufs =>
    (c < mtu → min n (c + min mtu mb.maxlen) ≤ k) ∧ Within mtu n k (c + mb.maxlen) mbufs

theorem flatten_trimHead (n : ℕ) (ds : List (List UInt8)) :
    (trimHead n ds).flatten = ds.flatten.drop n := by
  induction ds generalizing n with
  | nil => exact drop_nil.symm
  | cons d ds ih =>
    rw [trimHead, flatten_cons, drop_append]
    split_ifs with hle
    · rw [flatten_cons, ih, drop_eq_nil_of_le hle]
    · rw [flatten_cons, Nat.sub_eq_zero_of_le (by omega), drop_zero]

theorem within_of_le {mtu n k c : ℕ} (mbufs : List Mbuf) (h : n ≤ k ∨ mtu ≤ c) :
    Within mtu n k c mbufs := by
  induction mbufs generalizing c with
  | nil => trivial
  | cons mb mbufs ih => exact ⟨fun _ => by omega, ih (by omega)⟩

theorem writeLoop_spec (mtu : ℕ) (mbufs : List Mbuf) (uio : List UInt8) (copied : ℕ)
    (hcopied : copied = 0 ∨ copied < mtu) :
    writeLoop mtu mbufs uio copied ≠ none ∧ ∀ p, writeLoop mtu mbufs uio copied = some (.ok p) →
      p.parts.flatten <+: uio ∧ p.len = copied + p.parts.flatten.length ∧
        ∀ k, p.len ≤ k ↔ Within mtu (copied + uio.length) k copied mbufs := by
  induction mbufs generalizing uio copied with
  | nil => exact ⟨nofun, nofun⟩
  | cons mb mbufs ih =>
    unfold writeLoop
    simp only [drop_eq_nil_iff]
    generalize hk : min mtu (min uio.length mb.maxlen) = k
    split_ifs with hnil hfault hdone hfull
    · subst hnil
      refine ⟨nofun, ?_⟩
      rintro p ⟨⟩
      refine ⟨List.nil_prefix, rfl, fun l => ⟨fun hle => within_of_le _ (.inl hle), fun h => ?_⟩⟩
      have := h.1
      rw [length_nil] at this
      show copied ≤ l
      omega
    · exact ⟨nofun, nofun⟩
    · refine ⟨nofun, ?_⟩
      rintro p ⟨⟩
      have hlen : (uio.take k).length = k := length_take_of_le (by omega)
      simp only [flatten_cons, flatten_nil, append_nil, hlen]
      refine ⟨List.take_prefix k uio, trivial, fun l => ⟨fun hle => ?_, fun h => ?_⟩⟩
      · exact ⟨fun _ => by omega, within_of_le mbufs (by omega)⟩
      · have := h.1
        omega
    · have hk' : k = mb.maxlen := by omega
      have hlen : (uio.take k).length = k := length_take_of_le (by omega)
      obtain ⟨hne, hok⟩ := ih (uio.drop k) (copied + k) (by omega)
      refine ⟨by simpa using hne, fun p hp => ?_⟩
      obtain ⟨r, hr, hr'⟩ := Option.map_eq_some_iff.mp hp
      cases r with
      | error e => exact nomatch hr'
      | ok p =>
        cases hr'
        obtain ⟨⟨s, hs⟩, hlen', hiff⟩ := hok p hr
        rw [length_drop, Nat.add_assoc, Nat.add_sub_cancel' (by omega)] at hiff
        refine ⟨⟨s, ?_⟩, ?_, fun l => (hiff l).trans ?_⟩
        · rw [flatten_cons, append_assoc, hs, take_append_drop]
        · simp only [flatten_cons, length_append, hlen, hlen']
          omega
        · subst hk'
          refine ⟨fun h => ⟨fun _ => ?_, h⟩, And.right⟩
          have := (hiff l).mpr h
          omega
    · omega

/-- The part of a copied prefix behind `h` bytes begins as the whole does if it repeats it. -/
theorem drop_prefix_iff {l uio : List UInt8} (hl : l <+: uio) (h : ℕ) :
    l.drop h <+: uio ↔ ∀ i, l.length ≤ i + h ∨ uio[i + h]? = uio[i]? := by
  rw [prefix_iff_getElem?]
  refine forall_congr' fun i => ?_
  have hget (hi : i < (l.drop h).length) : uio[i + h]? = some (l.drop h)[i] := by
    rw [length_drop] at hi
    rw [getElem_drop, Nat.add_comm, List.prefix_iff_getElem?.mp hl (h + i) (by omega)]
  by_cases hi : l.length ≤ i + h
  · exact iff_of_true (fun hi' => by rw [length_drop] at hi'; omega) (.inl hi)
  · have hi' : i < (l.drop h).length := by rw [length_drop]; omega
    rw [hget hi', or_iff_right hi, forall_prop_of_true hi', eq_comm]

/-- The stack gets what the user writes behind the link header. That is a prefix of all of it if
each copied byte is the one `hdrlen` places before it. -/
theorem write_within_mtu_iff (up : Bool) (mtu hdrlen : ℕ) (mbufs : List Mbuf) (uio : List UInt8) :
    cdevWrite up mtu hdrlen mbufs uio ≠ none ∧
      ∀ p, cdevWrite up mtu hdrlen mbufs uio = some (.ok p) →
        p.len = (p.parts.map length).sum ∧ p.parts.flatten <+: uio.drop hdrlen ∧
        (p.parts.flatten <+: uio ↔
          ∀ i, Within mtu uio.length (i + hdrlen) 0 mbufs ∨ uio[i + hdrlen]? = uio[i]?) ∧
        (p.len ≤ mtu ↔ Within mtu uio.length (mtu + hdrlen) 0 mbufs) := by
  unfold cdevWrite
  cases up with
  | false => exact ⟨nofun, nofun⟩
  | true =>
    obtain ⟨hne, hok⟩ := writeLoop_spec mtu mbufs uio 0 (.inl rfl)
    refine ⟨by simpa using hne, fun p hp => ?_⟩
    obtain ⟨r, hr, hr'⟩ := Option.map_eq_some_iff.mp hp
    cases r with
    | error e => exact nomatch hr'
    | ok q =>
      cases hr'
      obtain ⟨hpre, hlen, hiff⟩ := hok q hr
      simp only [Nat.zero_add] at hlen hiff
      simp only [mbufAdj, ← length_flatten, flatten_trimHead, length_drop, ← hlen, ← hiff]
      rw [drop_prefix_iff hpre, ← hlen]
      exact ⟨by omega, List.IsPrefix.drop hpre hdrlen, Iff.rfl, by omega⟩

theorem two_buffers_exceed_mtu :
    cdevWrite true 8 4 [⟨7, false⟩, ⟨7, false⟩] [1, 2, 3, 4, 5, 6, 7, 8, 9, 10, 11, 12, 13, 14] =
      some (.ok ⟨[[5, 6, 7], [8, 9, 10, 11, 12, 13, 14]], 10⟩) := by
  rfl

end Maiccu.Tuntap
