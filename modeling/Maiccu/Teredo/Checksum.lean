import Maiccu.Lib.OnesSum
import Maiccu.Teredo.Encap

/-!
# The checksum of a packet

`in_cksum` of `teredo.c` runs over several buffers, byte by byte, and adds words in the byte order
of the machine, here the little-endian one. `teredo_cksum` puts the pseudo header in front. The
result is compared as it lies in memory with the checksum in network order (`onesChecksum`).
-/

namespace Maiccu.Teredo

open Maiccu.Lib List

structure Cksum where
  sum : ℕ
  odd : Bool
  /-- `w.bytes[0]`, which is written before it is read. -/
  first : UInt8

def Cksum.byte (s : Cksum) (c : UInt8) : Cksum :=
  if s.odd then { s with sum := addWord s.sum s.first c, odd := false }
  else { s with first := c, odd := true }

def Cksum.buffer (s : Cksum) (b : List UInt8) : Cksum := b.foldl Cksum.byte s

def Cksum.total (s : Cksum) : ℕ := if s.odd then addWord s.sum s.first 0 else s.sum

variable (iov : List (List UInt8))

/-- `in_cksum`, as the result lies in memory. -/
def inCksumIov : Bytes 2 :=
  let sum := (iov.foldl Cksum.buffer ⟨0, false, 0⟩).total ^^^ 0xffff
  bytes [UInt8.ofNat sum, UInt8.ofNat (sum / 256)]

def teredoCksum (src dst : In6Addr) (protocol : UInt8) (data : List (List UInt8)) : Bytes 2 :=
  let plen := (data.map length).sum
  inCksumIov ([src.toList, dst.toList, be 4 plen ++ be 4 protocol.toNat] ++ data)

/-! ## The loops -/

theorem Cksum.total_foldl (sum : ℕ) (c : UInt8) (b : List UInt8) :
    (b.foldl Cksum.byte ⟨sum, false, c⟩).total = inSum sum b := by
  fun_induction inSum sum b generalizing c with
  | case1 sum => rfl
  | case2 sum lo => rfl
  | case3 sum lo hi b ih => exact ih lo

theorem inCksumIov_eq : inCksumIov iov = inCksum iov.flatten := by
  have htotal : (iov.foldl Cksum.buffer ⟨0, false, 0⟩).total = inSum 0 iov.flatten := by
    rw [← Cksum.total_foldl 0 0, foldl_flatten]
    rfl
  unfold inCksumIov inCksum
  rw [htotal]

section Sum

variable {sum : ℕ}

theorem addWord_le (h : sum ≤ 0xffff) {lo hi : UInt8} : addWord sum lo hi ≤ 0xffff := by
  have hlo := lo.toNat_lt
  have hhi := hi.toNat_lt
  simp only [addWord]
  split_ifs
  · omega
  · omega

theorem addWord_modEq {lo hi : UInt8} :
    256 * addWord sum lo hi ≡ 256 * sum + (256 * lo.toNat + hi.toNat) [MOD 0xffff] := by
  simp only [addWord, Nat.ModEq]
  split_ifs
  · omega
  · omega

theorem addWord_eq_zero_iff {lo hi : UInt8} :
    addWord sum lo hi = 0 ↔ sum = 0 ∧ 256 * lo.toNat + hi.toNat = 0 := by
  simp only [addWord]
  split_ifs
  · omega
  · omega

theorem inSum_le (b : List UInt8) (h : sum ≤ 0xffff) : inSum sum b ≤ 0xffff := by
  fun_induction inSum sum b with
  | case1 => exact h
  | case2 sum lo => exact addWord_le h
  | case3 sum lo hi b ih => exact ih (addWord_le h)

theorem inSum_modEq (sum : ℕ) (b : List UInt8) :
    256 * inSum sum b ≡ 256 * sum + wordSum b [MOD 0xffff] := by
  fun_induction inSum sum b with
  | case1 sum => rfl
  | case2 sum lo => exact addWord_modEq
  | case3 sum lo hi b ih =>
    refine ih.trans ?_
    rw [wordSum, ← Nat.add_assoc (256 * sum)]
    exact addWord_modEq.add_right _

theorem inSum_eq_zero_iff (sum : ℕ) (b : List UInt8) :
    inSum sum b = 0 ↔ sum = 0 ∧ wordSum b = 0 := by
  fun_induction inSum sum b with
  | case1 sum => simp [wordSum]
  | case2 sum lo => exact addWord_eq_zero_iff
  | case3 sum lo hi b ih =>
    rw [ih, addWord_eq_zero_iff, wordSum, and_assoc]
    omega

theorem swap16_inSum (b : List UInt8) : swap16 (inSum 0 b) = fold (wordSum b) := by
  have hle : inSum 0 b ≤ 0xffff := inSum_le b (Nat.zero_le _)
  apply eq_fold (swap16_le hle)
  · have hmod := inSum_modEq 0 b
    rw [Nat.mul_zero, Nat.zero_add] at hmod
    exact (swap16_modEq _).trans hmod
  · rw [swap16_eq_zero_iff hle, inSum_eq_zero_iff]
    exact and_iff_right rfl

end Sum

theorem xor_ffff {n : ℕ} (h : n ≤ 0xffff) : n ^^^ 0xffff = 0xffff - n := by
  have hnot := BitVec.toNat_not (x := BitVec.ofNat 16 n)
  rw [← BitVec.xor_allOnes, BitVec.toNat_xor, BitVec.toNat_ofNat, BitVec.toNat_allOnes,
    Nat.mod_eq_of_lt (by omega)] at hnot
  exact hnot

theorem toList_inCksum (b : List UInt8) : (inCksum b).toList = be 2 (onesChecksum b) := by
  have hle : inSum 0 b ≤ 0xffff := inSum_le b (Nat.zero_le _)
  unfold inCksum onesChecksum
  rw [xor_ffff hle, ← swap16_inSum, ← swap16_complement hle, be_swap16 (Nat.sub_le _ _)]
  rfl

/-! ## Storing the checksum -/

def checksummed (src dst : In6Addr) (protocol : UInt8) (b : List UInt8) : List UInt8 :=
  src.toList ++ dst.toList ++ be 4 b.length ++ be 4 protocol.toNat ++ b

theorem teredoCksum_eq (src dst : In6Addr) (protocol : UInt8) (data : List (List UInt8)) :
    teredoCksum src dst protocol data = inCksum (checksummed src dst protocol data.flatten) := by
  unfold teredoCksum checksummed
  rw [inCksumIov_eq, length_flatten]
  simp

theorem icmp6Checksum_eq (src dst : In6Addr) (icmp6 : List UInt8) :
    icmp6Checksum src dst icmp6 = teredoCksum src dst ipprotoIcmpv6 [icmp6] := by
  rw [teredoCksum_eq, flatten_singleton]
  rfl

theorem onesChecksum_stored {a : List UInt8} (ha : Even a.length) (b : List UInt8) :
    onesChecksum (a ++ be 2 (onesChecksum (a ++ [0, 0] ++ b)) ++ b) = 0 := by
  obtain ⟨c, hc⟩ : ∃ c, c = onesChecksum (a ++ [0, 0] ++ b) := ⟨_, rfl⟩
  have hzeros : wordSum (a ++ [0, 0] ++ b) = wordSum a + wordSum b := by
    rw [append_assoc, wordSum_append ha]
    simp [wordSum]
  have hle : c ≤ 0xffff := by
    rw [hc]
    exact Nat.sub_le _ _
  have hstored : wordSum (a ++ be 2 c ++ b) = wordSum a + wordSum b + c := by
    rw [append_assoc, wordSum_append ha, wordSum_be_append hle]
    omega
  rw [← hc, onesChecksum, hstored, hc, onesChecksum, hzeros, fold_add_complement]

theorem inCksum_stored {src dst : In6Addr} {protocol : UInt8} {b : List UInt8} {off : ℕ}
    (hoff : Even off) (hzero : slice b off 2 = [0, 0]) :
    inCksum (checksummed src dst protocol (b.take off ++
      (inCksum (checksummed src dst protocol b)).toList ++ b.drop (off + 2))) = bytes [0, 0] := by
  have hlen : off + 2 ≤ b.length := by
    have hslice := congrArg length hzero
    simp only [slice, length_take, length_drop, length_cons, length_nil] at hslice
    omega
  obtain ⟨hdr, hhdr⟩ : ∃ hdr, hdr = src.toList ++ dst.toList ++ be 4 b.length ++
    be 4 protocol.toNat ++ b.take off := ⟨_, rfl⟩
  have heven : Even hdr.length := by
    have hlen : hdr.length = 40 + off := by
      simp [hhdr]
      omega
    rw [hlen]
    exact (show Even 40 by decide).add hoff
  have hold : checksummed src dst protocol b = hdr ++ [0, 0] ++ b.drop (off + 2) := by
    rw [← hzero, hhdr, append_assoc _ (slice b off 2), slice_append_drop]
    simp [checksummed]
  have hnew : ∀ c : Bytes 2, checksummed src dst protocol (b.take off ++ c.toList ++
      b.drop (off + 2)) = hdr ++ c.toList ++ b.drop (off + 2) := by
    intro c
    have hlen' : (b.take off ++ c.toList ++ b.drop (off + 2)).length = b.length := by
      simp
      omega
    unfold checksummed
    rw [hlen', hhdr]
    simp
  apply List.Vector.eq
  rw [hnew, toList_inCksum, toList_inCksum, hold, onesChecksum_stored heven]
  rfl

/-- `in_cksum` over any buffers gives the checksum of their concatenation. And if two bytes at an
even place of the data are zero, the data with the checksum stored there has the checksum zero. -/
theorem checksum_correct : (∀ iov, (inCksumIov iov).toList = be 2 (onesChecksum iov.flatten)) ∧
    ∀ (src dst : In6Addr) (protocol : UInt8) (data data' : List (List UInt8)) (off : ℕ),
      Even off → slice data.flatten off 2 = [0, 0] →
      data'.flatten = data.flatten.take off ++ (teredoCksum src dst protocol data).toList ++
        data.flatten.drop (off + 2) →
      teredoCksum src dst protocol data' = bytes [0, 0] := by
  constructor
  · intro iov
    rw [inCksumIov_eq, toList_inCksum]
  · intro src dst protocol data data' off hoff hzero hdata'
    rw [teredoCksum_eq, hdata', teredoCksum_eq]
    exact inCksum_stored hoff hzero

theorem checksum_correct_odd :
    let cksum := teredoCksum teredoCone teredoRestrict ipprotoIcmpv6 [[128, 0, 0], [0, 1, 2, 3]]
    teredoCksum teredoCone teredoRestrict ipprotoIcmpv6 [[128], 0 :: cksum.toList, [1, 2, 3]] =
      bytes [0, 0] :=
  checksum_correct.2 teredoCone teredoRestrict ipprotoIcmpv6 [[128, 0, 0], [0, 1, 2, 3]] _ 2
    (by decide) rfl rfl

end Maiccu.Teredo
