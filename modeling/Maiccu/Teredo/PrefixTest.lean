import Maiccu.Teredo.Relay
import Maiccu.Teredo.Server
import Maiccu.Teredo.V4Global

/-!
# The test of a Teredo prefix

`is_valid_teredo_prefix` is to keep `ff00::/8` out. It masks the most significant byte of a word in
network order, which on a little-endian machine is the last byte of the prefix. The parser of
advertisements and the setters of the relay and of the server use it.
-/

namespace Maiccu.Teredo

open Maiccu.Lib

variable (w : Bytes 4)

def InMulticast : Prop := w.toList.getD 0 0 = 0xff

instance (w : Bytes 4) : Decidable (InMulticast w) := inferInstanceAs (Decidable (_ = _))

/-- The result, and the tunnel after the call. -/
def teredoSetPrefix (t : Tunnel) (pfx : Bytes 4) : ℤ × Tunnel :=
  if !isValidTeredoPrefix pfx then (-1, t)
  else if t.client then (-1, t)
  else (0, { t with state := { t.state with addr := setField t.state.addr 0 pfx.toList } })

/-! ## The byte that is tested -/

theorem isValidTeredoPrefix_eq_false_iff :
    isValidTeredoPrefix w = false ↔ w.toList.getD 3 0 = 0xff := by
  obtain ⟨b₀, b₁, b₂, b₃, hw⟩ : ∃ b₀ b₁ b₂ b₃, w.toList = [b₀, b₁, b₂, b₃] :=
    List.length_eq_four.mp w.toList_length
  have hb₀ := b₀.toNat_lt
  have hb₁ := b₁.toNat_lt
  have hb₂ := b₂.toNat_lt
  have hb₃ := b₃.toNat_lt
  have hsum : ofBe [b₃, b₂, b₁, b₀] =
      b₃.toNat * 2 ^ 24 + b₂.toNat * 2 ^ 16 + b₁.toNat * 2 ^ 8 + b₀.toNat := by
    simp [ofBe]
    ring
  have hword : (UInt32.ofNat (ofBe [b₃, b₂, b₁, b₀])).toNat = ofBe [b₃, b₂, b₁, b₀] := by
    rw [UInt32.toNat_ofNat', hsum]
    omega
  have hmask : UInt32.ofNat (ofBe [b₃, b₂, b₁, b₀]) &&& 0xff000000 = 0xff000000 ↔ b₃ = 0xff := by
    rw [← UInt32.toNat_inj, UInt32.toNat_and, hword]
    show ofBe [b₃, b₂, b₁, b₀] &&& 0xff000000 = 0xff000000 ↔ b₃ = 0xff
    rw [← UInt8.toNat_inj, hsum]
    refine (and_mask_eq_iff _ 24 8 255).trans ?_
    show _ ↔ b₃.toNat = 255
    omega
  unfold isValidTeredoPrefix
  rw [hw, bne_eq_false_iff_eq]
  exact hmask

/-! ## Who uses the test -/

/-- An advertisement that `teredo_parse_ra` has not rejected when it comes to the test, with the
prefix `w` to be tested. -/
structure ReachesTest (p : TeredoPacket) (newaddr : In6Addr) (cone : Bool) (w : Bytes 4) :
    Prop where
  orig : p.origIpv4 ≠ anyIpv4
  dst : ip6Dst p.ip6 = if cone then teredoCone else teredoRestrict
  nxt : ip6Nxt p.ip6 = ipprotoIcmpv6
  type : (slice p.ip6 40 (ip6Plen p.ip6)).getD 0 0 = ndRouterAdvert
  code : (slice p.ip6 40 (ip6Plen p.ip6)).getD 1 0 = 0
  length_ge : 16 + 32 ≤ ip6Plen p.ip6
  options : ∃ a netMtu,
    raOptions ((slice p.ip6 40 (ip6Plen p.ip6)).drop 16) (setServer newaddr anyIpv4) 0 =
        .ok (a, netMtu) ∧
      w = if in6TeredoPrefix a = teredoPrefixObsolete then teredoPrefix else in6TeredoPrefix a

theorem ReachesTest.parse {p : TeredoPacket} {newaddr : In6Addr} {cone : Bool} {w : Bytes 4}
    (h : ReachesTest p newaddr cone w) (mtu : ℕ) :
    (teredoParseRa p newaddr cone mtu).1 = isValidTeredoPrefix w := by
  obtain ⟨a, netMtu, hopts, hw⟩ := h.options
  have hlen := h.length_ge
  have hheader : ¬ (ip6Dst p.ip6 ≠ (if cone then teredoCone else teredoRestrict) ∨
      ip6Nxt p.ip6 ≠ ipprotoIcmpv6 ∨ ip6Plen p.ip6 < 16) := by
    simp only [h.dst, h.nxt, ne_eq, not_true_eq_false, false_or]
    omega
  have hra : ¬ ((slice p.ip6 40 (ip6Plen p.ip6)).getD 0 0 ≠ ndRouterAdvert ∨
      (slice p.ip6 40 (ip6Plen p.ip6)).getD 1 0 ≠ 0 ∨ ip6Plen p.ip6 - 16 < 32) := by
    simp only [h.type, h.code, ne_eq, not_true_eq_false, false_or]
    omega
  have hpfx : in6TeredoPrefix (if in6TeredoPrefix a = teredoPrefixObsolete then
      setField a 0 teredoPrefix.toList else a) = w := by
    rw [hw]
    split_ifs
    · exact field_setField (by omega)
    · rfl
  rw [teredoParseRa, if_neg h.orig, if_neg hheader, if_neg hra, hopts]
  dsimp only
  rw [hpfx]
  cases isValidTeredoPrefix w <;> rfl

/-- Of a prefix that comes to the test, the parser and both setters reject it just if it is in
`ff00::/8`. -/
structure RejectsMulticast (w : Bytes 4) : Prop where
  relay : ∀ t : Tunnel, t.client = false → ((teredoSetPrefix t w).1 = -1 ↔ InMulticast w)
  server : ∀ s : Server, teredoServerSetPrefix s w = none ↔ InMulticast w
  parser : ∀ p newaddr cone mtu, ReachesTest p newaddr cone w →
    ((teredoParseRa p newaddr cone mtu).1 = false ↔ InMulticast w)

theorem rejectsMulticast_iff :
    RejectsMulticast w ↔ (isValidTeredoPrefix w = false ↔ InMulticast w) := by
  have hserver : ∀ s : Server, teredoServerSetPrefix s w = none ↔
      isValidTeredoPrefix w = false := by
    intro s
    unfold teredoServerSetPrefix
    split_ifs with hvalid
    · simp [hvalid]
    · simpa using hvalid
  constructor
  · intro h
    rw [← hserver plainServer]
    exact h.server plainServer
  · intro h
    refine ⟨fun t ht => ?_, fun s => (hserver s).trans h, fun p newaddr cone mtu hp => ?_⟩
    · rw [← h]
      unfold teredoSetPrefix
      cases isValidTeredoPrefix w <;> simp [ht]
    · rw [hp.parse, h]

/-- The test is right for a prefix if its first and last byte are both `0xff` or both not. -/
theorem prefix_test_iff (w : Bytes 4) :
    RejectsMulticast w ↔ (InMulticast w ↔ w.toList.getD 3 0 = 0xff) := by
  rw [rejectsMulticast_iff, isValidTeredoPrefix_eq_false_iff]
  exact iff_comm

theorem prefix_test_ff02 :
    ¬ RejectsMulticast (bytes [0xff, 2, 0, 0]) ∧ ¬ RejectsMulticast (bytes [0x20, 1, 0, 0xff]) := by
  rw [rejectsMulticast_iff, rejectsMulticast_iff]
  decide

end Maiccu.Teredo
