import Maiccu.Lib.Reads
import Maiccu.Teredo.Advert

/-!
# What the checks of a packet read

The functions of `packets.c` and `security.c` that look into a packet, through `Reads` and in the
order of the source. They return what the functions of the same names in `Maiccu.Teredo` do. A field
of a header is read as a whole.
-/

namespace Maiccu.Teredo.Read

open Maiccu.Lib Reads

/-! ## Headers -/

section Headers

variable (ip6 : List UInt8) {n : ℕ}

def ip6Plen : Reads ℕ := do
  let plen ← readField ip6 4 2
  pure (ofBe plen.toList)

def ip6Nxt : Reads UInt8 := readByte ip6 6

def ip6Src : Reads In6Addr := readField ip6 8 16

def ip6Dst : Reads In6Addr := readField ip6 24 16

variable (h : 40 ≤ n)
include h

theorem within_ip6Plen : (ip6Plen ip6).Within n :=
  within_bind.mpr ⟨within_readField.mpr (by omega), within_pure⟩

theorem within_ip6Nxt : (ip6Nxt ip6).Within n := within_readByte.mpr (by omega)

theorem within_ip6Src : (ip6Src ip6).Within n := within_readField.mpr (by omega)

theorem within_ip6Dst : (ip6Dst ip6).Within n := within_readField.mpr h

end Headers

/-! ## The ping -/

section Checks

variable (key : Keyed) (now : UInt32) (p : TeredoPacket) {n : ℕ}

def teredoVerifyPinghash (src dst : In6Addr) (hash : List UInt8) : Reads Bool := do
  let pid ← readField hash 0 2
  if pid ≠ key.pid then pure false else do
  let low ← readField hash 2 2
  let high ← readField hash 4 2
  let timestamp : Bytes 4 := field (high.toList ++ low.toList) 0 4
  if 30 ≤ now - ntohl timestamp then pure false else do
  let h1 ← readField hash 6 16
  pure (decide (key.hash src.toList dst.toList timestamp = h1))

theorem val_teredoVerifyPinghash (src dst : In6Addr) (hash : List UInt8) :
    (teredoVerifyPinghash key now src dst hash).val =
      Teredo.teredoVerifyPinghash key now src dst hash := by
  simp only [teredoVerifyPinghash, Teredo.teredoVerifyPinghash, val_bind, val_ite, val_pure]
  by_cases hpid : field hash 0 2 = key.pid
  · simp [hpid, ← UInt32.not_le]
  · simp [hpid]

theorem within_teredoVerifyPinghash {src dst : In6Addr} {hash : List UInt8} :
    (teredoVerifyPinghash key now src dst hash).Within 22 := by
  simp [teredoVerifyPinghash, within_ite, -val_readField]

/-- `CheckPing` for the packet in an unreachable error, which is `length` bytes long. -/
def checkQuoted (me it : In6Addr) (length : ℕ) (ip6 : List UInt8) : Reads Bool :=
  if length < 40 + pingLength then pure false else do
  let nxt ← ip6Nxt ip6
  if nxt ≠ ipprotoIcmpv6 then pure false else do
  let plen ← ip6Plen ip6
  if plen ≠ pingLength then pure false else do
  let icmp6 := ip6.drop 40
  let src ← ip6Src ip6
  if src ≠ me then pure false else do
  let type ← (readByte icmp6 0).shift 40
  if type ≠ icmp6EchoRequest then pure false else do
  let dst ← ip6Dst ip6
  if dst ≠ it then pure false else do
  let code ← (readByte icmp6 1).shift 40
  if code ≠ 0 then pure false else
  (teredoVerifyPinghash key now src dst (icmp6.drop 4)).shift 44

def checkPing : Reads Bool := do
  let ip6 := p.ip6
  let length ← ip6Plen ip6
  let nxt ← ip6Nxt ip6
  if nxt ≠ ipprotoIcmpv6 ∨ length < pingLength then pure false else do
  let icmp6 := ip6.drop 40
  let me ← ip6Dst ip6
  let it ← ip6Src ip6
  let type ← (readByte icmp6 0).shift 40
  if type = icmp6DstUnreach then
    (checkQuoted key now me it (length - 8) (icmp6.drop 8)).shift 48
  else if type ≠ icmp6EchoReply then pure false else do
  let code ← (readByte icmp6 1).shift 40
  if code ≠ 0 then pure false else
  (teredoVerifyPinghash key now me it (icmp6.drop 4)).shift 44

theorem val_checkPing : (checkPing key now p).val = Teredo.checkPing key now p := by
  simp only [checkPing, checkQuoted, Teredo.checkPing, val_bind, val_ite, val_pure,
    val_teredoVerifyPinghash, ite_or]
  rfl

theorem within_shift_readByte {b : List UInt8} {i k : ℕ} (h : k + i + 1 ≤ n) :
    ((readByte b i).shift k).Within n := (within_readByte.mpr le_rfl).shift (by omega)

theorem within_checkQuoted {me it : In6Addr} {length : ℕ} {ip6 : List UInt8} :
    (checkQuoted key now me it length ip6).Within length := by
  refine within_ite.mpr ⟨fun _ => within_pure, fun h => ?_⟩
  have hlen : 40 + 26 ≤ length := not_lt.mp h
  have hverify : ∀ src dst, ((teredoVerifyPinghash key now src dst ((ip6.drop 40).drop 4)).shift
      44).Within length := fun src dst => Within.shift (within_teredoVerifyPinghash _ _) (by omega)
  simp (disch := omega) only [within_bind, within_ite, within_pure, within_ip6Nxt, within_ip6Plen,
    within_ip6Src, within_ip6Dst, within_shift_readByte, hverify, implies_true, and_self]

theorem within_checkPing : (checkPing key now p).Within (40 + Teredo.ip6Plen p.ip6) := by
  have hheader : 40 ≤ 40 + Teredo.ip6Plen p.ip6 := by omega
  refine within_bind.mpr ⟨within_ip6Plen _ hheader, within_bind.mpr ⟨within_ip6Nxt _ hheader, ?_⟩⟩
  refine within_ite.mpr ⟨fun _ => within_pure, fun h => ?_⟩
  have hlen : 26 ≤ Teredo.ip6Plen p.ip6 := not_lt.mp (not_or.mp h).2
  have hquoted : ∀ me it, ((checkQuoted key now me it ((ip6Plen p.ip6).val - 8)
      ((p.ip6.drop 40).drop 8)).shift 48).Within (40 + Teredo.ip6Plen p.ip6) := by
    intro me it
    refine Within.shift (within_checkQuoted _ _) ?_
    show 48 + (Teredo.ip6Plen p.ip6 - 8) ≤ _
    omega
  have hverify : ∀ me it, ((teredoVerifyPinghash key now me it ((p.ip6.drop 40).drop 4)).shift
      44).Within (40 + Teredo.ip6Plen p.ip6) :=
    fun me it => Within.shift (within_teredoVerifyPinghash _ _) (by omega)
  simp (disch := omega) only [within_bind, within_ite, within_pure, within_ip6Src, within_ip6Dst,
    within_shift_readByte, hquoted, hverify, implies_true, and_self]

end Checks

/-! ## The router advertisement -/

section Advert

variable (opts : List UInt8) (newaddr : In6Addr) (netMtu : ℕ)

/-- The `switch` of `teredo_parse_ra`. -/
def raOption (optlen : ℕ) : Reads (Option (In6Addr × ℕ)) := do
  let type ← readByte opts 0
  if type = ndOptPrefixInformation then
    if optlen < 32 then pure none else do
    let prefixLen ← readByte opts 2
    if prefixLen ≠ 64 then pure none else
    if in6TeredoServer newaddr ≠ anyIpv4 then pure none else do
    let pfx ← readField opts 16 8
    pure (some (setField newaddr 0 pfx.toList, netMtu))
  else if type = ndOptMtu then do
    let w ← readField opts 4 4
    let netMtu := ofBe w.toList
    if netMtu < 1280 ∨ 65535 < netMtu then pure none else pure (some (newaddr, netMtu))
  else pure (some (newaddr, netMtu))

theorem val_raOption : (raOption opts newaddr netMtu (optLen opts)).val =
    Teredo.raOption opts newaddr netMtu := by
  simp only [raOption, Teredo.raOption, val_bind, val_ite, val_pure, ite_or]

theorem within_raOption {optlen : ℕ} (h : 8 ≤ optlen) :
    (raOption opts newaddr netMtu optlen).Within optlen := by
  refine within_bind.mpr ⟨within_readByte.mpr (by omega), ?_⟩
  refine within_ite.mpr ⟨fun _ => within_ite.mpr ⟨fun _ => within_pure, fun hlen => ?_⟩,
    fun _ => ?_⟩
  · refine within_bind.mpr ⟨within_readByte.mpr (by omega), ?_⟩
    refine within_ite.mpr ⟨fun _ => within_pure, fun _ => ?_⟩
    refine within_ite.mpr ⟨fun _ => within_pure, fun _ => ?_⟩
    exact within_bind.mpr ⟨within_readField.mpr (by omega), within_pure⟩
  · refine within_ite.mpr ⟨fun _ => ?_, fun _ => within_pure⟩
    refine within_bind.mpr ⟨within_readField.mpr (by omega), ?_⟩
    exact within_ite.mpr ⟨fun _ => within_pure, fun _ => within_pure⟩

/-- The loop of `teredo_parse_ra` over `length` bytes of options. The result is none if the loop has
not ended after `turns` turns. -/
def raOptions (turns length : ℕ) (opts : List UInt8) (newaddr : In6Addr) (netMtu : ℕ) :
    Reads (Option (Except In6Addr (In6Addr × ℕ))) :=
  if length < 8 then pure (some (.ok (newaddr, netMtu))) else
  match turns with
  | 0 => pure none
  | turns + 1 => do
    let len ← readByte opts 1
    let optlen := len.toNat * 8
    if length < optlen ∨ optlen = 0 then pure (some (.error newaddr)) else do
    match ← raOption opts newaddr netMtu optlen with
    | none => pure (some (.error newaddr))
    | some (newaddr, netMtu) =>
      (raOptions turns (length - optlen) (opts.drop optlen) newaddr netMtu).shift optlen

theorem within_raOptions (turns length : ℕ) :
    (raOptions turns length opts newaddr netMtu).Within length := by
  induction turns generalizing length opts newaddr netMtu with
  | zero =>
    exact within_ite.mpr ⟨fun _ => within_pure, fun _ => within_pure⟩
  | succ turns ih =>
    refine within_ite.mpr ⟨fun _ => within_pure, fun hlen => ?_⟩
    refine within_bind.mpr ⟨within_readByte.mpr (by omega), ?_⟩
    refine within_ite.mpr ⟨fun _ => within_pure, fun hopt => ?_⟩
    refine within_bind.mpr ⟨(within_raOption _ _ _ (by omega)).mono (by omega), ?_⟩
    split
    · exact within_pure
    · exact Within.shift (ih _ _ _ _) (by omega)

theorem val_raOptions (turns : ℕ) (h : opts.length < 8 * (turns + 1)) :
    (raOptions turns opts.length opts newaddr netMtu).val =
      some (Teredo.raOptions opts newaddr netMtu) := by
  induction turns generalizing opts newaddr netMtu with
  | zero =>
    rw [raOptions, if_pos (by omega), Teredo.raOptions, if_neg (by omega)]
    rfl
  | succ turns ih =>
    unfold raOptions
    rw [Teredo.raOptions]
    by_cases hlen : opts.length < 8
    · rw [if_pos hlen, if_neg (by omega)]
      rfl
    · rw [if_neg hlen, if_pos (by omega)]
      show Reads.val (if opts.length < optLen opts ∨ optLen opts = 0 then _ else _) = _
      by_cases hopt : opts.length < optLen opts ∨ optLen opts = 0
      · rw [if_pos hopt, if_pos hopt]
        rfl
      · have hoptlen : (readByte opts 1).val.toNat * 8 = optLen opts := rfl
        rw [if_neg hopt, if_neg hopt, val_bind, hoptlen, val_raOption]
        cases Teredo.raOption opts newaddr netMtu with
        | none => rfl
        | some r =>
          rw [← ih (opts.drop (optLen opts)) r.1 r.2 (by rw [List.length_drop]; omega),
            List.length_drop]

variable (p : TeredoPacket) (cone : Bool) (mtu : ℕ)

/-- `teredo_parse_ra`, with at most `turns` turns of its loop. -/
def teredoParseRa (turns : ℕ) : Reads (Option (Bool × In6Addr × ℕ)) :=
  if p.origIpv4 = anyIpv4 then pure (some (false, newaddr, mtu)) else do
  let length ← ip6Plen p.ip6
  let dst ← ip6Dst p.ip6
  let nxt ← ip6Nxt p.ip6
  if dst ≠ (if cone then teredoCone else teredoRestrict) ∨ nxt ≠ ipprotoIcmpv6 ∨ length < 16 then
    pure (some (false, newaddr, mtu))
  else do
  let ra := slice p.ip6 40 length
  let type ← (readByte ra 0).shift 40
  let code ← (readByte ra 1).shift 40
  if type ≠ ndRouterAdvert ∨ code ≠ 0 ∨ length - 16 < 32 then pure (some (false, newaddr, mtu))
  else do
  match ← (raOptions turns (length - 16) (ra.drop 16) (setServer newaddr anyIpv4) 0).shift 56 with
  | none => pure none
  | some (.error newaddr) => pure (some (false, newaddr, mtu))
  | some (.ok (newaddr, netMtu)) =>
    let newaddr :=
      if in6TeredoPrefix newaddr = teredoPrefixObsolete then setField newaddr 0 teredoPrefix.toList
      else newaddr
    if !isValidTeredoPrefix (in6TeredoPrefix newaddr) then pure (some (false, newaddr, mtu))
    else
      let newaddr := setFlags newaddr (coneFlags cone)
      let newaddr := setField newaddr 10 (p.origPort.map (· ^^^ 0xff)).toList
      let newaddr := setField newaddr 12 (p.origIpv4.map (· ^^^ 0xff)).toList
      pure (some (true, newaddr, if netMtu ≠ 0 then netMtu % 65536 else mtu))

theorem within_teredoParseRa (turns : ℕ) :
    (teredoParseRa newaddr p cone mtu turns).Within (40 + Teredo.ip6Plen p.ip6) := by
  have hheader : 40 ≤ 40 + Teredo.ip6Plen p.ip6 := by omega
  refine within_ite.mpr ⟨fun _ => within_pure, fun _ => ?_⟩
  refine within_bind.mpr ⟨within_ip6Plen _ hheader, within_bind.mpr ⟨within_ip6Dst _ hheader, ?_⟩⟩
  refine within_bind.mpr ⟨within_ip6Nxt _ hheader, ?_⟩
  refine within_ite.mpr ⟨fun _ => within_pure, fun h => ?_⟩
  have hlen : 16 ≤ Teredo.ip6Plen p.ip6 := not_lt.mp (not_or.mp (not_or.mp h).2).2
  refine within_bind.mpr ⟨within_shift_readByte (by omega), ?_⟩
  refine within_bind.mpr ⟨within_shift_readByte (by omega), ?_⟩
  refine within_ite.mpr ⟨fun _ => within_pure, fun _ => ?_⟩
  refine within_bind.mpr ⟨Within.shift (within_raOptions _ _ _ _ _) ?_, ?_⟩
  · show 56 + (Teredo.ip6Plen p.ip6 - 16) ≤ _
    omega
  · split
    · exact within_pure
    · exact within_pure
    · exact within_ite.mpr ⟨fun _ => within_pure, fun _ => within_pure⟩

theorem val_teredoParseRa (h : 40 + Teredo.ip6Plen p.ip6 ≤ p.ip6.length) :
    (teredoParseRa newaddr p cone mtu (Teredo.ip6Plen p.ip6 / 8)).val =
      some (Teredo.teredoParseRa p newaddr cone mtu) := by
  have hlen : ((slice p.ip6 40 (Teredo.ip6Plen p.ip6)).drop 16).length =
      Teredo.ip6Plen p.ip6 - 16 := by
    rw [List.length_drop, slice_length h]
  unfold teredoParseRa Teredo.teredoParseRa
  by_cases horig : p.origIpv4 = anyIpv4
  · rw [if_pos horig, if_pos horig]
    rfl
  rw [if_neg horig, if_neg horig]
  show Reads.val (if Teredo.ip6Dst p.ip6 ≠ (if cone then teredoCone else teredoRestrict) ∨
    Teredo.ip6Nxt p.ip6 ≠ ipprotoIcmpv6 ∨ Teredo.ip6Plen p.ip6 < 16 then _ else _) = _
  rw [val_ite]
  refine (if_congr Iff.rfl rfl ?_).trans (apply_ite some _ _ _).symm
  show Reads.val (if (slice p.ip6 40 (Teredo.ip6Plen p.ip6)).getD 0 0 ≠ ndRouterAdvert ∨
    (slice p.ip6 40 (Teredo.ip6Plen p.ip6)).getD 1 0 ≠ 0 ∨ Teredo.ip6Plen p.ip6 - 16 < 32 then _
    else _) = _
  rw [val_ite]
  refine (if_congr Iff.rfl rfl ?_).trans (apply_ite some _ _ _).symm
  have hloop := val_raOptions ((slice p.ip6 40 (Teredo.ip6Plen p.ip6)).drop 16)
    (setServer newaddr anyIpv4) 0 (Teredo.ip6Plen p.ip6 / 8) (by rw [hlen]; omega)
  rw [hlen] at hloop
  rw [val_bind, show (ip6Plen p.ip6).val = Teredo.ip6Plen p.ip6 from rfl, hloop]
  cases Teredo.raOptions ((slice p.ip6 40 (Teredo.ip6Plen p.ip6)).drop 16)
      (setServer newaddr anyIpv4) 0 with
  | error a => rfl
  | ok r => exact (val_ite _ _).trans (apply_ite some _ _ _).symm

end Advert

end Maiccu.Teredo.Read
