import Maiccu.Teredo.Encap
import Maiccu.Teredo.Maintain

/-!
# Several answers to one solicitation

`teredo_parse_ra` writes into the new state while it reads, and the maintenance procedure goes on
with the same new state after an advertisement that it rejects. So the address of an accepted
advertisement is its own, but its MTU may be that of one rejected before. An advertisement may also
carry several prefixes, if all but the last one are of the server `0.0.0.0`.
-/

namespace Maiccu.Teredo

open Maiccu.Lib Option List

/-! ## The options of an advertisement -/

/-- The options of an advertisement, each with what follows it. -/
@[semireducible] def raOptionList (opts : List UInt8) : List (List UInt8) :=
  if 8 ≤ opts.length ∧ optLen opts ≠ 0 then opts :: raOptionList (opts.drop (optLen opts)) else []
termination_by opts.length
decreasing_by
  rw [length_drop]
  omega

def packetOptions (p : TeredoPacket) : List (List UInt8) :=
  raOptionList ((slice p.ip6 40 (ip6Plen p.ip6)).drop 16)

variable (options : List (List UInt8))

def prefixOptions : List (List UInt8) :=
  options.filter fun o => decide (o.getD 0 0 = ndOptPrefixInformation)

def optServer (o : List UInt8) : Ipv4 := field o 20 4

def optMtu (o : List UInt8) : Option ℕ :=
  if o.getD 0 0 = ndOptMtu then some (ofBe (field o 4 4).toList) else none

def mtuOption : Option ℕ := (options.filterMap optMtu).getLast?

/-! ## The parser -/

section Parser

variable {a a' b : In6Addr} {m m' : ℕ} {o opts : List UInt8} {options}

def readOptions (options : List (List UInt8)) (a : In6Addr) (m : ℕ) : Option (In6Addr × ℕ) :=
  options.foldlM (fun x o => raOption o x.1 x.2) (a, m)

theorem readOptions_cons : readOptions (o :: options) a m =
    (raOption o a m).bind fun x => readOptions options x.1 x.2 := by
  rfl

theorem raOptions_eq_ok (h : raOptions opts a m = .ok (a', m')) :
    readOptions (raOptionList opts) a m = some (a', m') := by
  fun_induction raOptions opts a m with
  | case1 => cases h
  | case2 => cases h
  | case3 opts a m hlen hopt a₁ m₁ hread ih =>
    rw [raOptionList, if_pos ⟨hlen, fun hz => hopt (.inr hz)⟩, readOptions_cons, hread]
    exact ih h
  | case4 opts a m hlen =>
    rw [raOptionList, if_neg fun h => hlen h.1]
    cases h
    rfl

theorem server_setPrefix : in6TeredoServer (setField a 0 (field o 16 8).toList) = optServer o := by
  change field (setField a 0 _).toList (0 + 4) 4 = field o (16 + 4) 4
  rw [field_setField_part _ (by omega) (by omega), field_field (by omega)]

theorem raOption_cases (h : raOption o a m = some (a', m')) :
    (o.getD 0 0 = ndOptPrefixInformation ∧ in6TeredoServer a = anyIpv4 ∧
      a' = setField a 0 (field o 16 8).toList ∧ m' = m) ∨
    (o.getD 0 0 = ndOptMtu ∧ 1280 ≤ ofBe (field o 4 4).toList ∧ ofBe (field o 4 4).toList ≤ 65535 ∧
      a' = a ∧ m' = ofBe (field o 4 4).toList) ∨
    (o.getD 0 0 ≠ ndOptPrefixInformation ∧ o.getD 0 0 ≠ ndOptMtu ∧ a' = a ∧ m' = m) := by
  dsimp only [raOption] at h
  split_ifs at h with hpi hlen hserver hmtu hrange
  · cases h
    exact .inl ⟨hpi, not_not.mp hserver, rfl, rfl⟩
  · cases h
    exact .inr (.inl ⟨hmtu, by omega, by omega, rfl, rfl⟩)
  · cases h
    exact .inr (.inr ⟨hpi, hmtu, rfl, rfl⟩)

theorem raOption_congr (hab : in6TeredoServer a = in6TeredoServer b)
    (h : raOption o a m = some (a', m')) :
    ∃ b', raOption o b m = some (b', m') ∧ in6TeredoServer a' = in6TeredoServer b' := by
  dsimp only [raOption] at h ⊢
  rw [← hab]
  split_ifs at h ⊢ with hpi hlen hserver hmtu hrange
  · cases h
    refine ⟨_, rfl, ?_⟩
    rw [server_setPrefix, server_setPrefix]
  · cases h
    exact ⟨b, rfl, hab⟩
  · cases h
    exact ⟨b, rfl, hab⟩

theorem raOptions_congr (hab : in6TeredoServer a = in6TeredoServer b)
    (h : raOptions opts a m = .ok (a', m')) :
    ∃ b', raOptions opts b m = .ok (b', m') ∧ in6TeredoServer a' = in6TeredoServer b' := by
  fun_induction raOptions opts a m generalizing b with
  | case1 => cases h
  | case2 => cases h
  | case3 opts a m hlen hopt a₁ m₁ hread ih =>
    obtain ⟨b₁, hread', hab'⟩ := raOption_congr hab hread
    rw [raOptions, if_pos hlen, if_neg hopt, hread']
    exact ih hab' h
  | case4 opts a m hlen =>
    cases h
    rw [raOptions, if_neg hlen]
    exact ⟨b, rfl, hab⟩

theorem prefixOptions_cons (h : o.getD 0 0 = ndOptPrefixInformation) :
    prefixOptions (o :: options) = o :: prefixOptions options :=
  filter_cons_of_pos (decide_eq_true h)

theorem prefixOptions_cons_of_ne (h : o.getD 0 0 ≠ ndOptPrefixInformation) :
    prefixOptions (o :: options) = prefixOptions options :=
  filter_cons_of_neg (by simpa using h)

theorem mtuOption_cons (h : o.getD 0 0 = ndOptMtu) : mtuOption (o :: options) =
    some ((mtuOption options).getD (ofBe (field o 4 4).toList)) := by
  have hopt : optMtu o = some (ofBe (field o 4 4).toList) := if_pos h
  unfold mtuOption
  rw [filterMap_cons_some hopt, getLast?_cons]

theorem mtuOption_cons_of_ne (h : o.getD 0 0 ≠ ndOptMtu) :
    mtuOption (o :: options) = mtuOption options := by
  have hopt : optMtu o = none := if_neg h
  unfold mtuOption
  rw [filterMap_cons_none hopt]

theorem readOptions_cases (h : readOptions (o :: options) a m = some (a', m')) :
    ∃ a₁ m₁, raOption o a m = some (a₁, m₁) ∧ readOptions options a₁ m₁ = some (a', m') := by
  obtain ⟨⟨a₁, m₁⟩, hread, hrest⟩ := bind_eq_some_iff.mp h
  exact ⟨a₁, m₁, hread, hrest⟩

/-- What the loop over the options leaves: the MTU of the last MTU option, and the start of the
address from the last prefix option. All other prefix options are of the server `0.0.0.0`. -/
structure OptionsRead (options : List (List UInt8)) (a : In6Addr) (m : ℕ) (a' : In6Addr) (m' : ℕ) :
    Prop where
  mtu : m' = (mtuOption options).getD m
  range : ∀ v, mtuOption options = some v → 1280 ≤ v ∧ v ≤ 65535
  addr : field a'.toList 0 8 =
    ((prefixOptions options).getLast?.map (field · 16 8)).getD (field a.toList 0 8)
  server : prefixOptions options ≠ [] → in6TeredoServer a = anyIpv4
  zero : ∀ o ∈ (prefixOptions options).dropLast, optServer o = anyIpv4

theorem optionsRead (h : readOptions options a m = some (a', m')) :
    OptionsRead options a m a' m' := by
  induction options generalizing a m with
  | nil =>
    cases h
    exact ⟨rfl, nofun, rfl, fun h => absurd rfl h, nofun⟩
  | cons o options ih =>
    obtain ⟨a₁, m₁, hread, hrest⟩ := readOptions_cases h
    obtain ⟨hmtu, hrange, haddr, hserver, hzero⟩ := ih hrest
    obtain ⟨htype, hany, rfl, rfl⟩ | ⟨htype, hge, hle, rfl, rfl⟩ | ⟨hpfx, htype, rfl, rfl⟩ :=
      raOption_cases hread
    · have hne : o.getD 0 0 ≠ ndOptMtu := by
        rw [htype]
        decide
      refine ⟨?_, ?_, ?_, fun _ => hany, fun o' ho' => ?_⟩
      · rwa [mtuOption_cons_of_ne hne]
      · rwa [mtuOption_cons_of_ne hne]
      · rw [prefixOptions_cons htype, getLast?_cons, haddr]
        cases (prefixOptions options).getLast? <;> rfl
      · rw [prefixOptions_cons htype] at ho'
        cases hnext : prefixOptions options with
        | nil =>
          rw [hnext] at ho'
          cases ho'
        | cons o₂ rest =>
          rw [hnext, dropLast_cons_cons, mem_cons] at ho'
          obtain rfl | ho' := ho'
          · exact hserver (by simp [hnext])
          · exact hzero o' (by rwa [hnext])
    · have hne : o.getD 0 0 ≠ ndOptPrefixInformation := by
        rw [htype]
        decide
      have hcons : mtuOption (o :: options) = some _ := mtuOption_cons htype
      rw [← prefixOptions_cons_of_ne hne] at haddr hserver hzero
      refine ⟨by rwa [hcons], fun v hv => ?_, haddr, hserver, hzero⟩
      cases hcons.symm.trans hv
      cases hlast : mtuOption options with
      | none => exact ⟨hge, hle⟩
      | some v => exact hrange v hlast
    · rw [← mtuOption_cons_of_ne htype] at hmtu hrange
      rw [← prefixOptions_cons_of_ne hpfx] at haddr hserver hzero
      exact ⟨hmtu, hrange, haddr, hserver, hzero⟩

end Parser

/-! ## An advertisement that is accepted -/

section Accepted

variable {p : TeredoPacket} {a a' : In6Addr} {m m' : ℕ} {cone : Bool} {serverIp : Ipv4}
  {nonce : Bytes 8} {n n₁ : TeredoState}

def adoptedPrefix (pfx : Bytes 4) : Bytes 4 :=
  if pfx = teredoPrefixObsolete then teredoPrefix else pfx

/-- The tests of the parser before the options. -/
structure RaHeader (p : TeredoPacket) (cone : Bool) : Prop where
  orig : p.origIpv4 ≠ anyIpv4
  dst : ip6Dst p.ip6 = if cone then teredoCone else teredoRestrict
  nxt : ip6Nxt p.ip6 = ipprotoIcmpv6
  length : 48 ≤ ip6Plen p.ip6
  type : (slice p.ip6 40 (ip6Plen p.ip6)).getD 0 0 = ndRouterAdvert
  code : (slice p.ip6 40 (ip6Plen p.ip6)).getD 1 0 = 0

theorem parseRa_of_header (h : RaHeader p cone) : teredoParseRa p a cone m =
    match raOptions ((slice p.ip6 40 (ip6Plen p.ip6)).drop 16) (setServer a anyIpv4) 0 with
    | .error a => (false, a, m)
    | .ok (b, netMtu) =>
      let b := if in6TeredoPrefix b = teredoPrefixObsolete then
        setField b 0 teredoPrefix.toList else b
      if !isValidTeredoPrefix (in6TeredoPrefix b) then (false, b, m)
      else (true, teredoAddr (in6TeredoPrefix b) (in6TeredoServer b) (coneFlags cone) p.origPort
        p.origIpv4, if netMtu ≠ 0 then netMtu % 65536 else m) := by
  have hlen := h.length
  dsimp only [teredoParseRa]
  rw [if_neg h.orig,
    if_neg (not_or.mpr ⟨not_not.mpr h.dst, not_or.mpr ⟨not_not.mpr h.nxt, by omega⟩⟩),
    if_neg (not_or.mpr ⟨not_not.mpr h.type, not_or.mpr ⟨not_not.mpr h.code, by omega⟩⟩)]
  simp only [← setClient_eq]
  rfl

theorem header_of_parseRa (h : (teredoParseRa p a cone m).1 = true) : RaHeader p cone := by
  dsimp only [teredoParseRa] at h
  by_cases horig : p.origIpv4 = anyIpv4
  · rw [if_pos horig] at h
    cases h
  by_cases hhdr : ip6Dst p.ip6 ≠ (if cone then teredoCone else teredoRestrict) ∨
      ip6Nxt p.ip6 ≠ ipprotoIcmpv6 ∨ ip6Plen p.ip6 < 16
  · rw [if_neg horig, if_pos hhdr] at h
    cases h
  by_cases hra : (slice p.ip6 40 (ip6Plen p.ip6)).getD 0 0 ≠ ndRouterAdvert ∨
      (slice p.ip6 40 (ip6Plen p.ip6)).getD 1 0 ≠ 0 ∨ ip6Plen p.ip6 - 16 < 32
  · rw [if_neg horig, if_neg hhdr, if_pos hra] at h
    cases h
  push Not at hhdr hra
  obtain ⟨hdst, hnxt, -⟩ := hhdr
  obtain ⟨htype, hcode, hlen⟩ := hra
  exact ⟨horig, hdst, hnxt, by omega, htype, hcode⟩

theorem parts_of_adopted (b : In6Addr) :
    in6TeredoPrefix (if in6TeredoPrefix b = teredoPrefixObsolete then
        setField b 0 teredoPrefix.toList else b) = adoptedPrefix (in6TeredoPrefix b) ∧
      in6TeredoServer (if in6TeredoPrefix b = teredoPrefixObsolete then
        setField b 0 teredoPrefix.toList else b) = in6TeredoServer b := by
  unfold adoptedPrefix
  split_ifs with hobs
  · exact ⟨field_setField (by omega), field_setField_of_disjoint (by omega) (by simp)⟩
  · exact ⟨rfl, rfl⟩

theorem parseRa_eq_true : teredoParseRa p a cone m = (true, a', m') ↔ RaHeader p cone ∧ ∃ b netMtu,
    raOptions ((slice p.ip6 40 (ip6Plen p.ip6)).drop 16) (setServer a anyIpv4) 0 = .ok (b, netMtu) ∧
      isValidTeredoPrefix (adoptedPrefix (in6TeredoPrefix b)) = true ∧
      a' = teredoAddr (adoptedPrefix (in6TeredoPrefix b)) (in6TeredoServer b) (coneFlags cone)
        p.origPort p.origIpv4 ∧
      m' = if netMtu ≠ 0 then netMtu % 65536 else m := by
  constructor
  · intro h
    have hhdr : RaHeader p cone := header_of_parseRa (by rw [h])
    refine ⟨hhdr, ?_⟩
    rw [parseRa_of_header hhdr] at h
    split at h
    · cases h
    · rename_i b netMtu hread
      obtain ⟨hpfx, hserver⟩ := parts_of_adopted b
      dsimp only at h
      rw [hpfx, hserver] at h
      by_cases hvalid : isValidTeredoPrefix (adoptedPrefix (in6TeredoPrefix b)) = true
      · rw [if_neg (by simp [hvalid])] at h
        obtain ⟨-, h⟩ := Prod.mk.inj h
        cases h
        exact ⟨b, netMtu, hread, hvalid, rfl, rfl⟩
      · rw [if_pos (by simp [hvalid])] at h
        cases h
  · rintro ⟨hhdr, b, netMtu, hread, hvalid, rfl, rfl⟩
    obtain ⟨hpfx, hserver⟩ := parts_of_adopted b
    rw [parseRa_of_header hhdr, hread]
    dsimp only
    rw [hpfx, hserver, if_neg (by simp [hvalid])]

theorem parts_of_start {b c : In6Addr} (h : field b.toList 0 8 = field c.toList 0 8) :
    in6TeredoPrefix b = in6TeredoPrefix c ∧ in6TeredoServer b = in6TeredoServer c := by
  have hpart : ∀ (x : In6Addr) k, k + 4 ≤ 8 →
      field x.toList k 4 = field (field x.toList 0 8).toList k 4 := fun x k hk => by
    rw [field_field hk, Nat.zero_add]
  unfold in6TeredoPrefix in6TeredoServer
  rw [hpart b 0 (by omega), hpart b 4 (by omega), h, ← hpart c 0 (by omega),
    ← hpart c 4 (by omega)]
  exact ⟨rfl, rfl⟩

/-- The loop over the options of an accepted packet. The server is not `0.0.0.0`, so there is a
prefix option, and the address starts with what the last one has. -/
theorem start_of_raOptions {b : In6Addr} {netMtu : ℕ}
    (hread : raOptions ((slice p.ip6 40 (ip6Plen p.ip6)).drop 16) (setServer a anyIpv4) 0 =
      .ok (b, netMtu)) (hserver : in6TeredoServer b ≠ anyIpv4) :
    ∃ o, (prefixOptions (packetOptions p)).getLast? = some o ∧
      field b.toList 0 8 = field o 16 8 := by
  have haddr := (optionsRead (raOptions_eq_ok hread)).addr
  cases hlast : (prefixOptions (packetOptions p)).getLast? with
  | some o =>
    unfold packetOptions at hlast
    rw [hlast] at haddr
    exact ⟨o, rfl, haddr⟩
  | none =>
    unfold packetOptions at hlast
    rw [hlast] at haddr
    refine absurd ?_ hserver
    rw [(parts_of_start haddr).2, in6TeredoServer_setServer]

theorem recv_eq_none : maintenanceRecv p serverIp nonce cone n = (none, n₁) ↔
    p.authNonce = nonce ∧ p.authFail = false ∧ ∃ a m, teredoParseRa p n.addr cone n.mtu =
      (true, a, m) ∧
      in6TeredoServer a = serverIp ∧ n₁ = { n with addr := a, mtu := m, ipv4 := p.destIpv4 } := by
  obtain ⟨⟨ok, a, m⟩, hparse⟩ : ∃ r, teredoParseRa p n.addr cone n.mtu = r := ⟨_, rfl⟩
  dsimp only [maintenanceRecv]
  rw [hparse]
  by_cases hnonce : p.authNonce = nonce
  · rw [if_neg (not_not.mpr hnonce)]
    by_cases hfail : p.authFail = true
    · simp [hfail]
    · rw [if_neg hfail]
      by_cases hok : ok = false ∨ in6TeredoServer a ≠ serverIp
      · rw [if_pos hok]
        refine iff_of_false (by simp) ?_
        rintro ⟨-, -, a', m', heq, hserver, -⟩
        obtain ⟨hok', heq⟩ := Prod.mk.inj heq
        obtain ⟨rfl, -⟩ := Prod.mk.inj heq
        exact hok.elim (by simp [hok']) (absurd hserver)
      · rw [if_neg hok]
        push Not at hok
        constructor
        · intro h
          refine ⟨hnonce, Bool.eq_false_iff.mpr hfail, a, m, ?_, hok.2, (Prod.mk.inj h).2.symm⟩
          rw [Bool.eq_true_of_not_eq_false hok.1]
        · rintro ⟨-, -, a', m', heq, -, rfl⟩
          obtain ⟨-, heq⟩ := Prod.mk.inj heq
          cases heq
          rfl
  · simp [hnonce]

/-- An accepted packet is accepted whatever the new state was before. It determines the address, and
the MTU if it has an MTU option. -/
theorem recv_alone (h : maintenanceRecv p serverIp nonce cone n = (none, n₁))
    (hserver : serverIp ≠ anyIpv4) {n' : TeredoState} : ∃ n₁',
    maintenanceRecv p serverIp nonce cone n' = (none, n₁') ∧ n₁'.addr = n₁.addr ∧
      n₁.mtu = (mtuOption (packetOptions p)).getD n.mtu ∧
      n₁'.mtu = (mtuOption (packetOptions p)).getD n'.mtu := by
  obtain ⟨hnonce, hfail, a, m, hparse, haddr, rfl⟩ := recv_eq_none.mp h
  obtain ⟨hhdr, b, netMtu, hread, hvalid, rfl, rfl⟩ := parseRa_eq_true.mp hparse
  rw [in6TeredoServer_teredoAddr] at haddr
  have hsame : in6TeredoServer (setServer n.addr anyIpv4) =
      in6TeredoServer (setServer n'.addr anyIpv4) := by
    rw [in6TeredoServer_setServer, in6TeredoServer_setServer]
  obtain ⟨c, hread', hbc⟩ := raOptions_congr hsame hread
  -- both addresses start with the last prefix option
  obtain ⟨o, hlast, hb⟩ := start_of_raOptions hread (haddr ▸ hserver)
  obtain ⟨o', hlast', hc⟩ := start_of_raOptions hread' (hbc ▸ haddr ▸ hserver)
  cases hlast.symm.trans hlast'
  obtain ⟨hpfx, -⟩ := parts_of_start (hc.trans hb.symm)
  have hmtu : ∀ k, (if netMtu ≠ 0 then netMtu % 65536 else k) =
      (mtuOption (packetOptions p)).getD k := by
    intro k
    have hoptions := optionsRead (raOptions_eq_ok hread)
    rw [hoptions.mtu]
    unfold packetOptions
    cases hv : mtuOption (raOptionList ((slice p.ip6 40 (ip6Plen p.ip6)).drop 16)) with
    | none => rfl
    | some v =>
      have := hoptions.range v hv
      rw [getD_some, if_pos (by omega), getD_some, Nat.mod_eq_of_lt (by omega)]
  refine ⟨{ n' with
      addr := teredoAddr (adoptedPrefix (in6TeredoPrefix b)) (in6TeredoServer b) (coneFlags cone)
        p.origPort p.origIpv4
      mtu := if netMtu ≠ 0 then netMtu % 65536 else n'.mtu
      ipv4 := p.destIpv4 }, ?_, rfl, hmtu n.mtu, hmtu n'.mtu⟩
  refine recv_eq_none.mpr ⟨hnonce, hfail, _, _, parseRa_eq_true.mpr ?_, ?_, rfl⟩
  · exact ⟨hhdr, c, netMtu, hread', by rwa [hpfx], by rw [hpfx, hbc], rfl⟩
  · rwa [in6TeredoServer_teredoAddr]

theorem one_prefix_iff (h : maintenanceRecv p serverIp nonce cone n = (none, n₁))
    (hserver : serverIp ≠ anyIpv4) : (prefixOptions (packetOptions p)).length = 1 ↔
      ∀ o ∈ prefixOptions (packetOptions p), optServer o ≠ anyIpv4 := by
  obtain ⟨-, -, a, m, hparse, haddr, -⟩ := recv_eq_none.mp h
  obtain ⟨-, b, netMtu, hread, -, rfl, -⟩ := parseRa_eq_true.mp hparse
  rw [in6TeredoServer_teredoAddr] at haddr
  obtain ⟨o, hlast, hb⟩ := start_of_raOptions hread (haddr ▸ hserver)
  have hzero := (optionsRead (raOptions_eq_ok hread)).zero
  change ∀ o ∈ (prefixOptions (packetOptions p)).dropLast, _ at hzero
  match hoptions : prefixOptions (packetOptions p) with
  | [] =>
    rw [hoptions] at hlast
    cases hlast
  | [o'] =>
    rw [hoptions] at hlast
    obtain rfl : o' = o := some.inj hlast
    refine iff_of_true rfl fun o' ho' => ?_
    obtain rfl := mem_singleton.mp ho'
    have hopt : optServer o' = in6TeredoServer b := by
      have hpart : field (field o' 16 8).toList 4 4 = field (field b.toList 0 8).toList 4 4 := by
        rw [hb]
      rwa [field_field (by omega), field_field (by omega)] at hpart
    rw [hopt, haddr]
    exact hserver
  | o₁ :: o₂ :: rest =>
    rw [hoptions] at hzero
    refine iff_of_false (by simp) fun hne => ?_
    exact hne o₁ mem_cons_self (hzero o₁ (by simp))

end Accepted

/-! ## In a run -/

namespace Upkeep

section Replies

variable {key : Keyed} {t : Timing} {u u₁ u₂ : Upkeep} {e : Event} {es : List Event}
  {p : TeredoPacket}

def Event.Rejected (e : Event) : Prop := e.accepted = false ∧ ∃ p, e.input = .packet p

theorem run_rejected (hpc : u.m.pc = .test .reply) (hrun : Run (Step key t) u es u₁)
    (hes : ∀ e ∈ es, e.Rejected) : ∃ newst, u₁.m = { u.m with newst } := by
  induction hrun with
  | start => exact ⟨u.m.newst, rfl⟩
  | @next es u₁ u₂ e hrun hstep ih =>
    obtain ⟨newst, hm⟩ := ih fun e he => hes e (mem_append_left _ he)
    obtain ⟨haccepted, p, hinput⟩ := hes e (by simp)
    have hmoves := hstep.moves
    have hpc₁ : u₁.m.pc = .test .reply := by rw [hm]; exact hpc
    generalize u₂.m = m₂ at hmoves ⊢
    cases hmoves with
    | @rejected p err newst' hpc' hrecv =>
      refine ⟨newst', ?_⟩
      rw [hm, ← hpc]
    | ignored hpc' =>
      rw [hpc₁] at hpc'
      cases hpc'
    | changed | confirmed => cases haccepted
    | _ => cases hinput

theorem accepted_newst {q : TeredoPacket} (hstep : Step key t u₁ e u₂)
    (hinput : e.input = .packet q) (haccepted : e.accepted = true) : ∃ newst,
    maintenanceRecv q u₁.m.serverIp u₁.m.nonce false u₁.m.newst = (none, newst) ∧
      in6TeredoPrefix u₂.m.newst.addr = in6TeredoPrefix newst.addr ∧
      in6TeredoServer u₂.m.newst.addr = in6TeredoServer newst.addr ∧
        u₂.m.newst.mtu = newst.mtu := by
  have hparts : ∀ f c s, in6TeredoPrefix (chooseFlags f c s).addr = in6TeredoPrefix s.addr ∧
      in6TeredoServer (chooseFlags f c s).addr = in6TeredoServer s.addr := by
    intro f c s
    unfold chooseFlags
    dsimp only
    split_ifs <;> simp
  have hmoves := hstep.moves
  generalize u₂.m = m₂ at hmoves ⊢
  cases hmoves with
  | @changed p newst st hpc hrecv hst hchange | @confirmed p newst st hpc hrecv hst hchange =>
    cases hinput
    obtain rfl := hst
    exact ⟨newst, hrecv, (hparts _ _ _).1, (hparts _ _ _).2, rfl⟩
  | _ => cases haccepted

theorem newst_of_solicited {junk junk' : TeredoState} {nonce : Bytes 8} {now : List Timespec}
    {u₀ : Upkeep} {e₀ : Event} (hrun : Run (Step key t) (start junk nonce) es u₀)
    (hstep : Step key t u₀ e₀ u) (hinput : e₀.input = .clock now junk') :
    u.m.pc = .test .reply ∧ u.m.newst.mtu = 1280 ∧ u.m.serverIp ≠ anyIpv4 := by
  have hinv := hstep.moves.inv (run_inv hrun)
  have hsolicited : u.m.pc = .test .reply ∧ u.m.newst.mtu = 1280 := by
    have hmoves := hstep.moves
    generalize u.m = m at hmoves ⊢
    cases hmoves with
    | solicited => exact ⟨rfl, rfl⟩
    | _ => cases hinput
  exact ⟨hsolicited.1, hsolicited.2, hinv.server (.inr hsolicited.1)⟩

end Replies

/-- After a solicitation some packets are rejected, and then one is accepted. What is adopted is
what that packet alone would have given, and it has one prefix option, if and only if it has an MTU
option or the rejected ones have left the MTU as it was, and it has no prefix option of the server
`0.0.0.0`. -/
theorem replies_alone (key : Keyed) (t : Timing) (junk junk' : TeredoState) (nonce : Bytes 8)
    (now : List Timespec) (q : TeredoPacket) (u₀ u u₁ u₂ : Upkeep) (es₀ es : List Event)
    (e₀ e : Event) (hrun₀ : Run (Step key t) (start junk nonce) es₀ u₀)
    (hsolicit : Step key t u₀ e₀ u)
    (hclock : e₀.input = .clock now junk') (hrun : Run (Step key t) u es u₁)
    (hes : ∀ e ∈ es, e.Rejected) (hstep : Step key t u₁ e u₂) (hinput : e.input = .packet q)
    (haccepted : e.accepted = true) :
    ((∃ alone, maintenanceRecv q u.m.serverIp u.m.nonce false u.m.newst = (none, alone) ∧
        in6TeredoPrefix u₂.m.newst.addr = in6TeredoPrefix alone.addr ∧
        in6TeredoServer u₂.m.newst.addr = in6TeredoServer alone.addr ∧
        u₂.m.newst.mtu = alone.mtu) ∧
      (prefixOptions (packetOptions q)).length = 1) ↔
    ((mtuOption (packetOptions q)).isSome = true ∨ u₁.m.newst.mtu = 1280) ∧
      ∀ o ∈ prefixOptions (packetOptions q), optServer o ≠ anyIpv4 := by
  obtain ⟨hpc, hmtu, hserver⟩ := newst_of_solicited hrun₀ hsolicit hclock
  obtain ⟨newst₁, hm⟩ := run_rejected hpc hrun hes
  obtain ⟨newst, hrecv, hpfx, hserver', hmtu'⟩ := accepted_newst hstep hinput haccepted
  rw [hm] at hrecv
  obtain ⟨alone, hrecv', haddr, hwith, halone⟩ := recv_alone hrecv hserver
  rw [one_prefix_iff hrecv hserver]
  refine and_congr_left fun _ => ?_
  rw [hm, hpfx, hserver', hmtu', hwith]
  constructor
  · rintro ⟨alone', hrecv'', -, -, hsame⟩
    obtain ⟨-, rfl⟩ := Prod.mk.inj (hrecv'.symm.trans hrecv'')
    rw [halone, hmtu] at hsame
    cases hopt : mtuOption (packetOptions q) with
    | some v => exact .inl rfl
    | none =>
      rw [hopt] at hsame
      exact .inr hsame
  · intro hopt
    refine ⟨alone, hrecv', by rw [haddr], by rw [haddr], ?_⟩
    rw [halone, hmtu]
    obtain hsome | hsame := hopt
    · obtain ⟨v, hv⟩ := isSome_iff_exists.mp hsome
      rw [hv]
      rfl
    · exact congrArg _ hsame

/-! ### Two advertisements -/

def prefixOptionOf (server : Ipv4) : List UInt8 :=
  [3, 4, 64, 0x40] ++ replicate 12 0 ++ teredoPrefix.toList ++ server.toList ++
    replicate 8 0

def answerWith (options : List UInt8) : TeredoPacket where
  ip6 := ip6Hdr (16 + options.length) ipprotoIcmpv6 255 teredoCone teredoRestrict ++
    [ndRouterAdvert, 0, 0, 0] ++ replicate 12 0 ++ options
  sourceIpv4 := bytes [65, 54, 227, 120]
  sourcePort := ipportTeredo
  origIpv4 := bytes [192, 0, 2, 45]
  origPort := bytes [0x9c, 0x40]
  destIpv4 := bytes [192, 168, 0, 2]
  authPresent := true
  authFail := false
  authNonce := bytes [0, 0, 0, 0, 0, 0, 0, 0]

def solicited : Upkeep where
  m :=
    { pc := .test .reply
      serverIp := bytes [65, 54, 227, 120]
      count := 0
      deadline := (⟨14, 0⟩ : Timespec).word
      nonce := bytes [0, 0, 0, 0, 0, 0, 0, 0]
      newst := ⟨teredoRestrict, 1280, anyIpv4, true⟩
      state := ⟨setServer (bytes (replicate 16 0)) (bytes [65, 54, 227, 120]), 0, anyIpv4, false⟩ }
  deadline := ⟨14, 0⟩

theorem run_solicited : ∃ es₀ u₀ e₀ now junk, Run (Step zeroHash (.ofArgs 0 0 0 0)) started es₀ u₀ ∧
    Step zeroHash (.ofArgs 0 0 0 0) u₀ e₀ solicited ∧ e₀.input = .clock now junk := by
  have hresolved : Run (Step zeroHash (.ofArgs 0 0 0 0)) started
      ([] ++ [⟨.resolved (some (bytes [65, 54, 227, 120])) ⟨10, 0⟩, _, _, _⟩]) _ := .next .start rfl
  exact ⟨_, _, ⟨.clock [⟨11, 0⟩] ⟨teredoRestrict, 0, anyIpv4, false⟩, _, _, _⟩, _, _,
    hresolved, rfl, rfl⟩

def answerOf (server : Ipv4) : TeredoPacket :=
  answerWith (prefixOptionOf server ++ [ndOptMtu, 1, 0, 0] ++ be 4 1400)

def strayAnswer : TeredoPacket := answerOf (bytes [65, 54, 227, 121])

def fullAnswer : TeredoPacket := answerOf (bytes [65, 54, 227, 120])

def plainAnswer : TeredoPacket := answerWith (prefixOptionOf (bytes [65, 54, 227, 120]))

def twoAnswers : TeredoPacket :=
  answerWith (prefixOptionOf anyIpv4 ++ prefixOptionOf (bytes [65, 54, 227, 120]))

set_option maxRecDepth 20000 in
theorem replies_alone_second : ∃ u₁ st u₂ alone,
    Step zeroHash (.ofArgs 0 0 0 0) solicited ⟨.packet strayAnswer, false, false, none⟩ u₁ ∧
    Step zeroHash (.ofArgs 0 0 0 0) u₁ ⟨.packet fullAnswer, true, false, some st⟩ u₂ ∧
    maintenanceRecv fullAnswer solicited.m.serverIp solicited.m.nonce false solicited.m.newst =
        (none, alone) ∧
      u₂.m.newst.mtu = alone.mtu ∧ (prefixOptions (packetOptions fullAnswer)).length = 1 := by
  obtain ⟨es₀, u₀, e₀, now, junk, hrun₀, hsolicit, hclock⟩ := run_solicited
  have hsteps : ∃ u₁ st u₂,
      Step zeroHash (.ofArgs 0 0 0 0) solicited ⟨.packet strayAnswer, false, false, none⟩ u₁ ∧
      Step zeroHash (.ofArgs 0 0 0 0) u₁ ⟨.packet fullAnswer, true, false, some st⟩ u₂ :=
    ⟨_, _, _, rfl, rfl⟩
  obtain ⟨u₁, st, u₂, hstray, hstep⟩ := hsteps
  have hone := replies_alone _ _ _ junk _ now _ u₀ solicited u₁ u₂ es₀ _ e₀ _ hrun₀ hsolicit
    hclock (.next .start hstray) (by simp [Event.Rejected]) hstep rfl rfl
  obtain ⟨⟨alone, hrecv, -, -, hmtu⟩, hlen⟩ := hone.mpr ⟨.inl rfl, by decide⟩
  exact ⟨u₁, st, u₂, alone, hstray, hstep, hrecv, hmtu, hlen⟩

set_option maxRecDepth 20000 in
/-- The MTU of an advertisement that was rejected is adopted with a later one; and an advertisement
with two prefixes is accepted. -/
theorem rejected_mtu_adopted :
    (∃ es₀ u₀ e₀ now junk u₁ u₂ st, Run (Step zeroHash (.ofArgs 0 0 0 0)) started es₀ u₀ ∧
      Step zeroHash (.ofArgs 0 0 0 0) u₀ e₀ solicited ∧ e₀.input = .clock now junk ∧
      Step zeroHash (.ofArgs 0 0 0 0) solicited ⟨.packet strayAnswer, false, false, none⟩ u₁ ∧
      Step zeroHash (.ofArgs 0 0 0 0) u₁ ⟨.packet plainAnswer, true, false, some st⟩ u₂ ∧
      u₂.m.newst.mtu = 1400 ∧
      ∃ alone, maintenanceRecv plainAnswer solicited.m.serverIp solicited.m.nonce false
        solicited.m.newst = (none, alone) ∧ alone.mtu = 1280) ∧
    ∃ n, maintenanceRecv twoAnswers solicited.m.serverIp solicited.m.nonce false solicited.m.newst =
      (none, n) ∧ (prefixOptions (packetOptions twoAnswers)).length = 2 := by
  obtain ⟨es₀, u₀, e₀, now, junk, hrun₀, hsolicit, hclock⟩ := run_solicited
  refine ⟨⟨es₀, u₀, e₀, now, junk, _, _, _, hrun₀, hsolicit, hclock, rfl, rfl, rfl, _, rfl, rfl⟩, _,
    rfl, rfl⟩

end Upkeep

end Maiccu.Teredo
