import Maiccu.Lib.Fgets
import Maiccu.Gogoc.ServerName

/-!
# The file with the broker list

`tspHandleRedirect` writes the sorted brokers of a redirection to a file, and
`tspReadBrokerListFromFile` (both `tsp_redirect.c`) makes a list of them later. The type of a broker
is not written, but `FormatBrokerListAddr` needs it to put an IPv6 address in brackets, without
which `parse_addr_port` takes its first part for the host.
-/

namespace Maiccu.Gogoc

open Maiccu.Lib List

def tspWriteBrokerListToFile (brokers : List Broker) : List UInt8 :=
  brokers.flatMap fun b => b.address ++ [10]

/-- The addresses in lines of the file. Those that are blank are skipped. -/
def lineEntries (lines : List (List UInt8)) : List (List UInt8) :=
  (lines.map fileLine).filter (· ≠ [])

def fileEntries (content : List UInt8) : List (List UInt8) :=
  lineEntries (fgetsLines maxRedirectAddressLength [] content)

def fileBroker (address : List UInt8) : Broker := ⟨address, .none, 0⟩

variable {a content line : List UInt8} {lines addresses : List (List UInt8)}
  {brokers left read : List Broker}

/-! ## Reading -/

theorem length_fileLine_le : (fileLine line).length ≤ line.length :=
  calc (fileLine line).length ≤ (chomp (cString line)).length := length_chomp_le
    _ ≤ (cString line).length := length_chomp_le
    _ ≤ line.length := (List.takeWhile_prefix _).length_le

theorem readBrokers_none_iff (hlines : ∀ line ∈ lines, line.length < maxRedirectAddressLength)
    (hfew : brokers.length ≤ maxRedirectBrokersInList) :
    readBrokers lines brokers = (none, left) ↔
      brokers.length + (lineEntries lines).length ≤ maxRedirectBrokersInList ∧
        left = brokers ++ (lineEntries lines).map fileBroker := by
  induction lines generalizing brokers with
  | nil => simp [readBrokers, lineEntries, hfew, eq_comm]
  | cons line lines ih =>
    rw [forall_mem_cons] at hlines
    have hfits : (fileLine line).length < maxRedirectAddressLength :=
      length_fileLine_le.trans_lt hlines.1
    unfold readBrokers tspAddBrokerToList
    unfold lineEntries at ih ⊢
    rw [map_cons, if_pos hfits]
    split_ifs with hblank hroom
    · rw [filter_cons_of_neg (by simpa using hblank)]
      exact ih hlines.2 hfew
    · rw [filter_cons_of_pos (by simpa using hblank), ih hlines.2 (by simp; omega), length_append,
        length_singleton, append_assoc, length_cons, Nat.add_assoc, Nat.add_comm 1]
      rfl
    · rw [filter_cons_of_pos (by simpa using hblank), length_cons]
      exact iff_of_false (by simp) fun h => by omega

theorem tspReadBrokerListFromFile_none_iff :
    tspReadBrokerListFromFile (some content) = (none, read) ↔
      (fileEntries content).length ≤ maxRedirectBrokersInList ∧
        read = (fileEntries content).map fileBroker := by
  have hlines : ∀ line ∈ fgetsLines maxRedirectAddressLength [] content,
      line.length < maxRedirectAddressLength := fun line hline =>
    (of_mem_fgetsLines hline).1 (by decide)
  refine (readBrokers_none_iff hlines (Nat.zero_le _)).trans ?_
  rw [length_nil, Nat.zero_add, nil_append]
  rfl

/-! ## One line -/

structure Kept (a : List UInt8) : Prop where
  ne_nil : a ≠ []
  no_lf : 10 ∉ a
  no_cr : a.getLast? ≠ some 13

instance (a : List UInt8) : Decidable (Kept a) :=
  decidable_of_iff (a ≠ [] ∧ 10 ∉ a ∧ a.getLast? ≠ some 13)
    ⟨fun h => ⟨h.1, h.2.1, h.2.2⟩, fun h => ⟨h.ne_nil, h.no_lf, h.no_cr⟩⟩

theorem fileEntries_cons (a content : List UInt8) :
    fileEntries (a ++ 10 :: content) = fileEntries (a ++ [10]) ++ fileEntries content := by
  unfold fileEntries lineEntries
  rw [fgetsLines_append, map_append, filter_append]

theorem fileEntries_flatMap (addresses : List (List UInt8)) :
    fileEntries (addresses.flatMap (· ++ [10])) =
      addresses.flatMap fun a => fileEntries (a ++ [10]) := by
  induction addresses with
  | nil => rfl
  | cons a addresses ih =>
    rw [flatMap_cons, flatMap_cons, append_assoc, singleton_append, fileEntries_cons, ih]

theorem entry_of_mem (h0 : 0 ∉ content) (ha : a ∈ fileEntries content) : a ≠ [] ∧ 10 ∉ a := by
  obtain ⟨hmem, hne⟩ := mem_filter.mp ha
  obtain ⟨line, hline, rfl⟩ := mem_map.mp hmem
  refine ⟨of_decide_eq_true hne, ?_⟩
  obtain ⟨-, htext, hend⟩ := of_mem_fgetsLines hline
  have hzero : 0 ∉ line := fun h => h0 ((htext 0 h).resolve_left not_mem_nil)
  have hlf : 10 ∉ chomp line := notMem_chomp (hend not_mem_nil)
  unfold fileLine
  rw [cString_of_notMem hzero]
  exact fun h => hlf (mem_of_mem_chomp h)

/-- The line of an address gives at most one entry: the address without what looks like the end of a
line. A line feed that does not fit the buffer is read by itself and skipped. -/
theorem fileEntries_line (h0 : 0 ∉ a) (hlf : 10 ∉ a) (hlen : a.length < maxRedirectAddressLength) :
    ∃ b, (b = chomp a ∨ b = chomp (chomp a)) ∧ fileEntries (a ++ [10]) = [b].filter (· ≠ []) := by
  have hline0 : 0 ∉ a ++ [10] := by simp [h0]
  unfold fileEntries lineEntries
  rcases Nat.lt_or_ge a.length 254 with hroom | hfull
  · have hlines : fgetsLines maxRedirectAddressLength [] (a ++ [10]) = [a ++ [10]] := by
      have := fgetsLines_of_room (n := maxRedirectAddressLength) hlf
        (show ([] : List UInt8).length + a.length + 2 ≤ 255 by simp; omega)
      rwa [nil_append] at this
    refine ⟨chomp a, .inl rfl, ?_⟩
    rw [hlines, map_singleton]
    unfold fileLine
    rw [cString_of_notMem hline0, chomp_append_lf]
  · have hne : a ≠ [] := length_pos_iff.mp (by omega)
    have hlines : fgetsLines maxRedirectAddressLength [] (a ++ [10]) = [a, [10]] := by
      have hlen' : a.length < 255 := hlen
      have := fgetsLines_of_full (n := maxRedirectAddressLength) hlf hne
        (show ([] : List UInt8).length + a.length + 1 = 255 by simp; omega)
      rwa [nil_append] at this
    have hblank : fileLine [10] = [] := by decide
    refine ⟨chomp (chomp a), .inr rfl, ?_⟩
    rw [hlines, map_cons, map_singleton, hblank]
    unfold fileLine
    rw [cString_of_notMem h0]
    rfl

theorem chomp_eq_of_kept (h : Kept a) : chomp a = a :=
  (chomp_eq_self_iff h.ne_nil).mpr ⟨fun hlast => h.no_lf (mem_of_getLast? hlast), h.no_cr⟩

theorem fileEntries_line_eq_iff (h0 : 0 ∉ a) (hlen : a.length < maxRedirectAddressLength) :
    fileEntries (a ++ [10]) = [a] ↔ Kept a := by
  constructor
  · intro h
    have hline0 : 0 ∉ a ++ [10] := by simp [h0]
    obtain ⟨hne, hlf⟩ := entry_of_mem hline0 (h ▸ mem_singleton_self a)
    obtain ⟨b, hb, hentries⟩ := fileEntries_line h0 hlf hlen
    have hab : a = b := by
      rw [h] at hentries
      have hmem : a ∈ [b].filter (· ≠ []) := hentries ▸ mem_singleton_self a
      exact mem_singleton.mp (mem_of_mem_filter hmem)
    have hchomp : chomp a = a := by
      rcases hb with rfl | rfl
      · exact hab.symm
      · exact chomp_of_length_le ((congrArg length hab).le.trans length_chomp_le)
    exact ⟨hne, hlf, ((chomp_eq_self_iff hne).mp hchomp).2⟩
  · intro h
    obtain ⟨b, hb, hentries⟩ := fileEntries_line h0 h.no_lf hlen
    have hba : b = a := by
      rcases hb with rfl | rfl
      · exact chomp_eq_of_kept h
      · rw [chomp_eq_of_kept h, chomp_eq_of_kept h]
    rw [hentries, hba, filter_cons_of_pos (by simpa using h.ne_nil)]
    rfl

/-! ## The whole list -/

theorem fileEntries_flatMap_eq_iff (h0 : ∀ a ∈ addresses, 0 ∉ a)
    (hlen : ∀ a ∈ addresses, a.length < maxRedirectAddressLength) :
    fileEntries (addresses.flatMap (· ++ [10])) = addresses ↔ ∀ a ∈ addresses, Kept a := by
  have hiff : (∀ a ∈ addresses, fileEntries (a ++ [10]) = [a]) ↔ ∀ a ∈ addresses, Kept a :=
    forall₂_congr fun a ha => fileEntries_line_eq_iff (h0 a ha) (hlen a ha)
  have hone : (∀ a ∈ addresses, 10 ∉ a) →
      ∀ a ∈ addresses, (fileEntries (a ++ [10])).length ≤ 1 := by
    intro hlf a ha
    obtain ⟨b, -, hb⟩ := fileEntries_line (h0 a ha) (hlf a ha) (hlen a ha)
    rw [hb]
    exact length_filter_le _ _
  constructor
  · intro h
    have hcontent : 0 ∉ addresses.flatMap (· ++ [10]) := by
      intro hmem
      obtain ⟨a, ha, hmem⟩ := mem_flatMap.mp hmem
      rcases mem_append.mp hmem with hmem | hmem
      · exact h0 a ha hmem
      · exact nomatch hmem
    have hlf : ∀ a ∈ addresses, 10 ∉ a := fun a ha =>
      (entry_of_mem hcontent (by rwa [h])).2
    rw [fileEntries_flatMap] at h
    refine hiff.mp ((flatMap_eq_iff (g := fun a => [a]) (hone hlf)).mp ?_)
    rw [h, flatMap_singleton']
  · intro h
    rw [fileEntries_flatMap, flatMap_congr (hiff.mpr h), flatMap_singleton']

/-! ## The brokers of a redirection -/

/-- `b'` was read for `b`: it has the same address and leads to the same server. -/
structure SameServer (b b' : Broker) : Prop where
  address : b'.address = b.address
  server : ∀ starved, formatBrokerListAddr starved b' = formatBrokerListAddr starved b

theorem format_fileBroker (starved : Bool) (a : List UInt8) :
    formatBrokerListAddr starved (fileBroker a) = some a := rfl

theorem sameServer_fileBroker_iff (b : Broker) (a : List UInt8) :
    SameServer b (fileBroker a) ↔ a = b.address ∧ b.addressType ≠ .ipv6 := by
  constructor
  · rintro ⟨haddress, hserver⟩
    refine ⟨haddress, fun htype => ?_⟩
    have h := hserver false
    have ha : a = b.address := haddress
    rw [format_fileBroker, ha] at h
    unfold formatBrokerListAddr at h
    rw [if_pos htype, if_neg (by decide), Option.some_inj] at h
    have hlen := congrArg length h
    simp only [length_append] at hlen
    have hbracket : (ascii "[").length = 1 := rfl
    omega
  · rintro ⟨rfl, htype⟩
    refine ⟨rfl, fun starved => ?_⟩
    rw [format_fileBroker]
    unfold formatBrokerListAddr
    rw [if_neg htype]

theorem forall₂_sameServer_iff (brokers : List Broker) (entries : List (List UInt8)) :
    Forall₂ SameServer brokers (entries.map fileBroker) ↔
      entries = brokers.map Broker.address ∧ ∀ b ∈ brokers, b.addressType ≠ .ipv6 := by
  induction brokers generalizing entries with
  | nil => simp
  | cons b brokers ih =>
    cases entries with
    | nil => simp
    | cons a entries =>
      rw [map_cons, forall₂_cons, ih, sameServer_fileBroker_iff, map_cons,
        forall_mem_cons, cons_eq_cons]
      tauto

theorem read_back_iff (h0 : ∀ b ∈ brokers, 0 ∉ b.address)
    (hlen : ∀ b ∈ brokers, b.address.length < maxRedirectAddressLength)
    (hfew : brokers.length ≤ maxRedirectBrokersInList) :
    (∃ read, tspReadBrokerListFromFile (some (tspWriteBrokerListToFile brokers)) = (none, read) ∧
        Forall₂ SameServer brokers read) ↔
      ∀ b ∈ brokers, Kept b.address ∧ b.addressType ≠ .ipv6 := by
  have hwritten : tspWriteBrokerListToFile brokers =
      (brokers.map Broker.address).flatMap (· ++ [10]) := by
    rw [flatMap_map]
    rfl
  have hentries := fileEntries_flatMap_eq_iff (forall_mem_map.mpr h0)
    (forall_mem_map.mpr hlen)
  rw [← hwritten, forall_mem_map] at hentries
  rw [forall₂_and, ← hentries]
  constructor
  · rintro ⟨read, hread, hsame⟩
    rw [(tspReadBrokerListFromFile_none_iff.mp hread).2, forall₂_sameServer_iff] at hsame
    exact hsame
  · intro h
    refine ⟨_, tspReadBrokerListFromFile_none_iff.mpr ⟨?_, rfl⟩, (forall₂_sameServer_iff _ _).mpr h⟩
    rw [h.1, length_map]
    exact hfew

variable {nodes : List Broker} {r : Redirection}

theorem addBrokers_ok_iff {addressType : BrokerType} :
    addBrokers addressType addresses brokers = .ok nodes ↔
      nodes = brokers ++ addresses.map (fun a => ⟨a, addressType, 0⟩) ∧
        (∀ a ∈ addresses, a.length < maxRedirectAddressLength) ∧
        nodes.length ≤ max brokers.length maxRedirectBrokersInList := by
  induction addresses generalizing brokers with
  | nil =>
    rw [addBrokers, map_nil, append_nil, Except.ok.injEq, eq_comm]
    exact ⟨fun h => ⟨h, forall_mem_nil _, h ▸ le_max_left _ _⟩, And.left⟩
  | cons a addresses ih =>
    rw [addBrokers, tspAddBrokerToList, forall_mem_cons, map_cons]
    by_cases hfits : a.length < maxRedirectAddressLength
    · split_ifs with hroom
      · refine ih.trans ?_
        rw [and_iff_right hfits, append_assoc, length_append, length_singleton]
        rw [max_eq_right hroom, max_eq_right hroom.le]
        rfl
      · refine iff_of_false nofun fun h => ?_
        have hlen := congrArg length h.1
        rw [length_append, length_cons] at hlen
        omega
    · rw [if_neg hfits]
      refine iff_of_false ?_ fun h => hfits h.2.1.1
      split_ifs <;> exact nofun

/-- A list of brokers as `tspCreateBrokerList` makes it. -/
structure Created (r : Redirection) (nodes : List Broker) : Prop where
  eq : nodes = r.ipv4.map (fun a => ⟨a, .ipv4, 0⟩) ++ r.ipv6.map (fun a => ⟨a, .ipv6, 0⟩) ++
    r.dn.map (fun a => ⟨a, .fqdn, 0⟩)
  fits : ∀ b ∈ nodes, b.address.length < maxRedirectAddressLength
  few : nodes.length ≤ maxRedirectBrokersInList

theorem tspCreateBrokerList_ok (h : tspCreateBrokerList r = .ok nodes) : Created r nodes := by
  unfold tspCreateBrokerList at h
  cases h₄ : addBrokers .ipv4 r.ipv4 [] with
  | error e => simp only [h₄] at h; cases h
  | ok l₄ =>
    cases h₆ : addBrokers .ipv6 r.ipv6 l₄ with
    | error e => simp only [h₄, h₆] at h; cases h
    | ok l₆ =>
      simp only [h₄, h₆] at h
      obtain ⟨heq₄, hfits₄, hmax₄⟩ := addBrokers_ok_iff.mp h₄
      obtain ⟨heq₆, hfits₆, hmax₆⟩ := addBrokers_ok_iff.mp h₆
      obtain ⟨heq, hfits, hmax⟩ := addBrokers_ok_iff.mp h
      rw [nil_append] at heq₄
      rw [length_nil] at hmax₄
      have hnodes := heq
      rw [heq₆, heq₄] at hnodes
      refine ⟨hnodes, fun b hb => ?_, by omega⟩
      rw [hnodes] at hb
      simp only [mem_append, mem_map] at hb
      rcases hb with (⟨a, ha, rfl⟩ | ⟨a, ha, rfl⟩) | ⟨a, ha, rfl⟩
      · exact hfits₄ a ha
      · exact hfits₆ a ha
      · exact hfits a ha

theorem tspSortBrokerList_perm (distances : ℕ → ℕ) (nodes : List Broker) :
    (tspSortBrokerList distances nodes).Perm
      (nodes.mapIdx fun i b => { b with distance := distances i }) := by
  have hperm := foldl_insert_perm (nodes.mapIdx fun i b => { b with distance := distances i }) []
  rwa [append_nil] at hperm

theorem forall_mem_sort_iff (p : List UInt8 → BrokerType → Prop) (distances : ℕ → ℕ)
    (nodes : List Broker) :
    (∀ b ∈ tspSortBrokerList distances nodes, p b.address b.addressType) ↔
      ∀ b ∈ nodes, p b.address b.addressType := by
  have hperm := tspSortBrokerList_perm distances nodes
  constructor
  · intro h b hb
    obtain ⟨i, hi, rfl⟩ := mem_iff_getElem.mp hb
    have hmem : { nodes[i] with distance := distances i } ∈ tspSortBrokerList distances nodes :=
      hperm.mem_iff.mpr (mem_mapIdx.mpr ⟨i, hi, rfl⟩)
    exact h { nodes[i] with distance := distances i } hmem
  · intro h b hb
    obtain ⟨i, hi, rfl⟩ := mem_mapIdx.mp (hperm.mem_iff.mp hb)
    exact h nodes[i] (getElem_mem hi)

theorem tspHandleRedirect_many {reply : RedirectReply} {before after : BrokerList}
    (hpayload : reply.payload = some r) (h : tspHandleRedirect reply before = (none, after))
    (hmany : 2 ≤ after.nodes.length) :
    ∃ nodes distances, Created r nodes ∧ after.nodes = tspSortBrokerList distances nodes := by
  unfold tspHandleRedirect at h
  rw [hpayload] at h
  dsimp only at h
  cases hcreate : tspCreateBrokerList r with
  | error e =>
    rw [hcreate] at h
    cases h
  | ok nodes =>
    rw [hcreate] at h
    dsimp only at h
    split_ifs at h with hlong hnone
    · cases hdistances : reply.distances with
      | none =>
        rw [hdistances] at h
        cases h
      | some distances =>
        rw [hdistances] at h
        cases h
        exact ⟨nodes, distances, tspCreateBrokerList_ok hcreate, rfl⟩
    · cases h
    · cases h
      exact absurd hmany hlong

theorem Created.forall_iff (h : Created r nodes) (p : List UInt8 → BrokerType → Prop) :
    (∀ b ∈ nodes, p b.address b.addressType) ↔
      (∀ a ∈ r.ipv4, p a .ipv4) ∧ (∀ a ∈ r.ipv6, p a .ipv6) ∧ ∀ a ∈ r.dn, p a .fqdn := by
  rw [h.eq, forall_mem_append, forall_mem_append, forall_mem_map,
    forall_mem_map, forall_mem_map, and_assoc]

/-- The brokers that a redirection has left, at most 50, come back in their order and with the same
servers, just if none of them has an IPv6 address and no address is blank, has a line feed or ends
with a carriage return. -/
theorem brokers_read_back_iff {reply : RedirectReply} {before after : BrokerList}
    (hpayload : reply.payload = some r) (htexts : ∀ a ∈ r.ipv4 ++ r.ipv6 ++ r.dn, 0 ∉ a)
    (hredirect : tspHandleRedirect reply before = (none, after)) (hmany : 2 ≤ after.nodes.length) :
    (∃ read, tspReadBrokerListFromFile (some (tspWriteBrokerListToFile after.nodes)) =
        (none, read) ∧ Forall₂ SameServer after.nodes read) ↔
      r.ipv6 = [] ∧ ∀ a ∈ r.ipv4 ++ r.dn, Kept a := by
  obtain ⟨nodes, distances, hcreated, hsorted⟩ := tspHandleRedirect_many hpayload hredirect hmany
  have hlen : ∀ b ∈ after.nodes, b.address.length < maxRedirectAddressLength := by
    rw [hsorted, forall_mem_sort_iff fun a _ => a.length < maxRedirectAddressLength]
    exact hcreated.fits
  have h0 : ∀ b ∈ after.nodes, 0 ∉ b.address := by
    rw [hsorted, forall_mem_sort_iff fun a _ => 0 ∉ a, hcreated.forall_iff fun a _ => 0 ∉ a]
    simp only [forall_mem_append] at htexts
    exact ⟨htexts.1.1, htexts.1.2, htexts.2⟩
  have hfew : after.nodes.length ≤ maxRedirectBrokersInList := by
    rw [hsorted, tspSortBrokerList_length]
    exact hcreated.few
  rw [read_back_iff h0 hlen hfew, hsorted, forall_mem_sort_iff fun a t => Kept a ∧ t ≠ .ipv6,
    hcreated.forall_iff fun a t => Kept a ∧ t ≠ .ipv6, forall_mem_append, eq_nil_iff_forall_not_mem]
  constructor
  · rintro ⟨h₄, h₆, hdn⟩
    exact ⟨fun a ha => (h₆ a ha).2 rfl, fun a ha => (h₄ a ha).1, fun a ha => (hdn a ha).1⟩
  · rintro ⟨h₆, h₄, hdn⟩
    exact ⟨fun a ha => ⟨h₄ a ha, by decide⟩, fun a ha => absurd ha (h₆ a),
      fun a ha => ⟨hdn a ha, by decide⟩⟩

def leftBy (r : Redirection) : BrokerList := (tspHandleRedirect ⟨some r, some id⟩ ⟨0, []⟩).2

def twoV4 : Redirection := ⟨[ascii "192.0.2.1", ascii "192.0.2.2"], [], []⟩

theorem brokers_read_back_two :
    tspHandleRedirect ⟨some twoV4, some id⟩ ⟨0, []⟩ = (none, leftBy twoV4) ∧
      2 ≤ (leftBy twoV4).nodes.length ∧
      ∃ read, tspReadBrokerListFromFile
          (some (tspWriteBrokerListToFile (leftBy twoV4).nodes)) = (none, read) ∧
        Forall₂ SameServer (leftBy twoV4).nodes read := by
  have hredirect : tspHandleRedirect ⟨some twoV4, some id⟩ ⟨0, []⟩ = (none, leftBy twoV4) :=
    rfl
  have hmany : 2 ≤ (leftBy twoV4).nodes.length := by decide +kernel
  have hiff := brokers_read_back_iff rfl (by decide +kernel) hredirect hmany
  exact ⟨hredirect, hmany, hiff.mpr ⟨rfl, by decide +kernel⟩⟩

def v4AndV6 : Redirection := ⟨[ascii "192.0.2.1"], [ascii "2001:db8::1"], []⟩

theorem v6_broker_not_read_back :
    tspHandleRedirect ⟨some v4AndV6, some id⟩ ⟨0, []⟩ = (none, leftBy v4AndV6) ∧
      (leftBy v4AndV6).nodes.length = 2 ∧
      (leftBy v4AndV6).nodes.map (formatBrokerListAddr false) =
        [some (ascii "192.0.2.1"), some (ascii "[2001:db8::1]")] ∧
      (¬ ∃ read, tspReadBrokerListFromFile
          (some (tspWriteBrokerListToFile (leftBy v4AndV6).nodes)) = (none, read) ∧
        Forall₂ SameServer (leftBy v4AndV6).nodes read) ∧
      (∃ r, ServerName.parseAddrPort false (ascii "[2001:db8::1]") ServerName.serverPort =
        .ok (some r)) ∧
      ServerName.parseAddrPort false (ascii "2001:db8::1") ServerName.serverPort = .ok none := by
  have hread : tspReadBrokerListFromFile
      (some (tspWriteBrokerListToFile (leftBy v4AndV6).nodes)) =
      (none, [fileBroker (ascii "192.0.2.1"), fileBroker (ascii "2001:db8::1")]) := by
    decide +kernel
  refine ⟨rfl, rfl, by decide +kernel, ?_, ⟨_, rfl⟩, by decide +kernel⟩
  rintro ⟨read, heq, h⟩
  cases heq
  obtain ⟨-, h⟩ := forall₂_cons.mp h
  have hserver := (forall₂_cons.mp h).1.server false
  exact absurd hserver (by decide +kernel)

end Maiccu.Gogoc
