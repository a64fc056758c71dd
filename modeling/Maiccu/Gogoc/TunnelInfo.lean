import Maiccu.Gogoc.XmlParse

/-!
# The tunnel information of a reply

`xml_tun.c`: the node tables for the XML part of a reply and the processing functions, which store
what they find in a `tTunnel`, and `tspExtractPayload` of `tsp_client.c`. Each text of a `tTunnel`
is a block of its own.
-/

namespace Maiccu.Gogoc.Xml

open Maiccu.Lib List Option Function

/-! ## `tTunnel` -/

/-- The texts of `tTunnel`, in the order in which they are freed. -/
inductive Field where
  | action
  | type
  | lifetime
  | proxy
  | mtu
  | clientAddressIpv4
  | clientAddressIpv6
  | clientDnsServerAddressIpv6
  | clientDnsName
  | serverAddressIpv4
  | serverAddressIpv6
  | routerProtocol
  | prefixLength
  | prefixText
  | clientAs
  | serverAs
  | keepaliveInterval
  | keepaliveAddress
  deriving DecidableEq

def Field.all : List Field :=
  [.action, .type, .lifetime, .proxy, .mtu, .clientAddressIpv4, .clientAddressIpv6,
    .clientDnsServerAddressIpv6, .clientDnsName, .serverAddressIpv4, .serverAddressIpv6,
    .routerProtocol, .prefixLength, .prefixText, .clientAs, .serverAs, .keepaliveInterval,
    .keepaliveAddress]

/-- The lists of `tTunnel` that are freed, in this order. -/
inductive ListField where
  | dnsServerAddressIpv4
  | dnsServerAddressIpv6
  | brokerAddressIpv4
  | brokerRedirectIpv4
  | brokerRedirectIpv6
  | brokerRedirectDn
  deriving DecidableEq

def ListField.all : List ListField :=
  [.dnsServerAddressIpv4, .dnsServerAddressIpv6, .brokerAddressIpv4, .brokerRedirectIpv4,
    .brokerRedirectIpv6, .brokerRedirectDn]

structure Str where
  block : ℕ
  text : List UInt8

/-- `tLinkedList`. -/
structure ListNode where
  block : ℕ
  value : Str

/-- `tTunnel`. -/
structure TunnelInfo where
  text : Field → Option Str
  list : ListField → List ListNode

def TunnelInfo.empty : TunnelInfo := ⟨fun _ => none, fun _ => []⟩

def TunnelInfo.blocks (t : TunnelInfo) : List ℕ :=
  (Field.all.flatMap fun f => ((t.text f).map Str.block).toList) ++
    ListField.all.flatMap fun l => (t.list l).flatMap fun n => [n.block, n.value.block]

/-- The blocks that it frees. The first node is left. -/
def tspFreeLinkedList : List ListNode → List ℕ
  | [] => []
  | [n] => [n.value.block]
  | n :: m :: rest => tspFreeLinkedList (m :: rest) ++ [m.block, n.value.block]

/-- The blocks that it frees. -/
def tspClearTunnelInfo (t : TunnelInfo) : List ℕ :=
  (Field.all.flatMap fun f => ((t.text f).map Str.block).toList) ++
    ListField.all.flatMap fun l => tspFreeLinkedList (t.list l)

/-! ## Processing functions -/

inductive TableId where
  | root
  | tunnel
  | server
  | client
  | router
  | dnsServer
  | broker
  | keepalive
  deriving DecidableEq

/-- `theTunnelInfo` and the static variables that say where the parser is. -/
structure Vars where
  theTunnelInfo : TunnelInfo
  client : Bool
  server : Bool
  router : Bool
  dnsServer : Bool
  broker : Bool
  keepalive : Bool

abbrev TunState := State TableId Vars

/-- The state of a process that has not read a reply. -/
def started : TunState :=
  ⟨⟨[]⟩, fun _ _ _ => none, fun _ => true, ⟨.empty, false, false, false, false, false, false⟩⟩

abbrev TunTable := Table TableId Vars

def State.setInfo (x : TunState) (t : TunnelInfo) : TunState :=
  { x with info := { x.info with theTunnelInfo := t } }

def TunnelInfo.setText (t : TunnelInfo) (f : Field) (s : Option Str) : TunnelInfo :=
  { t with text := update t.text f s }

def TunnelInfo.push (t : TunnelInfo) (l : ListField) (n : ListNode) : TunnelInfo :=
  { t with list := update t.list l (n :: t.list l) }

/-- Its result is ignored by all callers. -/
def assign (str : Option Ptr) (f : Field) (x : TunState) : Option TunState :=
  match str with
  | none => some x
  | some p =>
    (x.heap.lowerAt p).bind fun heap =>
      (heap.text p).map fun text =>
        let r := { x with heap := heap }.malloc (text ++ [0])
        r.2.setInfo (r.2.info.theTunnelInfo.setText f (r.1.map fun b => ⟨b, text⟩))

/-- `AssignToList`, with a string that is not null. -/
def assignToList (str : Ptr) (l : ListField) (x : TunState) : Option TunState :=
  (x.heap.text str).map fun text =>
    match x.malloc [] with
    | (none, x₁) => x₁
    | (some node, x₁) =>
      match x₁.malloc (text ++ [0]) with
      | (none, x₂) => x₂.free node
      | (some b, x₂) => x₂.setInfo (x₂.info.theTunnelInfo.push l ⟨node, ⟨b, text⟩⟩)

inductive Dest where
  | text (f : Field)
  | list (l : ListField)

def Dest.store (content : Ptr) (x : TunState) : Dest → Option TunState
  | .text f => assign (some content) f x
  | .list l => assignToList content l x

/-- The values of the attribute `type` that `p_address` compares with, and where the address then
goes; nothing if it does not look at the attribute. -/
def addressDests (v : Vars) : Option (List (List UInt8 × Dest)) :=
  if v.client then
    if v.keepalive then
      some [(ascii "ipv6", .text .keepaliveAddress), (ascii "ipv4", .text .keepaliveAddress)]
    else if v.router then
      if v.dnsServer then
        some [(ascii "ipv4", .list .dnsServerAddressIpv4),
          (ascii "ipv6", .list .dnsServerAddressIpv6)]
      else none
    else if v.dnsServer then some [(ascii "ipv6", .text .clientDnsServerAddressIpv6)]
    else
      some [(ascii "ipv4", .text .clientAddressIpv4), (ascii "ipv6", .text .clientAddressIpv6),
        (ascii "dn", .text .clientDnsName)]
  else if v.server then
    some [(ascii "ipv4", .text .serverAddressIpv4), (ascii "ipv6", .text .serverAddressIpv6)]
  else if v.broker then
    some [(ascii "ipv4", .list .brokerRedirectIpv4), (ascii "ipv6", .list .brokerRedirectIpv6),
      (ascii "dn", .list .brokerRedirectDn)]
  else none

def pAddress : Proc TableId Vars := fun values content x =>
  match addressDests x.info with
  | none => some (0, x)
  | some dests =>
    -- The first comparison reads the attribute, also if it is null.
    (values 0).bind fun p =>
      (x.heap.text p).bind fun type =>
        match dests.lookup type with
        | none => some (0, x)
        | some dest => (dest.store content x).map fun x' => (0, x')

def pAs : Proc TableId Vars := fun values _ x =>
  if x.info.client then (assign (values 0) .clientAs x).map fun x' => (0, x')
  else if x.info.server then (assign (values 0) .serverAs x).map fun x' => (0, x')
  else some (0, x)

def pPrefix : Proc TableId Vars := fun values content x =>
  (assign (values 0) .prefixLength x).bind fun x₁ =>
    (assign (some content) .prefixText x₁).map fun x₂ => (0, x₂)

/-- `XMLParse` of the content. -/
def parseContent (t : TunTable) (content : Ptr) (x : TunState) : Option (ℤ × TunState) :=
  (x.heap.text content).bind fun str => xmlParse t str x

/-- `XMLParse` of the content while one of the variables is 1. -/
def parseInside (set : Bool → Vars → Vars) (t : TunTable) (content : Ptr) (x : TunState) :
    Option (ℤ × TunState) :=
  (parseContent t content { x with info := set true x.info }).map fun r =>
    (r.1, { r.2 with info := set false r.2.info })

def dnsServerTable : TunTable := ⟨.dnsServer, [⟨ascii "address", some pAddress, [ascii "type"]⟩]⟩

def pDnsServer : Proc TableId Vars := fun _ content x =>
  parseInside (fun b v => { v with dnsServer := b }) dnsServerTable content x

def keepaliveTable : TunTable := ⟨.keepalive, [⟨ascii "address", some pAddress, [ascii "type"]⟩]⟩

def pKeepalive : Proc TableId Vars := fun values content x =>
  (assign (values 0) .keepaliveInterval x).bind fun x' =>
    parseInside (fun b v => { v with keepalive := b }) keepaliveTable content x'

def brokerTable : TunTable := ⟨.broker, [⟨ascii "address", some pAddress, [ascii "type"]⟩]⟩

def pBroker : Proc TableId Vars := fun _ content x =>
  parseInside (fun b v => { v with broker := b }) brokerTable content x

def routerTable : TunTable :=
  ⟨.router, [⟨ascii "prefix", some pPrefix, [ascii "length"]⟩,
    ⟨ascii "dns_server", some pDnsServer, [ascii "type"]⟩,
    ⟨ascii "as", some pAs, [ascii "number"]⟩]⟩

def pRouter : Proc TableId Vars := fun values content x =>
  (assign (values 0) .routerProtocol x).bind fun x' =>
    parseInside (fun b v => { v with router := b }) routerTable content x'

def serverTable : TunTable :=
  ⟨.server, [⟨ascii "address", some pAddress, [ascii "type"]⟩,
    ⟨ascii "router", some pRouter, [ascii "protocol"]⟩]⟩

def pServer : Proc TableId Vars := fun _ content x =>
  parseInside (fun b v => { v with server := b }) serverTable content x

def clientTable : TunTable :=
  ⟨.client, [⟨ascii "address", some pAddress, [ascii "type"]⟩,
    ⟨ascii "dns_server", some pDnsServer, [ascii "type"]⟩,
    ⟨ascii "router", some pRouter, [ascii "protocol"]⟩,
    ⟨ascii "keepalive", some pKeepalive, [ascii "interval"]⟩]⟩

def pClient : Proc TableId Vars := fun _ content x =>
  parseInside (fun b v => { v with client := b }) clientTable content x

def tunnelTable : TunTable :=
  ⟨.tunnel, [⟨ascii "server", some pServer, []⟩, ⟨ascii "client", some pClient, []⟩,
    ⟨ascii "broker", some pBroker, []⟩]⟩

def tunnelFields : List (ℕ × Field) :=
  [(0, .action), (1, .type), (2, .lifetime), (3, .proxy), (4, .mtu)]

def pTunnel : Proc TableId Vars := fun values content x =>
  (tunnelFields.foldlM (fun x f => assign (values f.1) f.2 x) x).bind fun x' =>
    parseContent tunnelTable content x'

def rootTable : TunTable :=
  ⟨.root, [⟨ascii "tunnel", some pTunnel,
    [ascii "action", ascii "type", ascii "lifetime", ascii "proxy", ascii "mtu"]⟩]⟩

/-! ## The XML part of a reply -/

def tspXMLParse (data : List UInt8) (x : TunState) : Option (ℤ × TunState) :=
  let x₁ := (tspClearTunnelInfo x.info.theTunnelInfo).foldl State.free x
  xmlParse rootTable data { x₁ with info := { x₁.info with
    client := false, server := false, router := false, dnsServer := false, broker := false } }

/-- The result is 0 or 1. The second `strchr` reads a null pointer if there is no line feed. -/
def tspExtractPayload (payload : List UInt8) (x : TunState) : Option (ℤ × TunState) :=
  let x₁ := x.setInfo .empty
  match payload.dropWhile (· ≠ 10) with
  | [] => none
  | line =>
    match line.dropWhile (· ≠ 60) with
    | [] => some (1, x₁)
    | data => (tspXMLParse data x₁).map fun r => (if r.1 = 0 then 0 else 1, r.2)

/-! ## Who owns the texts -/

section Owned

variable {x x' : TunState}

def Vars.owned (v : Vars) : List ℕ := v.theTunnelInfo.blocks

variable {c size : ℕ} {f : Field} {t : TunTable} {content : Ptr} {code : ℤ} {heap : Heap} {α : Type}

theorem count_flatMap_le [DecidableEq α] {l : List α} (hl : l.Nodup) {g g' : α → List ℕ}
    {a : α} {k : ℕ} (hother : ∀ a' ≠ a, g' a' = g a') (ha : (g' a).count c ≤ k + (g a).count c) :
    (l.flatMap g').count c ≤ k + (l.flatMap g).count c := by
  induction l with
  | nil => exact Nat.zero_le _
  | cons b l ih =>
    obtain ⟨hb, hl⟩ := nodup_cons.mp hl
    rw [flatMap_cons, flatMap_cons, count_append, count_append]
    by_cases hba : b = a
    · subst hba
      have hsame : l.flatMap g' = l.flatMap g :=
        flatMap_congr fun a' ha' => hother a' fun heq => hb (heq ▸ ha')
      rw [hsame]
      omega
    · have hih := ih hl
      rw [hother b hba]
      omega

theorem text_setText_self (t : TunnelInfo) (f : Field) (s : Option Str) :
    (t.setText f s).text f = s := update_self ..

theorem list_push_self (t : TunnelInfo) (l : ListField) (n : ListNode) :
    (t.push l n).list l = n :: t.list l := update_self ..

variable {l : ListField}

theorem list_push_of_ne (t : TunnelInfo) {l' : ListField} (hne : l' ≠ l) (n : ListNode) :
    (t.push l n).list l' = t.list l' := update_of_ne hne ..

theorem count_setText {t : TunnelInfo} {s : Option Str} :
    (t.setText f s).blocks.count c ≤ (s.map Str.block).toList.count c + t.blocks.count c := by
  unfold TunnelInfo.blocks
  rw [count_append, count_append, ← Nat.add_assoc]
  refine Nat.add_le_add_right ?_ _
  refine count_flatMap_le (a := f) (by decide) (fun f' hf' => ?_) ?_
  · rw [show (t.setText f s).text f' = _ from update_of_ne hf' ..]
  · rw [text_setText_self]
    exact Nat.le_add_right _ _

theorem count_push {t : TunnelInfo} {n : ListNode} :
    (t.push l n).blocks.count c ≤ [n.block, n.value.block].count c + t.blocks.count c := by
  unfold TunnelInfo.blocks
  rw [count_append, count_append, Nat.add_left_comm]
  refine Nat.add_le_add_left ?_ _
  refine count_flatMap_le (a := l) (by decide) (fun l' hl' => ?_) ?_
  · rw [list_push_of_ne t hl']
  · rw [list_push_self, flatMap_cons, count_append]

theorem keeps_store {text : List UInt8} : let r := x.malloc (text ++ [0])
    Keeps Vars.owned x
      (r.2.setInfo (r.2.info.theTunnelInfo.setText f (r.1.map fun b => ⟨b, text⟩))) := by
  rcases hmalloc : x.malloc (text ++ [0]) with ⟨_ | b, x₁⟩
  · obtain ⟨hheap, hinfo⟩ := malloc_none hmalloc
    refine ⟨hheap ▸ .refl _, [], nodup_nil, nofun,
      fun c => ?_⟩
    rw [← hinfo]
    exact count_setText
  · obtain ⟨rfl, hheap, hinfo⟩ := malloc_some hmalloc
    refine ⟨hheap ▸ Heap.grows_alloc, [x.heap.size], nodup_singleton _, ?_, fun c => ?_⟩
    · intro c hc
      cases mem_singleton.mp hc
      exact ⟨le_rfl, hheap ▸ Heap.live_alloc⟩
    · rw [← hinfo]
      exact count_setText

theorem assign_keeps {str : Option Ptr} (h : assign str f x = some x') : Keeps Vars.owned x x' := by
  cases str with
  | none =>
    cases h
    exact .refl x
  | some p =>
    obtain ⟨heap, hheap, h⟩ := bind_eq_some_iff.mp h
    obtain ⟨text, -, rfl⟩ := map_eq_some_iff.mp h
    have hlower : Keeps Vars.owned x { x with heap := heap } :=
      keeps_of_grows (Heap.lowerAt_grows hheap) rfl
    exact hlower.trans keeps_store

theorem assignToList_keeps {str : Ptr} (h : assignToList str l x = some x') :
    Keeps Vars.owned x x' := by
  obtain ⟨text, -, h⟩ := map_eq_some_iff.mp h
  subst h
  split
  · rename_i x₁ hmalloc
    obtain ⟨hheap, hinfo⟩ := malloc_none hmalloc
    exact keeps_of_grows (hheap ▸ .refl _) (congrArg Vars.owned hinfo)
  · rename_i node x₁ hmalloc
    obtain ⟨rfl, hheap, hinfo⟩ := malloc_some hmalloc
    split
    · rename_i x₂ hmalloc'
      obtain ⟨hheap', hinfo'⟩ := malloc_none hmalloc'
      refine keeps_of_grows ?_ (congrArg Vars.owned (hinfo'.trans hinfo))
      show x.heap.Grows (x₂.heap.free x.heap.size)
      rw [hheap', hheap]
      exact (Heap.Grows.refl _).free_alloc
    · rename_i b x₂ hmalloc'
      obtain ⟨rfl, hheap', hinfo'⟩ := malloc_some hmalloc'
      rw [hheap, Heap.size_alloc]
      have hgrows : (x.heap.alloc []).Grows x₂.heap := by
        rw [hheap', hheap]
        exact Heap.grows_alloc
      refine ⟨Heap.grows_alloc.trans hgrows, [x.heap.size, x.heap.size + 1], ?_, ?_,
        fun c => ?_⟩
      · simp
      · intro c hc
        rcases mem_cons.mp hc with rfl | hc
        · exact ⟨le_rfl, hgrows.live Heap.live_alloc⟩
        · cases mem_singleton.mp hc
          refine ⟨Nat.le_succ _, ?_⟩
          show x₂.heap.Live _
          rw [hheap', hheap, ← Heap.size_alloc x.heap []]
          exact Heap.live_alloc
      · rw [← hinfo, ← hinfo']
        exact count_push

theorem pAddress_keeps : Proc.Keeps Vars.owned pAddress := by
  intro values content x code x' h
  unfold pAddress at h
  split at h
  · cases h
    exact .refl x
  · obtain ⟨p, -, h⟩ := bind_eq_some_iff.mp h
    obtain ⟨type, -, h⟩ := bind_eq_some_iff.mp h
    split at h
    · cases h
      exact .refl x
    · rename_i dest hdest
      obtain ⟨x₁, hstore, heq⟩ := map_eq_some_iff.mp h
      obtain rfl : x₁ = x' := (Prod.mk.inj heq).2
      cases dest with
      | text f =>
        have hassign : assign (some content) f x = some x₁ := hstore
        exact assign_keeps hassign
      | list l =>
        have hassign : assignToList content l x = some x₁ := hstore
        exact assignToList_keeps hassign

theorem pAs_keeps : Proc.Keeps Vars.owned pAs := by
  intro values content x code x' h
  unfold pAs at h
  split_ifs at h
  · obtain ⟨x₁, hassign, heq⟩ := map_eq_some_iff.mp h
    cases heq
    exact assign_keeps hassign
  · obtain ⟨x₁, hassign, heq⟩ := map_eq_some_iff.mp h
    cases heq
    exact assign_keeps hassign
  · cases h
    exact .refl x

theorem pPrefix_keeps : Proc.Keeps Vars.owned pPrefix := by
  intro values content x code x' h
  obtain ⟨x₁, hlength, h⟩ := bind_eq_some_iff.mp h
  obtain ⟨x₂, hprefix, heq⟩ := map_eq_some_iff.mp h
  cases heq
  exact (assign_keeps hlength).trans (assign_keeps hprefix)

theorem parseContent_keeps (ht : t.Keeps Vars.owned)
    (h : parseContent t content x = some (code, x')) : Keeps Vars.owned x x' := by
  obtain ⟨str, -, h⟩ := bind_eq_some_iff.mp h
  exact xmlParse_keeps ht h

theorem parseInside_keeps {set : Bool → Vars → Vars}
    (h : parseInside set t content x = some (code, x')) (ht : t.Keeps Vars.owned)
    (hset : ∀ b v, (set b v).owned = v.owned) : Keeps Vars.owned x x' := by
  obtain ⟨⟨code', x₁⟩, hparse, heq⟩ := map_eq_some_iff.mp h
  cases heq
  have hin : Keeps Vars.owned x { x with info := set true x.info } :=
    keeps_of_grows (.refl _) (hset _ _)
  have hout : Keeps Vars.owned x₁ { x₁ with info := set false x₁.info } :=
    keeps_of_grows (.refl _) (hset _ _)
  exact (hin.trans (parseContent_keeps ht hparse)).trans hout

theorem addressTable_keeps {id : TableId} :
    Table.Keeps Vars.owned ⟨id, [⟨ascii "address", some pAddress, [ascii "type"]⟩]⟩ := by
  intro n hn p hp
  cases mem_singleton.mp hn
  cases hp
  exact pAddress_keeps

theorem pDnsServer_keeps : Proc.Keeps Vars.owned pDnsServer := fun _ _ _ _ _ h =>
  parseInside_keeps h addressTable_keeps fun _ _ => rfl

theorem pKeepalive_keeps : Proc.Keeps Vars.owned pKeepalive := by
  intro values content x code x' h
  obtain ⟨x₁, hassign, h⟩ := bind_eq_some_iff.mp h
  refine (assign_keeps hassign).trans ?_
  exact parseInside_keeps h addressTable_keeps fun _ _ => rfl

theorem routerTable_keeps : routerTable.Keeps Vars.owned := by
  intro n hn p hp
  unfold routerTable at hn
  simp only [mem_cons, not_mem_nil, or_false] at hn
  rcases hn with rfl | rfl | rfl
  · cases hp
    exact pPrefix_keeps
  · cases hp
    exact pDnsServer_keeps
  · cases hp
    exact pAs_keeps

theorem pRouter_keeps : Proc.Keeps Vars.owned pRouter := by
  intro values content x code x' h
  obtain ⟨x₁, hassign, h⟩ := bind_eq_some_iff.mp h
  exact (assign_keeps hassign).trans (parseInside_keeps h routerTable_keeps fun _ _ => rfl)

theorem serverTable_keeps : serverTable.Keeps Vars.owned := by
  intro n hn p hp
  unfold serverTable at hn
  simp only [mem_cons, not_mem_nil, or_false] at hn
  rcases hn with rfl | rfl
  · cases hp
    exact pAddress_keeps
  · cases hp
    exact pRouter_keeps

theorem clientTable_keeps : clientTable.Keeps Vars.owned := by
  intro n hn p hp
  unfold clientTable at hn
  simp only [mem_cons, not_mem_nil, or_false] at hn
  rcases hn with rfl | rfl | rfl | rfl
  · cases hp
    exact pAddress_keeps
  · cases hp
    exact pDnsServer_keeps
  · cases hp
    exact pRouter_keeps
  · cases hp
    exact pKeepalive_keeps

theorem tunnelTable_keeps : tunnelTable.Keeps Vars.owned := by
  intro n hn p hp
  unfold tunnelTable at hn
  simp only [mem_cons, not_mem_nil, or_false] at hn
  rcases hn with rfl | rfl | rfl
  · cases hp
    exact fun _ _ _ _ _ h => parseInside_keeps h serverTable_keeps fun _ _ => rfl
  · cases hp
    exact fun _ _ _ _ _ h => parseInside_keeps h clientTable_keeps fun _ _ => rfl
  · cases hp
    exact fun _ _ _ _ _ h => parseInside_keeps h addressTable_keeps fun _ _ => rfl

theorem assign_foldlM_keeps {values : ℕ → Option Ptr} (fields : List (ℕ × Field))
    (h : fields.foldlM (fun x f => assign (values f.1) f.2 x) x = some x') :
    Keeps Vars.owned x x' := by
  induction fields generalizing x with
  | nil =>
    cases h
    exact .refl _
  | cons f fields ih =>
    obtain ⟨x₁, hassign, h⟩ := bind_eq_some_iff.mp h
    exact (assign_keeps hassign).trans (ih h)

theorem rootTable_keeps : rootTable.Keeps Vars.owned := by
  intro n hn p hp values content x code x' h
  cases mem_singleton.mp hn
  cases hp
  obtain ⟨x₁, hassign, h⟩ := bind_eq_some_iff.mp h
  exact (assign_foldlM_keeps _ hassign).trans (parseContent_keeps tunnelTable_keeps h)

/-- All texts and nodes of the information are in live blocks, which are new, each in one of its
own. -/
structure TunnelInfo.Owned (t : TunnelInfo) (size : ℕ) (heap : Heap) : Prop where
  nodup : t.blocks.Nodup
  fresh : ∀ c ∈ t.blocks, size ≤ c
  live : ∀ c ∈ t.blocks, heap.Live c

theorem TunnelInfo.Owned.of_live {t : TunnelInfo} {heap' : Heap} (h : t.Owned size heap)
    (hlive : ∀ c, size ≤ c → heap.Live c → heap'.Live c) :
    t.Owned size heap' :=
  ⟨h.nodup, h.fresh, fun c hc => hlive c (h.fresh c hc) (h.live c hc)⟩

theorem tspExtractPayload_owned {payload : List UInt8}
    (h : tspExtractPayload payload x = some (code, x')) :
    x.heap.Grows x'.heap ∧ x'.info.theTunnelInfo.Owned x.heap.size x'.heap := by
  have hkeeps : Keeps Vars.owned (x.setInfo .empty) x' := by
    unfold tspExtractPayload at h
    split at h
    · cases h
    · split at h
      · cases h
        exact .refl _
      · obtain ⟨⟨code', x₁⟩, hparse, heq⟩ := map_eq_some_iff.mp h
        cases heq
        have hstart : Keeps Vars.owned (x.setInfo .empty) { x.setInfo .empty with info :=
            ⟨.empty, false, false, false, false, false, x.info.keepalive⟩ } :=
          keeps_of_grows (.refl _) rfl
        exact hstart.trans (xmlParse_keeps rootTable_keeps hparse)
  obtain ⟨hgrows, new, hnodup, hlive, hcount⟩ := hkeeps
  have hcount (c : ℕ) : x'.info.theTunnelInfo.blocks.count c ≤ new.count c := hcount c
  have hmem : ∀ c ∈ x'.info.theTunnelInfo.blocks, c ∈ new := fun c hc =>
    count_pos_iff.mp ((count_pos_iff.mpr hc).trans_le (hcount c))
  refine ⟨hgrows, ?_, fun c hc => (hlive c (hmem c hc)).1, fun c hc => (hlive c (hmem c hc)).2⟩
  exact nodup_iff_count_le_one.mpr fun c =>
    (hcount c).trans (nodup_iff_count_le_one.mp hnodup c)

theorem count_tspFreeLinkedList (c : ℕ) (n : ListNode) (l : List ListNode) :
    (tspFreeLinkedList (n :: l)).count c + [n.block].count c =
      ((n :: l).flatMap fun n => [n.block, n.value.block]).count c := by
  induction l generalizing n with
  | nil =>
    show [n.value.block].count c + [n.block].count c = ([n.block] ++ [n.value.block]).count c
    rw [count_append, Nat.add_comm]
  | cons m l ih =>
    show (tspFreeLinkedList (m :: l) ++ ([m.block] ++ [n.value.block])).count c + _ =
      (([n.block] ++ [n.value.block]) ++ (m :: l).flatMap _).count c
    have hm := ih m
    simp only [count_append] at hm ⊢
    omega

theorem count_flatMap_mono {l : List α} {g g' : α → List ℕ}
    (h : ∀ a, (g a).count c ≤ (g' a).count c) : (l.flatMap g).count c ≤ (l.flatMap g').count c := by
  rw [count_flatMap, count_flatMap]
  exact sum_le_sum fun a _ => h a

theorem count_tspClearTunnelInfo {t : TunnelInfo} :
    (tspClearTunnelInfo t).count c ≤ t.blocks.count c := by
  unfold tspClearTunnelInfo TunnelInfo.blocks
  rw [count_append, count_append]
  refine Nat.add_le_add_left (count_flatMap_mono fun l => ?_) _
  cases t.list l with
  | nil => exact le_rfl
  | cons n l =>
    rw [← count_tspFreeLinkedList]
    exact Nat.le_add_right _ _

theorem TunnelInfo.Owned.clear {t : TunnelInfo} (h : t.Owned size heap) :
    (tspClearTunnelInfo t).Nodup ∧ ∀ c ∈ tspClearTunnelInfo t, heap.Live c := by
  constructor
  · exact nodup_iff_count_le_one.mpr fun c =>
      count_tspClearTunnelInfo.trans (nodup_iff_count_le_one.mp h.nodup c)
  · intro c hc
    refine h.live c (count_pos_iff.mp ?_)
    exact (count_pos_iff.mpr hc).trans_le count_tspClearTunnelInfo

end Owned

end Maiccu.Gogoc.Xml
