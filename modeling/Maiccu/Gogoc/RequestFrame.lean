import Maiccu.Gogoc.SendRecv
import Maiccu.Gogoc.Validation

/-!
# The buffers of the tunnel request

The tunnel request goes through `Request` with its lines in `Buffer` (`xml_req.c`), the payload,
which `tspAddPayloadString` enlarges once (`tsp_client.c`), and the frame in `tspSendRecv`
(`tsp_net.c`). Only the length of the lines is checked. A computation without a result writes past
the end of a buffer.
-/

namespace Maiccu.Gogoc

open Maiccu.Lib Maiccu.Gogoc.Config List

/-! ## The buffers -/

/-- `sizeof(Request)`: the array has 5000 pointers. -/
def sizeofRequest : ℕ := 5000 * 8

/-- `PROTOCOLMAXPAYLOADCHUNK`. -/
def payloadChunk : ℕ := 2048

def protocolFrameSize : ℕ := 4096

/-- `tPayload`: the text, and the capacity of its buffer. -/
structure Payload where
  text : List UInt8
  capacity : ℕ

/-- From which allocations succeed: the new payload, or nothing if a null pointer is returned. -/
def tspAddPayloadString (memory : ℕ → Bool) (p : Payload) (addition : List UInt8) :
    Option (Option Payload) :=
  if p.capacity = 0 ∧ memory 0 = false then some none
  else
    let capacity := if p.capacity = 0 then payloadChunk else p.capacity
    let memory := if p.capacity = 0 then fun n => memory (n + 1) else memory
    if p.text.length + addition.length + 1 ≤ capacity then
      some (some ⟨p.text ++ addition, capacity⟩)
    else if memory 0 = false then some none
    -- The buffer grows by one chunk, however long the addition is.
    else if capacity + payloadChunk < p.text.length + addition.length + 1 then none
    else some (some ⟨p.text ++ addition, capacity + payloadChunk⟩)

def contentLine (n : ℕ) : List UInt8 :=
  snprintf protocolFrameSize (ascii "Content-length: " ++ showInt n ++ [13, 10])

/-- The frame that `tspSendRecv` makes of a payload, with a zero behind it. -/
def frame (plin : List UInt8) : Option (List UInt8) :=
  if protocolFrameSize < (contentLine plin.length).length + plin.length + 1 then none
  else some (contentLine plin.length ++ plin)

/-- The frame of the tunnel request. Without memory the payload stays empty. -/
def requestFrame (memory : ℕ → Bool) (conf : Conf) : Option (List UInt8) :=
  let request := (tspBuildCreateRequest conf).1
  if sizeofRequest < request.length + 1 then none
  else
    (tspAddPayloadString memory ⟨[], 0⟩ request).bind fun plin =>
      frame ((plin.map Payload.text).getD [])

/-- The frame is what `tspSendRecv` sends. -/
theorem sent_of_frame {plin bytes : List UInt8} (h : frame plin = some bytes) (buf : RecvBuffer)
    (x : Exchange) : (tspSendRecv plin buf x).sent = bytes := by
  unfold frame at h
  split_ifs at h
  cases h
  unfold tspSendRecv
  dsimp only
  split_ifs <;> rfl

/-! ## The complete request -/

abbrev Piece := Bool × List UInt8

variable (conf : Conf)

def addressPiece : Piece :=
  (true, if conf.tunnelMode ≠ .v4v6 then ipv4Tag ++ (conf.clientV4 ++ ascii "</address>\r\n")
    else ascii "  <address type=\"ipv6\">" ++ (conf.clientV6 ++ ascii "</address>\r\n"))

def keepalivePieces : List Piece :=
  if conf.keepalive then
    [(true, ascii "  <keepalive interval=\"" ++ showInt conf.keepaliveInterval ++
      (if conf.tunnelMode ≠ .v4v6 then
        ascii "\">\r\n    <address type=\"ipv6\">::</address>\r\n  </keepalive>\r\n"
      else
        ascii "\">\r\n    <address type=\"ipv4\">127.0.0.1</address>\r\n  </keepalive>\r\n"))]
  else []

def dnsPiece (server : List UInt8) : Piece :=
  (true, ascii "     <address type=\"dn\">" ++ server ++ ascii "</address>\r\n")

def dnsPieces : List Piece :=
  if conf.dnsServer ≠ [] then
    [(false, ascii "   <dns_server>\r\n")] ++ (tokens 58 conf.dnsServer).map dnsPiece ++
      [(false, ascii "   </dns_server>\r\n")]
  else []

def prefixPiece : Piece :=
  (true, ascii "   <prefix length=\"" ++ showInt (askedPrefixlen conf) ++ ascii "\"/>\r\n")

def protocolPieces : List Piece :=
  if conf.protocol ≠ ascii "default_route" then
    [(true, ascii " protocol=\"" ++ conf.protocol ++ ascii "\"")] else []

def routingPieces : List Piece :=
  if conf.protocol = ascii "default_route" ∧ conf.routingInfo ≠ [] then
    [(true, ascii "    " ++ conf.routingInfo ++ ascii "\r\n")] else []

def routerPieces : List Piece :=
  [(false, ascii "  <router")] ++ protocolPieces conf ++
    [(false, ascii ">\r\n"), prefixPiece conf] ++ dnsPieces conf ++ routingPieces conf ++
    [(false, ascii "  </router>\r\n")]

def requestPieces : List Piece :=
  [(false, createHead conf.tunnelMode conf.proxyClient), addressPiece conf] ++
    keepalivePieces conf ++
    (if conf.hostType = ascii "router" then routerPieces conf else []) ++
    [(false, ascii " </client>\r\n" ++ ascii "</tunnel>\r\n")]

def completeRequest : List UInt8 := (requestPieces conf).flatMap Prod.snd

/-- A text as it comes out of `Buffer`, if it goes through it. -/
def assembled (p : Piece) : List UInt8 := if p.1 then buffer p.2 else p.2

section Pieces

theorem clientAddress_eq : clientAddress conf = assembled (addressPiece conf) := by
  show _ = buffer (if _ then _ else _)
  unfold clientAddress
  split_ifs <;> rfl

theorem keepaliveSection_eq : keepaliveSection conf = (keepalivePieces conf).flatMap assembled := by
  unfold keepaliveSection keepalivePieces
  split_ifs
  · exact (append_nil _).symm
  · exact (append_nil _).symm
  · rfl

theorem dnsSection_eq : dnsSection conf = (dnsPieces conf).flatMap assembled := by
  unfold dnsSection dnsPieces
  split_ifs
  · rw [flatMap_append, flatMap_append, flatMap_map]
    rfl
  · rfl

theorem routerSection_eq : routerSection conf = (routerPieces conf).flatMap assembled := by
  unfold routerSection routerPieces
  rw [dnsSection_eq]
  simp only [flatMap_append, flatMap_cons, flatMap_nil, append_nil]
  congr 1
  · congr 1
    · congr 1
      rw [← append_assoc]
      congr 1
      congr 1
      unfold protocolPieces
      split_ifs
      · exact congrArg _ (append_nil _).symm
      · rfl
    · unfold routingPieces
      split_ifs
      · exact (append_nil _).symm
      · rfl

theorem tspBuildCreateRequest_eq :
    (tspBuildCreateRequest conf).1 = (requestPieces conf).flatMap assembled := by
  unfold tspBuildCreateRequest requestPieces
  rw [clientAddress_eq, keepaliveSection_eq, routerSection_eq]
  split_ifs
  · simp only [flatMap_append, flatMap_cons, flatMap_nil, append_nil, append_assoc]
    rfl
  · simp only [flatMap_append, flatMap_cons, flatMap_nil, append_nil, append_assoc]
    rfl

end Pieces

theorem length_assembled_le (p : Piece) : (assembled p).length ≤ p.2.length := by
  unfold assembled
  split_ifs
  · exact (take_sublist _ _).length_le
  · exact le_rfl

theorem assembled_of_fits {p : Piece} (h : p.1 = true → p.2.length < 1024) : assembled p = p.2 := by
  unfold assembled
  split_ifs with hp
  · exact snprintf_of_lt (h hp)
  · rfl

theorem flatMap_assembled_eq_iff (ps : List Piece) :
    ps.flatMap assembled = ps.flatMap Prod.snd ↔ ∀ p ∈ ps, p.1 = true → p.2.length < 1024 := by
  rw [flatMap_eq_iff fun p _ => length_assembled_le p]
  refine forall₂_congr fun p _ => ⟨fun h hbuffer => ?_, assembled_of_fits⟩
  have hlength := congrArg length h
  unfold assembled buffer snprintf at hlength
  rw [if_pos hbuffer, length_take] at hlength
  omega

/-! ## When the frame is complete -/

theorem carriageReturn_notMem_showInt (n : ℕ) : 13 ∉ showInt n := fun h =>
  nomatch (mem_showNat h).1

theorem contentLine_eq {n : ℕ} (h : n < 10 ^ 9) :
    contentLine n = ascii "Content-length: " ++ showInt n ++ [13, 10] := by
  have hlength := length_showNat_le (k := 9) (by omega) h
  have hline : (ascii "Content-length: ").length = 16 := by rfl
  refine snprintf_of_lt ?_
  rw [length_append, length_append, hline]
  show 16 + (showInt n).length + 2 < 4096
  omega

theorem payload_eq {n m : ℕ} {s t : List UInt8} (hn : n < 10 ^ 9) (hm : m < 10 ^ 9)
    (h : contentLine n ++ s = contentLine m ++ t) : s = t := by
  rw [contentLine_eq hn, contentLine_eq hm] at h
  simp only [append_assoc] at h
  have hnumbers := append_cancel_left h
  have hsame : showInt n = showInt m := eq_of_append_cons (carriageReturn_notMem_showInt n)
    (carriageReturn_notMem_showInt m) hnumbers
  rw [hsame] at hnumbers
  exact append_cancel_left (append_cancel_left hnumbers)

theorem tspAddPayloadString_empty (memory : ℕ → Bool) (s : List UInt8) :
    tspAddPayloadString memory ⟨[], 0⟩ s =
      if memory 0 = false then some none
      else if s.length < 2048 then some (some ⟨s, 2048⟩)
      else if memory 1 = false then some none
      else if 4096 ≤ s.length then none
      else some (some ⟨s, 4096⟩) := by
  unfold tspAddPayloadString payloadChunk
  simp only [true_and, if_true, length_nil, nil_append, Nat.zero_add, Nat.reduceAdd,
    Nat.lt_succ_iff, Nat.succ_le_iff]

theorem completeRequest_ne_nil (conf : Conf) : completeRequest conf ≠ [] := by
  have hhead : createHead conf.tunnelMode conf.proxyClient ≠ [] := by
    cases conf.tunnelMode <;> cases conf.proxyClient <;> decide
  intro h
  exact hhead (append_eq_nil_iff.mp h).1

/-- The frame is the complete request with its length in front, if and only if all lines fit into
`Buffer`, the frame fits, and there is memory for the payload. -/
theorem requestFrame_eq_iff (memory : ℕ → Bool) (conf : Conf) : requestFrame memory conf =
        some (contentLine (completeRequest conf).length ++ completeRequest conf) ↔
      (∀ p ∈ requestPieces conf, p.1 = true → p.2.length < 1024) ∧
      (contentLine (completeRequest conf).length).length + (completeRequest conf).length < 4096 ∧
      memory 0 = true ∧ (2048 ≤ (completeRequest conf).length → memory 1 = true) := by
  unfold requestFrame
  rw [tspBuildCreateRequest_eq, ← flatMap_assembled_eq_iff]
  have hne := completeRequest_ne_nil conf
  have hcomplete : completeRequest conf = (requestPieces conf).flatMap Prod.snd := rfl
  rw [← hcomplete]
  generalize (requestPieces conf).flatMap assembled = r
  generalize completeRequest conf = w at *
  constructor
  · intro h
    dsimp only at h
    split_ifs at h with hrequest
    obtain ⟨plin, hplin, hframe⟩ := Option.bind_eq_some_iff.mp h
    unfold frame at hframe
    split_ifs at hframe with hfits
    have hbytes := Option.some.inj hframe
    have hlength := congrArg length hbytes
    rw [length_append, length_append] at hlength
    unfold protocolFrameSize at hfits
    have htext : (plin.map Payload.text).getD [] = w := payload_eq (by omega) (by omega) hbytes
    rw [tspAddPayloadString_empty] at hplin
    split_ifs at hplin with h₀ hshort h₁ hlong
    · cases hplin
      exact absurd htext.symm hne
    · cases hplin
      obtain rfl : r = w := htext
      exact ⟨rfl, by omega, Bool.not_eq_false _ ▸ h₀, by omega⟩
    · cases hplin
      exact absurd htext.symm hne
    · cases hplin
      obtain rfl : r = w := htext
      exact ⟨rfl, by omega, Bool.not_eq_false _ ▸ h₀, fun _ => Bool.not_eq_false _ ▸ h₁⟩
  · rintro ⟨rfl, hfits, h₀, h₁⟩
    rw [if_neg (by unfold sizeofRequest; omega), tspAddPayloadString_empty, if_neg (by simp [h₀])]
    have hframe : frame r = some (contentLine r.length ++ r) :=
      if_neg (by unfold protocolFrameSize; omega)
    split_ifs with hshort hmemory hlong
    · exact hframe
    · rw [h₁ (not_lt.mp hshort)] at hmemory
      cases hmemory
    · omega
    · exact hframe

/-! ## Configurations that are accepted -/

section Valid

variable {lib : Inet} {f : File} {conf}

theorem addressPiece_fits (hvalid : f.valid lib = true) (hconf : Filled f conf) :
    (addressPiece conf).2.length < 1024 := by
  have hv4 := length_clientV4_le hvalid hconf
  have hv6 := length_clientV6_le hvalid hconf
  have hend : (ascii "</address>\r\n").length = 12 := by rfl
  have htag : ipv4Tag.length = 23 := by rfl
  have htag6 : (ascii "  <address type=\"ipv6\">").length = 23 := by rfl
  unfold addressPiece
  split_ifs
  · show (ipv4Tag ++ (conf.clientV4 ++ _)).length < 1024
    rw [length_append, length_append, htag, hend]
    omega
  · show (_ ++ (conf.clientV6 ++ _)).length < 1024
    rw [length_append, length_append, htag6, hend]
    omega

theorem keepalivePieces_fit (hconf : Filled f conf) :
    ∀ p ∈ keepalivePieces conf, p.2.length < 1024 := by
  have hnumber : (showInt conf.keepaliveInterval).length ≤ 11 := by
    rw [hconf.keepaliveInterval]
    exact length_showInt_le (neg_le_toInt32 _) (toInt32_lt _)
  have hstart : (ascii "  <keepalive interval=\"").length = 23 := by rfl
  have hv6 : (ascii
      "\">\r\n    <address type=\"ipv6\">::</address>\r\n  </keepalive>\r\n").length = 59 := by rfl
  have hv4 :
      (ascii "\">\r\n    <address type=\"ipv4\">127.0.0.1</address>\r\n  </keepalive>\r\n").length =
        66 := by rfl
  unfold keepalivePieces
  intro p hp
  split_ifs at hp
  · cases mem_singleton.mp hp
    simp only [length_append, hstart, hv6]
    omega
  · cases mem_singleton.mp hp
    simp only [length_append, hstart, hv4]
    omega
  · cases hp

theorem prefixPiece_fits (hconf : Filled f conf) : (prefixPiece conf).2.length < 1024 := by
  have hnumber : (showInt (askedPrefixlen conf)).length ≤ 11 := by
    unfold askedPrefixlen
    split_ifs
    · decide
    · decide
    · rw [hconf.prefixlen]
      exact length_showInt_le (neg_le_toInt32 _) (toInt32_lt _)
  have hstart : (ascii "   <prefix length=\"").length = 19 := by rfl
  have hend : (ascii "\"/>\r\n").length = 5 := by rfl
  show (_ ++ showInt (askedPrefixlen conf) ++ _).length < 1024
  rw [length_append, length_append, hstart, hend]
  omega

theorem dnsPiece_fits_iff {server : List UInt8} :
    (dnsPiece server).2.length < 1024 ↔ server.length ≤ 987 := by
  have hstart : (ascii "     <address type=\"dn\">").length = 24 := by rfl
  have hend : (ascii "</address>\r\n").length = 12 := by rfl
  show (_ ++ server ++ _).length < 1024 ↔ _
  rw [length_append, length_append, hstart, hend]
  omega

theorem dnsPieces_fit_iff (conf : Conf) : (∀ p ∈ dnsPieces conf, p.1 = true → p.2.length < 1024) ↔
      ∀ server ∈ tokens 58 conf.dnsServer, server.length ≤ 987 := by
  unfold dnsPieces
  split_ifs with hempty
  · constructor
    · intro h server hserver
      refine dnsPiece_fits_iff.mp (h (dnsPiece server) ?_ rfl)
      exact mem_append_left _ (mem_append_right _ (mem_map_of_mem hserver))
    · intro h p hp hbuffer
      rcases mem_append.mp hp with hp | hp
      · rcases mem_append.mp hp with hp | hp
        · cases mem_singleton.mp hp
          cases hbuffer
        · obtain ⟨server, hserver, rfl⟩ := mem_map.mp hp
          exact dnsPiece_fits_iff.mpr (h server hserver)
      · cases mem_singleton.mp hp
        cases hbuffer
  · rw [not_not.mp hempty]
    exact ⟨fun _ => nofun, fun _ => nofun⟩

theorem routerPieces_fit_iff (hconf : Filled f conf) :
    (∀ p ∈ routerPieces conf, p.1 = true → p.2.length < 1024) ↔
      ∀ server ∈ tokens 58 conf.dnsServer, server.length ≤ 987 := by
  have hprotocol : protocolPieces conf = [] := if_neg (not_not.mpr hconf.protocol)
  have hrouting : routingPieces conf = [] := if_neg fun h => h.2 hconf.routingInfo
  rw [← dnsPieces_fit_iff]
  unfold routerPieces
  rw [hprotocol, hrouting]
  constructor
  · intro h p hp
    refine h p (mem_append_left _ (mem_append_left _ ?_))
    exact mem_append_right _ hp
  · intro h p hp hbuffer
    simp only [mem_append, mem_cons, not_mem_nil, or_false] at hp
    rcases hp with ((rfl | rfl | rfl) | hp) | rfl
    · cases hbuffer
    · cases hbuffer
    · exact prefixPiece_fits hconf
    · exact h p hp hbuffer
    · cases hbuffer

theorem pieces_fit_iff (hvalid : f.valid lib = true) (hconf : Filled f conf) :
    (∀ p ∈ requestPieces conf, p.1 = true → p.2.length < 1024) ↔
      (f.hostType = ascii "router" → ∀ server ∈ tokens 58 f.dnsServer, server.length ≤ 987) := by
  have hrouter : conf.hostType = ascii "router" ↔ f.hostType = ascii "router" := by
    rw [hconf.hostType]
    unfold orDefault
    split_ifs with hempty
    · rw [hempty]
      decide
    · exact Iff.rfl
  rw [← hconf.dnsServer, ← routerPieces_fit_iff hconf, ← hrouter]
  unfold requestPieces
  constructor
  · intro h hhost p hp
    rw [if_pos hhost] at h
    exact h p (mem_append_left _ (mem_append_right _ hp))
  · intro h p hp hbuffer
    simp only [mem_append, mem_cons, not_mem_nil, or_false] at hp
    rcases hp with (((rfl | rfl) | hp) | hp) | rfl
    · cases hbuffer
    · exact addressPiece_fits hvalid hconf
    · exact keepalivePieces_fit hconf p hp
    · split_ifs at hp with hhost
      · exact h hhost p hp hbuffer
      · cases hp
    · cases hbuffer

/-- The frame that is sent is the line with the length and the complete request, if and only if no
name server of a router is longer than 987 characters, the line and the request together have less
than 4096 characters, and there is memory for the payload. -/
theorem request_frame_complete_iff (lib : Inet) (f : File) (conf : Conf) (memory : ℕ → Bool)
    (hvalid : f.valid lib = true) (hconf : Filled f conf) :
    requestFrame memory conf =
        some (contentLine (completeRequest conf).length ++ completeRequest conf) ↔
      (f.hostType = ascii "router" → ∀ server ∈ tokens 58 f.dnsServer, server.length ≤ 987) ∧
      (contentLine (completeRequest conf).length).length + (completeRequest conf).length < 4096 ∧
      memory 0 = true ∧ (2048 ≤ (completeRequest conf).length → memory 1 = true) := by
  rw [requestFrame_eq_iff, pieces_fit_iff hvalid hconf]

end Valid

def noInet : Inet := ⟨fun _ => ⟨[0, 0, 0, 0], rfl⟩, fun _ => false, nofun⟩

variable (servers : List UInt8)

def routerFile : File :=
  ⟨[], [], ascii "router", [], servers, [], [], [], []⟩

def routerConf : Conf :=
  { hostConf with
    server := some (ascii "broker")
    protocol := ascii "default_route"
    dnsServer := servers
    hostType := ascii "router"
    brokerListFile := []
    prefixlen := 64 }

theorem routerConf_filled : Filled (routerFile servers) (routerConf servers) := by
  have hprefix : (64 : ℤ) = Tic.atoi (orDefault [] (ascii "64")) := by decide +kernel
  have hinterval : (30 : ℤ) = Tic.atoi (orDefault [] (ascii "30")) := by decide +kernel
  have hproxy : ¬(orDefault [] (ascii "no")).map lower = (ascii "yes").map lower := by
    decide +kernel
  exact ⟨rfl, rfl, rfl, rfl, hprefix, hinterval, iff_of_true rfl rfl, iff_of_false nofun hproxy,
    rfl, .inl rfl, .inl rfl⟩

theorem request_frame_complete_one_server : (routerFile (ascii "ns.example")).valid noInet = true ∧
      requestFrame (fun _ => true) (routerConf (ascii "ns.example")) =
        some (contentLine (completeRequest (routerConf (ascii "ns.example"))).length ++
          completeRequest (routerConf (ascii "ns.example"))) := by
  have hvalid : (routerFile (ascii "ns.example")).valid noInet = true := by decide +kernel
  refine ⟨hvalid, ?_⟩
  refine (request_frame_complete_iff noInet _ _ _ hvalid (routerConf_filled _)).mpr ?_
  refine ⟨fun _ => ?_, ?_, rfl, fun _ => rfl⟩
  · decide +kernel
  · decide +kernel

def manyServers : List UInt8 := (replicate 120 [97, 58]).flatten

theorem many_servers_overflow : (routerFile manyServers).valid noInet = true ∧
    Filled (routerFile manyServers) (routerConf manyServers) ∧
    requestFrame (fun _ => true) (routerConf manyServers) = none := by
  refine ⟨?_, routerConf_filled _, ?_⟩
  · decide +kernel
  · decide +kernel

/-! ## The request of a later connection -/

theorem flatMap_take_one_iff {f : List UInt8 → List UInt8} (hf : ∀ t, f t ≠ [])
    (ts : List (List UInt8)) : (ts.take 1).flatMap f = ts.flatMap f ↔ ts.length ≤ 1 := by
  match ts with
  | [] => simp
  | [t] => simp
  | t :: u :: ts => simp [hf]

theorem dnsSection_again {conf conf' : Conf} (h : conf'.dnsServer = cutToken 58 conf.dnsServer) :
    dnsSection conf' = dnsSection conf ↔ (tokens 58 conf.dnsServer).length ≤ 1 := by
  unfold dnsSection
  rw [h]
  by_cases hnil : conf.dnsServer = []
  · rw [hnil]
    decide
  have hcut : cutToken 58 conf.dnsServer ≠ [] := by
    obtain ⟨d, s, hs⟩ := exists_cons_of_ne_nil hnil
    by_cases hd : d = 58 <;> simp [hs, cutToken, hd]
  rw [if_pos hcut, if_pos hnil, tokens_cutToken, append_left_inj, append_right_inj]
  refine flatMap_take_one_iff (fun server hserver => ?_) _
  have hlength := congrArg length hserver
  simp [buffer, snprintf, ascii] at hlength

/-- **Asking again.** The request built from what the first call has left is the first request, if
and only if a router has at most one name server. -/
theorem request_again_iff (conf : Conf) :
    (tspBuildCreateRequest (tspBuildCreateRequest conf).2).1 = (tspBuildCreateRequest conf).1 ↔
      (conf.hostType = ascii "router" → (tokens 58 conf.dnsServer).length ≤ 1) := by
  by_cases hrouter : conf.hostType = ascii "router"
  · obtain ⟨conf', hconf⟩ : ∃ c, c = (tspBuildCreateRequest conf).2 := ⟨_, rfl⟩
    have hleft : conf' = { conf with
        prefixlen := askedPrefixlen conf, dnsServer := cutToken 58 conf.dnsServer } := by
      rw [hconf, tspBuildCreateRequest, if_pos hrouter]
    have hasked : askedPrefixlen conf' = askedPrefixlen conf := by
      rw [hleft]
      unfold askedPrefixlen
      split_ifs <;> simp_all
    have hrouter' : conf'.hostType = ascii "router" := by
      rw [hleft]
      exact hrouter
    have hservers : conf'.dnsServer = cutToken 58 conf.dnsServer := by rw [hleft]
    rw [← hconf, forall_prop_of_true hrouter, ← dnsSection_again hservers]
    unfold tspBuildCreateRequest routerSection
    rw [if_pos hrouter, if_pos hrouter', hasked]
    -- All but the name servers is the same in both requests.
    have haddress : clientAddress conf' = clientAddress conf := by rw [hleft]; rfl
    have hkeepalive : keepaliveSection conf' = keepaliveSection conf := by rw [hleft]; rfl
    simp only [haddress, hkeepalive]
    simp only [hleft, append_left_inj, append_right_inj]
  · have hsame : (tspBuildCreateRequest conf).2 = conf := by
      rw [tspBuildCreateRequest, if_neg hrouter]
    rw [hsame]
    exact ⟨fun _ h => absurd h hrouter, fun _ => rfl⟩

/-- The second request asks for one of the two name servers. -/
theorem second_server_forgotten :
    (tspBuildCreateRequest (tspBuildCreateRequest (routerConf (ascii "ns1:ns2"))).2).1 ≠
      (tspBuildCreateRequest (routerConf (ascii "ns1:ns2"))).1 := by
  decide +kernel

end Maiccu.Gogoc
