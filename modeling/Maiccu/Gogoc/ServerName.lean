import Maiccu.Gogoc.Main
import Maiccu.Gogoc.Validation

/-!
# The name of the server

`tspMain` saves the configured server, and `tspSetupTunnel` (both `tsp_client.c`) cuts it into a
host and a port with `parse_addr_port` (`net.c`), resolves the host and connects a socket to it.
What `Validate_Server` accepts is longer than the buffer of `tspMain`, and `strtok` finds no host in
a text of colons. Logging, which cuts its lines, is left out.
-/

namespace Maiccu.Gogoc.ServerName

open Maiccu.Lib List
open Maiccu.Tic (atoi strtol decimal isDigit strtol_of_digits)
open Maiccu.Gogoc.Config (validateServer)

/-! ## Host and port -/

def maxName : ℕ := 1024

def serverPort : UInt16 := 3653

/-- The port, or nothing if it is invalid; `rest` is where `strtok` goes on. -/
def parsePort (rest : List UInt8) (dfltPort : UInt16) : Option UInt16 :=
  match (strtok 58 rest).1 with
  | none => some dfltPort
  | some srvport =>
    if atoi srvport ≤ 0 ∨ 65536 ≤ atoi srvport then none else some (toUInt16 (atoi srvport))

/-- The host and the port, or nothing if the result is not 0. -/
def parseAddrPort (starved : Bool) (addrPort : List UInt8) (dfltPort : UInt16) :
    Except Fault (Option (List UInt8 × UInt16)) :=
  let buffer := snprintf maxName addrPort
  let srvname :=
    -- In an IPv6 address the first byte is taken for the bracket.
    if 91 ∈ buffer then some (cutToken 93 buffer).tail else (strtok 58 buffer).1
  let rest := if 91 ∈ buffer then (strtok 93 buffer).2 else (strtok 58 buffer).2
  match deref srvname with
  | .error e => .error e
  | .ok addr => .ok (if starved then none else (parsePort rest dfltPort).map (addr, ·))

/-! ## Resolving and connecting -/

def maxServer : ℕ := 1024

inductive Family where
  | unspec
  | inet6
  deriving DecidableEq

structure Hints where
  family : Family
  numericHost : Bool

inductive Sockaddr where
  | inet (addr : Bytes 4)
  | inet6 (addr : Bytes 16)

def Sockaddr.isInet : Sockaddr → Bool
  | .inet _ => true
  | .inet6 _ => false

structure Net where
  /-- `malloc` returns null in `parse_addr_port`. -/
  starved : Bool
  /-- `malloc` returns null when an address is to be kept. -/
  saiStarved : Bool
  /-- Nothing if the result is not 0. -/
  getaddrinfo : Hints → List UInt8 → Option (List Sockaddr)
  /-- The address and port that reliable UDP has kept from a connection before. -/
  cached : Option (Sockaddr × UInt16)
  /-- `socket` and `connect` succeed. -/
  connects : Sockaddr × UInt16 → Bool

variable (net : Net) (address : List UInt8)

def netText2Addr : Except Fault (Option Sockaddr) :=
  match strcpy maxServer address with
  | .error e => .error e
  | .ok addrCp =>
    if 91 ∈ address ∨ 93 ∈ address ∨ 2 ≤ address.count 58 then .ok none
    else .ok ((net.getaddrinfo ⟨.unspec, false⟩ (cutToken 58 addrCp)).bind (·.find? (·.isInet)))

/-- `NetText2Addr6`, which cuts a name that is too long. -/
def netText2Addr6 : Option Sockaddr :=
  let addr := snprintf maxServer address
  let found :=
    if 1 < addr.count 58 then
      net.getaddrinfo ⟨.inet6, true⟩
        (if addr.head? = some 91 then (cutToken 93 addr).tail else addr)
    else net.getaddrinfo ⟨.inet6, false⟩ (cutToken 58 addr)
  found.bind (·.find? (!·.isInet))

/-- `internal_get_sai` and `internal_get_sai6`. -/
def internalGetSai (found : Except Fault (Option Sockaddr)) (port : UInt16) :
    Except Fault (Option (Sockaddr × UInt16)) :=
  match net.cached with
  | some sai => .ok (some sai)
  | none =>
    match found with
    | .error e => .error e
    | .ok addr => .ok (if net.saiStarved then none else addr.map (·, port))

variable (t : Transport)

/-- The address that the function `netopen` of a transport connects to. -/
def netopenAddr (host : List UInt8) (port : UInt16) :
    Except Fault (Option (Sockaddr × UInt16)) :=
  match t with
  | .tcp => (netText2Addr net host).map fun addr => addr.map (·, port)
  | .tcp6 => .ok ((netText2Addr6 net host).map (·, port))
  | .rudp => internalGetSai net (netText2Addr net host) port
  | .rudp6 => internalGetSai net (.ok (netText2Addr6 net host)) port

def tspConnect (srvname : List UInt8) (srvport : UInt16) : Except Fault Connect :=
  (netopenAddr net t srvname srvport).map fun
    | none => .unresolved
    | some sai => if net.connects sai then .connected else .refused

def tspSetupConnect (server : List UInt8) : Except Fault Connect :=
  match parseAddrPort net.starved server serverPort with
  | .error e => .error e
  | .ok none => .ok .badAddress
  | .ok (some (srvname, port)) => tspConnect net t srvname port

/-- The way of the configured server through `tspMain`: a copy of it is kept, and it is connected
to. -/
def tspMainServer (server : List UInt8) : Except Fault Connect :=
  match strcpy maxRedirectAddressLength server with
  | .error e => .error e
  | .ok originalServer => tspSetupConnect net t originalServer

variable {net}

/-! ## When a host is found -/

variable {starved : Bool} {addrPort host : List UInt8} {dfltPort : UInt16}

theorem parseAddrPort_ok_iff : (∃ r, parseAddrPort starved addrPort dfltPort = .ok r) ↔
      ∃ c ∈ snprintf maxName addrPort, c ≠ 58 := by
  unfold parseAddrPort
  by_cases hbracket : 91 ∈ snprintf maxName addrPort
  · simp only [if_pos hbracket, deref]
    exact ⟨fun _ => ⟨91, hbracket, by decide⟩, fun _ => ⟨_, rfl⟩⟩
  · simp only [if_neg hbracket]
    have hnone := strtok_eq_none_iff (c := 58) (s := snprintf maxName addrPort)
    cases htok : (strtok 58 (snprintf maxName addrPort)).1 with
    | none =>
      have hall := hnone.mp htok
      constructor
      · rintro ⟨r, hr⟩
        cases hr
      · rintro ⟨c, hc, hne⟩
        exact absurd (hall c hc) hne
    | some addr =>
      rw [htok] at hnone
      have hex : ¬ ∀ c ∈ snprintf maxName addrPort, c = 58 := fun hall =>
        Option.some_ne_none addr (hnone.mpr hall)
      push Not at hex
      exact ⟨fun _ => hex, fun _ => ⟨_, rfl⟩⟩

variable {rest : List UInt8}

theorem eq_of_returned {addr : List UInt8} {port : UInt16}
    (h : (if starved then none else (parsePort rest dfltPort).map (addr, ·)) = some (host, port)) :
    addr = host := by
  cases starved with
  | true => cases h
  | false =>
    obtain ⟨p, -, hp⟩ := Option.map_eq_some_iff.mp h
    exact congrArg Prod.fst hp

theorem length_lt_of_parse {port : UInt16}
    (h : parseAddrPort starved addrPort dfltPort = .ok (some (host, port))) :
    host.length < maxServer := by
  have hbuffer : (snprintf maxName addrPort).length < maxServer := by
    unfold snprintf maxName maxServer
    rw [length_take]
    omega
  unfold parseAddrPort at h
  by_cases hbracket : 91 ∈ snprintf maxName addrPort
  · simp only [if_pos hbracket, deref] at h
    have haddr := eq_of_returned (Except.ok.inj h)
    have hcut := length_cutToken_le 93 (snprintf maxName addrPort)
    rw [← haddr, length_tail]
    omega
  · simp only [if_neg hbracket] at h
    cases htok : (strtok 58 (snprintf maxName addrPort)).1 with
    | none =>
      rw [htok] at h
      cases h
    | some addr =>
      rw [htok] at h
      have haddr := eq_of_returned (Except.ok.inj h)
      have := length_le_of_strtok htok
      rw [← haddr]
      omega

theorem netText2Addr_ok (h : host.length < maxServer) :
    ∃ addr, netText2Addr net host = .ok addr := by
  unfold netText2Addr
  rw [strcpy_of_lt h]
  split_ifs
  · exact ⟨none, rfl⟩
  · exact ⟨_, rfl⟩

theorem internalGetSai_ok {found : Except Fault (Option Sockaddr)} (h : ∃ addr, found = .ok addr)
    {port : UInt16} : ∃ sai, internalGetSai net found port = .ok sai := by
  obtain ⟨addr, rfl⟩ := h
  unfold internalGetSai
  cases net.cached with
  | some sai => exact ⟨some sai, rfl⟩
  | none => exact ⟨_, rfl⟩

variable {t}

theorem tspConnect_ok (h : host.length < maxServer) {port : UInt16} :
    ∃ c, tspConnect net t host port = .ok c := by
  have hsai : ∃ sai, netopenAddr net t host port = .ok sai := by
    cases t with
    | tcp =>
      have haddr : ∃ addr, netText2Addr net host = .ok addr := netText2Addr_ok h
      obtain ⟨addr, haddr⟩ := haddr
      exact ⟨addr.map (·, port), by rw [netopenAddr, haddr]; rfl⟩
    | tcp6 => exact ⟨_, rfl⟩
    | rudp => exact internalGetSai_ok (netText2Addr_ok h)
    | rudp6 => exact internalGetSai_ok ⟨_, rfl⟩
  obtain ⟨sai, hsai⟩ := hsai
  unfold tspConnect
  rw [hsai]
  exact ⟨_, rfl⟩

theorem tspSetupConnect_ok_iff (t : Transport) :
    (∃ c, tspSetupConnect net t addrPort = .ok c) ↔ ∃ c ∈ snprintf maxName addrPort, c ≠ 58 := by
  rw [← parseAddrPort_ok_iff]
  unfold tspSetupConnect
  cases hparse : parseAddrPort net.starved addrPort serverPort with
  | error e =>
    constructor
    · rintro ⟨c, hc⟩
      cases hc
    · rintro ⟨r, hr⟩
      cases hr
  | ok r =>
    refine ⟨fun _ => ⟨r, rfl⟩, fun _ => ?_⟩
    cases r with
    | none => exact ⟨.badAddress, rfl⟩
    | some r => exact tspConnect_ok (length_lt_of_parse hparse)

theorem tspMainServer_ok_iff : (∃ c, tspMainServer net t addrPort = .ok c) ↔
      addrPort.length < maxRedirectAddressLength ∧ ∃ c ∈ addrPort, c ≠ 58 := by
  unfold tspMainServer
  rcases Nat.lt_or_ge addrPort.length maxRedirectAddressLength with hlt | hge
  · have hname : addrPort.length < maxName := hlt.trans (by decide)
    rw [strcpy_of_lt hlt]
    rw [tspSetupConnect_ok_iff, snprintf_of_lt hname]
    exact ⟨fun hex => ⟨hlt, hex⟩, fun h => h.2⟩
  · rw [strcpy_of_le hge]
    constructor
    · rintro ⟨c, hc⟩
      cases hc
    · rintro ⟨hlt, -⟩
      omega

/-! ## The forms of a server -/

/-- A name or an IPv4 address. -/
structure HostName where
  text : List UInt8
  ne_nil : text ≠ []
  no_colon : 58 ∉ text
  no_bracket : 91 ∉ text

/-- An IPv6 address, or any text that can stand in brackets. -/
structure V6Text where
  text : List UInt8
  no_bracket : 93 ∉ text

structure Port where
  text : List UInt8
  digits : ∀ c ∈ text, isDigit c = true
  pos : 0 < readDec text
  lt : readDec text < 65536

inductive Form where
  | host (h : HostName)
  | hostPort (h : HostName) (p : Port)
  | v6 (a : V6Text)
  | v6Port (a : V6Text) (p : Port)

def Form.text : Form → List UInt8
  | .host h => h.text
  | .hostPort h p => h.text ++ 58 :: p.text
  | .v6 a => 91 :: (a.text ++ [93])
  | .v6Port a p => 91 :: (a.text ++ 93 :: 58 :: p.text)

def Form.name : Form → List UInt8
  | .host h => h.text
  | .hostPort h _ => h.text
  | .v6 a => a.text
  | .v6Port a _ => a.text

def Form.port (dfltPort : UInt16) : Form → UInt16
  | .host _ => dfltPort
  | .hostPort _ p => UInt16.ofNat (readDec p.text)
  | .v6 _ => dfltPort
  | .v6Port _ p => UInt16.ofNat (readDec p.text)

namespace Port

variable (p : Port)

theorem ne_nil : p.text ≠ [] := fun h => by
  have hpos := p.pos
  rw [h] at hpos
  exact nomatch hpos

theorem notMem {c : UInt8} (hc : isDigit c = false) : c ∉ p.text := fun h => by
  rw [p.digits c h] at hc
  cases hc

theorem strtol_eq : strtol p.text = readDec p.text := by
  have hlt := p.lt
  have hdec : decimal p.text = readDec p.text := by
    rw [decimal, takeWhile_eq_self_iff.mpr p.digits]
  rw [strtol_of_digits p.digits]
  omega

theorem atoi_eq : atoi p.text = readDec p.text := by
  have hlt := p.lt
  unfold atoi
  rw [strtol_eq]
  exact toInt32_of_range (by omega) (by omega)

theorem parsePort_eq (dfltPort : UInt16) :
    parsePort p.text dfltPort = some (UInt16.ofNat (readDec p.text)) := by
  have hpos := p.pos
  have hlt := p.lt
  unfold parsePort
  rw [strtok_of_notMem p.ne_nil (p.notMem (by decide))]
  dsimp only
  rw [atoi_eq, if_neg (by omega)]
  unfold toUInt16
  rw [Int.emod_eq_of_lt (by omega) (by omega), Int.toNat_natCast]

end Port

theorem parseAddrPort_host (hlen : addrPort.length < maxName)
    (hbracket : 91 ∉ addrPort) (htok : strtok 58 addrPort = (some host, rest)) :
    parseAddrPort false addrPort dfltPort = .ok ((parsePort rest dfltPort).map (host, ·)) := by
  unfold parseAddrPort
  simp only [snprintf_of_lt hlen, if_neg hbracket, htok, deref, Bool.false_eq_true, if_false]

theorem parseAddrPort_v6 (a : V6Text) (hlen : (91 :: (a.text ++ 93 :: rest)).length < maxName) :
    parseAddrPort false (91 :: (a.text ++ 93 :: rest)) dfltPort =
      .ok ((parsePort rest dfltPort).map (a.text, ·)) := by
  have hmem : 93 ∉ 91 :: a.text := by
    rw [mem_cons, not_or]
    exact ⟨by decide, a.no_bracket⟩
  have htok := strtok_append (cons_ne_nil 91 a.text) hmem rest
  have hcut := cutToken_append (cons_ne_nil 91 a.text) hmem rest
  rw [cons_append] at htok hcut
  unfold parseAddrPort
  simp only [snprintf_of_lt hlen, mem_cons_self, if_true, htok, hcut, deref, tail_cons,
    Bool.false_eq_true, if_false]

theorem parseAddrPort_form (f : Form) (hlen : f.text.length < maxName) :
    parseAddrPort false f.text dfltPort = .ok (some (f.name, f.port dfltPort)) := by
  cases f with
  | host h => exact parseAddrPort_host hlen h.no_bracket (strtok_of_notMem h.ne_nil h.no_colon)
  | hostPort h p =>
    have hbracket : 91 ∉ h.text ++ 58 :: p.text := by
      rw [mem_append, mem_cons, not_or, not_or]
      exact ⟨h.no_bracket, by decide, p.notMem (by decide)⟩
    have htok := strtok_append h.ne_nil h.no_colon p.text
    exact (parseAddrPort_host hlen hbracket htok).trans (by rw [p.parsePort_eq]; rfl)
  | v6 a => exact parseAddrPort_v6 a hlen
  | v6Port a p =>
    refine (parseAddrPort_v6 a hlen).trans ?_
    have hport : parsePort (58 :: p.text) dfltPort = parsePort p.text dfltPort := by
      unfold parsePort
      rw [strtok_cons_self]
    rw [hport, p.parsePort_eq]
    rfl

/-! ## Accepted servers -/

/-- Whatever the network does, no step on the way of the server is undefined. -/
def Processed (server : List UInt8) : Prop :=
  ∀ (net : Net) (t : Transport), ∃ c, tspMainServer net t server = .ok c

/-- If the server has one of the four forms, `parse_addr_port` returns its host and its port. -/
def Exact (server : List UInt8) : Prop :=
  ∀ (f : Form) (dfltPort : UInt16), f.text = server →
    parseAddrPort false server dfltPort = .ok (some (f.name, f.port dfltPort))

def noNet : Net := ⟨false, false, fun _ _ => none, none, fun _ => false⟩

/-- A server is processed without a fault, and exactly, just if it fits the buffer of `tspMain` and
does not consist of colons. -/
theorem server_processed_iff (server : List UInt8) :
    Processed server ∧ Exact server ↔ server.length < 255 ∧ ∃ c ∈ server, c ≠ 58 := by
  constructor
  · rintro ⟨hproc, -⟩
    exact tspMainServer_ok_iff.mp (hproc noNet .tcp)
  · intro h
    refine ⟨fun net t => tspMainServer_ok_iff.mpr h, ?_⟩
    rintro f dfltPort rfl
    have hlen : f.text.length < maxName := h.1.trans (by decide)
    exact parseAddrPort_form f hlen

def longServer : List UInt8 := replicate 255 97

/-- Both are accepted: the copy of the first does not fit, and the second has no host. -/
theorem accepted_servers_fault : (longServer ≠ [] ∧ validateServer longServer = true ∧
      tspMainServer noNet .tcp longServer = .error .overflow) ∧
    (ascii ":" ≠ [] ∧ validateServer (ascii ":") = true ∧
      tspMainServer noNet .tcp (ascii ":") = .error .nullRead) ∧
    ¬ Processed longServer ∧ ¬ Processed (ascii ":") := by
  have hlong : longServer ≠ [] ∧ validateServer longServer = true ∧
      tspMainServer noNet .tcp longServer = .error .overflow := by
    refine ⟨by decide +kernel, by decide +kernel, ?_⟩
    unfold tspMainServer
    rw [strcpy_of_le (by decide +kernel)]
  have hcolon : ascii ":" ≠ [] ∧ validateServer (ascii ":") = true ∧
      tspMainServer noNet .tcp (ascii ":") = .error .nullRead :=
    ⟨by decide +kernel, by decide +kernel, rfl⟩
  refine ⟨hlong, hcolon, fun h => ?_, fun h => ?_⟩
  · obtain ⟨c, hc⟩ := h noNet .tcp
    rw [hlong.2.2] at hc
    cases hc
  · obtain ⟨c, hc⟩ := h noNet .tcp
    cases hc

end Maiccu.Gogoc.ServerName
