import Maiccu.Lib.CText

/-!
# The tunnel request

`tspBuildCreateRequest` (`xml_req.c`) writes the request from the configuration. Texts are without
the zero at the end.
-/

namespace Maiccu.Gogoc

open Maiccu.Lib List

/-- `tTunnelMode` without `DSLITE`, which this build does not support. -/
inductive TunnelMode where
  | v6v4
  | v6udpv4
  | v6anyv4
  | v4v6
  deriving DecidableEq

/-- The value of the enumeration; its bits are those of the capabilities of a server. -/
def TunnelMode.bits : TunnelMode → ℕ
  | .v6v4 => 1
  | .v6udpv4 => 2
  | .v6anyv4 => 3
  | .v4v6 => 4

/-- `STR_XML_TUNNELMODE_*`. -/
def TunnelMode.text : TunnelMode → List UInt8
  | .v6v4 => ascii "v6v4"
  | .v6udpv4 => ascii "v6udpv4"
  | .v6anyv4 => ascii "v6anyv4"
  | .v4v6 => ascii "v4v6"

/-- `NET_TOOLS_T_*`. -/
inductive Transport where
  | rudp
  | tcp
  | tcp6
  | rudp6
  deriving DecidableEq

/-- `tConf`. -/
structure Conf where
  /-- Null after an address of a broker could not be copied. -/
  server : Option (List UInt8)
  clientV4 : List UInt8
  clientV6 : List UInt8
  protocol : List UInt8
  dnsServer : List UInt8
  routingInfo : List UInt8
  hostType : List UInt8
  lastServerFile : List UInt8
  brokerListFile : List UInt8
  keepaliveInterval : ℤ
  prefixlen : ℤ
  retryDelay : ℤ
  retryDelayMax : ℤ
  transport : Transport
  keepalive : Bool
  proxyClient : Bool
  alwaysUseSameServer : Bool
  autoRetryConnect : Bool
  tunnelMode : TunnelMode
  bootMode : Bool

/-- A host with the values of a new configuration file. -/
def hostConf : Conf where
  server := none
  clientV4 := ascii "auto"
  clientV6 := ascii "auto"
  protocol := []
  dnsServer := []
  routingInfo := []
  hostType := ascii "host"
  lastServerFile := []
  brokerListFile := ascii "tsp-broker-list.txt"
  keepaliveInterval := 30
  prefixlen := 48
  retryDelay := 30
  retryDelayMax := 300
  transport := .rudp
  keepalive := true
  proxyClient := false
  alwaysUseSameServer := false
  autoRetryConnect := true
  tunnelMode := .v6anyv4
  bootMode := false

/-! ## The parts of the request -/

def buffer (s : List UInt8) : List UInt8 := snprintf 1024 s

def createHead (mode : TunnelMode) (proxy : Bool) : List UInt8 :=
  ascii "<tunnel action=\"create\" type=\"" ++ mode.text ++
    (if proxy then ascii "\" proxy=\"yes\">\r\n" else ascii "\" proxy=\"no\">\r\n") ++
    ascii " <client>\r\n"

def ipv4Tag : List UInt8 := ascii "  <address type=\"ipv4\">"

variable (conf : Conf)

def clientAddress : List UInt8 :=
  if conf.tunnelMode ≠ .v4v6 then
    buffer (ipv4Tag ++ (conf.clientV4 ++ ascii "</address>\r\n"))
  else
    buffer (ascii "  <address type=\"ipv6\">" ++ (conf.clientV6 ++ ascii "</address>\r\n"))

def keepaliveSection : List UInt8 :=
  if conf.keepalive then
    buffer (ascii "  <keepalive interval=\"" ++ showInt conf.keepaliveInterval ++
      (if conf.tunnelMode ≠ .v4v6 then
        ascii "\">\r\n    <address type=\"ipv6\">::</address>\r\n  </keepalive>\r\n"
      else
        ascii "\">\r\n    <address type=\"ipv4\">127.0.0.1</address>\r\n  </keepalive>\r\n"))
  else []

def askedPrefixlen : ℤ :=
  if conf.prefixlen = 0 then (if conf.tunnelMode ≠ .v4v6 then 48 else 24) else conf.prefixlen

def dnsSection : List UInt8 :=
  if conf.dnsServer ≠ [] then
    ascii "   <dns_server>\r\n" ++
      (tokens 58 conf.dnsServer).flatMap (fun server =>
        buffer (ascii "     <address type=\"dn\">" ++ server ++ ascii "</address>\r\n")) ++
      ascii "   </dns_server>\r\n"
  else []

def routerSection : List UInt8 :=
  ascii "  <router" ++
    (if conf.protocol ≠ ascii "default_route" then
      buffer (ascii " protocol=\"" ++ conf.protocol ++ ascii "\"") else []) ++
    ascii ">\r\n" ++
    buffer (ascii "   <prefix length=\"" ++ showInt (askedPrefixlen conf) ++ ascii "\"/>\r\n") ++
    dnsSection conf ++
    (if conf.protocol = ascii "default_route" ∧ conf.routingInfo ≠ [] then
      buffer (ascii "    " ++ conf.routingInfo ++ ascii "\r\n") else []) ++
    ascii "  </router>\r\n"

/-- The request, and the configuration it leaves: a router's prefix length is filled in, and
`strtok` has cut the name servers. -/
def tspBuildCreateRequest : List UInt8 × Conf :=
  let head := createHead conf.tunnelMode conf.proxyClient
  let foot := ascii " </client>\r\n" ++ ascii "</tunnel>\r\n"
  if conf.hostType = ascii "router" then
    (head ++ (clientAddress conf ++ (keepaliveSection conf ++ (routerSection conf ++ foot))),
      { conf with
        prefixlen := askedPrefixlen conf
        dnsServer := cutToken 58 conf.dnsServer })
  else (head ++ (clientAddress conf ++ (keepaliveSection conf ++ foot)), conf)

/-! ## Reading the request -/

/-- The IPv4 address that a request gives for the client: the element must follow `<client>`. -/
def ipv4Source (request : List UInt8) : Option (List UInt8) :=
  match after (ascii " <client>\r\n") request with
  | none => none
  | some body =>
    if ipv4Tag.isPrefixOf body then some ((body.drop ipv4Tag.length).takeWhile (· ≠ 60)) else none

theorem after_createHead (mode : TunnelMode) (proxy : Bool) (s : List UInt8) :
    after (ascii " <client>\r\n") (createHead mode proxy ++ s) = some s := by
  cases mode <;> cases proxy <;> rfl

variable {conf}

theorem request_eq : ∃ rest, (tspBuildCreateRequest conf).1 =
    createHead conf.tunnelMode conf.proxyClient ++ (clientAddress conf ++ rest) := by
  unfold tspBuildCreateRequest
  split_ifs
  · exact ⟨_, rfl⟩
  · exact ⟨_, rfl⟩

theorem ipv4Source_request (hmode : conf.tunnelMode ≠ .v4v6)
    (hlen : conf.clientV4.length ≤ 900) (htag : 60 ∉ conf.clientV4) :
    ipv4Source (tspBuildCreateRequest conf).1 = some conf.clientV4 := by
  obtain ⟨rest, hreq⟩ := request_eq
  have hfits : (ipv4Tag ++ (conf.clientV4 ++ ascii "</address>\r\n")).length < 1024 := by
    have htag : ipv4Tag.length = 23 := by rfl
    have hend : (ascii "</address>\r\n").length = 12 := by rfl
    rw [length_append, length_append, htag, hend]
    omega
  have haddr : clientAddress conf = ipv4Tag ++ (conf.clientV4 ++ ascii "</address>\r\n") := by
    unfold clientAddress buffer
    rw [if_pos hmode, snprintf_of_lt hfits]
  have hend : ascii "</address>\r\n" = 60 :: ascii "/address>\r\n" := by rfl
  unfold ipv4Source
  rw [hreq, after_createHead, haddr, append_assoc]
  dsimp only
  rw [if_pos (List.isPrefixOf_iff_prefix.mpr (prefix_append _ _)), drop_left,
    append_assoc, hend, cons_append]
  congr 1
  rw [takeWhile_append_of_pos, takeWhile_cons_of_neg (by decide), append_nil]
  intro c hc
  rw [decide_eq_true_eq]
  rintro rfl
  exact htag hc

theorem ipv4Source_v4v6 (hmode : conf.tunnelMode = .v4v6) :
    ipv4Source (tspBuildCreateRequest conf).1 = none := by
  obtain ⟨rest, hreq⟩ := request_eq
  unfold ipv4Source
  rw [hreq, after_createHead]
  unfold clientAddress
  rw [if_neg (not_not.mpr hmode)]
  rfl

end Maiccu.Gogoc
