import Maiccu.Gogoc.KeyFile
import Maiccu.Gogoc.Request
import Maiccu.Aiccu.CheckTime

/-!
# The validation of the configuration

`gogocvalidation.cc` checks the variables of the configuration file, and `config.c` fills in `tConf`
from those that are accepted. Here are the server and the variables that the tunnel request is made
of. Texts are without the zero at the end.
-/

namespace Maiccu.Gogoc.Config

open Maiccu.Lib List
open Maiccu.Gogoc.Auth (serverChrs)
open Maiccu.Tic (strtol atoi decimal isDigit strtol_of_digits)

/-! ## The checks -/

/-- `CFG_DNS_CHRS`. -/
def dnsChrs : List UInt8 :=
  ascii "ABCDEFGHIJKLMNOPQRSTUVWXYZabcdefghijklmnopqrstuvwxyz0123456789-."

/-- `CFG_NUMERIC_CHRS`. -/
def numericChrs : List UInt8 := ascii "1234567890"

def oneOf (values : List (List UInt8)) (s : List UInt8) : Bool := s = [] || s ∈ values

def numeric (allowed : ℤ → Bool) (s : List UInt8) : Bool :=
  s = [] || (s.all (· ∈ numericChrs) && allowed (strtol s))

def validateHostType : List UInt8 → Bool := oneOf [ascii "host", ascii "router"]

def validateKeepAlive : List UInt8 → Bool := oneOf [ascii "yes", ascii "no"]

def validateProxyClient : List UInt8 → Bool := oneOf [ascii "yes", ascii "no"]

def validateTunnelMode : List UInt8 → Bool :=
  oneOf [ascii "v6anyv4", ascii "v6v4", ascii "v6udpv4", ascii "v4v6", ascii "dslite"]

/-- The number is cut to a `short` before it is compared. -/
def validatePrefixLen : List UInt8 → Bool :=
  numeric fun n => 0 < n.bmod (2 ^ 16) && n.bmod (2 ^ 16) ≤ 128

def validateKeepAliveInterval : List UInt8 → Bool := numeric fun n => 0 ≤ n

def validateServer (s : List UInt8) : Bool :=
  s = [] || (s.length ≤ 1025 && s.all (· ∈ serverChrs))

def validateDnsServer (s : List UInt8) : Bool :=
  s = [] || (s.length ≤ 1025 && (tokens 58 s).all fun server => server.all (· ∈ dnsChrs))

/-- `inet_addr`, and whether `inet_pton` reads an IPv6 address, of which no text is longer than
`INET6_ADDRSTRLEN` allows. -/
structure Inet where
  inetAddr : List UInt8 → Bytes 4
  inetPton6 : List UInt8 → Bool
  length_le : ∀ s, inetPton6 s = true → s.length ≤ 45

variable (lib : Inet)

def validateClientV4 (s : List UInt8) : Bool :=
  s = [] || s = ascii "auto" || s = inetNtop (lib.inetAddr s)

def validateClientV6 (s : List UInt8) : Bool :=
  s = [] || s = ascii "auto" || lib.inetPton6 s

theorem isDigit_of_numeric {c : UInt8} (hc : c ∈ numericChrs) : isDigit c = true := by
  have hall : numericChrs.all isDigit = true := by decide
  exact all_eq_true.mp hall c hc

/-- The empty text is accepted, and so are the numbers up to the maximum of `long` that a `short`
makes small. -/
theorem prefixLen_accepted_iff (s : List UInt8) (hs : s.all (· ∈ numericChrs) = true) :
    (validatePrefixLen s = true ↔ 1 ≤ decimal s ∧ decimal s ≤ 128) ↔
      s ≠ [] ∧ (decimal s ≤ 128 ∨ 2 ^ 63 ≤ decimal s ∨ decimal s % 65536 = 0 ∨
        128 < decimal s % 65536) := by
  have hdigits : ∀ c ∈ s, isDigit c = true := fun c hc =>
    isDigit_of_numeric (of_decide_eq_true (all_eq_true.mp hs c hc))
  unfold validatePrefixLen numeric
  rw [hs, strtol_of_digits hdigits]
  by_cases hnil : s = []
  · subst hnil
    decide
  · simp only [hnil, decide_false, Bool.false_or, Bool.true_and, Bool.and_eq_true,
      decide_eq_true_eq, Int.bmod, ne_eq, not_false_eq_true, true_and]
    generalize decimal s = n
    split_ifs <;> omega

theorem prefixLen_accepted_64 :
    validatePrefixLen (ascii "64") = true ↔ 1 ≤ decimal (ascii "64") ∧ decimal (ascii "64") ≤ 128 :=
  (prefixLen_accepted_iff (ascii "64") (by decide)).mpr (by decide)

theorem prefixLen_65600_accepted :
    validatePrefixLen (ascii "65600") = true ∧ decimal (ascii "65600") = 65600 := by
  decide

/-! ## From the file to the request -/

/-- The variables of the file that the tunnel request is made of. -/
structure File where
  clientV4 : List UInt8
  clientV6 : List UInt8
  hostType : List UInt8
  prefixlen : List UInt8
  dnsServer : List UInt8
  keepalive : List UInt8
  keepaliveInterval : List UInt8
  proxyClient : List UInt8
  tunnelMode : List UInt8

def orDefault (s default : List UInt8) : List UInt8 := if s = [] then default else s

/-- The checks of the variables alone, and of those that depend on each other. -/
def File.valid (f : File) : Bool :=
  validateHostType f.hostType && validatePrefixLen f.prefixlen && validateDnsServer f.dnsServer &&
    validateKeepAlive f.keepalive && validateKeepAliveInterval f.keepaliveInterval &&
    validateTunnelMode f.tunnelMode && validateClientV4 lib f.clientV4 &&
    validateClientV6 lib f.clientV6 && validateProxyClient f.proxyClient &&
    !(orDefault f.proxyClient (ascii "no") = ascii "yes" &&
      orDefault f.tunnelMode (ascii "v6anyv4") = ascii "v6udpv4") &&
    !(orDefault f.proxyClient (ascii "no") = ascii "yes" &&
      orDefault f.keepalive (ascii "yes") = ascii "yes") &&
    !(orDefault f.keepalive (ascii "yes") = ascii "yes" &&
      strtol (orDefault f.keepaliveInterval (ascii "30")) = 0)

/-- `tConf` for the tunnel request, from the file. An address that is left open in the file is
replaced by the one of the connection. -/
structure Filled (f : File) (conf : Conf) : Prop where
  protocol : conf.protocol = ascii "default_route"
  routingInfo : conf.routingInfo = []
  hostType : conf.hostType = orDefault f.hostType (ascii "host")
  dnsServer : conf.dnsServer = f.dnsServer
  prefixlen : conf.prefixlen = atoi (orDefault f.prefixlen (ascii "64"))
  keepaliveInterval : conf.keepaliveInterval = atoi (orDefault f.keepaliveInterval (ascii "30"))
  keepalive : conf.keepalive = true ↔ SameNoCase (orDefault f.keepalive (ascii "yes")) (ascii "yes")
  proxyClient : conf.proxyClient = true ↔
    SameNoCase (orDefault f.proxyClient (ascii "no")) (ascii "yes")
  tunnelMode : conf.tunnelMode.text = orDefault f.tunnelMode (ascii "v6anyv4")
  clientV4 : conf.clientV4 = orDefault f.clientV4 (ascii "auto") ∨
    orDefault f.clientV4 (ascii "auto") = ascii "auto" ∧ ∃ a, conf.clientV4 = inetNtop a
  clientV6 : conf.clientV6 = orDefault f.clientV6 (ascii "auto") ∨
    orDefault f.clientV6 (ascii "auto") = ascii "auto" ∧ conf.clientV6.length ≤ 45

/-! ## How long the texts can be -/

section Length

variable {lib} {f : File} {conf : Conf}

theorem length_showByte_le (b : UInt8) : (showByte b).length ≤ 3 := by
  unfold showByte
  split_ifs <;> simp

theorem length_inetNtop_le (a : Bytes 4) : (inetNtop a).length ≤ 15 := by
  have hbyte (i : Fin 4) := length_showByte_le (a.get i)
  have h₀ := hbyte 0
  have h₁ := hbyte 1
  have h₂ := hbyte 2
  have h₃ := hbyte 3
  unfold inetNtop
  simp only [length_append, length_cons]
  omega

theorem length_showNat_le {n k : ℕ} (hk : 0 < k) (h : n < 10 ^ k) : (showInt n).length ≤ k := by
  unfold showInt ascii
  rw [length_map, String.length_toList]
  exact (Nat.length_repr_le_iff hk).mpr h

theorem length_showInt_le {n : ℤ} (hlow : -2 ^ 31 ≤ n) (hhigh : n < 2 ^ 31) :
    (showInt n).length ≤ 11 := by
  cases n with
  | ofNat n =>
    have hn : (n : ℤ) < 2 ^ 31 := hhigh
    exact (length_showNat_le (k := 10) (by omega) (by omega)).trans (by omega)
  | negSucc n =>
    unfold showInt ascii
    rw [length_map, String.length_toList]
    show ("-" ++ (n + 1).repr).length ≤ 11
    have hrepr : (n + 1).repr.length ≤ 10 := (Nat.length_repr_le_iff (by omega)).mpr (by omega)
    rw [String.length_append]
    exact Nat.add_le_add_left hrepr 1

theorem File.valid.clientV4 (h : f.valid lib = true) : validateClientV4 lib f.clientV4 = true := by
  unfold File.valid at h
  simp only [Bool.and_eq_true] at h
  tauto

theorem File.valid.clientV6 (h : f.valid lib = true) : validateClientV6 lib f.clientV6 = true := by
  unfold File.valid at h
  simp only [Bool.and_eq_true] at h
  tauto

theorem length_orAuto_le {s : List UInt8} {n : ℕ} {p : Prop} (hauto : (ascii "auto").length ≤ n)
    (hs : (s = [] ∨ s = ascii "auto") ∨ p) (hp : p → s.length ≤ n) :
    (orDefault s (ascii "auto")).length ≤ n := by
  unfold orDefault
  split_ifs with hempty
  · exact hauto
  · rcases hs with (h | h) | h
    · exact absurd h hempty
    · rw [h]
      exact hauto
    · exact hp h

theorem length_clientV4_le (hvalid : f.valid lib = true) (hconf : Filled f conf) :
    conf.clientV4.length ≤ 15 := by
  rcases hconf.clientV4 with heq | ⟨-, a, heq⟩
  · have hfile := File.valid.clientV4 hvalid
    unfold validateClientV4 at hfile
    simp only [Bool.or_eq_true, decide_eq_true_eq] at hfile
    rw [heq]
    refine length_orAuto_le (by decide) hfile fun h => ?_
    rw [h]
    exact length_inetNtop_le _
  · rw [heq]
    exact length_inetNtop_le a

theorem length_clientV6_le (hvalid : f.valid lib = true) (hconf : Filled f conf) :
    conf.clientV6.length ≤ 45 := by
  rcases hconf.clientV6 with heq | ⟨-, hle⟩
  · have hfile := File.valid.clientV6 hvalid
    unfold validateClientV6 at hfile
    simp only [Bool.or_eq_true, decide_eq_true_eq] at hfile
    rw [heq]
    exact length_orAuto_le (by decide) hfile (lib.length_le _)
  · exact hle

end Length

end Maiccu.Gogoc.Config
