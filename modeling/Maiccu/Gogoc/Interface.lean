import Maiccu.Gogoc.Session
import Maiccu.Gogoc.TunnelInfo
import Maiccu.Lib.Logged
import Mathlib.Data.List.ReduceOption

/-!
# The tunnel interface

The port to darwin: `tspStartLocal` of `tsp_local.c` sets the interface up, runs the tunnel and
tears the interface down, with `tspSetupInterface` and `tspTearDownTunnel` of `tsp_setup.c`. The log
has the commands executed, the memory freed and the socket closed. A fault is the use of a null
pointer.
-/

namespace Maiccu.Gogoc.Darwin

open Maiccu.Lib Maiccu.Gogoc.Xml Logged Option List
open Maiccu.Tic (atoi)

/-! ## What happens -/

/-- Where an argument of a command comes from. -/
inductive Origin where
  | fixed
  | conf
  | host
  /-- Made from the delegated prefix by `inet_pton` and `inet_ntop`. -/
  | derived
  /-- A text of the reply. -/
  | server
  deriving DecidableEq

structure Arg where
  origin : Origin
  text : List UInt8
  deriving DecidableEq

inductive Event where
  /-- `tspConnect` and `tspClose` of the session's socket. -/
  | opened
  | closed
  /-- `free`, with a pointer to a live block or another one. -/
  | freed (live : Bool)
  /-- `tspExtractPayload` has returned. -/
  | parsed (code : ℤ)
  | exec (command : List Arg)
  deriving DecidableEq

inductive Fault where
  /-- The text is not in the reply and is read. -/
  | missing (f : Field)
  /-- There is no memory, and this is not seen. -/
  | noMemory
  /-- The XML parser reads a null or freed pointer or oversteps a buffer. -/
  | undefined
  deriving DecidableEq

abbrev Act := Logged TunState Event Fault

/-- `free` of a block. -/
def free (b : ℕ) : Act Unit := fun x => ([.freed (decide (x.heap.Live b))], .ok ((), x.free b))

/-- The fields of `tConf` that are used here. -/
structure LocalConf extends Conf where
  nodaemon : Bool
  ifPrefix : List UInt8
  ifTunnelV6v4 : List UInt8
  ifTunnelV4v6 : List UInt8
  /-- `if_tunnel_v6udpv4` is a block of its own; the option `-u` makes it an argument of `main`. -/
  ifTunnelAllocated : Bool

/-- What the host does. -/
structure Host where
  /-- `geteuid` returns 0. -/
  root : Bool
  /-- `getppid` returns 1. -/
  detached : Bool
  /-- `daemon` succeeds. -/
  daemon : Bool
  /-- `TunInit` opens the device. -/
  tunOpens : Bool
  /-- The name that `TunName` finds, or nothing. -/
  tunName : Option (List UInt8)
  /-- What is in the memory for the name if `TunName` finds nothing. -/
  tunJunk : List UInt8
  /-- `routepr`. -/
  gateway : Option (List UInt8)
  /-- `home_ip6addr` for a prefix. -/
  homeAddress : List UInt8 → List UInt8
  /-- The end of the tunnel, once the keepalive engine is initialised. -/
  tunnelEnd : LocalEnd

def readField (t : TunnelInfo) (f : Field) : Act (List UInt8) :=
  match t.text f with
  | none => .throw (.missing f)
  | some s => pure s.text

/-! ## Validation -/

def isAll (allowed : String) : Option Str → Bool
  | none => false
  | some s => s.text.all (· ∈ ascii allowed)

def ipv4Addr : String := ".0123456789"

def ipv6Addr : String := "ABCDEFabcdef:0123456789"

def ipAddrAny : String := "ABCDEFabcdef:.0123456789"

def numeric : String := "0123456789"

def errNum (ok : Bool) : ℕ := if ok then 0 else 1

def validateTunnelInfo (t : TunnelInfo) : ℕ :=
  errNum (isAll ipv4Addr (t.text .clientAddressIpv4)) +
  errNum (isAll ipv6Addr (t.text .clientAddressIpv6)) +
  (if (t.text .clientDnsServerAddressIpv6).isSome then
    errNum (isAll ipv6Addr (t.text .clientDnsServerAddressIpv6)) else 0) +
  errNum (isAll ipv4Addr (t.text .serverAddressIpv4)) +
  errNum (isAll ipv6Addr (t.text .serverAddressIpv6)) +
  (if (t.text .prefixText).isSome then
    errNum (isAll ipAddrAny (t.text .prefixText)) + errNum (isAll numeric (t.text .prefixLength))
  else 0)

/-! ## Commands -/

/-- The macro `sh`: a null pointer ends the arguments. -/
def sh (args : List (Option Arg)) : Act Unit :=
  .emit (.exec (args.takeWhile isSome).reduceOption)

def fixed (s : String) : Option Arg := some ⟨.fixed, ascii s⟩

def route : Option Arg := fixed "/sbin/route"

def ifconfig : Option Arg := fixed "/sbin/ifconfig"

def supplied (t : TunnelInfo) (f : Field) : Option Arg := (t.text f).map fun s => ⟨.server, s.text⟩

inductive Kind where
  | v6v4
  | v6udpv4
  | v4v6
  | other
  deriving DecidableEq

def tunnelKind (type : List UInt8) : Kind :=
  if SameNoCase type (ascii "v6v4") then .v6v4
  else if SameNoCase type (ascii "v6udpv4") then .v6udpv4
  else if SameNoCase type (ascii "v4v6") then .v4v6
  else .other

def kindOf (t : TunnelInfo) : Option Kind := (t.text .type).map fun s => tunnelKind s.text

section Code

variable (c : LocalConf) (host : Host) (t : TunnelInfo)

def IsRouter : Prop := SameNoCase c.hostType (ascii "router")

instance : Decidable (IsRouter c) := inferInstanceAs (Decidable (SameNoCase _ _))

variable (name : Option (List UInt8))

/-- `name` is the name of the open device. -/
def tunnelInterface : Kind → Option Arg
  | .v6v4 => some ⟨.conf, c.ifTunnelV6v4⟩
  | .v6udpv4 => name.map fun n => ⟨.host, n⟩
  | .v4v6 => some ⟨.conf, c.ifTunnelV4v6⟩
  | .other => none

def tunnelPrefixlen : Kind → Option Arg
  | .v6v4 => fixed "128"
  | .v6udpv4 => fixed "128"
  | .v4v6 => fixed "32"
  | .other => none

/-- `home_ip6addr`, which is not initialised without a prefix. -/
def homeArg : Option Arg := (t.text .prefixText).map fun s => ⟨.derived, host.homeAddress s.text⟩

def setupRouter : Act Unit := do
  sh [fixed "/usr/sbin/sysctl", fixed "-w", fixed "net.inet6.ip6.forwarding=1"]
  sh [fixed "/usr/sbin/sysctl", fixed "-w", fixed "net.inet6.ip6.accept_rtadv=0"]
  sh [ifconfig, some ⟨.conf, c.ifPrefix⟩, fixed "inet6", homeArg host t, fixed "prefixlen",
    fixed "64"]
  let length ← readField t .prefixLength
  Logged.when (¬SameNoCase length (ascii "64")) <|
    sh [route, fixed "add", fixed "-inet6", supplied t .prefixText, fixed "-prefixlen",
      supplied t .prefixLength, fixed "::1"]
  sh [fixed "/usr/bin/killall", fixed "rtadvd"]
  sh [fixed "/usr/sbin/rtadvd", some ⟨.conf, c.ifPrefix⟩]

/-- The status, and whether `gTunnelInfo.szDelegatedPrefix` is the static array. -/
def tspSetupInterface : Act (Status × Bool) :=
  if validateTunnelInfo t ≠ 0 then pure (.badTunnelParam, false)
  else do
    let type ← readField t .type
    let interface := tunnelInterface c name (tunnelKind type)
    Logged.when (tunnelKind type = .v6v4) do
      sh [ifconfig, interface, fixed "deletetunnel"]
      sh [ifconfig, interface, fixed "tunnel", supplied t .clientAddressIpv4,
        supplied t .serverAddressIpv4]
    sh [ifconfig, interface, fixed "inet6", supplied t .clientAddressIpv6,
      supplied t .serverAddressIpv6, fixed "prefixlen", tunnelPrefixlen (tunnelKind type),
      fixed "alias"]
    sh [ifconfig, interface, fixed "mtu", fixed "1280"]
    sh [route, if host.gateway.isSome then fixed "change" else fixed "add", fixed "-inet6",
      fixed "default", supplied t .serverAddressIpv6]
    Logged.when (IsRouter c ∧ (t.text .prefixText).isSome) (setupRouter c host t)
    pure (.success, (t.text .prefixText).isSome)

def tearDownRouter : Act Unit := do
  sh [route, fixed "delete", fixed "-inet6", supplied t .prefixText]
  let length ← readField t .prefixLength
  Logged.when (¬SameNoCase length (ascii "64")) <|
    sh [route, fixed "delete", fixed "-inet6", supplied t .prefixText, fixed "-prefixlen",
      supplied t .prefixLength, fixed "::1"]
  sh [ifconfig, some ⟨.conf, c.ifPrefix⟩, fixed "inet6", homeArg host t, fixed "delete"]
  sh [fixed "/usr/bin/killall", fixed "rtadvd"]

def restoreRoute : Act Unit :=
  match host.gateway with
  | some gateway => do
    sh [route, fixed "change", fixed "-inet6", fixed "default", some ⟨.host, gateway⟩]
    sh [route, fixed "add", fixed "-inet6", fixed "default", some ⟨.host, gateway⟩]
  | none => sh [route, fixed "delete", fixed "-inet6", fixed "default"]

def tspTearDownTunnel : Act Unit := do
  let type ← readField t .type
  let interface := tunnelInterface c name (tunnelKind type)
  Logged.when (IsRouter c ∧ (t.text .prefixText).isSome) (tearDownRouter c host t)
  restoreRoute host
  Logged.when (tunnelKind type = .v6v4) do
    sh [ifconfig, interface, fixed "inet6", supplied t .clientAddressIpv6, fixed "delete"]
    sh [ifconfig, interface, fixed "deletetunnel"]

/-! ## `tspStartLocal` -/

def runTunnel (keepalive : Bool) : Act Status :=
  if keepalive then
    -- `IEE_init` refuses a destination that is null.
    match t.text .keepaliveAddress with
    | none => pure .keepaliveError
    | some _ => do
      let _ ← readField t .clientAddressIpv6
      pure host.tunnelEnd.status
  else pure host.tunnelEnd.status

/-- The tunnel loop of each type of tunnel; the first one closes the socket. -/
def tunnelLoop : Act Status := do
  let interval := ((t.text .keepaliveInterval).map fun s => atoi s.text).getD 0
  let type ← readField t .type
  match tunnelKind type with
  | .v6udpv4 => do
    let status ← runTunnel host t (interval ≠ 0)
    .emit .closed
    pure status
  | .v6v4 => runTunnel host t (0 < interval)
  | _ => pure .success

def runLocal : Act (Status × Bool) := do
  let setup ← tspSetupInterface c host t name
  let status ← if setup.1 = .success then tunnelLoop host t else pure setup.1
  tspTearDownTunnel c host t name
  pure (status, setup.2)

/-- The device of a `v6udpv4` tunnel is open, and its name takes the place of the configured one. -/
def nameDevice : Act (Option (List UInt8)) := do
  .emit (.freed c.ifTunnelAllocated)
  let block ← Logged.step fun x => x.malloc []
  match block, host.tunName with
  | none, some _ => .throw .noMemory
  | none, none => pure none
  | some _, some name => pure (some name)
  | some _, none => pure (some host.tunJunk)

/-- The process has the rights and runs in the background if it has to. -/
def Host.Starts : Prop :=
  host.root = true ∧ (c.nodaemon = true ∨ host.detached = true ∨ host.daemon = true)

instance : Decidable (host.Starts c) := inferInstanceAs (Decidable (_ ∧ _))

def tspStartLocal : Act (Status × Bool) :=
  if ¬host.Starts c then pure (.interfaceSetupFailed, false)
  else do
    let type ← readField t .type
    match tunnelKind type with
    | .v4v6 => pure (.interfaceSetupFailed, false)
    | .v6udpv4 =>
      if host.tunOpens = true then do
        let name ← nameDevice c host
        runLocal c host t name
      else pure (.interfaceSetupFailed, false)
    | _ => runLocal c host t none

end Code

/-! ## Without a fault -/

section Spec

variable {c : LocalConf} {host : Host} {t : TunnelInfo} {name : Option (List UInt8)} {type : Str}

variable {f : Field}

theorem readField_some {v : Str} (h : t.text f = some v) : readField t f = pure v.text := by
  unfold readField
  rw [h]

theorem readField_none (h : t.text f = none) : readField t f = .throw (.missing f) := by
  unfold readField
  rw [h]

theorem kindOf_of_type (htype : t.text .type = some type) :
    kindOf t = some (tunnelKind type.text) := by
  unfold kindOf
  rw [htype]
  rfl

variable {args : List (Option Arg)}

theorem runs_sh : Logged.Runs (sh args) := runs_emit

theorem isSome_of_errNum (allowed : String) {v : Option Str} (h : errNum (isAll allowed v) = 0) :
    v.isSome = true := by
  cases v with
  | none => cases h
  | some v => rfl

theorem supplied_of_valid (hvalid : validateTunnelInfo t = 0) :
    (t.text .clientAddressIpv6).isSome = true ∧
      ((t.text .prefixText).isSome = true → (t.text .prefixLength).isSome = true) := by
  unfold validateTunnelInfo at hvalid
  constructor
  · exact isSome_of_errNum ipv6Addr (by omega)
  · intro hprefix
    rw [if_pos hprefix] at hvalid
    exact isSome_of_errNum numeric (by omega)

theorem setupRouter_runs (hlength : (t.text .prefixLength).isSome = true) :
    Logged.Runs (setupRouter c host t) := by
  obtain ⟨length, hlength⟩ := isSome_iff_exists.mp hlength
  unfold setupRouter
  rw [readField_some hlength]
  refine runs_sh.bind (runs_sh.bind (runs_sh.bind ?_))
  exact (runs_when fun _ => runs_sh).bind (runs_sh.bind runs_sh)

theorem tearDownRouter_runs (hlength : (t.text .prefixLength).isSome = true) :
    Logged.Runs (tearDownRouter c host t) := by
  obtain ⟨length, hlength⟩ := isSome_iff_exists.mp hlength
  unfold tearDownRouter
  rw [readField_some hlength]
  refine runs_sh.bind ?_
  exact (runs_when fun _ => runs_sh).bind (runs_sh.bind runs_sh)

theorem restoreRoute_runs : Logged.Runs (restoreRoute host) := by
  unfold restoreRoute
  split
  · exact runs_sh.bind runs_sh
  · exact runs_sh

theorem tspSetupInterface_result (hvalid : validateTunnelInfo t = 0)
    (htype : t.text .type = some type) (x : TunState) :
    (tspSetupInterface c host t name).result x =
      .ok ((.success, (t.text .prefixText).isSome), x) := by
  unfold tspSetupInterface
  rw [if_neg (not_not.mpr hvalid), readField_some htype, pure_bind_eq]
  rw [(runs_when fun _ => runs_sh.bind runs_sh).result_bind,
    runs_sh.result_bind, runs_sh.result_bind, runs_sh.result_bind,
    (runs_when fun h => setupRouter_runs ((supplied_of_valid hvalid).2 h.2)).result_bind,
    result_pure]

/-- The router part of the end reads a prefix length that is not there. -/
def LengthMissing (c : LocalConf) (t : TunnelInfo) : Prop :=
  IsRouter c ∧ (t.text .prefixText).isSome = true ∧ t.text .prefixLength = none

theorem tspTearDownTunnel_runs (hlength : ¬LengthMissing c t) (htype : t.text .type = some type) :
    Logged.Runs (tspTearDownTunnel c host t name) := by
  unfold tspTearDownTunnel
  rw [readField_some htype, pure_bind_eq]
  refine Logged.Runs.bind (runs_when fun h => tearDownRouter_runs ?_) ?_
  · by_contra hnone
    exact hlength ⟨h.1, h.2, not_isSome_iff_eq_none.mp hnone⟩
  · exact restoreRoute_runs.bind
      (runs_when fun _ => runs_sh.bind runs_sh)

theorem tspTearDownTunnel_fault (hlength : LengthMissing c t) (htype : t.text .type = some type)
    (x : TunState) :
    (tspTearDownTunnel c host t name).result x = .error (.missing .prefixLength) := by
  unfold tspTearDownTunnel
  rw [readField_some htype, pure_bind_eq]
  refine result_bind_of_error ?_ _
  unfold when tearDownRouter
  rw [if_pos ⟨hlength.1, hlength.2.1⟩, runs_sh.result_bind, readField_none hlength.2.2,
    throw_bind_eq]
  rfl

variable {x : TunState}

theorem runTunnel_result (hclient : (t.text .clientAddressIpv6).isSome = true) {keepalive : Bool} :
    ∃ e : LocalEnd, (runTunnel host t keepalive).result x = .ok (e.status, x) := by
  obtain ⟨client, hclient⟩ := isSome_iff_exists.mp hclient
  unfold runTunnel
  split_ifs
  · split
    · exact ⟨.keepaliveError, rfl⟩
    · rw [readField_some hclient]
      exact ⟨host.tunnelEnd, rfl⟩
  · exact ⟨host.tunnelEnd, rfl⟩

theorem runTunnel_log (keepalive : Bool) (x : TunState) :
    (runTunnel host t keepalive).log x = [] := by
  unfold runTunnel
  split_ifs
  · split
    · rfl
    · unfold readField
      split
      · rfl
      · rfl
  · rfl

section

variable (hclient : (t.text .clientAddressIpv6).isSome = true)
include hclient

theorem tunnelLoop_result (htype : t.text .type = some type) (x : TunState) :
    ∃ e : LocalEnd, (tunnelLoop host t).result x = .ok (e.status, x) := by
  unfold tunnelLoop
  rw [readField_some htype]
  rw [pure_bind_eq]
  split
  · obtain ⟨e, hrun⟩ := runTunnel_result hclient
    exact ⟨e, by rw [result_bind_of_ok hrun]; rfl⟩
  · exact runTunnel_result hclient
  · exact ⟨.finished, rfl⟩

theorem tunnelLoop_log (htype : t.text .type = some type) (x : TunState) :
    (tunnelLoop host t).log x = if tunnelKind type.text = .v6udpv4 then [.closed] else [] := by
  unfold tunnelLoop
  rw [readField_some htype]
  rw [pure_bind_eq]
  split
  · rename_i hkind
    rw [if_pos hkind]
    obtain ⟨e, hrun⟩ := runTunnel_result hclient
    rw [log_bind_of_ok hrun, runTunnel_log]
    rfl
  · rename_i hkind
    rw [if_neg (by rw [hkind]; decide), runTunnel_log]
  · rename_i hkind _
    rw [if_neg hkind]
    rfl

end

/-! ## `runLocal` -/

theorem runLocal_result (htype : t.text .type = some type) (x : TunState) :
    (validateTunnelInfo t ≠ 0 ∧ LengthMissing c t ∧
      (runLocal c host t name).result x = .error (.missing .prefixLength)) ∨
    (¬(validateTunnelInfo t ≠ 0 ∧ LengthMissing c t) ∧ ∃ e : LocalEnd,
      (runLocal c host t name).result x =
        .ok ((e.status, decide (validateTunnelInfo t = 0) && (t.text .prefixText).isSome), x)) := by
  unfold runLocal
  by_cases hvalid : validateTunnelInfo t = 0
  · right
    have hsupplied := supplied_of_valid hvalid
    have hlength : ¬LengthMissing c t := fun h => by
      have hsome := hsupplied.2 h.2.1
      rw [h.2.2] at hsome
      cases hsome
    refine ⟨fun h => h.1 hvalid, ?_⟩
    obtain ⟨e, hloop⟩ : ∃ e : LocalEnd, (tunnelLoop host t).result x = .ok (e.status, x) :=
      tunnelLoop_result hsupplied.1 htype x
    refine ⟨e, ?_⟩
    rw [result_bind_of_ok (tspSetupInterface_result hvalid htype x), if_pos rfl,
      result_bind_of_ok hloop, (tspTearDownTunnel_runs hlength htype).result_bind,
      decide_eq_true hvalid]
    rfl
  · have hsetup : tspSetupInterface c host t name = pure (.badTunnelParam, false) := if_pos hvalid
    rw [hsetup, pure_bind_eq, if_neg nofun, pure_bind_eq]
    by_cases hlength : LengthMissing c t
    · exact .inl ⟨hvalid, hlength, result_bind_of_error (tspTearDownTunnel_fault hlength htype x) _⟩
    · refine .inr ⟨fun h => hlength h.2, .badTunnelParam, ?_⟩
      rw [(tspTearDownTunnel_runs hlength htype).result_bind, decide_eq_false hvalid]
      rfl

/-! ## What is executed, freed and closed -/

def Event.IsExec : Event → Prop
  | .exec _ => True
  | _ => False

theorem emits_sh : Logged.Emits Event.IsExec (sh args) :=
  emits_emit trivial

theorem emits_readField {p : Event → Prop} : Logged.Emits p (readField t f) := by
  unfold readField
  split
  · exact emits_throw _
  · exact emits_pure _

theorem tspSetupInterface_emits : Logged.Emits Event.IsExec (tspSetupInterface c host t name) := by
  have hrouter : Logged.Emits Event.IsExec (setupRouter c host t) := by
    refine emits_sh.bind fun _ => emits_sh.bind fun _ => emits_sh.bind fun _ => ?_
    refine emits_readField.bind fun length => ?_
    exact (emits_when fun _ => emits_sh).bind fun _ => emits_sh.bind fun _ =>
      emits_sh
  unfold tspSetupInterface
  by_cases hvalid : validateTunnelInfo t ≠ 0
  · rw [if_pos hvalid]
    exact emits_pure _
  · rw [if_neg hvalid]
    refine emits_readField.bind fun type => ?_
    refine (emits_when fun _ => emits_sh.bind fun _ => emits_sh).bind fun _ => ?_
    refine emits_sh.bind fun _ => emits_sh.bind fun _ => emits_sh.bind fun _ => ?_
    exact (emits_when fun _ => hrouter).bind fun _ => emits_pure _

theorem tspTearDownTunnel_emits : Logged.Emits Event.IsExec (tspTearDownTunnel c host t name) := by
  have hrouter : Logged.Emits Event.IsExec (tearDownRouter c host t) := by
    refine emits_sh.bind fun _ => emits_readField.bind fun length => ?_
    exact (emits_when fun _ => emits_sh).bind fun _ => emits_sh.bind fun _ =>
      emits_sh
  have hroute : Logged.Emits Event.IsExec (restoreRoute host) := by
    unfold restoreRoute
    split
    · exact emits_sh.bind fun _ => emits_sh
    · exact emits_sh
  refine emits_readField.bind fun type => ?_
  refine (emits_when fun _ => hrouter).bind fun _ => hroute.bind fun _ => ?_
  exact emits_when fun _ => emits_sh.bind fun _ => emits_sh

theorem log_tearDown_bind (r : Status × Bool) (x : TunState) :
    (tspTearDownTunnel c host t name >>= fun _ => pure r).log x =
      (tspTearDownTunnel c host t name).log x := by
  rcases result_cases (tspTearDownTunnel c host t name) x with ⟨fault, h⟩ | ⟨_, x', h⟩
  · exact log_bind_of_error h _
  · rw [log_bind_of_ok h, log_pure, append_nil]

theorem runLocal_log_of_invalid (hvalid : validateTunnelInfo t ≠ 0) (x : TunState) :
    (runLocal c host t name).log x = (tspTearDownTunnel c host t name).log x := by
  have hsetup : tspSetupInterface c host t name = pure (.badTunnelParam, false) := if_pos hvalid
  unfold runLocal
  rw [hsetup, pure_bind_eq, if_neg nofun, pure_bind_eq, log_tearDown_bind]

theorem runLocal_log (htype : t.text .type = some type) (x : TunState) :
    ∃ before after : List Event, (∀ e ∈ before, e.IsExec) ∧ (∀ e ∈ after, e.IsExec) ∧
      (runLocal c host t name).log x = before ++
        ((if validateTunnelInfo t = 0 ∧ kindOf t = some .v6udpv4 then [.closed] else []) ++
          after) := by
  simp only [kindOf_of_type htype, some_inj]
  by_cases hvalid : validateTunnelInfo t = 0
  · have hclient := (supplied_of_valid hvalid).1
    obtain ⟨e, hloop⟩ : ∃ e : LocalEnd, (tunnelLoop host t).result x = .ok (e.status, x) :=
      tunnelLoop_result hclient htype x
    refine ⟨(tspSetupInterface c host t name).log x, (tspTearDownTunnel c host t name).log x,
      tspSetupInterface_emits x, tspTearDownTunnel_emits x, ?_⟩
    unfold runLocal
    rw [log_bind_of_ok (tspSetupInterface_result hvalid htype x), if_pos rfl,
      log_bind_of_ok hloop, log_tearDown_bind, tunnelLoop_log hclient htype]
    simp only [hvalid, true_and]
  · refine ⟨[], (tspTearDownTunnel c host t name).log x, nofun,
      tspTearDownTunnel_emits x, ?_⟩
    rw [runLocal_log_of_invalid hvalid, if_neg fun h => hvalid h.1]
    rfl

/-! ## Texts of the server in commands -/

/-- A command `route` or `ifconfig` with a text of the reply. -/
def Event.ServerCommand : Event → Prop
  | .exec command => (command.head? = route ∨ command.head? = ifconfig) ∧
      ∃ a ∈ command, a.origin = .server
  | _ => False

theorem emits_sh_of (hargs : ∀ a, some a ∈ args → a.origin ≠ .server) :
    Logged.Emits (¬Event.ServerCommand ·) (sh args) := by
  refine emits_emit ?_
  rintro ⟨-, a, ha, hserver⟩
  exact hargs a (takeWhile_subset _ (reduceOption_mem_iff.mp ha)) hserver

theorem mem_log_sh {args : List Arg} : .exec args ∈ (sh (args.map some)).log x := by
  have hall : (args.map some).takeWhile isSome = args.map some := by
    simp
  unfold sh
  rw [hall, reduceOption, filterMap_map, Function.id_comp, filterMap_some]
  exact mem_singleton.mpr rfl

theorem tspTearDownTunnel_local (htype : t.text .type = some type)
    (hrouter : ¬(IsRouter c ∧ (t.text .prefixText).isSome = true))
    (hclient : tunnelKind type.text = .v6v4 → t.text .clientAddressIpv6 = none) :
    Logged.Emits (¬Event.ServerCommand ·) (tspTearDownTunnel c host t name) := by
  unfold tspTearDownTunnel
  rw [readField_some htype, pure_bind_eq]
  refine (emits_when fun h => absurd h hrouter).bind fun _ => ?_
  refine Logged.Emits.bind ?_ fun _ => ?_
  · unfold restoreRoute
    split
    · refine (emits_sh_of ?_).bind fun _ => emits_sh_of ?_
      · simp [route, fixed]
      · simp [route, fixed]
    · exact emits_sh_of (by simp [route, fixed])
  · refine emits_when fun hkind => ?_
    rw [hkind]
    refine (emits_sh_of ?_).bind fun _ => emits_sh_of ?_
    · simp [ifconfig, fixed, tunnelInterface, supplied, hclient hkind]
    · simp [ifconfig, fixed, tunnelInterface]

/-- The two places where the end of the interface has a text of the server. -/
def EndUses (c : LocalConf) (t : TunnelInfo) : Prop :=
  (IsRouter c ∧ (t.text .prefixText).isSome = true) ∨
    (kindOf t = some .v6v4 ∧ (t.text .clientAddressIpv6).isSome = true)

theorem tspTearDownTunnel_server (htype : t.text .type = some type) (x : TunState) :
    (∃ e ∈ (tspTearDownTunnel c host t name).log x, e.ServerCommand) ↔ EndUses c t := by
  unfold EndUses
  rw [kindOf_of_type htype, some_inj]
  by_cases hrouter : IsRouter c ∧ (t.text .prefixText).isSome = true
  · refine iff_of_true ?_ (.inl hrouter)
    obtain ⟨v, hv⟩ := isSome_iff_exists.mp hrouter.2
    refine ⟨.exec [⟨.fixed, ascii "/sbin/route"⟩, ⟨.fixed, ascii "delete"⟩,
      ⟨.fixed, ascii "-inet6"⟩, ⟨.server, v.text⟩], ?_,
      And.intro (.inl rfl) ⟨⟨.server, v.text⟩, by simp, rfl⟩⟩
    unfold tspTearDownTunnel when tearDownRouter supplied
    rw [readField_some htype, pure_bind_eq, if_pos hrouter, hv]
    exact mem_log_bind.mpr (.inl (mem_log_bind.mpr (.inl mem_log_sh)))
  · by_cases hclient : tunnelKind type.text = .v6v4 ∧ (t.text .clientAddressIpv6).isSome = true
    · refine iff_of_true ?_ (.inr hclient)
      obtain ⟨v, hv⟩ := isSome_iff_exists.mp hclient.2
      refine ⟨.exec [⟨.fixed, ascii "/sbin/ifconfig"⟩, ⟨.conf, c.ifTunnelV6v4⟩,
        ⟨.fixed, ascii "inet6"⟩, ⟨.server, v.text⟩, ⟨.fixed, ascii "delete"⟩], ?_,
        And.intro (.inr rfl) ⟨⟨.server, v.text⟩, by simp, rfl⟩⟩
      unfold tspTearDownTunnel when supplied
      rw [readField_some htype, pure_bind_eq, if_neg hrouter, pure_bind_eq, hv,
        restoreRoute_runs.log_bind, if_pos hclient.1, hclient.1]
      refine mem_append_right _ (mem_log_bind.mpr (.inl mem_log_sh))
    · refine iff_of_false ?_ (not_or.mpr ⟨hrouter, hclient⟩)
      rintro ⟨e, he, hserver⟩
      refine tspTearDownTunnel_local htype hrouter (fun hkind => ?_) x e he hserver
      exact not_isSome_iff_eq_none.mp fun h => hclient ⟨hkind, h⟩

/-! ## `tspStartLocal` as a whole -/

def OpensDevice (c : LocalConf) (host : Host) (t : TunnelInfo) : Prop :=
  host.Starts c ∧ kindOf t = some .v6udpv4 ∧ host.tunOpens = true

instance (c : LocalConf) (host : Host) (t : TunnelInfo) : Decidable (OpensDevice c host t) :=
  inferInstanceAs (Decidable (_ ∧ _))

def Reaches (c : LocalConf) (host : Host) (t : TunnelInfo) (x : TunState) : Prop :=
  host.Starts c ∧ kindOf t ≠ none ∧ kindOf t ≠ some .v4v6 ∧ (kindOf t = some .v6udpv4 →
      host.tunOpens = true ∧ (x.memory 0 = true ∨ host.tunName = none))

theorem nameDevice_log (x : TunState) :
    (nameDevice c host).log x = [.freed c.ifTunnelAllocated] := by
  unfold nameDevice
  rw [runs_emit.log_bind, log_step_bind]
  split
  · rfl
  · rfl
  · rfl
  · rfl

theorem nameDevice_result (x : TunState) : ((x.memory 0 = true ∨ host.tunName = none) ∧ ∃ name x',
      (nameDevice c host).result x = .ok (name, x') ∧ x.heap.Grows x'.heap) ∨
    (¬(x.memory 0 = true ∨ host.tunName = none) ∧
      (nameDevice c host).result x = .error .noMemory) := by
  unfold nameDevice
  rw [runs_emit.result_bind, result_step_bind]
  unfold State.malloc
  by_cases hmemory : x.memory 0 = true
  · rw [if_pos hmemory]
    refine .inl ⟨.inl hmemory, ?_⟩
    cases host.tunName with
    | none | some n => exact ⟨_, _, rfl, Heap.grows_alloc⟩
  · rw [if_neg hmemory]
    cases host.tunName with
    | none => exact .inl ⟨.inr rfl, _, _, rfl, .refl _⟩
    | some n => exact .inr ⟨fun h => h.elim hmemory nofun, rfl⟩

def startLog (c : LocalConf) (host : Host) (t : TunnelInfo) : List Event :=
  if OpensDevice c host t then [.freed c.ifTunnelAllocated] else []

theorem startLog_of_opens (h : OpensDevice c host t) :
    startLog c host t = [.freed c.ifTunnelAllocated] := if_pos h

theorem startLog_of_not_opens (h : ¬OpensDevice c host t) : startLog c host t = [] := if_neg h

theorem reaches_iff (htype : t.text .type = some type) :
    Reaches c host t x ↔ host.Starts c ∧ tunnelKind type.text ≠ .v4v6 ∧
      (tunnelKind type.text = .v6udpv4 →
        host.tunOpens = true ∧ (x.memory 0 = true ∨ host.tunName = none)) := by
  unfold Reaches
  simp [kindOf_of_type htype]

theorem opensDevice_iff (htype : t.text .type = some type) : OpensDevice c host t ↔
      host.Starts c ∧ tunnelKind type.text = .v6udpv4 ∧ host.tunOpens = true := by
  unfold OpensDevice
  simp [kindOf_of_type htype]

theorem tspStartLocal_reached (h : Reaches c host t x) :
    ∃ type name x', t.text .type = some type ∧ x.heap.Grows x'.heap ∧
      (tspStartLocal c host t).log x = startLog c host t ++ (runLocal c host t name).log x' ∧
      (tspStartLocal c host t).result x = (runLocal c host t name).result x' := by
  obtain ⟨type, htype⟩ : ∃ type, t.text .type = some type :=
    ne_none_iff_exists'.mp fun hnone => h.2.1 (map_eq_none_iff.mpr hnone)
  obtain ⟨hstarts, hv4, hudp⟩ := (reaches_iff htype).mp h
  refine ⟨type, ?_⟩
  unfold tspStartLocal
  rw [if_neg (not_not.mpr hstarts), readField_some htype, pure_bind_eq]
  split
  · rename_i hk
    exact absurd hk hv4
  · rename_i hk
    obtain ⟨hopens, hname⟩ := hudp hk
    rw [if_pos hopens, startLog_of_opens ((opensDevice_iff htype).mpr ⟨hstarts, hk, hopens⟩)]
    rcases nameDevice_result (c := c) x with ⟨-, name, x', hres, hgrows⟩ | ⟨hno, -⟩
    · refine ⟨name, x', htype, hgrows, ?_, result_bind_of_ok hres⟩
      rw [log_bind_of_ok hres, nameDevice_log]
    · exact absurd hname hno
  · rename_i hk
    rw [startLog_of_not_opens fun h => hk ((opensDevice_iff htype).mp h).2.1]
    exact ⟨none, x, htype, .refl _, rfl, rfl⟩

theorem tspStartLocal_refused (hstarts : host.Starts c)
    (htype : t.text .type = some type) (h : ¬Reaches c host t x) :
    (tspStartLocal c host t).log x = startLog c host t ∧
      ((tspStartLocal c host t).result x = .ok ((.interfaceSetupFailed, false), x) ∨
        (tspStartLocal c host t).result x = .error .noMemory) := by
  rw [reaches_iff htype] at h
  unfold tspStartLocal
  rw [if_neg (not_not.mpr hstarts), readField_some htype, pure_bind_eq]
  split
  · rename_i hk
    have hopens : ¬OpensDevice c host t := fun h =>
      nomatch hk.symm.trans ((opensDevice_iff htype).mp h).2.1
    rw [startLog_of_not_opens hopens]
    exact ⟨rfl, .inl rfl⟩
  · rename_i hk
    by_cases hopens : host.tunOpens = true
    · rw [if_pos hopens, startLog_of_opens ((opensDevice_iff htype).mpr ⟨hstarts, hk, hopens⟩)]
      rcases nameDevice_result (c := c) x with ⟨hname, -⟩ | ⟨-, hres⟩
      · have hv4 : tunnelKind type.text ≠ .v4v6 := fun hv4 => nomatch hk.symm.trans hv4
        exact absurd ⟨hstarts, hv4, fun _ => ⟨hopens, hname⟩⟩ h
      · rw [log_bind_of_error hres, nameDevice_log]
        exact ⟨rfl, .inr (result_bind_of_error hres _)⟩
    · rw [if_neg hopens, startLog_of_not_opens fun h => hopens h.2.2]
      exact ⟨rfl, .inl rfl⟩
  · rename_i hv4 hudp
    exact absurd ⟨hstarts, hv4, fun hk => absurd hk hudp⟩ h

theorem tspStartLocal_stopped (h : ¬Reaches c host t x) :
    (tspStartLocal c host t).log x = startLog c host t ∧ ((host.Starts c ∧ kindOf t = none ∧
        (tspStartLocal c host t).result x = .error (.missing .type)) ∨
      (¬(host.Starts c ∧ kindOf t = none) ∧
        ((tspStartLocal c host t).result x = .ok ((.interfaceSetupFailed, false), x) ∨
          (tspStartLocal c host t).result x = .error .noMemory))) := by
  by_cases hstarts : host.Starts c
  · cases htype : t.text .type with
    | none =>
      have hkind : kindOf t = none := map_eq_none_iff.mpr htype
      unfold tspStartLocal
      rw [if_neg (not_not.mpr hstarts), readField_none htype, throw_bind_eq,
        startLog_of_not_opens fun h => nomatch hkind.symm.trans h.2.1]
      exact ⟨rfl, .inl ⟨hstarts, hkind, rfl⟩⟩
    | some type =>
      obtain ⟨hlog, hresult⟩ := tspStartLocal_refused hstarts htype h
      exact ⟨hlog, .inr ⟨fun h => (nomatch (kindOf_of_type htype).symm.trans h.2), hresult⟩⟩
  · unfold tspStartLocal
    rw [if_pos hstarts, startLog_of_not_opens fun h => hstarts h.1]
    exact ⟨rfl, .inr ⟨fun h => hstarts h.1, .inl rfl⟩⟩

end Spec

end Maiccu.Gogoc.Darwin
