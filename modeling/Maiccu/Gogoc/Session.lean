import Maiccu.Gogoc.Redirect
import Maiccu.Gogoc.Request

/-!
# One TSP session

`tspSetupTunnel` (`tsp_client.c`) with all the functions it calls for one connection to a server:
what the server, the network and the host answer is a `Session`. The configuration is the global
one: what a session writes to it is there in the next session too.
-/

namespace Maiccu.Gogoc

open Maiccu.Lib

/-- `gogoc_status_codes`, those that a session can end with. -/
inductive Status where
  | success
  | memoryStarvation
  | invalCfgFile
  | invalGogocAddress
  | invalClientAddr
  | failResolvAddr
  | failSocketConnect
  | socketIo
  | invalTspVersion
  | tspServerTooBusy
  | tspGenericError
  /-- `ERR_BROKER_REDIRECTION`. -/
  | badRedirection
  | tunmodeNotAvailable
  | authenticationFailure
  | noCommonAuthentication
  | interfaceSetupFailed
  | badTunnelParam
  | keepaliveError
  | keepaliveTimeout
  | tunLeaseExpired
  | tunnelIo
  /-- `EVNT_BROKER_REDIRECTION`. -/
  | redirected
  deriving DecidableEq

/-! ## What a session meets -/

/-- `parse_addr_port` and `tspConnect`. -/
inductive Connect where
  | badAddress
  | unresolved
  | refused
  | connected
  deriving DecidableEq

/-- The answer to the version. -/
inductive CapReply where
  | lost
  | capability (cap : ℕ)
  /-- Another answer: the number at its start, and what it is if taken for a redirection. -/
  | status (code : ℤ) (redirect : RedirectReply)

inductive AuthError where
  | socketIo
  | memoryStarvation
  | tspGenericError
  | authenticationFailure
  | noCommonAuthentication
  deriving DecidableEq

inductive AuthReply where
  | accepted
  | redirect (r : RedirectReply)
  | failed (e : AuthError)

/-- The answer to the tunnel request. -/
inductive NegoReply where
  /-- There is no memory for it. -/
  | starved
  | lost
  | status (code : ℤ) (redirect : RedirectReply)

/-- The ends of `tspStartLocal`: the interface is set up, and the tunnel kept alive. -/
inductive LocalEnd where
  | finished
  | interfaceSetupFailed
  | badTunnelParam
  | invalCfgFile
  | keepaliveError
  | keepaliveTimeout
  | tunLeaseExpired
  | tunnelIo
  deriving DecidableEq

structure Session where
  connect : Connect
  capabilities : CapReply
  auth : AuthReply
  /-- The local address of a socket for IPv4. -/
  localAddr : Bytes 4
  /-- The local address of a socket for IPv6, written by `inet_ntop`. -/
  localAddr6 : List UInt8
  /-- `getsockname` returns the address. -/
  sockname : Bool
  negotiation : NegoReply
  /-- The acknowledgement is sent. -/
  acknowledged : Bool
  localEnd : LocalEnd

/-! ## The parts of a session -/

def tspIsRedirectStatus (code : ℤ) : Prop := 1000 < code

instance (code : ℤ) : Decidable (tspIsRedirectStatus code) := inferInstanceAs (Decidable (_ < _))

def redirectStatus : Option RedirectStatus → Status
  | none => .redirected
  | some _ => .badRedirection

/-- The status, the capabilities if it is success, and the broker list. -/
def tspGetCapabilities (reply : CapReply) (brokers : BrokerList) : Status × ℕ × BrokerList :=
  match reply with
  | .lost => (.socketIo, 0, brokers)
  | .capability cap => (.success, cap, brokers)
  | .status code redirect =>
    if tspIsRedirectStatus code then
      (redirectStatus (tspHandleRedirect redirect brokers).1, 0,
        (tspHandleRedirect redirect brokers).2)
    else if code = 530 then (.tspServerTooBusy, 0, brokers)
    else if code = 302 then (.invalTspVersion, 0, brokers)
    else (.tspGenericError, 0, brokers)

def AuthError.status : AuthError → Status
  | .socketIo => .socketIo
  | .memoryStarvation => .memoryStarvation
  | .tspGenericError => .tspGenericError
  | .authenticationFailure => .authenticationFailure
  | .noCommonAuthentication => .noCommonAuthentication

def tspAuthenticate (reply : AuthReply) (brokers : BrokerList) : Status × BrokerList :=
  match reply with
  | .accepted => (.success, brokers)
  | .redirect r => (redirectStatus (tspHandleRedirect r brokers).1, (tspHandleRedirect r brokers).2)
  | .failed e => (e.status, brokers)

/-- An IPv6 address without the brackets, as two calls of `strtok` find it. -/
def removeBrackets (s : List UInt8) : List UInt8 :=
  match (tokens 91 s).head? with
  | none => s
  | some t =>
    match (tokens 93 t).head? with
    | none => s
    | some u => u

variable (conf : Conf) (session : Session)

/-- Nothing if the status is `ERR_INVAL_CLIENT_ADDR`. -/
def tspUpdateSourceAddr : Option Conf :=
  if conf.tunnelMode ≠ .v4v6 then
    if SameNoCase conf.clientV4 (ascii "auto") then
      if (conf.transport = .rudp ∨ conf.transport = .tcp) ∧ session.sockname then
        some { conf with clientV4 := inetNtop session.localAddr }
      else none
    else some conf
  else if conf.clientV6 = [] then some conf
  else if SameNoCase conf.clientV6 (ascii "auto") then
    if (conf.transport = .rudp6 ∨ conf.transport = .tcp6) ∧ session.sockname then
      some { conf with clientV6 := session.localAddr6 }
    else none
  else some { conf with clientV6 := removeBrackets conf.clientV6 }

/-- The newest version is 0, and 1.0.1, the oldest one, is 3. -/
def versionIndexOldest : ℕ := 3

variable (versionIndex : ℕ) (brokers : BrokerList)

/-- The status and the broker list; the request is built before. -/
def tspTunnelNegotiation :
    Status × BrokerList :=
  match session.negotiation with
  | .starved => (.memoryStarvation, brokers)
  | .lost => (.socketIo, brokers)
  | .status code redirect =>
    if tspIsRedirectStatus code then
      (redirectStatus (tspHandleRedirect redirect brokers).1,
        (tspHandleRedirect redirect brokers).2)
    else if code ≠ 200 then (.tspGenericError, brokers)
    else if versionIndex = versionIndexOldest then (.success, brokers)
    else if session.acknowledged then (.success, brokers)
    else (.socketIo, brokers)

def LocalEnd.status : LocalEnd → Status
  | .finished => .success
  | .interfaceSetupFailed => .interfaceSetupFailed
  | .badTunnelParam => .badTunnelParam
  | .invalCfgFile => .invalCfgFile
  | .keepaliveError => .keepaliveError
  | .keepaliveTimeout => .keepaliveTimeout
  | .tunLeaseExpired => .tunLeaseExpired
  | .tunnelIo => .tunnelIo

/-- What is left by a session. -/
structure SessionEnd where
  status : Status
  conf : Conf
  brokers : BrokerList
  /-- The tunnel request, if the session came to it. -/
  request : Option (List UInt8)

def setUpAuthenticated : SessionEnd :=
  match tspUpdateSourceAddr conf session with
  | none => ⟨.invalClientAddr, conf, brokers, none⟩
  | some conf' =>
    let request := tspBuildCreateRequest conf'
    let negotiated := tspTunnelNegotiation session versionIndex brokers
    let status := if negotiated.1 = .success then session.localEnd.status else negotiated.1
    ⟨status, request.2, negotiated.2, some request.1⟩

def setUpConnected :
    SessionEnd :=
  let capabilities := tspGetCapabilities session.capabilities brokers
  if capabilities.1 = .success then
    if conf.tunnelMode.bits &&& capabilities.2.1 = 0 then
      ⟨.tunmodeNotAvailable, conf, brokers, none⟩
    else
      let auth := tspAuthenticate session.auth brokers
      if auth.1 = .success then setUpAuthenticated conf session versionIndex auth.2
      else ⟨auth.1, conf, auth.2, none⟩
  else if capabilities.1 = .socketIo ∧ (conf.transport = .rudp ∨ conf.transport = .rudp6) then
    -- Over UDP it is only now that a server is seen to be missing.
    ⟨.failSocketConnect, conf, brokers, none⟩
  else ⟨capabilities.1, conf, capabilities.2.2, none⟩

def tspSetupTunnel :
    SessionEnd :=
  match session.connect with
  | .badAddress => ⟨.invalGogocAddress, conf, brokers, none⟩
  | .unresolved => ⟨.failResolvAddr, conf, brokers, none⟩
  | .refused => ⟨.failSocketConnect, conf, brokers, none⟩
  | .connected => setUpConnected conf session versionIndex brokers

/-! ## What a session does to the configuration -/

theorem redirectStatus_ne_success (e : Option RedirectStatus) : redirectStatus e ≠ .success := by
  cases e with
  | none | some e => exact Status.noConfusion

variable {brokers} {conf} {session}

theorem capability_of_success {reply : CapReply}
    (h : (tspGetCapabilities reply brokers).1 = .success) : ∃ cap, reply = .capability cap := by
  cases reply with
  | lost => cases h
  | capability cap => exact ⟨cap, rfl⟩
  | status code redirect =>
    unfold tspGetCapabilities at h
    dsimp only at h
    split_ifs at h
    exact absurd h (redirectStatus_ne_success _)

theorem accepted_of_success {reply : AuthReply} (h : (tspAuthenticate reply brokers).1 = .success) :
    reply = .accepted := by
  cases reply with
  | accepted => rfl
  | redirect r => exact absurd h (redirectStatus_ne_success _)
  | failed e =>
    cases e with
    | socketIo | memoryStarvation | tspGenericError | authenticationFailure
    | noCommonAuthentication => cases h

def Session.authenticated (mode : TunnelMode) (session : Session) : Bool :=
  match session.connect, session.capabilities, session.auth with
  | .connected, .capability cap, .accepted => mode.bits &&& cap ≠ 0
  | _, _, _ => false

theorem setup_of_authenticated (h : session.authenticated conf.tunnelMode = true) (versionIndex : ℕ)
    (brokers : BrokerList) :
    tspSetupTunnel conf session versionIndex brokers =
      setUpAuthenticated conf session versionIndex brokers := by
  unfold Session.authenticated at h
  split at h
  · rename_i cap hconnect hcap hauth
    rw [decide_eq_true_eq] at h
    unfold tspSetupTunnel setUpConnected
    rw [hconnect, hcap, hauth]
    exact if_neg h
  · cases h

variable {versionIndex}

theorem setup_of_not_authenticated (h : session.authenticated conf.tunnelMode = false) :
    (tspSetupTunnel conf session versionIndex brokers).conf = conf ∧
      (tspSetupTunnel conf session versionIndex brokers).request = none := by
  unfold tspSetupTunnel
  cases hconnect : session.connect with
  | badAddress | unresolved | refused => exact ⟨rfl, rfl⟩
  | connected =>
    unfold setUpConnected
    dsimp only
    split_ifs with hcap hmode hauth
    · exact ⟨rfl, rfl⟩
    · -- All three answers are good, so the session is authenticated.
      obtain ⟨cap, hcap⟩ := capability_of_success hcap
      rw [hcap] at hmode
      unfold Session.authenticated at h
      rw [hconnect, hcap, accepted_of_success hauth] at h
      exact absurd hmode (of_decide_eq_false h)
    · exact ⟨rfl, rfl⟩
    · exact ⟨rfl, rfl⟩
    · exact ⟨rfl, rfl⟩

/-- The two configurations differ at most in what a session fills in. -/
def Conf.SameSetup (conf conf' : Conf) : Prop :=
  conf' = { conf with
    clientV4 := conf'.clientV4
    clientV6 := conf'.clientV6
    prefixlen := conf'.prefixlen
    dnsServer := conf'.dnsServer }

theorem sameSetup_update {conf' : Conf} (h : tspUpdateSourceAddr conf session = some conf') :
    conf.SameSetup conf' := by
  unfold tspUpdateSourceAddr at h
  split_ifs at h <;> cases h <;> rfl

theorem sameSetup_request : conf.SameSetup (tspBuildCreateRequest conf).2 := by
  unfold tspBuildCreateRequest
  split_ifs
  · rfl
  · rfl

theorem Conf.SameSetup.trans {conf₁ conf₂ conf₃ : Conf} (h : conf₁.SameSetup conf₂)
    (h' : conf₂.SameSetup conf₃) : conf₁.SameSetup conf₃ := by
  unfold Conf.SameSetup at *
  rw [h', h]

theorem sameSetup_setup :
    conf.SameSetup (tspSetupTunnel conf session versionIndex brokers).conf := by
  cases hauth : session.authenticated conf.tunnelMode with
  | false =>
    rw [(setup_of_not_authenticated hauth).1]
    rfl
  | true =>
    rw [setup_of_authenticated hauth]
    unfold setUpAuthenticated
    cases hupd : tspUpdateSourceAddr conf session with
    | none => rfl
    | some conf' => exact (sameSetup_update hupd).trans sameSetup_request

theorem request_clientV4 : (tspBuildCreateRequest conf).2.clientV4 = conf.clientV4 := by
  unfold tspBuildCreateRequest
  split_ifs
  · rfl
  · rfl

/-! ## What a session does to the broker list -/

def Status.OfRedirect (status : Status) : Prop := status = .redirected ∨ status = .badRedirection

/-- What a status says about the broker list: it is changed by a redirection only, and one that
succeeds leaves a broker to try. -/
structure Status.Tells (status : Status) (before after : BrokerList) : Prop where
  kept : ¬status.OfRedirect → after = before
  nodes : status = .redirected → after.nodes ≠ []

section Tells

theorem Status.tells_same {status : Status} (h : status ≠ .redirected) :
    status.Tells brokers brokers :=
  ⟨fun _ => rfl, fun h' => absurd h' h⟩

theorem tells_redirect {r : RedirectReply} :
    (redirectStatus (tspHandleRedirect r brokers).1).Tells brokers
    (tspHandleRedirect r brokers).2 := by
  rcases hr : tspHandleRedirect r brokers with ⟨e, left⟩
  cases e with
  | none => exact ⟨fun h => absurd (.inl rfl) h, fun _ => tspHandleRedirect_ne_nil hr⟩
  | some e => exact ⟨fun h => absurd (.inr rfl) h, nofun⟩

theorem tells_capabilities (reply : CapReply) :
    (tspGetCapabilities reply brokers).1.Tells brokers (tspGetCapabilities reply brokers).2.2 := by
  cases reply with
  | lost | capability cap => exact Status.tells_same nofun
  | status code redirect =>
    unfold tspGetCapabilities
    dsimp only
    split_ifs
    · exact tells_redirect
    · exact Status.tells_same nofun
    · exact Status.tells_same nofun
    · exact Status.tells_same nofun

theorem tells_auth (reply : AuthReply) :
    (tspAuthenticate reply brokers).1.Tells brokers (tspAuthenticate reply brokers).2 := by
  cases reply with
  | accepted => exact Status.tells_same nofun
  | redirect r => exact tells_redirect
  | failed e => exact Status.tells_same (by cases e <;> exact nofun)

theorem tells_negotiation : (tspTunnelNegotiation session versionIndex brokers).1.Tells brokers
    (tspTunnelNegotiation session versionIndex brokers).2 := by
  unfold tspTunnelNegotiation
  cases session.negotiation with
  | starved | lost => exact Status.tells_same nofun
  | status code redirect =>
    dsimp only
    split_ifs
    · exact tells_redirect
    · exact Status.tells_same nofun
    · exact Status.tells_same nofun
    · exact Status.tells_same nofun
    · exact Status.tells_same nofun

theorem LocalEnd.status_ne_redirected (e : LocalEnd) : e.status ≠ .redirected := by
  cases e <;> exact Status.noConfusion

theorem tells_authenticated : (setUpAuthenticated conf session versionIndex brokers).status.Tells
    brokers (setUpAuthenticated conf session versionIndex brokers).brokers := by
  unfold setUpAuthenticated
  cases tspUpdateSourceAddr conf session with
  | none => exact Status.tells_same nofun
  | some conf' =>
    dsimp only
    split_ifs with hnego
    · have hsame : (tspTunnelNegotiation session versionIndex brokers).2 = brokers := by
        refine tells_negotiation.kept ?_
        rw [hnego]
        exact not_or.mpr ⟨nofun, nofun⟩
      rw [hsame]
      exact Status.tells_same (LocalEnd.status_ne_redirected _)
    · exact tells_negotiation

theorem tells_setup : (tspSetupTunnel conf session versionIndex brokers).status.Tells brokers
    (tspSetupTunnel conf session versionIndex brokers).brokers := by
  unfold tspSetupTunnel
  cases session.connect with
  | badAddress | unresolved | refused => exact Status.tells_same nofun
  | connected =>
    unfold setUpConnected
    dsimp only
    split_ifs with hcap hmode hauth hio
    · exact Status.tells_same nofun
    · rw [accepted_of_success hauth]
      exact tells_authenticated
    · exact tells_auth _
    · exact Status.tells_same nofun
    · exact tells_capabilities _

end Tells

end Maiccu.Gogoc
