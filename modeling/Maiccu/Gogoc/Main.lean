import Maiccu.Gogoc.Session

/-!
# The connection loop

`tspMain` (`tsp_client.c`) is a loop of rounds around a loop of connection attempts; a `Main` is the
state at the top of an attempt. The variables of a round start anew with each round; the flag
`trying_original_server`, the server and the configuration do not.
-/

namespace Maiccu.Gogoc

open Maiccu.Lib

/-- A pointer to a node of a list: the number of the list, and the nodes from there on. -/
structure Cursor where
  made : ℕ
  nodes : List Broker

/-- The variables of `tspMain` at the top of an attempt. -/
structure Main where
  conf : Conf
  brokers : BrokerList
  tryingOriginalServer : Bool
  readLastServer : Bool
  originalServer : List UInt8
  loopDelay : ℤ
  versionIndex : ℕ
  cycle : ℕ
  tspVersionFallback : Bool
  currentBroker : Option Cursor
  tryingBrokerList : Bool
  effectiveRetryDelay : UInt16
  consecRetry : UInt8

/-- What an attempt meets. -/
structure Attempt where
  /-- `tspCheckForStopOrWait` reports a stop. -/
  stop : Bool
  session : Session
  /-- The content of the broker list file, if it can be opened. -/
  brokerListFile : Option (List UInt8)
  /-- `malloc` returns null in `FormatBrokerListAddr`. -/
  starved : Bool
  /-- The value of `effective_retry_delay`, which is not initialized, in a new round. -/
  junk : UInt16

inductive Verdict where
  /-- `continue` -/
  | again (s : Main)
  /-- The switch is left, and the retry delay is waited for. -/
  | wait (s : Main)
  /-- `connected = 0; continue` -/
  | endRound (s : Main)
  /-- `goto endtspc` -/
  | quit
  /-- A pointer to no node is followed. -/
  | fault

def toUInt16 (n : ℤ) : UInt16 := UInt16.ofNat (n % 65536).toNat

variable (s : Main)

def Main.newRound (junk : UInt16) : Main :=
  { s with
    versionIndex := 0
    cycle := 0
    tspVersionFallback := false
    currentBroker := none
    tryingBrokerList := false
    effectiveRetryDelay := junk
    consecRetry := 0 }

/-- All before the loops; `server` is the configured one, and `file` the content of the file with
the last one. -/
def Main.start (conf : Conf) (server : List UInt8) (file : Option (List UInt8)) (junk : UInt16) :
    Main :=
  let s : Main :=
    { conf := { conf with server := some server }
      brokers := ⟨0, []⟩
      tryingOriginalServer := true
      readLastServer := false
      originalServer := server
      loopDelay := conf.retryDelay
      versionIndex := 0
      cycle := 0
      tspVersionFallback := false
      currentBroker := none
      tryingBrokerList := false
      effectiveRetryDelay := junk
      consecRetry := 0 }
  if conf.alwaysUseSameServer ∧ conf.lastServerFile ≠ [] then
    match tspReadLastServerFromFile file with
    | .ok last =>
      { s with
        conf := { s.conf with server := some last }
        readLastServer := true
        tryingOriginalServer := false }
    | .error _ => s
  else s

/-! ## The transport -/

/-- `CLIENT_VERSION_INDEX_V6UDPV4_START`, and the same for `V4V6`. -/
def versionIndexStart : ℕ := 2

/-- One case of the switch over the transport cycle. If the version was not supported an older one
is taken, down to `oldest`; nothing if there is none. -/
def Main.useTransport (cycle : ℕ) (oldest : ℕ) (t : Transport) : Option Main :=
  if s.tspVersionFallback then
    if s.versionIndex < oldest then
      some { s with
        conf := { s.conf with transport := t }
        cycle := cycle
        versionIndex := s.versionIndex + 1
        tspVersionFallback := false }
    else none
  else
    some { s with
      conf := { s.conf with transport := t }
      cycle := cycle
      versionIndex := 0 }

/-- The switch over the tunnel mode. A cycle past the last transport is set to 0. -/
def Main.chooseTransport : Option Main :=
  match s.conf.tunnelMode with
  | .v6udpv4 => s.useTransport 0 (min versionIndexStart versionIndexOldest) .rudp
  | .v6anyv4 | .v6v4 =>
    if s.cycle = 1 then s.useTransport 1 versionIndexOldest .tcp
    else s.useTransport 0 versionIndexOldest .rudp
  | .v4v6 =>
    if s.cycle = 1 then s.useTransport 1 (min versionIndexStart versionIndexOldest) .tcp6
    else s.useTransport 0 (min versionIndexStart versionIndexOldest) .rudp6

def Main.quickCycle : Bool :=
  ((s.conf.tunnelMode = .v6anyv4 ∨ s.conf.tunnelMode = .v6v4) ∧ s.conf.transport = .rudp) ∨
    (s.conf.tunnelMode = .v4v6 ∧ s.conf.transport = .rudp6)

/-! ## A failed connection -/

/-- The original server does not answer: the broker list is read from its file. -/
def Main.onOriginalFailed (a : Attempt) : Verdict :=
  let cycled := { s with brokers := s.brokers.free, cycle := s.cycle + 1 }
  if s.conf.brokerListFile = [] then .wait cycled
  else
    match tspReadBrokerListFromFile a.brokerListFile with
    | (some _, _) => .wait cycled
    | (none, []) => .wait cycled
    | (none, b :: rest) =>
      let brokers := s.brokers.renew (b :: rest)
      if s.cycle = 0 then .again { s with brokers := brokers, cycle := s.cycle + 1 }
      else
        match formatBrokerListAddr a.starved b with
        | none => .quit
        | some addr =>
          .again { s with
            brokers := brokers
            tryingBrokerList := true
            tryingOriginalServer := false
            currentBroker := some ⟨brokers.made, b :: rest⟩
            conf := { s.conf with server := some addr }
            cycle := 0 }

variable {a : Attempt} {s}

/-- The list is empty or cannot be read, the other transport is tried before the list, or the first
broker of the list is. -/
theorem onOriginalFailed_cases :
    s.onOriginalFailed a = .wait { s with brokers := s.brokers.free, cycle := s.cycle + 1 } ∨
    (∃ b rest, s.cycle = 0 ∧ s.onOriginalFailed a =
      .again { s with brokers := s.brokers.renew (b :: rest), cycle := s.cycle + 1 }) ∨
    (∃ b rest addr, s.cycle ≠ 0 ∧ formatBrokerListAddr a.starved b = some addr ∧
      s.onOriginalFailed a =
        .again { s with
          brokers := s.brokers.renew (b :: rest)
          tryingBrokerList := true
          tryingOriginalServer := false
          currentBroker := some ⟨(s.brokers.renew (b :: rest)).made, b :: rest⟩
          conf := { s.conf with server := some addr }
          cycle := 0 }) ∨
    a.starved = true ∧ s.onOriginalFailed a = .quit := by
  unfold Main.onOriginalFailed
  by_cases hfile : s.conf.brokerListFile = []
  · rw [if_pos hfile]
    exact .inl rfl
  rw [if_neg hfile]
  rcases tspReadBrokerListFromFile a.brokerListFile with ⟨_ | e, _ | ⟨b, rest⟩⟩
  · exact .inl rfl
  · dsimp only
    by_cases hcycle : s.cycle = 0
    · rw [if_pos hcycle]
      exact .inr (.inl ⟨b, rest, hcycle, rfl⟩)
    rw [if_neg hcycle]
    cases haddr : formatBrokerListAddr a.starved b with
    | none => exact .inr (.inr (.inr ⟨starved_of_format haddr, rfl⟩))
    | some addr => exact .inr (.inr (.inl ⟨b, rest, addr, hcycle, haddr, rfl⟩))
  · exact .inl rfl
  · exact .inl rfl

/-- A broker does not answer: the next one is tried, after the last one the original server. -/
def Main.onBrokerFailed (s : Main) (a : Attempt) : Verdict :=
  match s.currentBroker with
  -- The message for this case is printed from the pointer itself.
  | none => .fault
  | some c =>
    if s.brokers.nodes = [] ∨ c.made ≠ s.brokers.made then .fault
    else
      match c.nodes with
      | [] => .fault
      | [_] =>
        .wait { s with
          conf := { s.conf with server := some s.originalServer }
          cycle := 0
          tryingOriginalServer := true }
      | _ :: b :: rest =>
        match formatBrokerListAddr a.starved b with
        | none => .quit
        | some addr =>
          .again { s with
            currentBroker := some ⟨c.made, b :: rest⟩
            conf := { s.conf with server := some addr }
            cycle := 0 }

def Main.forceWait (s : Main) : Main :=
  { s with effectiveRetryDelay := toUInt16 s.conf.retryDelay, consecRetry := 1 }

/-- `ERR_FAIL_SOCKET_CONNECT`, and `ERR_AUTHENTICATION_FAILURE` falls through to it. -/
def Main.onFailedConnect (s : Main) (a : Attempt) : Verdict :=
  if s.conf.bootMode then .endRound s
  else if s.quickCycle then .again { s with cycle := s.cycle + 1 }
  else if s.readLastServer then .wait { s with cycle := s.cycle + 1 }
  else
    if s.tryingOriginalServer then s.forceWait.onOriginalFailed a
    else if s.tryingBrokerList then s.forceWait.onBrokerFailed a
    else .wait s.forceWait

/-! ## The switch over the status -/

/-- `EVNT_BROKER_REDIRECTION`. -/
def Main.onRedirected (s : Main) (a : Attempt) : Verdict :=
  match s.brokers.nodes with
  | [] => .endRound s
  | b :: rest =>
    let s' := { s with
      tryingBrokerList := true
      tryingOriginalServer := false
      currentBroker := some ⟨s.brokers.made, b :: rest⟩
      conf := { s.conf with server := formatBrokerListAddr a.starved b }
      cycle := 0 }
    match formatBrokerListAddr a.starved b with
    | none => .endRound s'
    | some _ => .again s'

def Main.onStatus (s : Main) (a : Attempt) : Status → Verdict
  | .success => .endRound s
  | .keepaliveTimeout =>
    if s.conf.autoRetryConnect then .wait { s with consecRetry := 0 }
    else .endRound { s with consecRetry := 0 }
  | .noCommonAuthentication => .endRound s
  | .interfaceSetupFailed => .endRound s
  | .tunLeaseExpired => .again s
  | .invalTspVersion =>
    .again { s with
      tspVersionFallback := true
      cycle := if s.versionIndex = 2 then 1 else s.cycle }
  | .socketIo =>
    if s.quickCycle then .again { s with consecRetry := 0 } else .wait { s with consecRetry := 0 }
  | .tspServerTooBusy => .wait s.forceWait
  | .tspGenericError => .endRound s
  | .authenticationFailure => s.onFailedConnect a
  | .failSocketConnect => s.onFailedConnect a
  | .redirected => s.onRedirected a
  | .badRedirection => .endRound { s with brokers := s.brokers.free }
  | .memoryStarvation => .endRound s
  | .tunmodeNotAvailable => .endRound s
  | .tunnelIo => .wait { s with consecRetry := 0 }
  | .keepaliveError => .wait { s with consecRetry := 0 }
  | .badTunnelParam => .endRound s
  | .invalGogocAddress => .endRound s
  | .failResolvAddr => .endRound s
  | .invalCfgFile => .endRound s
  | .invalClientAddr => .endRound s

/-! ## The loops -/

/-- The end of the body of the inner loop. `CONSEC_RETRY_TO_DOUBLE_WAIT` is 3. -/
def Main.waitRetry (s : Main) : Main :=
  if 0 < s.consecRetry then
    let doubled := 2 * s.effectiveRetryDelay
    { s with
      effectiveRetryDelay :=
        if s.consecRetry % 3 = 0 then
          if s.conf.retryDelayMax < doubled.toNat then toUInt16 s.conf.retryDelayMax else doubled
        else s.effectiveRetryDelay
      consecRetry := s.consecRetry + 1 }
  else
    { s with
      consecRetry := s.consecRetry + 1
      effectiveRetryDelay := toUInt16 s.conf.retryDelay }

def Main.doubleLoopDelay (s : Main) : Main :=
  { s with
    loopDelay :=
      if s.conf.retryDelayMax < 2 * s.loopDelay then s.conf.retryDelayMax else 2 * s.loopDelay }

/-- The session of an attempt with the transport chosen, and its end. -/
def Main.session (s : Main) (a : Attempt) : SessionEnd :=
  tspSetupTunnel s.conf a.session s.versionIndex s.brokers

def Main.afterSession (s : Main) (a : Attempt) : Main :=
  { s with conf := (s.session a).conf, brokers := (s.session a).brokers }

def Main.attempt (s : Main) (a : Attempt) : Verdict :=
  if a.stop then .quit
  else
    match s.chooseTransport with
    | none => .endRound s
    | some s₁ => (s₁.afterSession a).onStatus a (s₁.session a).status

def Main.step (s : Main) (a : Attempt) : Option Main :=
  match s.attempt a with
  | .again s' => some s'
  | .wait s' => some s'.waitRetry
  | .endRound s' =>
    if s'.conf.bootMode then none else some (s'.doubleLoopDelay.newRound a.junk)
  | .quit => none
  | .fault => none

def Main.request (s : Main) (a : Attempt) : Option (List UInt8) :=
  if a.stop then none
  else
    match s.chooseTransport with
    | none => none
    | some s₁ => (s₁.session a).request

/-! ## What an attempt does to the configuration -/

def Verdict.All (p : Main → Prop) : Verdict → Prop
  | .again s => p s
  | .wait s => p s
  | .endRound s => p s
  | .quit => True
  | .fault => True

theorem Verdict.All.imp {p q : Main → Prop} {v : Verdict} (h : v.All p) (hpq : ∀ s, p s → q s) :
    v.All q := by
  cases v with
  | again s | wait s | endRound s => exact hpq s h
  | quit | fault => trivial

def Main.ConfKept (s s' : Main) : Prop := s'.conf = { s.conf with server := s'.conf.server }

def Main.SameElse (s s' : Main) : Prop :=
  s' = { s with
    conf := { s.conf with server := s'.conf.server }
    brokers := s'.brokers
    tryingOriginalServer := s'.tryingOriginalServer
    cycle := s'.cycle
    currentBroker := s'.currentBroker
    tryingBrokerList := s'.tryingBrokerList }

def Main.switched (s : Main) : Status → Main
  | .keepaliveTimeout | .socketIo | .tunnelIo | .keepaliveError => { s with consecRetry := 0 }
  | .tspServerTooBusy => s.forceWait
  | .invalTspVersion => { s with tspVersionFallback := true }
  | .authenticationFailure | .failSocketConnect =>
    if s.conf.bootMode ∨ s.quickCycle ∨ s.readLastServer then s else s.forceWait
  | _ => s

theorem onOriginalFailed_same (s : Main) (a : Attempt) : (s.onOriginalFailed a).All s.SameElse := by
  obtain h | ⟨b, rest, -, h⟩ | ⟨b, rest, addr, -, -, h⟩ | ⟨-, h⟩ := onOriginalFailed_cases
  · rw [h]
    rfl
  · rw [h]
    rfl
  · rw [h]
    rfl
  · rw [h]
    trivial

theorem onBrokerFailed_same (s : Main) (a : Attempt) : (s.onBrokerFailed a).All s.SameElse := by
  unfold Main.onBrokerFailed
  split
  · trivial
  split_ifs
  · trivial
  split
  · trivial
  · rfl
  · split
    · trivial
    · rfl

theorem onFailedConnect_same (s : Main) (a : Attempt) :
    (s.onFailedConnect a).All (s.switched .failSocketConnect).SameElse := by
  unfold Main.onFailedConnect Main.switched
  by_cases hboot : s.conf.bootMode = true
  · rw [if_pos hboot, if_pos (.inl hboot)]
    rfl
  rw [if_neg hboot]
  by_cases hquick : s.quickCycle = true
  · rw [if_pos hquick, if_pos (.inr (.inl hquick))]
    rfl
  rw [if_neg hquick]
  by_cases hlast : s.readLastServer = true
  · rw [if_pos hlast, if_pos (.inr (.inr hlast))]
    rfl
  rw [if_neg hlast, if_neg (by tauto)]
  split_ifs
  · exact onOriginalFailed_same _ a
  · exact onBrokerFailed_same _ a
  · rfl

theorem onStatus_same {status : Status} :
    (s.onStatus a status).All (s.switched status).SameElse := by
  cases status with
  | failSocketConnect | authenticationFailure => exact onFailedConnect_same s a
  | redirected =>
    unfold Main.onStatus Main.onRedirected
    dsimp only
    split
    · rfl
    · split
      · rfl
      · rfl
  | keepaliveTimeout | socketIo =>
    unfold Main.onStatus
    dsimp only
    split_ifs
    · rfl
    · rfl
  | _ => rfl

theorem switched_conf (s : Main) (status : Status) : (s.switched status).conf = s.conf := by
  cases status with
  | failSocketConnect | authenticationFailure =>
    unfold Main.switched
    split_ifs
    · rfl
    · rfl
  | _ => rfl

theorem onStatus_conf (s : Main) (a : Attempt) (status : Status) :
    (s.onStatus a status).All s.ConfKept := by
  refine onStatus_same.imp fun s' h => ?_
  unfold Main.ConfKept
  rw [h, switched_conf]

theorem waitRetry_eq (s : Main) : s.waitRetry =
    { s with
      effectiveRetryDelay := s.waitRetry.effectiveRetryDelay
      consecRetry := s.consecRetry + 1 } := by
  unfold Main.waitRetry
  by_cases h : 0 < s.consecRetry
  · rw [if_pos h]
  · rw [if_neg h]

section Step

variable {s₁ s' : Main}

theorem step_cases (hstep : s.step a = some s') :
    s.attempt a = .again s' ∨ (∃ s₂, s.attempt a = .wait s₂ ∧ s' = s₂.waitRetry) ∨
      ∃ s₂, s.attempt a = .endRound s₂ ∧ s₂.conf.bootMode = false ∧
        s' = s₂.doubleLoopDelay.newRound a.junk := by
  unfold Main.step at hstep
  cases hv : s.attempt a with
  | again s₂ =>
    rw [hv] at hstep
    cases hstep
    exact .inl rfl
  | wait s₂ =>
    rw [hv] at hstep
    cases hstep
    exact .inr (.inl ⟨s₂, rfl, rfl⟩)
  | endRound s₂ =>
    rw [hv] at hstep
    dsimp only at hstep
    split_ifs at hstep with hboot
    cases hstep
    exact .inr (.inr ⟨s₂, rfl, Bool.not_eq_true _ ▸ hboot, rfl⟩)
  | quit | fault =>
    rw [hv] at hstep
    cases hstep

theorem step_of_all {p : Conf → Bool → Prop}
    (h : (s.attempt a).All fun s => p s.conf s.tryingOriginalServer)
    (hstep : s.step a = some s') : p s'.conf s'.tryingOriginalServer := by
  obtain hv | ⟨s₂, hv, rfl⟩ | ⟨s₂, hv, -, rfl⟩ := step_cases hstep
  · rw [hv] at h
    exact h
  · rw [hv] at h
    rw [waitRetry_eq]
    exact h
  · rw [hv] at h
    exact h

theorem stop_of_step (hstep : s.step a = some s') : a.stop = false := by
  cases hstop : a.stop with
  | false => rfl
  | true =>
    unfold Main.step Main.attempt at hstep
    rw [hstop] at hstep
    cases hstep

theorem attempt_of_choose (hstop : a.stop = false) (hchoose : s.chooseTransport = some s₁) :
    s.attempt a = (s₁.afterSession a).onStatus a (s₁.session a).status := by
  unfold Main.attempt
  rw [hstop, hchoose]
  rfl

theorem step_conf (hstep : s.step a = some s') :
    (s.chooseTransport = none ∧ s'.conf = s.conf) ∨
      ∃ s₁, s.chooseTransport = some s₁ ∧
        s'.conf = { (s₁.session a).conf with server := s'.conf.server } := by
  have hstop := stop_of_step hstep
  cases hchoose : s.chooseTransport with
  | none =>
    refine .inl ⟨rfl, step_of_all (p := fun c _ => c = s.conf) ?_ hstep⟩
    unfold Main.attempt
    rw [hstop, hchoose]
    rfl
  | some s₁ =>
    refine .inr ⟨s₁, rfl, step_of_all
      (p := fun c _ => c = { (s₁.session a).conf with server := c.server }) ?_ hstep⟩
    rw [attempt_of_choose hstop hchoose]
    exact onStatus_conf (s₁.afterSession a) a (s₁.session a).status

theorem useTransport_eq {cycle oldest : ℕ} {t : Transport}
    (h : s.useTransport cycle oldest t = some s₁) :
    s₁ = { s with
      conf := { s.conf with transport := t }
      cycle := cycle
      versionIndex := s₁.versionIndex
      tspVersionFallback := false } := by
  unfold Main.useTransport at h
  split_ifs at h with hfallback
  · cases h
    rfl
  · cases h
    rw [Bool.not_eq_true] at hfallback
    rw [← hfallback]

theorem chooseTransport_eq (h : s.chooseTransport = some s₁) :
    s₁ = { s with
      conf := { s.conf with transport := s₁.conf.transport }
      cycle := s₁.cycle
      versionIndex := s₁.versionIndex
      tspVersionFallback := false } ∧
    match s.conf.tunnelMode with
    | .v6udpv4 => s₁.cycle = 0 ∧ s₁.conf.transport = .rudp
    | .v6anyv4 | .v6v4 => s₁.cycle = 0 ∧ s.cycle ≠ 1 ∧ s₁.conf.transport = .rudp ∨
        s₁.cycle = 1 ∧ s.cycle = 1 ∧ s₁.conf.transport = .tcp
    | .v4v6 => s₁.cycle = 0 ∧ s.cycle ≠ 1 ∧ s₁.conf.transport = .rudp6 ∨
        s₁.cycle = 1 ∧ s.cycle = 1 ∧ s₁.conf.transport = .tcp6 := by
  unfold Main.chooseTransport at h
  cases hmode : s.conf.tunnelMode with
  | v6udpv4 =>
    rw [hmode] at h
    rw [useTransport_eq h]
    exact ⟨rfl, rfl, rfl⟩
  | v6anyv4 | v6v4 | v4v6 =>
    simp only [hmode] at h
    split_ifs at h with hcycle
    · rw [useTransport_eq h]
      exact ⟨rfl, .inr ⟨rfl, hcycle, rfl⟩⟩
    · rw [useTransport_eq h]
      exact ⟨rfl, .inl ⟨rfl, hcycle, rfl⟩⟩

theorem chooseTransport_tunnelMode (h : s.chooseTransport = some s₁) :
    s₁.conf.tunnelMode = s.conf.tunnelMode := by
  rw [(chooseTransport_eq h).1]

/-- What no attempt changes of the configuration. -/
def Conf.fixed (conf : Conf) : Conf :=
  { conf with
    server := none
    clientV4 := []
    clientV6 := []
    prefixlen := 0
    dnsServer := []
    transport := .rudp }

theorem session_fixed (hchoose : s.chooseTransport = some s₁) :
    (s₁.session a).conf.fixed = s.conf.fixed := by
  unfold Main.session
  rw [sameSetup_setup, (chooseTransport_eq hchoose).1]
  rfl

theorem step_fixed (hstep : s.step a = some s') : s'.conf.fixed = s.conf.fixed := by
  obtain ⟨-, hconf⟩ | ⟨s₁, hchoose, hconf⟩ := step_conf hstep
  · rw [hconf]
  · rw [hconf]
    exact session_fixed hchoose

theorem step_tunnelMode (hstep : s.step a = some s') : s'.conf.tunnelMode = s.conf.tunnelMode :=
  (congrArg Conf.tunnelMode (step_fixed hstep) :)

end Step

abbrev hostStart : Main := Main.start hostConf (ascii "anonymous.freenet6.net") none 0

end Maiccu.Gogoc
