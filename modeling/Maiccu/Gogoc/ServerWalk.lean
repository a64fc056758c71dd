import Maiccu.Gogoc.Main
import Maiccu.Lib.Run

/-!
# Which server is tried

At the top of an attempt the server is the configured one, that of a broker in the list that is
walked, or the last one. The flag `trying_original_server` outlives a round, and
`trying_broker_list` does not: a round that ends during the walk leaves neither.
-/

namespace Maiccu.Gogoc

open Maiccu.Lib Option

/-- With `trying_original_server` the server is the configured one; without it a broker list is
walked, or the file with the last server was used. -/
structure Main.HasServer (server : List UInt8) (s : Main) : Prop where
  original : s.tryingOriginalServer = true → s.conf.server = some server
  other : s.tryingOriginalServer = false → s.tryingBrokerList = true ∨ s.readLastServer = true

def Main.AtBroker (s : Main) : Prop :=
  ∃ b rest, s.currentBroker = some ⟨s.brokers.made, b :: rest⟩ ∧ (b :: rest) <:+ s.brokers.nodes ∧
    s.conf.server = formatBrokerListAddr false b

structure Main.Ok (server : List UInt8) (s : Main) : Prop extends s.HasServer server where
  saved : s.originalServer = server
  broker : s.tryingBrokerList = true → s.tryingOriginalServer = false → s.AtBroker

/-- While the broker list is walked, the current broker is a node of the list. -/
def Main.Walks (s : Main) : Prop :=
  s.tryingBrokerList = true → s.tryingOriginalServer = false → s.AtBroker

/-- What holds in every run; with `kept` it has not lost its server. -/
structure Main.Known (server : List UInt8) (kept : Prop) (s : Main) : Prop where
  hasServer : kept → s.HasServer server
  saved : s.originalServer = server
  walks : s.Walks

variable {server : List UInt8} {s s' s₁ : Main} {a : Attempt}

theorem Main.Ok.known (h : s.Ok server) (kept : Prop) :
    s.Known server kept :=
  ⟨fun _ => h.toHasServer, h.saved, h.broker⟩

theorem Main.Known.ok (h : s.Known server True) : s.Ok server :=
  ⟨h.hasServer trivial, h.saved, h.walks⟩

def Main.walk (s : Main) : Option (List UInt8) × BrokerList × Bool × Bool × List UInt8 ×
    Option Cursor × Bool :=
  (s.conf.server, s.brokers, s.tryingOriginalServer, s.readLastServer, s.originalServer,
    s.currentBroker, s.tryingBrokerList)

theorem Main.Known.frame {kept : Prop} (h : s.Known server kept) (hwalk : s'.walk = s.walk) :
    s'.Known server kept := by
  simp only [Main.walk, Prod.mk.injEq] at hwalk
  obtain ⟨hserver, hbrokers, horig, hlast, hsaved, hcur, htrying⟩ := hwalk
  refine ⟨fun hkept => ⟨?_, ?_⟩, hsaved.trans h.saved, ?_⟩
  · rw [horig, hserver]
    exact (h.hasServer hkept).original
  · rw [horig, htrying, hlast]
    exact (h.hasServer hkept).other
  · unfold Main.Walks Main.AtBroker
    rw [htrying, horig, hcur, hbrokers, hserver]
    exact h.walks

/-- What holds of the state that a verdict leaves: `cont` if there is another attempt in the round,
`ended` if there is none. -/
def Verdict.Meets (cont ended : Main → Prop) : Verdict → Prop
  | .again s => cont s
  | .wait s => cont s
  | .endRound s => ended s
  | .quit => True
  | .fault => False

theorem Verdict.Meets.imp {cont cont' ended ended' : Main → Prop} {v : Verdict}
    (h : v.Meets cont ended) (hcont : ∀ s, cont s → cont' s) (hended : ∀ s, ended s → ended' s) :
    v.Meets cont' ended' := by
  cases v with
  | again s | wait s => exact hcont s h
  | endRound s => exact hended s h
  | quit => trivial
  | fault => exact h

variable {conf : Conf} {file : Option (List UInt8)} {junk : UInt16}

/-! ## The start -/

theorem start_ok : (Main.start conf server file junk).Ok server := by
  unfold Main.start
  split_ifs
  · split
    · exact ⟨⟨nofun, fun _ => .inr rfl⟩, rfl, nofun⟩
    · exact ⟨⟨fun _ => rfl, nofun⟩, rfl, nofun⟩
  · exact ⟨⟨fun _ => rfl, nofun⟩, rfl, nofun⟩

/-! ## A failed connection -/

section FailedConnect

variable {kept : Prop} (a)

theorem onOriginalFailed_known (h : s.Known server kept) (horig : s.tryingOriginalServer = true) :
    (s.onOriginalFailed a).Meets (Main.Known server kept) fun _ => False := by
  have hno : s.tryingOriginalServer ≠ false := by
    rw [horig]
    exact Bool.noConfusion
  obtain hv | ⟨b, rest, -, hv⟩ | ⟨b, rest, addr, -, haddr, hv⟩ | ⟨-, hv⟩ :=
    onOriginalFailed_cases
  · rw [hv]
    exact ⟨fun hk => ⟨(h.hasServer hk).1, (h.hasServer hk).2⟩, h.saved, fun _ ho => absurd ho hno⟩
  · rw [hv]
    exact ⟨fun hk => ⟨(h.hasServer hk).1, (h.hasServer hk).2⟩, h.saved, fun _ ho => absurd ho hno⟩
  · rw [hv]
    exact ⟨fun _ => ⟨nofun, fun _ => .inl rfl⟩, h.saved,
      fun _ _ => ⟨b, rest, rfl, List.suffix_refl _, (format_of_some haddr).symm⟩⟩
  · rw [hv]
    trivial

theorem onBrokerFailed_cases (hat : s.AtBroker) :
    (s.onBrokerFailed a = .wait { s with
      conf := { s.conf with server := some s.originalServer }
      cycle := 0
      tryingOriginalServer := true }) ∨
    (∃ b c rest addr, s.currentBroker = some ⟨s.brokers.made, b :: c :: rest⟩ ∧
      (c :: rest) <:+ s.brokers.nodes ∧ formatBrokerListAddr a.starved c = some addr ∧
      s.onBrokerFailed a = .again { s with
        currentBroker := some ⟨s.brokers.made, c :: rest⟩
        conf := { s.conf with server := some addr }
        cycle := 0 }) ∨
    a.starved = true ∧ s.onBrokerFailed a = .quit := by
  obtain ⟨b, rest, hcur, hsuffix, -⟩ := hat
  have hlive : ¬(s.brokers.nodes = [] ∨ s.brokers.made ≠ s.brokers.made) := by
    rintro (hnil | hmade)
    · rw [hnil, List.suffix_nil] at hsuffix
      cases hsuffix
    · exact hmade rfl
  unfold Main.onBrokerFailed
  rw [hcur]
  dsimp only
  rw [if_neg hlive]
  cases rest with
  | nil => exact .inl rfl
  | cons c rest =>
    dsimp only
    cases haddr : formatBrokerListAddr a.starved c with
    | none => exact .inr (.inr ⟨starved_of_format haddr, rfl⟩)
    | some addr =>
      exact .inr (.inl ⟨b, c, rest, addr, rfl, (List.suffix_cons b _).trans hsuffix, haddr, rfl⟩)

theorem onBrokerFailed_known (h : s.Known server kept) (horig : s.tryingOriginalServer = false)
    (hwalk : s.tryingBrokerList = true) :
    (s.onBrokerFailed a).Meets (Main.Known server kept) fun _ => False := by
  obtain hv | ⟨b, c, rest, addr, -, hsuffix, haddr, hv⟩ | ⟨-, hv⟩ :=
    onBrokerFailed_cases a (h.walks hwalk horig)
  · rw [hv]
    exact ⟨fun _ => ⟨fun _ => congrArg some h.saved, nofun⟩, h.saved,
      nofun⟩
  · rw [hv]
    refine ⟨fun hk => ⟨fun ho => ?_, (h.hasServer hk).2⟩, h.saved,
      fun _ _ => ⟨c, rest, rfl, hsuffix, (format_of_some haddr).symm⟩⟩
    rw [horig] at ho
    cases ho
  · rw [hv]
    trivial

theorem onFailedConnect_known (h : s.Known server kept) :
    (s.onFailedConnect a).Meets (Main.Known server kept) fun s' => s'.conf.bootMode = true := by
  have hwait : s.forceWait.Known server kept := h.frame rfl
  unfold Main.onFailedConnect
  split_ifs with hboot hquick hlast horig hwalk
  · exact hboot
  · exact h.frame rfl
  · exact h.frame rfl
  · exact (onOriginalFailed_known a hwait horig).imp (fun _ => id) fun _ => False.elim
  · rw [Bool.not_eq_true] at horig
    exact (onBrokerFailed_known a hwait horig hwalk).imp (fun _ => id) fun _ => False.elim
  · exact hwait

end FailedConnect

/-! ## The end of a round -/

/-- The statuses after which the round is over, whatever the state is. -/
def Status.fatal (autoRetryConnect : Bool) : Status → Bool
  | .success => true
  | .memoryStarvation => true
  | .invalCfgFile => true
  | .invalGogocAddress => true
  | .invalClientAddr => true
  | .failResolvAddr => true
  | .tspGenericError => true
  | .badRedirection => true
  | .tunmodeNotAvailable => true
  | .noCommonAuthentication => true
  | .interfaceSetupFailed => true
  | .badTunnelParam => true
  | .keepaliveTimeout => !autoRetryConnect
  | _ => false

/-- There was a redirection, and there is no memory for the address of the first broker. -/
def Main.Unformatted (s : Main) (a : Attempt) (status : Status) : Prop :=
  status = .redirected ∧ s.brokers.nodes.head?.bind (formatBrokerListAddr a.starved) = none

/-- What holds when a round is over. -/
structure Main.Ended (server : List UInt8) (s : Main) : Prop where
  original : s.tryingOriginalServer = true → s.conf.server = some server
  saved : s.originalServer = server

variable {status : Status}

section Round

variable {kept : Prop}

theorem onRedirected_known (hsaved : s.originalServer = server) (hnodes : s.brokers.nodes ≠ []) :
    (s.onRedirected a).Meets
      (fun s' => s'.Known server kept ∧ ¬s.Unformatted a .redirected)
      (fun s' => s'.Ended server ∧ s'.readLastServer = s.readLastServer ∧
        s.Unformatted a .redirected ∧ s'.tryingOriginalServer = false) := by
  unfold Main.onRedirected Main.Unformatted
  cases hlist : s.brokers.nodes with
  | nil => exact absurd hlist hnodes
  | cons b rest =>
    dsimp only [List.head?_cons, bind_some]
    cases haddr : formatBrokerListAddr a.starved b with
    | none => exact ⟨⟨nofun, hsaved⟩, rfl, ⟨rfl, rfl⟩, rfl⟩
    | some addr =>
      have hsuffix : (b :: rest) <:+ s.brokers.nodes := ⟨[], hlist.symm⟩
      exact ⟨⟨fun _ => ⟨nofun, fun _ => .inl rfl⟩, hsaved,
        fun _ _ => ⟨b, rest, rfl, hsuffix, (format_of_some haddr).symm⟩⟩, fun h => (nomatch h.2)⟩

theorem onStatus_known (hsaved : s.originalServer = server)
    (hended : kept → s.Ended server) (hok : ¬status.OfRedirect → s.Known server kept)
    (hnodes : status = .redirected → s.brokers.nodes ≠ []) :
    (s.onStatus a status).Meets
      (fun s' => s'.Known server kept ∧ ¬(status.fatal s.conf.autoRetryConnect = true) ∧
        ¬s.Unformatted a status)
      (fun s' => s'.conf.bootMode = true ∨ (kept → s'.Ended server) ∧
        s'.readLastServer = s.readLastServer ∧
        (status.fatal s.conf.autoRetryConnect = true ∧
            s'.tryingOriginalServer = s.tryingOriginalServer ∨
          s.Unformatted a status ∧ s'.tryingOriginalServer = false)) := by
  cases status with
  | redirected =>
    exact (onRedirected_known hsaved (hnodes rfl)).imp
      (fun _ h => ⟨h.1, Bool.false_ne_true, h.2⟩) fun _ h =>
        .inr ⟨fun _ => h.1, h.2.1, .inr h.2.2⟩
  | success | memoryStarvation | invalCfgFile | invalGogocAddress | invalClientAddr
  | failResolvAddr | tspGenericError | badRedirection | tunmodeNotAvailable
  | noCommonAuthentication | interfaceSetupFailed | badTunnelParam =>
    exact .inr ⟨fun hk => ⟨(hended hk).1, hsaved⟩, rfl, .inl ⟨rfl, rfl⟩⟩
  | failSocketConnect | authenticationFailure =>
    have h := hok (by rintro (h | h) <;> cases h)
    exact (onFailedConnect_known a h).imp
      (fun _ h' => ⟨h', Bool.false_ne_true, fun hu => (nomatch hu.1)⟩) fun _ => .inl
  | keepaliveTimeout =>
    have h := hok (by rintro (h | h) <;> cases h)
    unfold Main.onStatus
    dsimp only
    split_ifs with hauto
    · refine ⟨h.frame rfl, ?_, fun hu => (nomatch hu.1)⟩
      rw [hauto]
      exact Bool.false_ne_true
    · rw [Bool.not_eq_true] at hauto
      refine .inr ⟨fun hk => ⟨(hended hk).1, hsaved⟩, rfl, .inl ⟨?_, rfl⟩⟩
      rw [hauto]
      rfl
  | socketIo =>
    have h := hok (by rintro (h | h) <;> cases h)
    unfold Main.onStatus
    dsimp only
    split_ifs
    · exact ⟨h.frame rfl, Bool.false_ne_true, fun hu => (nomatch hu.1)⟩
    · exact ⟨h.frame rfl, Bool.false_ne_true, fun hu => (nomatch hu.1)⟩
  | tunLeaseExpired | invalTspVersion | tspServerTooBusy | tunnelIo | keepaliveError =>
    have h := hok (by rintro (h | h) <;> cases h)
    exact ⟨h.frame rfl, Bool.false_ne_true, fun hu => (nomatch hu.1)⟩

/-! ## Steps -/

/-- The attempt ends a round in which a broker was tried, and the next round does not know of it. -/
def Main.Strands (s : Main) (a : Attempt) : Prop :=
  s.conf.bootMode = false ∧ s.readLastServer = false ∧
    match s.chooseTransport with
    | none => s.tryingOriginalServer = false
    | some s₁ =>
      (s₁.session a).status.fatal s.conf.autoRetryConnect = true ∧ s.tryingOriginalServer = false ∨
        (s₁.afterSession a).Unformatted a (s₁.session a).status

theorem chooseTransport_known (h : s.Known server kept) (hchoose : s.chooseTransport = some s₁) :
    s₁.Known server kept := by
  rw [(chooseTransport_eq hchoose).1]
  exact h.frame rfl

theorem afterSession_server (s : Main) (a : Attempt) :
    (s.afterSession a).conf.server = s.conf.server := by
  unfold Main.afterSession Main.session
  rw [sameSetup_setup]

theorem afterSession_known (h : s.Known server kept) (hstatus : ¬(s.session a).status.OfRedirect) :
    (s.afterSession a).Known server kept := by
  have hbrokers : (s.afterSession a).brokers = s.brokers := tells_setup.kept hstatus
  refine h.frame ?_
  unfold Main.walk
  rw [afterSession_server, hbrokers]
  rfl

theorem afterSession_ended (h : s.Known server kept) (hk : kept) :
    (s.afterSession a).Ended server :=
  ⟨fun ho => (afterSession_server s a).trans ((h.hasServer hk).original ho), h.saved⟩

/-- The next attempt of the round is in a good state, and a round ends without a server just if the
attempt strands. -/
theorem attempt_known (h : s.Known server kept) :
    (s.attempt a).Meets (fun s' => s'.Known server kept ∧ ¬s.Strands a)
      (fun s' => s'.conf.bootMode = true ∨ (kept → s'.Ended server) ∧
        s'.readLastServer = s.readLastServer ∧ (s.conf.bootMode = false →
          (s.Strands a ↔ s.readLastServer = false ∧ s'.tryingOriginalServer = false))) := by
  unfold Main.attempt Main.Strands
  split_ifs
  · trivial
  cases hchoose : s.chooseTransport with
  | none =>
    refine .inr ⟨fun hk => ⟨(h.hasServer hk).1, h.saved⟩, rfl, fun hboot => ?_⟩
    rw [and_iff_right hboot]
  | some s₁ =>
    have h₁ := chooseTransport_known h hchoose
    have horig : s₁.tryingOriginalServer = s.tryingOriginalServer := by
      rw [(chooseTransport_eq hchoose).1]
    have hlast : s₁.readLastServer = s.readLastServer := by
      rw [(chooseTransport_eq hchoose).1]
    have hauto : (s₁.afterSession a).conf.autoRetryConnect = s.conf.autoRetryConnect :=
      (congrArg Conf.autoRetryConnect (session_fixed hchoose) :)
    have hmeets := onStatus_known (s := s₁.afterSession a) (a := a) h₁.saved
      (afterSession_ended h₁) (fun hstatus => afterSession_known h₁ hstatus) tells_setup.nodes
    rw [hauto] at hmeets
    dsimp only
    refine hmeets.imp ?_ ?_
    · rintro s' ⟨hok, hfatal, hformat⟩
      exact ⟨hok, fun hs => hs.2.2.elim (fun h => hfatal h.1) hformat⟩
    · rintro s' (hboot | ⟨hended, hlast', hends⟩)
      · exact .inl hboot
      refine .inr ⟨hended, hlast'.trans hlast, fun hboot => ?_⟩
      rw [and_iff_right hboot]
      refine and_congr_right fun _ => ?_
      rcases hends with ⟨hfatal, horig'⟩ | ⟨hformat, horig'⟩
      · have hformat : ¬(s₁.afterSession a).Unformatted a (s₁.session a).status := by
          rintro ⟨hstatus, -⟩
          rw [hstatus] at hfatal
          exact Bool.false_ne_true hfatal
        rw [horig', or_iff_left hformat, and_iff_right hfatal, ← horig]
        rfl
      · exact iff_of_true (.inr hformat) horig'

theorem step_bootMode (hstep : s.step a = some s') : s'.conf.bootMode = s.conf.bootMode :=
  (congrArg Conf.bootMode (step_fixed hstep) :)

theorem newRound_hasServer_iff (h : s.Ended server) :
    (s.doubleLoopDelay.newRound junk).HasServer server ↔
      ¬(s.readLastServer = false ∧ s.tryingOriginalServer = false) := by
  constructor
  · rintro hserver ⟨hlast, horig⟩
    rcases hserver.other horig with hwalk | hlast'
    · cases hwalk
    · exact Bool.false_ne_true (hlast.symm.trans hlast')
  · intro hnot
    refine ⟨h.original, fun horig => .inr ?_⟩
    cases hlast : s.readLastServer with
    | false => exact absurd ⟨hlast, horig⟩ hnot
    | true => exact hlast

theorem waitRetry_known (h : s.Known server kept) : s.waitRetry.Known server kept := by
  rw [waitRetry_eq]
  exact h.frame rfl

theorem step_hasServer_iff (h : s.Ok server) (hstep : s.step a = some s') :
    (s'.HasServer server ↔ ¬s.Strands a) ∧ (¬s.Strands a → s'.Ok server) := by
  have hmeets := attempt_known (a := a) (h.known True)
  obtain hv | ⟨s₂, hv, rfl⟩ | ⟨s₂, hv, hboot, rfl⟩ := step_cases hstep
  · rw [hv] at hmeets
    exact ⟨iff_of_true hmeets.1.ok.toHasServer hmeets.2, fun _ => hmeets.1.ok⟩
  · rw [hv] at hmeets
    have hok := (waitRetry_known hmeets.1).ok
    exact ⟨iff_of_true hok.toHasServer hmeets.2, fun _ => hok⟩
  · rw [hv] at hmeets
    obtain hboot' | ⟨hended, hlast, hstrands⟩ := hmeets
    · rw [hboot] at hboot'
      cases hboot'
    have hiff : (s₂.doubleLoopDelay.newRound a.junk).HasServer server ↔ ¬s.Strands a := by
      rw [newRound_hasServer_iff (hended trivial),
        hstrands ((step_bootMode hstep).symm.trans hboot), hlast]
    exact ⟨hiff, fun hnot => ⟨hiff.mpr hnot, (hended trivial).saved, nofun⟩⟩

end Round

def Main.KeptStep (s : Main) (a : Attempt) (s' : Main) : Prop := s.step a = some s' ∧ ¬s.Strands a

theorem run_ok {as : List Attempt}
    (hrun : Run Main.KeptStep (Main.start conf server file junk) as s) : s.Ok server :=
  hrun.invariant start_ok
    fun _ _ _ h hstep => (step_hasServer_iff h hstep.1).2 hstep.2

/-! ## After a failed connection -/

/-- The transport cycle goes on (to the same transport if the mode has only one), or the original
server is left or taken up again, or the next broker is taken. -/
def Main.MovesOn (s s' : Main) : Prop :=
  s'.cycle = s.cycle + 1 ∨ s'.tryingOriginalServer ≠ s.tryingOriginalServer ∨
    ∃ made b c rest, s.currentBroker = some ⟨made, b :: c :: rest⟩ ∧
      s'.currentBroker = some ⟨made, c :: rest⟩ ∧ s'.conf.server = formatBrokerListAddr false c

/-- The cycle in the next attempt: if there is a second transport it is taken now, and else the
cycle starts again. -/
def Main.Cycles (s s' : Main) : Prop :=
  s.quickCycle = true ∧ s'.cycle = s.cycle + 1 ∨
    s.quickCycle = false ∧ (s'.cycle = s.cycle + 1 ∨ s'.cycle = 0)

def Verdict.Goes (p : Main → Prop) : Verdict → Prop
  | .again s => p s
  | .wait s => p s
  | .endRound _ => False
  | .quit => False
  | .fault => False

theorem step_of_goes {p : Main → Prop} (h : (s.attempt a).Goes p)
    (hwait : ∀ s', p s' → p s'.waitRetry) : ∃ s', s.step a = some s' ∧ p s' := by
  unfold Main.step
  cases hv : s.attempt a with
  | again s' =>
    rw [hv] at h
    exact ⟨s', rfl, h⟩
  | wait s' =>
    rw [hv] at h
    exact ⟨_, rfl, hwait s' h⟩
  | endRound | quit | fault =>
    rw [hv] at h
    exact h.elim

section FailedConnectMoves

variable (hstarved : a.starved = false)
include hstarved

theorem onOriginalFailed_goes (horig : s.tryingOriginalServer = true)
    (hquick : s.quickCycle = false) :
    (s.onOriginalFailed a).Goes fun s' => s.MovesOn s' ∧ s.Cycles s' ∧
      s'.tspVersionFallback = s.tspVersionFallback := by
  obtain hv | ⟨b, rest, -, hv⟩ | ⟨b, rest, addr, -, -, hv⟩ | ⟨hs, -⟩ := onOriginalFailed_cases
  · rw [hv]
    exact ⟨.inl rfl, .inr ⟨hquick, .inl rfl⟩, rfl⟩
  · rw [hv]
    exact ⟨.inl rfl, .inr ⟨hquick, .inl rfl⟩, rfl⟩
  · rw [hv]
    refine ⟨.inr (.inl ?_), .inr ⟨hquick, .inr rfl⟩, rfl⟩
    rw [horig]
    exact Bool.false_ne_true
  · rw [hstarved] at hs
    cases hs

theorem onBrokerFailed_goes (hat : s.AtBroker) (horig : s.tryingOriginalServer = false)
    (hquick : s.quickCycle = false) :
    (s.onBrokerFailed a).Goes fun s' => s.MovesOn s' ∧ s.Cycles s' ∧
      s'.tspVersionFallback = s.tspVersionFallback := by
  obtain hv | ⟨b, c, rest, addr, hcur, -, haddr, hv⟩ | ⟨hs, -⟩ := onBrokerFailed_cases a hat
  · rw [hv]
    refine ⟨.inr (.inl ?_), .inr ⟨hquick, .inr rfl⟩, rfl⟩
    rw [horig]
    exact Bool.false_ne_true.symm
  · rw [hv]
    exact ⟨.inr (.inr ⟨_, b, c, rest, hcur, rfl, (format_of_some haddr).symm⟩),
      .inr ⟨hquick, .inr rfl⟩, rfl⟩
  · rw [hstarved] at hs
    cases hs

theorem onFailedConnect_goes (h : s.Ok server) (hboot : s.conf.bootMode = false) :
    (s.onFailedConnect a).Goes fun s' => s.MovesOn s' ∧ s.Cycles s' ∧
      s'.tspVersionFallback = s.tspVersionFallback := by
  unfold Main.onFailedConnect
  rw [hboot, if_neg Bool.false_ne_true]
  split_ifs with hquick hlast horig hwalk
  · exact ⟨.inl rfl, .inl ⟨hquick, rfl⟩, rfl⟩
  · exact ⟨.inl rfl, .inr ⟨Bool.not_eq_true _ ▸ hquick, .inl rfl⟩, rfl⟩
  · rw [Bool.not_eq_true] at hquick
    exact onOriginalFailed_goes (s := s.forceWait) hstarved horig hquick
  · rw [Bool.not_eq_true] at hquick horig
    exact onBrokerFailed_goes (s := s.forceWait) hstarved (h.broker hwalk horig) horig hquick
  · -- No flag is set: this is what the invariant excludes.
    rw [Bool.not_eq_true] at horig
    rcases h.other horig with hwalk' | hlast'
    · exact absurd hwalk' hwalk
    · exact absurd hlast' hlast

end FailedConnectMoves

theorem quickCycle_of_choose (hchoose : s.chooseTransport = some s₁)
    (hmode : s.conf.tunnelMode ≠ .v6udpv4) :
    s₁.cycle = 0 ∧ s.cycle ≠ 1 ∧ s₁.quickCycle = true ∨
      s₁.cycle = 1 ∧ s.cycle = 1 ∧ s₁.quickCycle = false := by
  obtain ⟨heq, hcases⟩ := chooseTransport_eq hchoose
  have hmode₁ : s₁.conf.tunnelMode = s.conf.tunnelMode := by rw [heq]
  unfold Main.quickCycle
  rw [hmode₁]
  cases hm : s.conf.tunnelMode with
  | v6udpv4 => exact absurd hm hmode
  | v6anyv4 | v6v4 | v4v6 =>
    rw [hm] at hcases
    obtain ⟨hcycle, hcycle', ht⟩ | ⟨hcycle, hcycle', ht⟩ := hcases
    · rw [ht]
      exact .inl ⟨hcycle, hcycle', rfl⟩
    · rw [ht]
      exact .inr ⟨hcycle, hcycle', rfl⟩

theorem chooseTransport_of_no_fallback (h : s.tspVersionFallback = false) :
    ∃ s₁, s.chooseTransport = some s₁ := by
  have huse : ∀ cycle oldest t, ∃ s₁, s.useTransport cycle oldest t = some s₁ := by
    intro cycle oldest t
    unfold Main.useTransport
    rw [h, if_neg Bool.false_ne_true]
    exact ⟨_, rfl⟩
  unfold Main.chooseTransport
  cases s.conf.tunnelMode with
  | v6udpv4 => exact huse _ _ _
  | v6anyv4 | v6v4 | v4v6 =>
    split_ifs
    · exact huse _ _ _
    · exact huse _ _ _

theorem other_transport (hchoose : s.chooseTransport = some s₁)
    (hmode : s.conf.tunnelMode ≠ .v6udpv4) (hmode' : s'.conf.tunnelMode = s.conf.tunnelMode)
    (hfallback : s'.tspVersionFallback = false) (hcycles : s₁.Cycles s') :
    ∃ s₂, s'.chooseTransport = some s₂ ∧ s₂.conf.transport ≠ s₁.conf.transport := by
  obtain ⟨s₂, hchoose'⟩ := chooseTransport_of_no_fallback hfallback
  refine ⟨s₂, hchoose', fun ht => ?_⟩
  have hmode₁ : s₁.conf.tunnelMode = s.conf.tunnelMode := by rw [(chooseTransport_eq hchoose).1]
  have hmode₂ : s₂.conf.tunnelMode = s'.conf.tunnelMode := by rw [(chooseTransport_eq hchoose').1]
  have hquick : s₂.quickCycle = s₁.quickCycle := by
    unfold Main.quickCycle
    rw [ht, hmode₁, hmode₂, hmode']
  have hnow := quickCycle_of_choose hchoose hmode
  have hnext := quickCycle_of_choose hchoose' (hmode'.trans_ne hmode)
  rw [hquick] at hnext
  unfold Main.Cycles at hcycles
  obtain ⟨hcycle, -, hq⟩ | ⟨hcycle, -, hq⟩ := hnow
  · rw [hq, hcycle] at hcycles
    rw [hq] at hnext
    simp only [Bool.true_eq_false, false_and, and_false, or_false, true_and, and_true]
      at hcycles hnext
    omega
  · rw [hq, hcycle] at hcycles
    rw [hq] at hnext
    simp only [Bool.false_eq_true, false_and, and_false, false_or, true_and, and_true]
      at hcycles hnext
    omega

/-- The attempt, with the transport chosen in `s₁`, does not get through to the server. -/
def Main.FailsToConnect (s : Main) (a : Attempt) (s₁ : Main) : Prop :=
  a.stop = false ∧ s.chooseTransport = some s₁ ∧
    ((s₁.session a).status = .failSocketConnect ∨ (s₁.session a).status = .authenticationFailure)

theorem not_fatal_of_failed (autoRetryConnect : Bool)
    (h : status = .failSocketConnect ∨ status = .authenticationFailure) :
    ¬(status.fatal autoRetryConnect = true) ∧ ¬status.OfRedirect := by
  rcases h with rfl | rfl
  · exact ⟨Bool.false_ne_true, by rintro (h | h) <;> cases h⟩
  · exact ⟨Bool.false_ne_true, by rintro (h | h) <;> cases h⟩

theorem attempt_of_failsToConnect (hfail : s.FailsToConnect a s₁) :
    s.attempt a = (s₁.afterSession a).onFailedConnect a := by
  obtain ⟨hstop, hchoose, hstatus⟩ := hfail
  rw [attempt_of_choose hstop hchoose]
  rcases hstatus with hstatus | hstatus
  · rw [hstatus]
    rfl
  · rw [hstatus]
    rfl

theorem not_strands_of_failsToConnect (hfail : s.FailsToConnect a s₁) : ¬s.Strands a := by
  obtain ⟨-, hchoose, hstatus⟩ := hfail
  obtain ⟨hnot, hred⟩ := not_fatal_of_failed s.conf.autoRetryConnect hstatus
  rintro ⟨-, -, hends⟩
  rw [hchoose] at hends
  obtain ⟨hfatal, -⟩ | ⟨hredirected, -⟩ := hends
  · exact hnot hfatal
  · exact hred (.inl hredirected)

theorem afterSession_quickCycle (s : Main) (a : Attempt) :
    (s.afterSession a).quickCycle = s.quickCycle := by
  unfold Main.quickCycle Main.afterSession Main.session
  rw [sameSetup_setup]

/-- A failed connection leads to another transport if the mode has two, and where the mode has one,
to the next turn of its cycle or to another server. -/
theorem failed_connect_moves_on (h : s.Ok server) (hfail : s.FailsToConnect a s₁)
    (hboot : s.conf.bootMode = false) (hstarved : a.starved = false) :
    ∃ s', s.step a = some s' ∧ s₁.MovesOn s' ∧ (s.conf.tunnelMode ≠ .v6udpv4 →
      ∃ s₂, s'.chooseTransport = some s₂ ∧ s₂.conf.transport ≠ s₁.conf.transport) := by
  have hattempt := attempt_of_failsToConnect hfail
  obtain ⟨-, hchoose, hstatus⟩ := hfail
  have hok : (s₁.afterSession a).Ok server :=
    (afterSession_known (chooseTransport_known (h.known True) hchoose)
      (not_fatal_of_failed s.conf.autoRetryConnect hstatus).2).ok
  have hboot₁ : (s₁.afterSession a).conf.bootMode = s.conf.bootMode :=
    (congrArg Conf.bootMode (session_fixed hchoose) :)
  have hgoes := onFailedConnect_goes hstarved hok (hboot₁.trans hboot)
  rw [← hattempt] at hgoes
  obtain ⟨s', hstep, hmoves, hcycles, hfall⟩ := step_of_goes hgoes fun s' h => by
    rw [waitRetry_eq]
    exact h
  refine ⟨s', hstep, hmoves, fun hmode => ?_⟩
  have hfallback : s₁.tspVersionFallback = false := by rw [(chooseTransport_eq hchoose).1]
  refine other_transport hchoose hmode (step_tunnelMode hstep) (hfall.trans hfallback) ?_
  unfold Main.Cycles at hcycles ⊢
  rw [afterSession_quickCycle] at hcycles
  exact hcycles

/-- In the mode `v6udpv4` the cycle is 0 in each attempt, so the brokers in the file are never come
to: the original server is tried again. -/
theorem v6udpv4_keeps_original (hmode : s.conf.tunnelMode = .v6udpv4)
    (horig : s.tryingOriginalServer = true) (hfail : s.FailsToConnect a s₁)
    (hstep : s.step a = some s') :
    s'.conf.server = s.conf.server ∧ s'.tryingOriginalServer = true := by
  refine step_of_all (p := fun c o => c.server = s.conf.server ∧ o = true) ?_ hstep
  rw [attempt_of_failsToConnect hfail]
  obtain ⟨heq, hcycle⟩ := chooseTransport_eq hfail.2.1
  rw [hmode] at hcycle
  have horig₁ : (s₁.afterSession a).tryingOriginalServer = true := by
    rw [heq]
    exact horig
  have hserver : (s₁.afterSession a).conf.server = s.conf.server := by
    rw [afterSession_server, heq]
  unfold Main.onFailedConnect
  split_ifs
  · exact ⟨hserver, horig₁⟩
  · exact ⟨hserver, horig₁⟩
  · exact ⟨hserver, horig₁⟩
  · obtain hv | ⟨b, rest, -, hv⟩ | ⟨b, rest, addr, hne, -, -⟩ | ⟨-, hv⟩ :=
      onOriginalFailed_cases
    · rw [hv]
      exact ⟨hserver, horig₁⟩
    · rw [hv]
      exact ⟨hserver, horig₁⟩
    · exact absurd hcycle.1 hne
    · rw [hv]
      trivial

/-- If no attempt before stranded, an attempt has a server: the next one has it too exactly if this
one does not strand. And then a failed connection leads on, except in boot mode, in which it ends
the program, and without memory. -/
theorem every_attempt_has_server {as : List Attempt}
    (hrun : Run Main.KeptStep (Main.start conf server file junk) as s) :
    s.HasServer server ∧
    (∀ a s', s.step a = some s' → (s'.HasServer server ↔ ¬s.Strands a)) ∧
    ∀ a s₁, s.FailsToConnect a s₁ → s.conf.bootMode = false → a.starved = false →
      ∃ s', s.step a = some s' ∧ s₁.MovesOn s' ∧ (s.conf.tunnelMode ≠ .v6udpv4 →
        ∃ s₂, s'.chooseTransport = some s₂ ∧ s₂.conf.transport ≠ s₁.conf.transport) := by
  have h := run_ok hrun
  refine ⟨h.toHasServer, fun a s' hstep => (step_hasServer_iff h hstep).1, ?_⟩
  intro a s₁ hfail hboot hstarved
  exact failed_connect_moves_on h hfail hboot hstarved

/-! ## A redirection, a fatal status and a server that does not answer -/

def answered (connect : Connect) (reply : CapReply) : Attempt where
  stop := false
  session :=
    { connect := connect
      capabilities := reply
      auth := .accepted
      localAddr := bytes [192, 0, 2, 1]
      localAddr6 := []
      sockname := true
      negotiation := .lost
      acknowledged := false
      localEnd := .finished }
  brokerListFile := none
  starved := false
  junk := 0

def refused : Attempt := answered .refused .lost

def redirectedTo (address : List UInt8) : Attempt :=
  answered .connected (.status 1200 ⟨some ⟨[address], [], []⟩, none⟩)

def refusedRequest : Attempt := answered .connected (.status 500 ⟨none, none⟩)

theorem failsToConnect_refused (h : s.chooseTransport = some s₁) :
    s.FailsToConnect refused s₁ := ⟨rfl, h, .inl rfl⟩

/-- The original server does not answer over UDP. -/
theorem every_attempt_has_server_refused : ∃ s, Run Main.KeptStep hostStart [refused] s ∧
    s.HasServer (ascii "anonymous.freenet6.net") ∧
    ∃ s₁ s', s.FailsToConnect refused s₁ ∧ s.step refused = some s' ∧ s₁.MovesOn s' := by
  obtain ⟨s₁, hchoose⟩ := chooseTransport_of_no_fallback (s := hostStart) rfl
  have hfail := failsToConnect_refused hchoose
  obtain ⟨s, hstep, -, hother⟩ := (every_attempt_has_server .start).2.2 refused s₁ hfail rfl rfl
  have hkept : hostStart.KeptStep refused s := ⟨hstep, not_strands_of_failsToConnect hfail⟩
  have hrun := Run.next .start hkept
  have h := every_attempt_has_server hrun
  obtain ⟨s₂, hchoose₂, -⟩ := hother (by decide)
  have hfail₂ := failsToConnect_refused hchoose₂
  obtain ⟨s', hstep', hmoves, -⟩ := h.2.2 refused s₂ hfail₂ (step_bootMode hstep) rfl
  exact ⟨s, hrun, h.1, s₂, s', hfail₂, hstep', hmoves⟩

def Main.whereabouts (s : Main) : (Bool × Bool × Bool) × ℕ × Option (List UInt8) :=
  ((s.tryingOriginalServer, s.tryingBrokerList, s.readLastServer), s.cycle, s.conf.server)

theorem not_hasServer_of_flags (h : s.whereabouts.1 = (false, false, false)) :
    ¬s.HasServer server := by
  have horig : s.tryingOriginalServer = false := congrArg (·.1) h
  have hwalk : s.tryingBrokerList = false := congrArg (·.2.1) h
  have hlast : s.readLastServer = false := congrArg (·.2.2) h
  intro hserver
  rcases hserver.other horig with hwalk' | hlast'
  · exact Bool.false_ne_true (hwalk.symm.trans hwalk')
  · exact Bool.false_ne_true (hlast.symm.trans hlast')

/-- After a redirection and a status that ends the round, the next round tries the broker with no
flag set. When the broker does not answer over TCP, neither the transport nor the server changes. -/
theorem stranded_after_redirection : ∃ s s',
    Run (fun s a s' => Main.step s a = some s') hostStart
      [redirectedTo (ascii "192.0.2.10"), refusedRequest, refused] s ∧
    ¬s.HasServer (ascii "anonymous.freenet6.net") ∧ s.step refused = some s' ∧
    s.whereabouts = ((false, false, false), 1, some (ascii "192.0.2.10")) ∧
    s'.whereabouts = s.whereabouts := by
  have hruns : ([redirectedTo (ascii "192.0.2.10"), refusedRequest, refused].foldlM Main.step
      hostStart).map Main.whereabouts =
        some ((false, false, false), 1, some (ascii "192.0.2.10")) := by
    decide +kernel
  have hstays : (([redirectedTo (ascii "192.0.2.10"), refusedRequest, refused].foldlM Main.step
      hostStart).bind (·.step refused)).map Main.whereabouts =
        some ((false, false, false), 1, some (ascii "192.0.2.10")) := by
    decide +kernel
  obtain ⟨s, hs, hwhere⟩ := map_eq_some_iff.mp hruns
  rw [hs, bind_some] at hstays
  obtain ⟨s', hstep, hwhere'⟩ := map_eq_some_iff.mp hstays
  refine ⟨s, s', run_of_foldlM (fun _ _ _ => id) hs, ?_, hstep, hwhere, hwhere'.trans hwhere.symm⟩
  exact not_hasServer_of_flags (by rw [hwhere])

end Maiccu.Gogoc
