import Maiccu.Gogoc.TunnelSetup

/-!
# Runs of a session

What is in the log of a whole session, and how it ends: the runs in which the tunnel negotiation
does not report success, and those in which it does and the interface is set up. A session that
returns is one of `Session`.
-/

namespace Maiccu.Gogoc.Darwin

open Maiccu.Lib Maiccu.Gogoc.Xml List Logged
open Maiccu.Tic (atoi)

variable {l : List Event}

/-! ## After the negotiation -/

theorem count_memory (h : ∀ e ∈ l, e.IsMemory) : l.count .opened = 0 ∧ l.count .closed = 0 :=
  ⟨count_eq_zero.mpr (h .opened), count_eq_zero.mpr (h .closed)⟩

variable {x : TunState}

theorem clear_run {blocks : List ℕ} (hnodup : blocks.Nodup) (hlive : ∀ b ∈ blocks, x.heap.Live b) :
    (∀ e ∈ (clear blocks).log x, e = .freed true) ∧
      ∃ x', (clear blocks).result x = .ok ((), x') := by
  induction blocks generalizing x with
  | nil => exact ⟨nofun, x, rfl⟩
  | cons b blocks ih =>
    obtain ⟨hb, hnodup⟩ := nodup_cons.mp hnodup
    have hfree : (free b).result x = .ok ((), x.free b) := rfl
    obtain ⟨hlog, x', hresult⟩ := ih hnodup (x := x.free b) fun c hc =>
      (hlive c (mem_cons_of_mem _ hc)).free_of_ne fun h => hb (h ▸ hc)
    constructor
    · intro e he
      rcases mem_log_bind.mp he with he | ⟨_, x₁, hx₁, he⟩
      · cases mem_singleton.mp he
        exact congrArg Event.freed (decide_eq_true (hlive b mem_cons_self))
      · cases hx₁
        exact hlog e he
    · exact ⟨x', (result_bind_of_ok hfree).trans hresult⟩

theorem emits_clear (blocks : List ℕ) : Logged.Emits Event.IsFreed (clear blocks) := by
  induction blocks with
  | nil => exact emits_pure _
  | cons b blocks ih => exact (emits_free b).bind fun _ => ih

section AfterNegotiation

variable {c : LocalConf} {d : Dialogue} {t : TunnelInfo} {size : ℕ}

variable {started : Status × Bool}

theorem finish_run (howned : t.Owned size x.heap) :
    (∃ freed : List Event, (∀ e ∈ freed, e = .freed true) ∧
      (finish t started).log x = (if started.2 = true then [.freed false] else []) ++ freed) ∧
    ∃ x', (finish t started).result x = .ok (started.1, x') := by
  obtain ⟨hnodup, hlive⟩ := howned.clear
  obtain ⟨hlog, x', hresult⟩ := clear_run hnodup hlive
  have hwhen : Logged.Runs (when (started.2 = true) (.emit (.freed false)) : Act Unit) :=
    runs_when fun _ => runs_emit
  unfold finish
  rw [hwhen.log_bind, hwhen.result_bind, log_bind_of_ok hresult,
    result_bind_of_ok hresult, log_pure, append_nil]
  refine ⟨⟨(clear (tspClearTunnelInfo t)).log x, hlog, ?_⟩, x', rfl⟩
  unfold when
  split_ifs
  · rfl
  · rfl

theorem emits_finish : Logged.Emits Event.IsFreed (finish t started) := by
  refine (emits_when fun _ => emits_emit trivial).bind fun _ => ?_
  exact (emits_clear _).bind fun _ => emits_pure _

def ClosesEarly (c : LocalConf) (host : Host) (t : TunnelInfo) (x : TunState) : Prop :=
  Reaches c host t x ∧ validateTunnelInfo t = 0 ∧ kindOf t = some .v6udpv4

def StaticPrefix (c : LocalConf) (host : Host) (t : TunnelInfo) (x : TunState) : Prop :=
  Reaches c host t x ∧ validateTunnelInfo t = 0 ∧ (t.text .prefixText).isSome = true

/-- A run after the negotiation reads a text that is missing. -/
def ReadsMissing (c : LocalConf) (host : Host) (t : TunnelInfo) (x : TunState) : Prop :=
  (host.Starts c ∧ kindOf t = none) ∨
    (Reaches c host t x ∧ validateTunnelInfo t ≠ 0 ∧ LengthMissing c t)

instance : Decidable (Reaches c d.host t x) := inferInstanceAs (Decidable (_ ∧ _))

instance : Decidable (ClosesEarly c d.host t x) := inferInstanceAs (Decidable (_ ∧ _))

instance : Decidable (StaticPrefix c d.host t x) := inferInstanceAs (Decidable (_ ∧ _))

theorem setUpNegotiated_run (ht : x.info.theTunnelInfo = t) (howned : t.Owned size x.heap) :
    (∃ before after freed : List Event, (∀ e ∈ before, e.IsExec) ∧ (∀ e ∈ after, e.IsExec) ∧
      (∀ e ∈ freed, e = .freed true) ∧
      (setUpNegotiated c d).log x = startLog c d.host t ++ (before ++
        ((if ClosesEarly c d.host t x then [.closed] else []) ++ (after ++
          ((if StaticPrefix c d.host t x then [.freed false] else []) ++ freed))))) ∧
    ((ReadsMissing c d.host t x ∧ ∃ f, (setUpNegotiated c d).result x = .error (.missing f)) ∨
      (¬ReadsMissing c d.host t x ∧
        ((¬Reaches c d.host t x ∧ (setUpNegotiated c d).result x = .error .noMemory) ∨
          ∃ (e : LocalEnd) (x' : TunState),
            (setUpNegotiated c d).result x = .ok (e.status, x')))) := by
  subst ht
  unfold setUpNegotiated
  rw [log_step_bind, result_step_bind]
  by_cases hreaches : Reaches c d.host x.info.theTunnelInfo x
  · have hkind : ¬(d.host.Starts c ∧ kindOf x.info.theTunnelInfo = none) := fun h =>
      hreaches.2.1 h.2
    obtain ⟨type, name, x₁, htype, hgrows, hlog, hresult⟩ := tspStartLocal_reached hreaches
    obtain ⟨before, after, hbefore, hafter, hrun⟩ := runLocal_log htype x₁
    rcases runLocal_result htype x₁ with ⟨hvalid, hlength, hend⟩ | ⟨hno, e, hend⟩
    · refine ⟨⟨before, after, [], hbefore, hafter, nofun, ?_⟩,
        .inl ⟨.inr ⟨hreaches, hvalid, hlength⟩, _, result_bind_of_error (hresult.trans hend) _⟩⟩
      rw [log_bind_of_error (hresult.trans hend), hlog, hrun,
        if_neg fun h : ClosesEarly _ _ _ _ => hvalid h.2.1,
        if_neg fun h : StaticPrefix _ _ _ _ => hvalid h.2.1, if_neg fun h => hvalid h.1]
      simp
    · obtain ⟨⟨freed, hfreed, hfinish⟩, x₂, hfinished⟩ :=
        finish_run (howned.of_live fun c _ hc => hgrows.live hc)
      refine ⟨⟨before, after, freed, hbefore, hafter, hfreed, ?_⟩,
        .inr ⟨fun h => h.elim hkind fun h => hno h.2, .inr ⟨e, x₂, ?_⟩⟩⟩
      · rw [log_bind_of_ok (hresult.trans hend), hlog, hrun, hfinish]
        simp [ClosesEarly, StaticPrefix, hreaches]
      · rw [result_bind_of_ok (hresult.trans hend), hfinished]
  · obtain ⟨hlog, hresult⟩ := tspStartLocal_stopped hreaches
    have hcloses : ¬ClosesEarly c d.host x.info.theTunnelInfo x := fun h => hreaches h.1
    have hstatic : ¬StaticPrefix c d.host x.info.theTunnelInfo x := fun h => hreaches h.1
    rw [if_neg hcloses, if_neg hstatic]
    have hstop : ∀ fault, (tspStartLocal c d.host x.info.theTunnelInfo).result x = .error fault →
        (tspStartLocal c d.host x.info.theTunnelInfo >>= finish x.info.theTunnelInfo).log x =
          startLog c d.host x.info.theTunnelInfo := fun fault hfault =>
      (log_bind_of_error hfault _).trans hlog
    rcases hresult with ⟨hstarts, hkind, hend⟩ | ⟨hno, hend⟩
    · exact ⟨⟨[], [], [], by simp, by simp, by simp, (hstop _ hend).trans (by simp)⟩,
        .inl ⟨.inl ⟨hstarts, hkind⟩, _, result_bind_of_error hend _⟩⟩
    · have hreads : ¬ReadsMissing c d.host x.info.theTunnelInfo x := fun h =>
        h.elim hno fun h => hreaches h.1
      rcases hend with hend | hend
      · obtain ⟨⟨freed, hfreed, hfinish⟩, x₂, hfinished⟩ :=
          finish_run howned
        refine ⟨⟨[], [], freed, by simp, by simp, hfreed, ?_⟩, .inr ⟨hreads, .inr
          ⟨.interfaceSetupFailed, x₂, (result_bind_of_ok hend).trans hfinished⟩⟩⟩
        rw [log_bind_of_ok hend, hlog, hfinish]
        simp
      · exact ⟨⟨[], [], [], by simp, by simp, by simp, (hstop _ hend).trans (by simp)⟩,
          .inr ⟨hreads, .inl ⟨hreaches, result_bind_of_error hend _⟩⟩⟩

theorem count_exec (h : ∀ e ∈ l, e.IsExec) :
    l.count .opened = 0 ∧ l.count .closed = 0 ∧ .freed false ∉ l :=
  ⟨count_eq_zero.mpr (h .opened), count_eq_zero.mpr (h .closed), h (.freed false)⟩

theorem startLog_freed : ∀ e ∈ startLog c d.host t, e.IsFreed := by
  unfold startLog
  split_ifs
  · intro e he
    cases mem_singleton.mp he
    trivial
  · exact nofun

theorem startLog_count :
    (startLog c d.host t).count .opened = 0 ∧ (startLog c d.host t).count .closed = 0 ∧
      (.freed false ∈ startLog c d.host t ↔
        OpensDevice c d.host t ∧ c.ifTunnelAllocated = false) := by
  by_cases hopens : OpensDevice c d.host t
  · rw [startLog_of_opens hopens, and_iff_right hopens, mem_singleton, Event.freed.injEq,
      @eq_comm _ false]
    simp
  · rw [startLog_of_not_opens hopens]
    simp [hopens]

theorem setUpNegotiated_count (ht : x.info.theTunnelInfo = t) (howned : t.Owned size x.heap) :
    ((setUpNegotiated c d).log x).count .opened = 0 ∧
    ((setUpNegotiated c d).log x).count .closed = (if ClosesEarly c d.host t x then 1 else 0) ∧
    (.freed false ∈ (setUpNegotiated c d).log x ↔
      (OpensDevice c d.host t ∧ c.ifTunnelAllocated = false) ∨ StaticPrefix c d.host t x) := by
  obtain ⟨⟨before, after, freed, hbefore, hafter, hfreed, hlog⟩, -⟩ :=
    setUpNegotiated_run (c := c) (d := d) ht howned
  obtain ⟨hopened, hclosed, hstart⟩ := startLog_count (c := c) (d := d) (t := t)
  obtain ⟨hopened₁, hclosed₁, hfalse₁⟩ := count_exec hbefore
  obtain ⟨hopened₂, hclosed₂, hfalse₂⟩ := count_exec hafter
  obtain ⟨hopened₃, hclosed₃⟩ := count_memory (l := freed) fun e he => by
    rw [hfreed e he]
    rfl
  have hfalse₃ : Event.freed false ∉ freed := fun he => nomatch hfreed _ he
  rw [hlog]
  simp only [count_append, mem_append, hopened, hclosed, hstart, hopened₁, hclosed₁,
    hfalse₁, hopened₂, hclosed₂, hfalse₂, hopened₃, hclosed₃, hfalse₃]
  refine ⟨?_, ?_, ?_⟩
  · split_ifs <;> rfl
  · split_ifs <;> rfl
  · split_ifs <;> simp_all

variable {e : Event}

theorem setUpNegotiated_events (ht : x.info.theTunnelInfo = t) (howned : t.Owned size x.heap)
    (he : e ∈ (setUpNegotiated c d).log x) : e.IsExec ∨ e = .closed ∨ e.IsFreed := by
  obtain ⟨⟨before, after, freed, hbefore, hafter, hfreed, hlog⟩, -⟩ :=
    setUpNegotiated_run (c := c) (d := d) ht howned
  simp only [hlog, mem_append] at he
  rcases he with he | he | he | he | he | he
  · exact .inr (.inr (startLog_freed e he))
  · exact .inl (hbefore e he)
  · split_ifs at he
    · exact .inr (.inl (mem_singleton.mp he))
    · cases he
  · exact .inl (hafter e he)
  · split_ifs at he
    · cases mem_singleton.mp he
      exact .inr (.inr trivial)
    · cases he
  · cases hfreed e he
    exact .inr (.inr trivial)

theorem exec_of_server (h : e.ServerCommand) : ∃ command, e = .exec command := by
  cases e with
  | exec command => exact ⟨command, rfl⟩
  | opened | closed | freed live | parsed code => exact h.elim

theorem setUpNegotiated_server (ht : x.info.theTunnelInfo = t) (hvalid : validateTunnelInfo t ≠ 0) :
    (∃ e ∈ (setUpNegotiated c d).log x, e.ServerCommand) ↔ Reaches c d.host t x ∧ EndUses c t := by
  subst ht
  have hstart : ∀ e ∈ startLog c d.host x.info.theTunnelInfo, ¬e.ServerCommand := by
    intro e he hserver
    obtain ⟨command, rfl⟩ := exec_of_server hserver
    exact startLog_freed _ he
  have hlocal : (∃ e ∈ (setUpNegotiated c d).log x, e.ServerCommand) ↔
      ∃ e ∈ (tspStartLocal c d.host x.info.theTunnelInfo).log x, e.ServerCommand := by
    refine exists_congr fun e => and_congr_left fun hserver => ?_
    unfold setUpNegotiated
    rw [log_step_bind, mem_log_bind]
    refine or_iff_left ?_
    rintro ⟨started, x', -, he⟩
    obtain ⟨command, rfl⟩ := exec_of_server hserver
    exact emits_finish x' _ he
  rw [hlocal]
  by_cases hreaches : Reaches c d.host x.info.theTunnelInfo x
  · obtain ⟨type, name, x₁, htype, -, hlog, -⟩ := tspStartLocal_reached hreaches
    rw [and_iff_right hreaches, ← tspTearDownTunnel_server htype x₁, hlog,
      runLocal_log_of_invalid hvalid]
    refine exists_congr fun e => and_congr_left fun hserver => ?_
    rw [mem_append]
    exact or_iff_right fun he => hstart e he hserver
  · refine iff_of_false ?_ fun h => hreaches h.1
    rw [(tspStartLocal_stopped hreaches).1]
    rintro ⟨e, he, hserver⟩
    exact hstart e he hserver

end AfterNegotiation

/-! ## The whole session -/

def afterConnect (x : TunState) : TunState :=
  { x with heap := (x.heap.alloc []).free x.heap.size }

/-- The session comes to the tunnel request, with the configuration `conf`. -/
structure Requests (c : LocalConf) (d : Dialogue) (conf : Conf) : Prop where
  authenticated : d.session.authenticated c.tunnelMode = true
  source : tspUpdateSourceAddr c.toConf d.session = some conf

variable (d : Dialogue)

def negotiation (conf : Conf) (versionIndex : ℕ) (brokers : BrokerList) :
    Act (Status × BrokerList) :=
  tspTunnelNegotiation d (tspBuildCreateRequest conf).1 versionIndex brokers

/-- The tunnel negotiation reports success and leaves the state `x'`. -/
def Negotiated (c : LocalConf) (d : Dialogue) (versionIndex : ℕ) (brokers : BrokerList)
    (x : TunState) (conf : Conf) (x' : TunState) : Prop :=
  Requests c d conf ∧ ∃ brokers',
    (negotiation d conf versionIndex brokers).result (afterConnect x) =
      .ok ((.success, brokers'), x')

def Receives (conf : Conf) (x : TunState) (text : List UInt8) (y : TunState) :
    Prop :=
  ∃ plin plout, (sendRequest d (tspBuildCreateRequest conf).1).result (afterConnect x) =
    .ok (.reply text plin plout, y)

def Dialogue.answer : NegoReply :=
  match d.reply with
  | none => .lost
  | some text => .status (atoi text) d.redirect

def Dialogue.toSession (reply : NegoReply) (localEnd : LocalEnd) : Session :=
  { d.session with negotiation := reply, localEnd := localEnd }

section Whole

variable {c : LocalConf} {d} {versionIndex : ℕ} {brokers : BrokerList} {conf : Conf} {x' : TunState}

theorem connect_log (x : TunState) : (connect d).log x =
      (if d.session.connect = .connected then [.opened] else []) ++ [.freed true] := by
  have hwhen : Logged.Runs (when (d.session.connect = .connected) (.emit .opened) :
      Act Unit) := runs_when fun _ => runs_emit
  unfold connect alloc
  rw [log_step_bind, hwhen.log_bind]
  unfold when
  have hfree : (free x.heap.size).log { x with heap := x.heap.alloc [] } = [.freed true] :=
    congrArg (fun live => [Event.freed live]) (decide_eq_true Heap.live_alloc)
  rw [hfree]
  split_ifs
  · rfl
  · rfl

theorem connect_result : (connect d).result x = .ok ((), afterConnect x) := by
  have hwhen : Logged.Runs (when (d.session.connect = .connected) (.emit .opened) :
      Act Unit) := runs_when fun _ => runs_emit
  unfold connect alloc
  rw [result_step_bind, hwhen.result_bind]
  rfl

theorem tspSetupTunnel_short (h : ∀ conf, ¬Requests c d conf) : ∃ e, (∀ reply localEnd,
        e = Gogoc.tspSetupTunnel c.toConf (d.toSession reply localEnd) versionIndex brokers) ∧
      (tspSetupTunnel c d versionIndex brokers = pure e ∨ (d.session.connect ≠ .connected ∧
          tspSetupTunnel c d versionIndex brokers = connect d >>= fun _ => pure e) ∨
        (d.session.connect = .connected ∧
          tspSetupTunnel c d versionIndex brokers = connect d >>= fun _ => closing e)) := by
  have hsession : ∀ reply localEnd, (d.toSession reply localEnd).connect = d.session.connect ∧
      (d.toSession reply localEnd).capabilities = d.session.capabilities ∧
      (d.toSession reply localEnd).auth = d.session.auth ∧
      tspUpdateSourceAddr c.toConf (d.toSession reply localEnd) =
        tspUpdateSourceAddr c.toConf d.session := fun _ _ => ⟨rfl, rfl, rfl, rfl⟩
  unfold tspSetupTunnel Gogoc.tspSetupTunnel Gogoc.setUpConnected Gogoc.setUpAuthenticated
  simp only [hsession]
  cases hconnect : d.session.connect with
  | badAddress => exact ⟨_, fun _ _ => rfl, .inl rfl⟩
  | unresolved | refused => exact ⟨_, fun _ _ => rfl, .inr (.inl ⟨by decide, rfl⟩)⟩
  | connected =>
    unfold setUpConnected
    dsimp only
    split_ifs with hcap hmode hauth
    · exact ⟨_, fun _ _ => rfl, .inr (.inr ⟨rfl, rfl⟩)⟩
    · obtain ⟨cap, hcap⟩ := capability_of_success hcap
      have hauth := accepted_of_success hauth
      unfold setUpAuthenticated
      cases hsource : tspUpdateSourceAddr c.toConf d.session with
      | none => exact ⟨_, fun _ _ => rfl, .inr (.inr ⟨rfl, rfl⟩)⟩
      | some conf =>
        refine absurd ⟨?_, hsource⟩ (h conf)
        rw [hcap] at hmode
        unfold Session.authenticated
        rw [hconnect, hcap, hauth]
        exact decide_eq_true hmode
    · exact ⟨_, fun _ _ => rfl, .inr (.inr ⟨rfl, rfl⟩)⟩
    · exact ⟨_, fun _ _ => rfl, .inr (.inr ⟨rfl, rfl⟩)⟩
    · exact ⟨_, fun _ _ => rfl, .inr (.inr ⟨rfl, rfl⟩)⟩

theorem tspSetupTunnel_requests (h : Requests c d conf) : d.session.connect = .connected ∧
      tspSetupTunnel c d versionIndex brokers = connect d >>= fun _ =>
        negotiation d conf versionIndex brokers >>= fun negotiated =>
          setUpReplied c d negotiated.1 >>= fun status =>
            closing ⟨status, (tspBuildCreateRequest conf).2, negotiated.2,
              some (tspBuildCreateRequest conf).1⟩ := by
  have hauthenticated := h.authenticated
  unfold Session.authenticated at hauthenticated
  split at hauthenticated
  · rename_i cap hconnect hcap hauth
    rw [decide_eq_true_eq] at hauthenticated
    refine ⟨hconnect, ?_⟩
    have hset : setUpConnected c d versionIndex brokers =
        setUpAuthenticated c d versionIndex brokers := by
      unfold setUpConnected
      rw [hcap, hauth]
      exact if_neg hauthenticated
    unfold tspSetupTunnel
    rw [hconnect]
    rw [hset]
    unfold setUpAuthenticated
    rw [h.source]
    rfl
  · cases hauthenticated

/-- The socket and the memory are in order, nothing is executed, and no text is missing. -/
structure Calm (m : Act SessionEnd) (x : TunState) : Prop where
  events : ∀ e ∈ m.log x, e = .opened ∨ e = .closed ∨ e.IsMemory
  missing : ∀ f, m.result x ≠ .error (.missing f)
  closed_le : (m.log x).count .closed ≤ (m.log x).count .opened
  closed_eq : ∀ r, m.result x = .ok r → (m.log x).count .closed = (m.log x).count .opened

variable {m : Act SessionEnd} {ending : Status → SessionEnd} {status : Status}
  {r : Status × BrokerList} {e : SessionEnd} (before : List Event)

theorem calm_of_ok (hresult : ∃ r, m.result x = .ok r) (hbefore : ∀ e ∈ before, e.IsMemory)
    (hlog : m.log x = before ∨ m.log x = .opened :: (before ++ [.closed])) : Calm m x := by
  obtain ⟨r, hresult⟩ := hresult
  obtain ⟨hopened, hclosed⟩ := count_memory hbefore
  have hcount : (m.log x).count .closed = (m.log x).count .opened := by
    rcases hlog with hlog | hlog
    · rw [hlog, hopened, hclosed]
    · rw [hlog]
      simp [hopened, hclosed]
  refine ⟨fun e he => ?_, fun f h => (nomatch hresult.symm.trans h), hcount.le, fun _ _ => hcount⟩
  rcases hlog with hlog | hlog
  · exact .inr (.inr (hbefore e (hlog ▸ he)))
  · rw [hlog, mem_cons, mem_append, mem_singleton] at he
    rcases he with he | he | he
    · exact .inl he
    · exact .inr (.inr (hbefore e he))
    · exact .inr (.inl he)

theorem calm_of_error {fault : Fault} (hresult : m.result x = .error fault)
    (hfault : fault.IsMemory) (hbefore : ∀ e ∈ before, e.IsMemory)
    (hlog : m.log x = .opened :: before) : Calm m x := by
  obtain ⟨-, hclosed⟩ := count_memory hbefore
  refine ⟨fun e he => ?_, fun f h => ?_, ?_, fun r hr => (nomatch hresult.symm.trans hr)⟩
  · rw [hlog, mem_cons] at he
    exact he.elim .inl fun he => .inr (.inr (hbefore e he))
  · cases hresult.symm.trans h
    exact hfault
  · rw [hlog]
    simp [hclosed]

theorem tspSetupTunnel_calm (h : ∀ conf x', ¬Negotiated c d versionIndex brokers x conf x') :
    Calm (tspSetupTunnel c d versionIndex brokers) x := by
  have hconnected : ∀ f : Unit → Act SessionEnd, (connect d >>= f).log x =
      (if d.session.connect = .connected then [.opened] else []) ++ [.freed true] ++
        (f ()).log (afterConnect x) := fun f => by
    rw [log_bind_of_ok connect_result, connect_log]
  have hfreed : ∀ e ∈ [Event.freed true], e.IsMemory := fun e he =>
    mem_singleton.mp he ▸ rfl
  by_cases hrequests : ∃ conf, Requests c d conf
  · obtain ⟨conf, hrequests⟩ := hrequests
    obtain ⟨hconnect, hrun⟩ := tspSetupTunnel_requests hrequests
    have htidy := tspTunnelNegotiation_tidy d (tspBuildCreateRequest conf).1 versionIndex brokers
      (afterConnect x)
    have hmemory : ∀ e ∈ .freed true ::
        (negotiation d conf versionIndex brokers).log (afterConnect x), e.IsMemory :=
      forall_mem_cons.mpr ⟨rfl, htidy.log⟩
    rw [if_pos hconnect] at hconnected
    rw [hrun]
    rcases result_cases (negotiation d conf versionIndex brokers) (afterConnect x) with
      ⟨fault, hend⟩ | ⟨⟨status, brokers'⟩, x', hend⟩
    · refine calm_of_error _ ?_ (htidy.fault fault hend) hmemory ?_
      · rw [result_bind_of_ok connect_result, result_bind_of_error hend]
      · rw [hconnected, log_bind_of_error hend]
        rfl
    · have hstatus : setUpReplied c d status = pure status := by
        refine if_neg ?_
        rintro rfl
        exact h conf x' ⟨hrequests, brokers', hend⟩
      refine calm_of_ok _ ?_ hmemory (.inr ?_)
      · rw [result_bind_of_ok connect_result, result_bind_of_ok hend, hstatus]
        exact ⟨_, rfl⟩
      · rw [hconnected, log_bind_of_ok hend, hstatus]
        rfl
  · obtain ⟨e, -, hrun | ⟨hconnect, hrun⟩ | ⟨hconnect, hrun⟩⟩ :=
      tspSetupTunnel_short (not_exists.mp hrequests)
    · rw [hrun]
      exact calm_of_ok [] ⟨_, rfl⟩ nofun (.inl rfl)
    · rw [hrun]
      rw [if_neg hconnect] at hconnected
      exact calm_of_ok [.freed true] ⟨_, result_bind_of_ok connect_result⟩ hfreed
        (.inl (hconnected _))
    · rw [hrun]
      rw [if_pos hconnect] at hconnected
      exact calm_of_ok [.freed true] ⟨_, result_bind_of_ok connect_result⟩ hfreed
        (.inr (hconnected _))

theorem tspSetupTunnel_negotiated (h : Negotiated c d versionIndex brokers x conf x') :
    ∃ ending : Status → SessionEnd,
      (tspSetupTunnel c d versionIndex brokers).log x = .opened :: .freed true ::
        ((negotiation d conf versionIndex brokers).log (afterConnect x) ++
          (setUpNegotiated c d >>= fun status => closing (ending status)).log x') ∧
      (tspSetupTunnel c d versionIndex brokers).result x =
        (setUpNegotiated c d >>= fun status => closing (ending status)).result x' := by
  obtain ⟨hrequests, brokers', hnegotiation⟩ := h
  obtain ⟨hconnect, hrun⟩ := tspSetupTunnel_requests hrequests
  refine ⟨fun status => ⟨status, (tspBuildCreateRequest conf).2, brokers',
    some (tspBuildCreateRequest conf).1⟩, ?_⟩
  rw [hrun, log_bind_of_ok connect_result, result_bind_of_ok connect_result,
    log_bind_of_ok hnegotiation, result_bind_of_ok hnegotiation, connect_log, if_pos hconnect]
  exact ⟨rfl, rfl⟩

theorem Negotiated.owned (h : Negotiated c d versionIndex brokers x conf x') :
    ∃ size, x'.info.theTunnelInfo.Owned size x'.heap := by
  obtain ⟨-, brokers', hnegotiation⟩ := h
  exact (tspTunnelNegotiation_tidy _ _ _ _ _).result _ _ hnegotiation rfl

theorem Negotiated.unique {conf' : Conf} {x'' : TunState}
    (h : Negotiated c d versionIndex brokers x conf x')
    (h' : Negotiated c d versionIndex brokers x conf' x'') : x' = x'' := by
  obtain ⟨hrequests, _, hnegotiation⟩ := h
  obtain ⟨hrequests', _, hnegotiation'⟩ := h'
  cases hrequests.source.symm.trans hrequests'.source
  cases hnegotiation.symm.trans hnegotiation'
  rfl

variable {m : Act Status}

theorem mem_log_closing {e : Event} (he : e ≠ .closed) :
    e ∈ (m >>= fun status => closing (ending status)).log x ↔ e ∈ m.log x := by
  rw [mem_log_bind]
  refine or_iff_left ?_
  rintro ⟨status, x', -, hclosing⟩
  exact he (mem_singleton.mp hclosing)

theorem result_closing {f : Field} :
    (m >>= fun status => closing (ending status)).result x = .error (.missing f) ↔
      m.result x = .error (.missing f) := by
  rw [result_bind_eq_error]
  refine or_iff_left ?_
  rintro ⟨status, x', -, hclosing⟩
  cases hclosing

section

variable (h : Negotiated c d versionIndex brokers x conf x')
include h

theorem parsed_mem_iff (code : ℤ) : .parsed code ∈ (tspSetupTunnel c d versionIndex brokers).log x ↔
      .parsed code ∈ (negotiation d conf versionIndex brokers).log (afterConnect x) := by
  obtain ⟨size, howned⟩ := h.owned
  obtain ⟨ending, hlog, -⟩ := tspSetupTunnel_negotiated h
  have hrest : .parsed code ∉ (setUpNegotiated c d).log x' := fun he => by
    rcases setUpNegotiated_events rfl howned he with h | h | h
    · exact h
    · cases h
    · exact h
  rw [hlog, mem_cons, mem_cons, mem_append, mem_log_closing Event.noConfusion]
  simp [hrest]

theorem parsed_zero_iff : .parsed 0 ∈ (tspSetupTunnel c d versionIndex brokers).log x ↔
      ∀ text y, Receives d conf x text y → ∃ y', tspExtractPayload text y = some (0, y') := by
  have ⟨_, brokers', hnegotiation⟩ := h
  obtain ⟨text, plin, plout, y, hsend, -, -, code, y₁, hextract, hcode⟩ :=
    tspTunnelNegotiation_success hnegotiation
  refine ((parsed_mem_iff h 0).trans (hcode 0)).trans ?_
  constructor
  · rintro rfl text' y' ⟨plin', plout', hsend'⟩
    cases hsend.symm.trans hsend'
    exact ⟨y₁, hextract⟩
  · intro hzero
    obtain ⟨y', hextract'⟩ := hzero text y ⟨plin, plout, hsend⟩
    cases hextract.symm.trans hextract'
    rfl

theorem missing_iff :
    (∃ f, (tspSetupTunnel c d versionIndex brokers).result x = .error (.missing f)) ↔
      ReadsMissing c d.host x'.info.theTunnelInfo x' := by
  obtain ⟨size, howned⟩ := h.owned
  obtain ⟨ending, -, hresult⟩ := tspSetupTunnel_negotiated h
  simp only [hresult, result_closing]
  rcases (setUpNegotiated_run (c := c) (d := d) rfl howned).2 with
    ⟨hreads, f, hend⟩ | ⟨hno, ⟨-, hend⟩ | ⟨e, x'', hend⟩⟩
  · exact iff_of_true ⟨f, hend⟩ hreads
  · exact iff_of_false (fun ⟨f, hf⟩ => nomatch hend.symm.trans hf) hno
  · exact iff_of_false (fun ⟨f, hf⟩ => nomatch hend.symm.trans hf) hno

theorem exec_mem_iff {command : List Arg} :
    .exec command ∈ (tspSetupTunnel c d versionIndex brokers).log x ↔
      .exec command ∈ (setUpNegotiated c d).log x' := by
  obtain ⟨ending, hlog, -⟩ := tspSetupTunnel_negotiated h
  have hnegotiation : .exec command ∉
      (negotiation d conf versionIndex brokers).log (afterConnect x) :=
    (tspTunnelNegotiation_tidy _ _ _ _ _).log (.exec command)
  rw [hlog, mem_cons, mem_cons, mem_append, mem_log_closing Event.noConfusion]
  simp [hnegotiation]

end

/-! ## The session without its memory -/

theorem sendAcknowledge_result (h : (sendAcknowledge d versionIndex).result x = .ok (status, x')) :
    status = if versionIndex = versionIndexOldest then .success
      else if d.session.acknowledged then .success else .socketIo := by
  unfold sendAcknowledge at h
  split_ifs at h ⊢
  · cases h
    rfl
  · obtain ⟨_, _, -, h⟩ := result_bind_eq_ok.mp h
    obtain ⟨_, _, -, h⟩ := result_bind_eq_ok.mp h
    cases h
    rfl
  · obtain ⟨_, _, -, h⟩ := result_bind_eq_ok.mp h
    cases h
    rfl

theorem processReply_refines {text : List UInt8} {plin : Option ℕ} {plout : ℕ} {localEnd : LocalEnd}
    (h : (processReply d versionIndex brokers text plin plout).result x = .ok (r, x')) :
    r = Gogoc.tspTunnelNegotiation (d.toSession (.status (atoi text) d.redirect) localEnd)
      versionIndex brokers := by
  unfold processReply at h
  unfold Gogoc.tspTunnelNegotiation Dialogue.toSession
  dsimp only
  split_ifs at h with hredirect hstatus
  · rw [if_pos hredirect]
    obtain ⟨_, _, -, h⟩ := result_bind_eq_ok.mp h
    obtain ⟨_, _, -, h⟩ := result_bind_eq_ok.mp h
    cases h
    rfl
  · rw [if_neg hredirect, if_pos hstatus]
    cases h
    rfl
  · obtain ⟨_, _, -, h⟩ := result_bind_eq_ok.mp h
    obtain ⟨_, _, -, h⟩ := result_bind_eq_ok.mp h
    obtain ⟨_, _, -, h⟩ := result_bind_eq_ok.mp h
    obtain ⟨status, _, hack, h⟩ := result_bind_eq_ok.mp h
    cases h
    rw [sendAcknowledge_result hack]
    split_ifs
    · rfl
    · rfl
    · rfl

theorem tspTunnelNegotiation_refines {request : List UInt8}
    (h : (tspTunnelNegotiation d request versionIndex brokers).result x = .ok (r, x')) :
    ∃ reply, (reply = .starved ∨ reply = d.answer) ∧ ∀ localEnd,
      r = Gogoc.tspTunnelNegotiation (d.toSession reply localEnd) versionIndex brokers := by
  obtain ⟨received, y, hsend, h⟩ := result_bind_eq_ok.mp h
  have hreceived := sendRequest_tidy.result _ _ hsend
  cases received with
  | starved =>
    cases h
    exact ⟨.starved, .inl rfl, fun _ => rfl⟩
  | lost plin plout =>
    obtain ⟨_, _, -, h⟩ := result_bind_eq_ok.mp h
    obtain ⟨_, _, -, h⟩ := result_bind_eq_ok.mp h
    cases h
    refine ⟨d.answer, .inr rfl, fun localEnd => ?_⟩
    unfold Dialogue.answer
    rw [hreceived.1]
    rfl
  | reply text plin plout =>
    refine ⟨d.answer, .inr rfl, fun localEnd => ?_⟩
    unfold Dialogue.answer
    rw [hreceived.1]
    exact processReply_refines h

theorem setUpReplied_refines {negotiated : Status}
    (howned : negotiated = .success → ∃ size, x.info.theTunnelInfo.Owned size x.heap)
    (h : (setUpReplied c d negotiated).result x = .ok (status, x')) :
    ∃ localEnd : LocalEnd,
      status = if negotiated = .success then localEnd.status else negotiated := by
  unfold setUpReplied at h
  by_cases hsuccess : negotiated = .success
  · rw [if_pos hsuccess] at h
    obtain ⟨size, howned⟩ := howned hsuccess
    rcases (setUpNegotiated_run (c := c) (d := d) rfl howned).2 with
      ⟨-, f, hend⟩ | ⟨-, ⟨-, hend⟩ | ⟨localEnd, x'', hend⟩⟩
    · cases h.symm.trans hend
    · cases h.symm.trans hend
    · cases h.symm.trans hend
      exact ⟨localEnd, (if_pos hsuccess).symm⟩
  · rw [if_neg hsuccess] at h
    cases h
    exact ⟨.finished, (if_neg hsuccess).symm⟩

/-- A session that returns is one of `Session`, with the reply that is received. -/
theorem tspSetupTunnel_refines
    (h : (tspSetupTunnel c d versionIndex brokers).result x = .ok (e, x')) :
    ∃ reply localEnd, (reply = .starved ∨ reply = d.answer) ∧
      e = Gogoc.tspSetupTunnel c.toConf (d.toSession reply localEnd) versionIndex brokers := by
  by_cases hrequests : ∃ conf, Requests c d conf
  · obtain ⟨conf, hrequests⟩ := hrequests
    rw [(tspSetupTunnel_requests hrequests).2, result_bind_of_ok connect_result] at h
    obtain ⟨negotiated, x₁, hnegotiation, h⟩ := result_bind_eq_ok.mp h
    obtain ⟨status, x₂, hreplied, h⟩ := result_bind_eq_ok.mp h
    cases h
    obtain ⟨reply, hreply, hnegotiated⟩ := tspTunnelNegotiation_refines hnegotiation
    obtain ⟨localEnd, hstatus⟩ := setUpReplied_refines
      ((tspTunnelNegotiation_tidy _ _ _ _ _).result _ _ hnegotiation) hreplied
    have hauth : (d.toSession reply localEnd).authenticated c.tunnelMode = true :=
      hrequests.authenticated
    have hsource : tspUpdateSourceAddr c.toConf (d.toSession reply localEnd) = some conf :=
      hrequests.source
    refine ⟨reply, localEnd, hreply, ?_⟩
    rw [setup_of_authenticated hauth, Gogoc.setUpAuthenticated, hsource, hstatus,
      hnegotiated localEnd]
    rfl
  · obtain ⟨e', he, hrun⟩ := tspSetupTunnel_short (not_exists.mp hrequests)
    have hend : ∃ x', (tspSetupTunnel c d versionIndex brokers).result x = .ok (e', x') := by
      rcases hrun with hrun | ⟨-, hrun⟩ | ⟨-, hrun⟩
      · exact ⟨x, by rw [hrun]; rfl⟩
      · exact ⟨_, by rw [hrun, result_bind_of_ok connect_result]; rfl⟩
      · exact ⟨_, by rw [hrun, result_bind_of_ok connect_result]; rfl⟩
    obtain ⟨x'', hend⟩ := hend
    cases hend.symm.trans h
    exact ⟨d.answer, .finished, .inr rfl, he _ _⟩

end Whole

def sampleConf : LocalConf :=
  { hostConf with
    server := some (ascii "broker")
    clientV4 := ascii "1.2.3.4"
    clientV6 := []
    hostType := ascii "router"
    brokerListFile := []
    prefixlen := 64
    transport := .tcp
    nodaemon := true
    ifPrefix := ascii "en1"
    ifTunnelV6v4 := ascii "gif0"
    ifTunnelV4v6 := ascii "gif0"
    ifTunnelAllocated := true }

def sampleDialogue (reply : List String) : Dialogue where
  session :=
    { connect := .connected
      capabilities := .capability 255
      auth := .accepted
      localAddr := ⟨[1, 2, 3, 4], rfl⟩
      localAddr6 := []
      sockname := true
      negotiation := .lost
      acknowledged := true
      localEnd := .finished }
  reply := some (reply.flatMap ascii)
  redirect := ⟨none, none⟩
  host :=
    { root := true
      detached := true
      daemon := true
      tunOpens := true
      tunName := some (ascii "tun0")
      tunJunk := []
      gateway := none
      homeAddress := fun s => s ++ ascii "1"
      tunnelEnd := .finished }

/-- A reply with the addresses of both ends. -/
def tunnelReply (type : String) (router : List String) : List String :=
  ["200 Success\r\n", "<tunnel type=\"", type, "\">", "<server>", "<address type=\"ipv4\">",
    "1.2.3.5</address>", "<address type=\"ipv6\">", "::1</address>", "</server><client>",
    "<address type=\"ipv4\">", "1.2.3.4</address>", "<address type=\"ipv6\">", "::2</address>"] ++
    router ++ ["</client>", "</tunnel>"]

/-- The interface is set up, and taken down at the end. -/
theorem tspSetupTunnel_refines_v6v4 : ∃ d e x' reply localEnd,
    (tspSetupTunnel sampleConf d 0 ⟨0, []⟩).result started = .ok (e, x') ∧ e.status = .success ∧
      ((tspSetupTunnel sampleConf d 0 ⟨0, []⟩).log started).countP (· matches .exec _) = 8 ∧
      (reply = .starved ∨ reply = d.answer) ∧
      e = Gogoc.tspSetupTunnel sampleConf.toConf (d.toSession reply localEnd) 0 ⟨0, []⟩ := by
  have hrun : ((tspSetupTunnel sampleConf (sampleDialogue (tunnelReply "v6v4" [])) 0
        ⟨0, []⟩).result started).toOption.map (fun r => r.1.status) = some .success ∧
      ((tspSetupTunnel sampleConf (sampleDialogue (tunnelReply "v6v4" [])) 0
        ⟨0, []⟩).log started).countP (· matches .exec _) = 8 := by
    decide +kernel
  obtain ⟨hstatus, hexec⟩ := hrun
  cases h : (tspSetupTunnel sampleConf (sampleDialogue (tunnelReply "v6v4" [])) 0
      ⟨0, []⟩).result started with
  | error f =>
    rw [h] at hstatus
    cases hstatus
  | ok r =>
    rw [h] at hstatus
    obtain ⟨reply, localEnd, hreply, he⟩ := tspSetupTunnel_refines h
    exact ⟨_, _, _, _, _, h, Option.some_inj.mp hstatus, hexec, hreply, he⟩

end Maiccu.Gogoc.Darwin
