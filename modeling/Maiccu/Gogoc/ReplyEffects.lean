import Maiccu.Gogoc.SessionRuns

/-!
# What a reply can do

For every reply to the tunnel request: which texts are read and executed after it, what is freed,
and how often the socket is closed. Each of the three is right under a condition on the reply, and
only then.
-/

namespace Maiccu.Gogoc.Darwin

open Maiccu.Lib Maiccu.Gogoc.Xml
open Maiccu.Tic (atoi)

/-! ## Replies that are not right -/

/-- A negotiation that reports success has a reply with status 200 that is parsed without an error,
and no missing text is read after it, if and only if all that is parsed is right and has the texts
that are read. -/
theorem reply_checked_iff (c : LocalConf) (d : Dialogue) (versionIndex : ℕ) (brokers : BrokerList)
    (x : TunState) :
    ((∀ conf x', Negotiated c d versionIndex brokers x conf x' →
        (∃ text, d.reply = some text ∧ atoi text = 200) ∧
          .parsed 0 ∈ (tspSetupTunnel c d versionIndex brokers).log x) ∧
      ∀ f, (tspSetupTunnel c d versionIndex brokers).result x ≠ .error (.missing f)) ↔
    ∀ conf x', Negotiated c d versionIndex brokers x conf x' →
      (∀ text y, Receives d conf x text y → ∃ y', tspExtractPayload text y = some (0, y')) ∧
        ¬ReadsMissing c d.host x'.info.theTunnelInfo x' := by
  constructor
  · rintro ⟨hparsed, hmissing⟩ conf x' h
    refine ⟨(parsed_zero_iff h).mp (hparsed conf x' h).2, fun hreads => ?_⟩
    obtain ⟨f, hf⟩ := (missing_iff h).mpr hreads
    exact hmissing f hf
  · intro hright
    constructor
    · intro conf x' h
      have ⟨_, brokers', hnegotiation⟩ := h
      obtain ⟨text, plin, plout, y, -, hreply, hstatus, -⟩ :=
        tspTunnelNegotiation_success hnegotiation
      exact ⟨⟨text, hreply, hstatus⟩, (parsed_zero_iff h).mpr (hright conf x' h).1⟩
    · intro f hmissing
      by_cases h : ∃ conf x', Negotiated c d versionIndex brokers x conf x'
      · obtain ⟨conf, x', h⟩ := h
        exact (hright conf x' h).2 ((missing_iff h).mp ⟨f, hmissing⟩)
      · exact (tspSetupTunnel_calm fun conf x' hx' => h ⟨conf, x', hx'⟩).missing f hmissing

/-- A reply with status 200 and without a tunnel: the negotiation reports success, and the type of
the tunnel is read. -/
theorem unparsed_reply_read :
    (∃ conf x', Negotiated sampleConf (sampleDialogue ["200 Success\r\n"]) 0 ⟨0, []⟩ started
      conf x') ∧
    .parsed 1 ∈ (tspSetupTunnel sampleConf (sampleDialogue ["200 Success\r\n"]) 0 ⟨0, []⟩).log
      started ∧
    (tspSetupTunnel sampleConf (sampleDialogue ["200 Success\r\n"]) 0 ⟨0, []⟩).result started =
      .error (.missing .type) := by
  have hmissing : (tspSetupTunnel sampleConf (sampleDialogue ["200 Success\r\n"]) 0 ⟨0, []⟩).result
      started = .error (.missing .type) := Logged.result_of_faultOf (by decide +kernel)
  refine ⟨?_, by decide +kernel, hmissing⟩
  by_contra h
  refine (tspSetupTunnel_calm fun conf x' hx' => h ?_).missing .type hmissing
  exact ⟨conf, x', hx'⟩

/-- `route` and `ifconfig` have a text of the server only if the tunnel information is valid, if and
only if the end of the interface has no text of an information that is not valid. -/
theorem commands_validated_iff (c : LocalConf) (d : Dialogue) (versionIndex : ℕ)
    (brokers : BrokerList) (x : TunState) :
    (∀ e ∈ (tspSetupTunnel c d versionIndex brokers).log x, e.ServerCommand →
      ∃ conf x', Negotiated c d versionIndex brokers x conf x' ∧
        validateTunnelInfo x'.info.theTunnelInfo = 0) ↔
    ∀ conf x', Negotiated c d versionIndex brokers x conf x' →
      ¬(Reaches c d.host x'.info.theTunnelInfo x' ∧ validateTunnelInfo x'.info.theTunnelInfo ≠ 0 ∧
        EndUses c x'.info.theTunnelInfo) := by
  constructor
  · rintro hvalidated conf x' h ⟨hreaches, hvalid, huses⟩
    obtain ⟨e, he, hserver⟩ := (setUpNegotiated_server rfl hvalid).mpr ⟨hreaches, huses⟩
    obtain ⟨command, rfl⟩ := exec_of_server hserver
    obtain ⟨conf', x'', h', hvalid'⟩ := hvalidated _ ((exec_mem_iff h).mpr he) hserver
    exact hvalid (h.unique h' ▸ hvalid')
  · intro hlocal e he hserver
    obtain ⟨command, rfl⟩ := exec_of_server hserver
    by_cases h : ∃ conf x', Negotiated c d versionIndex brokers x conf x'
    · obtain ⟨conf, x', h⟩ := h
      refine ⟨conf, x', h, ?_⟩
      by_contra hvalid
      obtain ⟨hreaches, huses⟩ := (setUpNegotiated_server rfl hvalid).mp
        ⟨_, (exec_mem_iff h).mp he, hserver⟩
      exact hlocal conf x' h ⟨hreaches, hvalid, huses⟩
    · have hcalm : Calm (tspSetupTunnel c d versionIndex brokers) x :=
        tspSetupTunnel_calm fun conf x' hx' => h ⟨conf, x', hx'⟩
      rcases hcalm.events _ he with he | he | hmemory
      · cases he
      · cases he
      · exact hmemory.elim

theorem refused_address_executed :
    ((tspSetupTunnel sampleConf (sampleDialogue ["200 Success\r\n", "<tunnel type=\"v6v4\">",
        "<client><address type=\"ipv6\">", "lo0</address></client></tunnel>"]) 0 ⟨0, []⟩).result
          started).toOption.map (fun r => r.1.status) = some .badTunnelParam ∧
    Event.exec [⟨.fixed, ascii "/sbin/ifconfig"⟩, ⟨.conf, ascii "gif0"⟩, ⟨.fixed, ascii "inet6"⟩,
        ⟨.server, ascii "lo0"⟩, ⟨.fixed, ascii "delete"⟩] ∈
      (tspSetupTunnel sampleConf (sampleDialogue ["200 Success\r\n", "<tunnel type=\"v6v4\">",
        "<client><address type=\"ipv6\">", "lo0</address></client></tunnel>"]) 0 ⟨0, []⟩).log
          started := by
  decide +kernel

/-! ## The memory and the socket of a session -/

/-- What is freed is a live block, and a socket that is opened is closed once. -/
structure InOrder (m : Act SessionEnd) (x : TunState) : Prop where
  freed : .freed false ∉ m.log x
  closed_le : (m.log x).count .closed ≤ (m.log x).count .opened
  closed_eq : ∀ r, m.result x = .ok r → (m.log x).count .closed = (m.log x).count .opened

section InOrder

variable {c : LocalConf} {d : Dialogue} {versionIndex : ℕ} {brokers : BrokerList} {conf : Conf}
  {x x' : TunState}

theorem Calm.inOrder {m : Act SessionEnd} (h : Calm m x) : InOrder m x := by
  refine ⟨fun he => ?_, h.closed_le, h.closed_eq⟩
  rcases h.events _ he with he | he | hmemory
  · cases he
  · cases he
  · cases hmemory

variable (h : Negotiated c d versionIndex brokers x conf x')
include h

theorem freed_mem_iff :
    .freed false ∈ (tspSetupTunnel c d versionIndex brokers).log x ↔
      (OpensDevice c d.host x'.info.theTunnelInfo ∧ c.ifTunnelAllocated = false) ∨
        StaticPrefix c d.host x'.info.theTunnelInfo x' := by
  obtain ⟨size, howned⟩ := h.owned
  obtain ⟨ending, hlog, -⟩ := tspSetupTunnel_negotiated h
  have hnegotiation : .freed false ∉
      (negotiation d conf versionIndex brokers).log (afterConnect x) := fun he =>
    nomatch (tspTunnelNegotiation_tidy _ _ _ _ _).log _ he
  rw [← (setUpNegotiated_count rfl howned).2.2, hlog, List.mem_cons, List.mem_cons, List.mem_append,
    mem_log_closing Event.noConfusion]
  simp [hnegotiation]

/-- The socket of a session is opened once, and closed in the tunnel loop and at the end. -/
theorem session_count :
    ((tspSetupTunnel c d versionIndex brokers).log x).count .opened = 1 ∧
      (((∃ fault, (tspSetupTunnel c d versionIndex brokers).result x = .error fault) ∧
        ¬ClosesEarly c d.host x'.info.theTunnelInfo x' ∧
        ((tspSetupTunnel c d versionIndex brokers).log x).count .closed = 0) ∨
      ((∃ r, (tspSetupTunnel c d versionIndex brokers).result x = .ok r) ∧
        ((tspSetupTunnel c d versionIndex brokers).log x).count .closed =
          (if ClosesEarly c d.host x'.info.theTunnelInfo x' then 1 else 0) + 1)) := by
  obtain ⟨size, howned⟩ := h.owned
  obtain ⟨ending, hlog, hresult⟩ := tspSetupTunnel_negotiated h
  obtain ⟨hopened, hclosed, -⟩ := setUpNegotiated_count (c := c) (d := d) rfl howned
  obtain ⟨hopened₁, hclosed₁⟩ := count_memory
    (tspTunnelNegotiation_tidy d (tspBuildCreateRequest conf).1 versionIndex brokers
      (afterConnect x)).log
  have hfault : ∀ fault, (setUpNegotiated c d).result x' = .error fault →
      ¬ClosesEarly c d.host x'.info.theTunnelInfo x' := by
    rintro fault hend ⟨hreaches, hvalid, -⟩
    rcases (setUpNegotiated_run (c := c) (d := d) rfl howned).2 with
      ⟨hreads, -⟩ | ⟨-, ⟨hno, -⟩ | ⟨e, x'', hend'⟩⟩
    · rcases hreads with hreads | hreads
      · exact hreaches.2.1 hreads.2
      · exact hreads.2.1 hvalid
    · exact hno hreaches
    · cases hend.symm.trans hend'
  unfold negotiation at hlog
  rcases Logged.result_cases (setUpNegotiated c d) x' with ⟨fault, hend⟩ | ⟨status, x'', hend⟩
  · rw [Logged.log_bind_of_error hend] at hlog
    rw [hlog, hresult]
    refine ⟨by simp [hopened, hopened₁], .inl ⟨⟨fault, Logged.result_bind_of_error hend _⟩,
      hfault fault hend, ?_⟩⟩
    simp [hclosed, hclosed₁, hfault fault hend]
  · have hclosing : (closing (ending status)).log x'' = [.closed] := rfl
    rw [Logged.log_bind_of_ok hend, hclosing] at hlog
    rw [hlog, hresult]
    refine ⟨by simp [hopened, hopened₁], .inr ⟨⟨_, Logged.result_bind_of_ok hend⟩, ?_⟩⟩
    simp [hclosed, hclosed₁]

end InOrder

/-- The memory and the socket are in order, if and only if there is no delegated prefix, no tunnel
over UDP that is set up, and no name of a device that is not allocated. -/
theorem session_in_order_iff (c : LocalConf) (d : Dialogue) (versionIndex : ℕ)
    (brokers : BrokerList) (x : TunState) :
    InOrder (tspSetupTunnel c d versionIndex brokers) x ↔
    ∀ conf x', Negotiated c d versionIndex brokers x conf x' →
      (OpensDevice c d.host x'.info.theTunnelInfo → c.ifTunnelAllocated = true) ∧
        ¬StaticPrefix c d.host x'.info.theTunnelInfo x' ∧
        ¬ClosesEarly c d.host x'.info.theTunnelInfo x' := by
  constructor
  · rintro horder conf x' h
    have hfreed := mt (freed_mem_iff h).mpr horder.freed
    refine ⟨fun hopens => ?_, fun hstatic => hfreed (.inr hstatic), fun hcloses => ?_⟩
    · by_contra hallocated
      exact hfreed (.inl ⟨hopens, Bool.eq_false_of_not_eq_true hallocated⟩)
    · have hle := horder.closed_le
      obtain ⟨hopened, ⟨-, hno, -⟩ | ⟨-, hclosed⟩⟩ := session_count h
      · exact hno hcloses
      · rw [hopened, hclosed, if_pos hcloses] at hle
        exact nomatch hle
  · intro hright
    by_cases h : ∃ conf x', Negotiated c d versionIndex brokers x conf x'
    · obtain ⟨conf, x', h⟩ := h
      obtain ⟨hallocated, hstatic, hcloses⟩ := hright conf x' h
      obtain ⟨hopened, hclosed⟩ := session_count h
      rw [if_neg hcloses] at hclosed
      refine ⟨fun hfreed => ?_, ?_, fun r hr => ?_⟩
      · rcases (freed_mem_iff h).mp hfreed with ⟨hopens, hfalse⟩ | hprefix
        · cases hfalse.symm.trans (hallocated hopens)
        · exact hstatic hprefix
      · rw [hopened]
        rcases hclosed with ⟨-, -, hclosed⟩ | ⟨-, hclosed⟩
        · rw [hclosed]
          exact Nat.zero_le _
        · exact hclosed.le
      · rcases hclosed with ⟨⟨fault, hfault⟩, -⟩ | ⟨-, hclosed⟩
        · cases hr.symm.trans hfault
        · rw [hclosed, hopened]
    · exact (tspSetupTunnel_calm fun conf x' hx' => h ⟨conf, x', hx'⟩).inOrder

/-- A tunnel over UDP with a delegated prefix: the socket is closed twice, and the static array is
freed. -/
theorem static_prefix_freed :
    ((tspSetupTunnel sampleConf (sampleDialogue (tunnelReply "v6udpv4" ["<router>",
        "<prefix length=\"64\">", "::</prefix>", "</router>"])) 0 ⟨0, []⟩).log started).filter
          (fun e => e ∈ [.opened, .closed, .freed false]) =
      [.opened, .closed, .freed false, .closed] := by
  decide +kernel

end Maiccu.Gogoc.Darwin
