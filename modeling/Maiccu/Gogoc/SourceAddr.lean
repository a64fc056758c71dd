import Maiccu.Gogoc.Main
import Maiccu.Lib.Run

/-!
# The source address of the tunnel requests

`tspUpdateSourceAddr` puts the local address of the session's socket in the place of "auto". It puts
it into the configuration, which the next sessions use, and there it does not find "auto" again.
-/

namespace Maiccu.Gogoc

open Maiccu.Lib Option List

theorem inetNtop_ne_auto (a : Bytes 4) : ¬SameNoCase (inetNtop a) (ascii "auto") := by
  intro h
  have hmem : 97 ∈ (inetNtop a).map lower := by
    rw [h]
    decide
  obtain ⟨c, hc, hlower⟩ := mem_map.mp hmem
  -- Neither a dot nor a digit becomes a letter.
  rcases inetNtop_chars hc with rfl | ⟨hlo, hhi⟩
  · exact nomatch hlower
  · have hkept : lower c = c := if_neg fun hupper =>
      absurd (UInt8.le_trans hupper.1 hhi) (by decide)
    rw [hkept] at hlower
    rw [hlower] at hhi
    exact nomatch hhi

/-! ## One attempt -/

/-- What `getsockname` has for an attempt in which the session comes to `tspUpdateSourceAddr`. -/
def Main.sourceOf (s : Main) (a : Attempt) : Option (Bytes 4) :=
  if a.stop then none
  else
    match s.chooseTransport with
    | none => none
    | some _ =>
      if a.session.authenticated s.conf.tunnelMode ∧ a.session.sockname then
        some a.session.localAddr
      else none

def filledIn (clientV4 : List UInt8) : Option (Bytes 4) → List UInt8
  | none => clientV4
  | some a => inetNtop a

variable {s s₁ : Main}

theorem chooseTransport_ipv4 (h : s.chooseTransport = some s₁) (hmode : s.conf.tunnelMode ≠ .v4v6) :
    s₁.conf.transport = .rudp ∨ s₁.conf.transport = .tcp := by
  have hcases := (chooseTransport_eq h).2
  cases hm : s.conf.tunnelMode with
  | v6udpv4 =>
    rw [hm] at hcases
    exact .inl hcases.2
  | v6anyv4 =>
    rw [hm] at hcases
    exact hcases.imp (·.2.2) (·.2.2)
  | v6v4 =>
    rw [hm] at hcases
    exact hcases.imp (·.2.2) (·.2.2)
  | v4v6 => exact absurd hm hmode

theorem chooseTransport_clientV4 (h : s.chooseTransport = some s₁) :
    s₁.conf.clientV4 = s.conf.clientV4 := by
  rw [(chooseTransport_eq h).1]

section Update

variable {conf : Conf} {session : Session} (hmode : conf.tunnelMode ≠ .v4v6)
include hmode

theorem update_of_not_auto (h : ¬SameNoCase conf.clientV4 (ascii "auto")) :
    tspUpdateSourceAddr conf session = some conf := by
  unfold tspUpdateSourceAddr
  rw [if_pos hmode, if_neg h]

theorem update_of_auto (h : SameNoCase conf.clientV4 (ascii "auto"))
    (htransport : conf.transport = .rudp ∨ conf.transport = .tcp) :
    tspUpdateSourceAddr conf session =
      if session.sockname then some { conf with clientV4 := inetNtop session.localAddr }
      else none := by
  unfold tspUpdateSourceAddr
  rw [if_pos hmode, if_pos h]
  by_cases hname : session.sockname = true
  · rw [if_pos ⟨htransport, hname⟩, if_pos hname]
  · rw [if_neg (fun hand => hname hand.2), if_neg hname]

end Update

variable {conf : Conf}

theorem session_clientV4 {session : Session} (hmode : conf.tunnelMode ≠ .v4v6)
    (htransport : conf.transport = .rudp ∨ conf.transport = .tcp) (versionIndex : ℕ)
    (brokers : BrokerList) :
    (tspSetupTunnel conf session versionIndex brokers).conf.clientV4 =
      if SameNoCase conf.clientV4 (ascii "auto") ∧
          session.authenticated conf.tunnelMode = true ∧ session.sockname = true then
        inetNtop session.localAddr
      else conf.clientV4 := by
  cases hauth : session.authenticated conf.tunnelMode with
  | false =>
    rw [(setup_of_not_authenticated hauth).1, if_neg (fun h => by cases h.2.1)]
  | true =>
    rw [setup_of_authenticated hauth]
    unfold setUpAuthenticated
    by_cases hauto : SameNoCase conf.clientV4 (ascii "auto")
    · rw [update_of_auto hmode hauto htransport]
      by_cases hname : session.sockname = true
      · rw [if_pos hname, if_pos ⟨hauto, rfl, hname⟩]
        exact request_clientV4
      · rw [if_neg hname, if_neg (fun h => hname h.2.2)]
    · rw [update_of_not_auto hmode hauto, if_neg (fun h => hauto h.1)]
      exact request_clientV4

theorem step_clientV4 {s' : Main} {a : Attempt} (hstep : s.step a = some s')
    (hmode : s.conf.tunnelMode ≠ .v4v6) :
    s'.conf.clientV4 =
      if SameNoCase s.conf.clientV4 (ascii "auto") then filledIn s.conf.clientV4 (s.sourceOf a)
      else s.conf.clientV4 := by
  have hstop : a.stop = false := stop_of_step hstep
  obtain ⟨hchoose, hconf⟩ | ⟨s₁, hchoose, hconf⟩ := step_conf hstep
  · have hsource : s.sourceOf a = none := by
      unfold Main.sourceOf
      rw [hstop, hchoose]
      rfl
    rw [hconf, hsource]
    exact (ite_self _).symm
  · have hclient : s'.conf.clientV4 = (s₁.session a).conf.clientV4 := by rw [hconf]
    have hmode₁ : s₁.conf.tunnelMode ≠ .v4v6 := by
      rw [chooseTransport_tunnelMode hchoose]
      exact hmode
    rw [hclient]
    unfold Main.session
    rw [session_clientV4 hmode₁ (chooseTransport_ipv4 hchoose hmode),
      chooseTransport_clientV4 hchoose, chooseTransport_tunnelMode hchoose]
    unfold Main.sourceOf
    rw [hstop, hchoose]
    by_cases hauto : SameNoCase s.conf.clientV4 (ascii "auto")
    · rw [if_pos hauto]
      by_cases hfound :
          a.session.authenticated s.conf.tunnelMode = true ∧ a.session.sockname = true
      · rw [if_pos ⟨hauto, hfound⟩]
        rw [if_neg Bool.false_ne_true, if_pos hfound]
        rfl
      · rw [if_neg (fun h => hfound h.2)]
        rw [if_neg Bool.false_ne_true, if_neg hfound]
        rfl
    · rw [if_neg hauto, if_neg (fun h => hauto h.1)]

/-! ## Runs -/

def Main.Step (s : Main) (e : Attempt × Option (Bytes 4)) (s' : Main) : Prop :=
  s.step e.1 = some s' ∧ e.2 = s.sourceOf e.1

def firstSource (es : List (Attempt × Option (Bytes 4))) : Option (Bytes 4) :=
  (es.filterMap Prod.snd).head?

theorem firstSource_append (es : List (Attempt × Option (Bytes 4)))
    (e : Attempt × Option (Bytes 4)) : firstSource (es ++ [e]) = (firstSource es).or e.2 := by
  unfold firstSource
  rw [filterMap_append, head?_append]
  congr 1
  cases h : e.2 with
  | none => rw [filterMap_cons_none h, filterMap_nil, head?_nil]
  | some b => rw [filterMap_cons_some h, head?_cons]

variable {file : Option (List UInt8)} {junk : UInt16} {server : List UInt8}

theorem start_tunnelMode : (Main.start conf server file junk).conf.tunnelMode =
    conf.tunnelMode := by
  unfold Main.start
  split_ifs
  · split
    · rfl
    · rfl
  · rfl

theorem start_clientV4 : (Main.start conf server file junk).conf.clientV4 = conf.clientV4 := by
  unfold Main.start
  split_ifs
  · split
    · rfl
    · rfl
  · rfl

section Runs

variable {es : List (Attempt × Option (Bytes 4))}

theorem run_tunnelMode (hrun : Run Main.Step (Main.start conf server file junk) es s) :
    s.conf.tunnelMode = conf.tunnelMode :=
  hrun.invariant start_tunnelMode
    fun _ _ _ hmode hstep => (step_tunnelMode hstep.1).trans hmode

theorem run_clientV4 (hauto : SameNoCase conf.clientV4 (ascii "auto"))
    (hmode : conf.tunnelMode ≠ .v4v6)
    (hrun : Run Main.Step (Main.start conf server file junk) es s) :
    s.conf.clientV4 = filledIn conf.clientV4 (firstSource es) := by
  refine hrun.induct start_clientV4 ?_
  intro es s e s' hrun ih ⟨hstep, hsource⟩
  have hmode' : s.conf.tunnelMode ≠ .v4v6 := by
    rw [run_tunnelMode hrun]
    exact hmode
  rw [step_clientV4 hstep hmode', ih, firstSource_append, hsource]
  cases firstSource es with
  | none => exact if_pos hauto
  | some b => exact if_neg (inetNtop_ne_auto b)

variable {a : Attempt} {text : List UInt8} {conf' : Conf}

theorem request_inv (hreq : s.request a = some text) :
    ∃ s₁ conf', s.chooseTransport = some s₁ ∧ tspUpdateSourceAddr s₁.conf a.session = some conf' ∧
      text = (tspBuildCreateRequest conf').1 := by
  unfold Main.request at hreq
  split_ifs at hreq
  cases hchoose : s.chooseTransport with
  | none =>
    rw [hchoose] at hreq
    cases hreq
  | some s₁ =>
    rw [hchoose] at hreq
    change (tspSetupTunnel s₁.conf a.session s₁.versionIndex s₁.brokers).request = _ at hreq
    cases hauth : a.session.authenticated s₁.conf.tunnelMode with
    | false =>
      rw [(setup_of_not_authenticated hauth).2] at hreq
      cases hreq
    | true =>
      rw [setup_of_authenticated hauth] at hreq
      unfold setUpAuthenticated at hreq
      cases hupd : tspUpdateSourceAddr s₁.conf a.session with
      | none =>
        rw [hupd] at hreq
        cases hreq
      | some conf' =>
        rw [hupd] at hreq
        cases hreq
        exact ⟨s₁, conf', rfl, hupd, rfl⟩

theorem update_clientV4 (hmode : s.conf.tunnelMode ≠ .v4v6) (hchoose : s.chooseTransport = some s₁)
    (hupd : tspUpdateSourceAddr s₁.conf a.session = some conf') :
    conf'.clientV4 = if SameNoCase s.conf.clientV4 (ascii "auto") then
      inetNtop a.session.localAddr else s.conf.clientV4 := by
  have hmode₁ : s₁.conf.tunnelMode ≠ .v4v6 := by
    rw [chooseTransport_tunnelMode hchoose]
    exact hmode
  rw [← chooseTransport_clientV4 hchoose]
  by_cases hauto : SameNoCase s₁.conf.clientV4 (ascii "auto")
  · rw [update_of_auto hmode₁ hauto (chooseTransport_ipv4 hchoose hmode)] at hupd
    split_ifs at hupd
    cases hupd
    exact (if_pos hauto).symm
  · rw [update_of_not_auto hmode₁ hauto] at hupd
    cases hupd
    exact (if_neg hauto).symm

theorem update_tunnelMode (hchoose : s.chooseTransport = some s₁)
    (hupd : tspUpdateSourceAddr s₁.conf a.session = some conf') :
    conf'.tunnelMode = s.conf.tunnelMode := by
  rw [sameSetup_update hupd]
  exact chooseTransport_tunnelMode hchoose

theorem ipv4Source_inetNtop {b : Bytes 4} (hmode : conf.tunnelMode ≠ .v4v6)
    (h : conf.clientV4 = inetNtop b) :
    ipv4Source (tspBuildCreateRequest conf).1 = some (inetNtop b) := by
  rw [← h]
  refine ipv4Source_request hmode ?_ ?_
  · have hlen := inetNtop_length b
    rw [h]
    omega
  · rw [h]
    intro htag
    rcases inetNtop_chars htag with htag | ⟨-, htag⟩
    · exact nomatch htag
    · exact nomatch htag

theorem request_source (hauto : SameNoCase conf.clientV4 (ascii "auto"))
    (hmode : conf.tunnelMode ≠ .v4v6) (hrun : Run Main.Step (Main.start conf server file junk) es s)
    (hreq : s.request a = some text) :
    ipv4Source text = some (inetNtop ((firstSource es).getD a.session.localAddr)) := by
  have hmode' : s.conf.tunnelMode ≠ .v4v6 := by
    rw [run_tunnelMode hrun]
    exact hmode
  obtain ⟨s₁, conf', hchoose, hupd, rfl⟩ := request_inv hreq
  refine ipv4Source_inetNtop ((update_tunnelMode hchoose hupd).trans_ne hmode') ?_
  rw [update_clientV4 hmode' hchoose hupd, run_clientV4 hauto hmode hrun]
  cases firstSource es with
  | none => exact if_pos hauto
  | some b => exact if_neg (inetNtop_ne_auto b)

theorem request_source_v4v6 (hmode : conf.tunnelMode = .v4v6)
    (hrun : Run Main.Step (Main.start conf server file junk) es s)
    (hreq : s.request a = some text) :
    ipv4Source text = none := by
  obtain ⟨s₁, conf', hchoose, hupd, rfl⟩ := request_inv hreq
  refine ipv4Source_v4v6 ?_
  rw [update_tunnelMode hchoose hupd, run_tunnelMode hrun, hmode]

/-- With `client_v4=auto` the IPv4 address in a tunnel request is the local address of its own
socket exactly if no earlier session of the run has found another one. In the mode `v4v6` there is
no such address. -/
theorem request_gives_own_address (hauto : SameNoCase conf.clientV4 (ascii "auto"))
    (hrun : Run Main.Step (Main.start conf server file junk) es s)
    (hreq : s.request a = some text) :
    (ipv4Source text = if conf.tunnelMode = .v4v6 then none
      else some (inetNtop a.session.localAddr)) ↔
    conf.tunnelMode = .v4v6 ∨ ∀ b, firstSource es = some b → b = a.session.localAddr := by
  by_cases hmode : conf.tunnelMode = .v4v6
  · rw [if_pos hmode, request_source_v4v6 hmode hrun hreq]
    exact ⟨fun _ => .inl hmode, fun _ => rfl⟩
  rw [if_neg hmode, request_source hauto hmode hrun hreq, or_iff_right hmode, some_inj,
    inetNtop_injective.eq_iff]
  cases firstSource es with
  | none => exact ⟨nofun, fun _ => rfl⟩
  | some b => exact ⟨fun h c hc => some.inj hc ▸ h, fun h => h b rfl⟩

end Runs

/-! ## A host that moves -/

def tunnelUntilTimeout (addr : Bytes 4) : Attempt where
  stop := false
  session :=
    { connect := .connected
      capabilities := .capability 3
      auth := .accepted
      localAddr := addr
      localAddr6 := []
      sockname := true
      negotiation := .status 200 ⟨none, none⟩
      acknowledged := true
      localEnd := .keepaliveTimeout }
  brokerListFile := none
  starved := false
  junk := 0

theorem hostConf_auto : SameNoCase hostConf.clientV4 (ascii "auto") := by decide

theorem request_after_session (b : Bytes 4)
    (h : ((hostStart.step (tunnelUntilTimeout (bytes [192, 0, 2, 1]))).bind
      (·.request (tunnelUntilTimeout b))).isSome = true) :
    ∃ s text, Run Main.Step hostStart
        [(tunnelUntilTimeout (bytes [192, 0, 2, 1]), some (bytes [192, 0, 2, 1]))] s ∧
      s.request (tunnelUntilTimeout b) = some text := by
  obtain ⟨text, hboth⟩ := isSome_iff_exists.mp h
  obtain ⟨s, hstep, htext⟩ := bind_eq_some_iff.mp hboth
  exact ⟨s, text, .next .start ⟨hstep, by decide +kernel⟩, htext⟩

theorem request_gives_own_address_again : ∃ s text,
    Run Main.Step hostStart
      [(tunnelUntilTimeout (bytes [192, 0, 2, 1]), some (bytes [192, 0, 2, 1]))] s ∧
    s.request (tunnelUntilTimeout (bytes [192, 0, 2, 1])) = some text ∧
    ipv4Source text = some (inetNtop (bytes [192, 0, 2, 1])) := by
  obtain ⟨s, text, hrun, htext⟩ := request_after_session (bytes [192, 0, 2, 1]) (by decide +kernel)
  refine ⟨s, text, hrun, htext,
    (request_gives_own_address hostConf_auto hrun htext).mpr (.inr ?_)⟩
  rintro b ⟨⟩
  rfl

/-- The client connects again, now from another address. The request still gives the first one. -/
theorem request_gives_old_address : ∃ s text,
    Run Main.Step hostStart
      [(tunnelUntilTimeout (bytes [192, 0, 2, 1]), some (bytes [192, 0, 2, 1]))] s ∧
    s.request (tunnelUntilTimeout (bytes [198, 51, 100, 7])) = some text ∧
    ipv4Source text = some (inetNtop (bytes [192, 0, 2, 1])) ∧
    inetNtop (bytes [192, 0, 2, 1]) ≠ inetNtop (bytes [198, 51, 100, 7]) := by
  obtain ⟨s, text, hrun, htext⟩ := request_after_session (bytes [198, 51, 100, 7])
    (by decide +kernel)
  have hsource := request_source hostConf_auto (by decide) hrun htext
  exact ⟨s, text, hrun, htext, hsource, by decide +kernel⟩

end Maiccu.Gogoc
