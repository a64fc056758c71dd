import Maiccu.Gogoc.ServerWalk

/-!
# Pointers into the broker list

`tspMain` keeps a pointer into a list that is freed and built anew by the functions it calls. So do
the threads that measure the distances of the brokers: each of them starts by reading its node.
-/

namespace Maiccu.Gogoc

open Maiccu.Lib Option

/-! ## The pointer of the main loop -/

variable {s : Main} {a : Attempt} {m : Measuring} {r : RedirectReply}

theorem attempt_walks (a : Attempt) (h : s.Walks) :
    (s.attempt a).Meets Main.Walks fun _ => True := by
  have hknown : s.Known s.originalServer False := ⟨False.elim, rfl, h⟩
  exact (attempt_known hknown).imp (fun _ h' => h'.1.walks) fun _ _ => trivial

theorem step_walks {s' : Main} (h : s.Walks) (hstep : s.step a = some s') : s'.Walks := by
  have hmeets := attempt_walks a h
  obtain hv | ⟨s₂, hv, rfl⟩ | ⟨s₂, hv, -, rfl⟩ := step_cases hstep
  · rw [hv] at hmeets
    exact hmeets
  · rw [hv] at hmeets
    rw [waitRetry_eq]
    exact hmeets
  -- A new round does not walk a list.
  · exact nofun

/-! ## The threads that measure distances -/

/-- What `tspGetBrokerDistances` (`net_echo_request.c`) meets; the numbers are those of the brokers
in the list. -/
structure Measuring where
  /-- There is memory for the two arrays. -/
  memory : Bool
  /-- `pal_thread_create` starts the thread. -/
  created : ℕ → Bool
  /-- `pal_thread_join` waits for it. -/
  joined : ℕ → Bool
  /-- If nobody waits for the thread, it reads or writes its node once more after the list is
  freed. -/
  late : ℕ → Bool
  distances : ℕ → ℕ

/-- The distances of `n` brokers, if all went well, and the threads that nobody has waited for. -/
def tspGetBrokerDistances (m : Measuring) (n : ℕ) : Option (ℕ → ℕ) × List ℕ :=
  if m.memory then
    let started := (List.range n).takeWhile m.created
    if started.length < n then (none, started)
    else
      let left := (List.range n).dropWhile m.joined
      if left = [] then (some m.distances, []) else (none, left)
  else (none, [])

theorem distances_none_of_left {n t : ℕ} (h : t ∈ (tspGetBrokerDistances m n).2) :
    (tspGetBrokerDistances m n).1 = none := by
  unfold tspGetBrokerDistances at h ⊢
  dsimp only at h ⊢
  split_ifs at h ⊢
  · rfl
  · cases h
  · rfl
  · rfl

def RedirectReply.listed (r : RedirectReply) : List Broker :=
  match r.payload.map tspCreateBrokerList with
  | some (.ok nodes) => nodes
  | _ => []

def RedirectReply.measured (m : Measuring) (r : RedirectReply) : RedirectReply :=
  { r with distances := (tspGetBrokerDistances m r.listed.length).1 }

/-- The threads that come to a node of the list of a redirection after it is freed. -/
def RedirectReply.lateThreads (m : Measuring) (r : RedirectReply) : List ℕ :=
  if 1 < r.listed.length then (tspGetBrokerDistances m r.listed.length).2.filter m.late else []

def Attempt.measured (m : Measuring) (a : Attempt) : Attempt :=
  { a with
    session := { a.session with
      capabilities :=
        match a.session.capabilities with
        | .status code r => .status code (r.measured m)
        | reply => reply
      auth :=
        match a.session.auth with
        | .redirect r => .redirect (r.measured m)
        | reply => reply
      negotiation :=
        match a.session.negotiation with
        | .status code r => .status code (r.measured m)
        | reply => reply } }

def Session.redirection (conf : Conf) (session : Session) : Option RedirectReply :=
  match session.connect, session.capabilities, session.auth, session.negotiation with
  | .connected, .status code r, _, _ => if tspIsRedirectStatus code then some r else none
  | .connected, .capability cap, .redirect r, _ =>
    if conf.tunnelMode.bits &&& cap = 0 then none else some r
  | .connected, .capability cap, .accepted, .status code r =>
    if conf.tunnelMode.bits &&& cap = 0 then none
    else if (tspUpdateSourceAddr conf session).isSome ∧ tspIsRedirectStatus code then some r
    else none
  | _, _, _, _ => none

def Main.lateThreads (s : Main) (a : Attempt) (m : Measuring) : List ℕ :=
  if a.stop then []
  else
    match s.chooseTransport with
    | none => []
    | some s₁ =>
      match a.session.redirection s₁.conf with
      | none => []
      | some r => r.lateThreads m

def Verdict.Keeps (made : ℕ) : Verdict → Prop
  | .again s | .wait s | .endRound s => s.brokers.made = made ∧ s.brokers.nodes ≠ []
  | .quit | .fault => False

/-- In an attempt a freed node is read: by the main loop, or by a thread that comes to its node when
the list of the redirection is gone. -/
def Main.ReadsFreed (s : Main) (a : Attempt) (m : Measuring) : Prop :=
  s.attempt (a.measured m) = .fault ∨
    s.lateThreads a m ≠ [] ∧ ¬(s.attempt (a.measured m)).Keeps (s.brokers.made + 1)

/-! ## A redirection whose distances are not measured -/

theorem setup_of_redirection {conf : Conf} {session : Session}
    (h : session.redirection conf = some r) (versionIndex : ℕ) (brokers : BrokerList) :
    (tspSetupTunnel conf session versionIndex brokers).status =
        redirectStatus (tspHandleRedirect r brokers).1 ∧
      (tspSetupTunnel conf session versionIndex brokers).brokers =
        (tspHandleRedirect r brokers).2 := by
  have hne := redirectStatus_ne_success (tspHandleRedirect r brokers).1
  have hio : redirectStatus (tspHandleRedirect r brokers).1 ≠ .socketIo := by
    cases (tspHandleRedirect r brokers).1 <;> exact Status.noConfusion
  unfold Session.redirection at h
  split at h
  · rename_i code r' auth nego hconnect hcap
    split_ifs at h with hcode
    cases h
    unfold tspSetupTunnel setUpConnected tspGetCapabilities
    rw [hconnect, hcap]
    dsimp only
    rw [if_pos hcode, if_neg hne, if_neg fun h => hio h.1]
    exact ⟨rfl, rfl⟩
  · rename_i cap r' nego hconnect hcap hauth
    split_ifs at h with hmode
    cases h
    unfold tspSetupTunnel setUpConnected tspGetCapabilities tspAuthenticate
    rw [hconnect, hcap, hauth]
    rw [if_pos rfl, if_neg hmode, if_neg hne]
    exact ⟨rfl, rfl⟩
  · rename_i cap code r' hconnect hcap hauth hnego
    split_ifs at h with hmode hcode
    cases h
    obtain ⟨conf', hupd⟩ := isSome_iff_exists.mp hcode.1
    unfold tspSetupTunnel setUpConnected tspGetCapabilities tspAuthenticate setUpAuthenticated
      tspTunnelNegotiation
    rw [hconnect, hcap, hauth, hnego]
    rw [if_pos rfl, if_neg hmode, if_pos rfl, hupd]
    dsimp only
    rw [if_pos hcode.2, if_neg hne]
    exact ⟨rfl, rfl⟩
  · cases h

theorem redirection_measured (conf : Conf) (a : Attempt) (m : Measuring) :
    (a.measured m).session.redirection conf =
      (a.session.redirection conf).map (RedirectReply.measured m) := by
  have hupd : tspUpdateSourceAddr conf (a.measured m).session =
      tspUpdateSourceAddr conf a.session := rfl
  unfold Session.redirection
  rw [hupd]
  unfold Attempt.measured
  cases a.session.connect with
  | connected =>
    cases a.session.capabilities with
    | status code r =>
      dsimp only
      split_ifs <;> rfl
    | capability cap =>
      cases a.session.auth with
      | redirect r =>
        dsimp only
        split_ifs <;> rfl
      | accepted =>
        cases a.session.negotiation with
        | status code r =>
          dsimp only
          split_ifs <;> rfl
        | starved | lost => rfl
      | failed e => rfl
    | lost => rfl
  | badAddress | unresolved | refused => rfl

theorem handleRedirect_of_late {brokers : BrokerList} (h : r.lateThreads m ≠ []) :
    tspHandleRedirect (r.measured m) brokers = (some .cantSortList, brokers.renew r.listed) := by
  unfold RedirectReply.lateThreads at h
  split_ifs at h with hmany
  swap
  · exact absurd rfl h
  obtain ⟨t, ht⟩ := List.exists_mem_of_ne_nil _ h
  have hnone := distances_none_of_left (List.mem_filter.mp ht).1
  unfold tspHandleRedirect RedirectReply.measured
  rw [hnone]
  unfold RedirectReply.listed at hmany ⊢
  cases hpayload : r.payload with
  | none =>
    rw [hpayload] at hmany
    exact nomatch hmany
  | some p =>
    rw [hpayload] at hmany
    rw [map_some] at hmany ⊢
    dsimp only at hmany ⊢
    cases hlist : tspCreateBrokerList p with
    | error e =>
      rw [hlist] at hmany
      exact nomatch hmany
    | ok nodes =>
      rw [hlist] at hmany
      exact if_pos hmany

theorem not_keeps_of_late (h : s.lateThreads a m ≠ []) :
    ¬(s.attempt (a.measured m)).Keeps (s.brokers.made + 1) := by
  unfold Main.lateThreads at h
  split_ifs at h with hstop
  · exact absurd rfl h
  cases hchoose : s.chooseTransport with
  | none =>
    rw [hchoose] at h
    exact absurd rfl h
  | some s₁ =>
    rw [hchoose] at h
    dsimp only at h
    cases hr : a.session.redirection s₁.conf with
    | none =>
      rw [hr] at h
      exact absurd rfl h
    | some r =>
      rw [hr] at h
      have hmeasured : (a.measured m).session.redirection s₁.conf = some (r.measured m) := by
        rw [redirection_measured, hr]
        rfl
      have hsetup := setup_of_redirection hmeasured s₁.versionIndex s₁.brokers
      rw [handleRedirect_of_late h] at hsetup
      have hstatus : (s₁.session (a.measured m)).status = .badRedirection := hsetup.1
      unfold Main.attempt
      rw [if_neg (show ¬(a.measured m).stop = true from hstop), hchoose]
      dsimp only
      rw [hstatus]
      exact fun hkeeps => hkeeps.2 rfl

theorem attempt_ne_fault (a : Attempt) (h : s.Walks) : s.attempt a ≠ .fault := by
  intro hfault
  have hmeets := attempt_walks a h
  rw [hfault] at hmeets
  exact hmeets

def Main.MeasuredStep (s : Main) (a : Attempt × Measuring) (s' : Main) : Prop :=
  s.step (a.1.measured a.2) = some s'

/-- In every run, while the broker list is walked the current broker is a node of the list and the
server is its address. A freed node is read exactly in an attempt that leaves a thread which
measures for too long. -/
theorem freed_node_read_iff {conf : Conf} {server : List UInt8} {file : Option (List UInt8)}
    {junk : UInt16} {as : List (Attempt × Measuring)}
    (hrun : Run Main.MeasuredStep (Main.start conf server file junk) as s) :
    (s.tryingBrokerList = true → s.tryingOriginalServer = false → s.AtBroker) ∧
    ∀ a m, ¬s.ReadsFreed a m ↔ s.lateThreads a m = [] := by
  have hwalks : s.Walks := hrun.invariant start_ok.broker
    fun _ _ _ h hstep => step_walks h hstep
  refine ⟨hwalks, fun a m => ?_⟩
  constructor
  · intro hreads
    by_contra hlate
    exact hreads (.inr ⟨hlate, not_keeps_of_late hlate⟩)
  · rintro hlate (hfault | ⟨hne, -⟩)
    · exact attempt_ne_fault _ hwalks hfault
    · exact hne hlate

/-! ## Two redirections -/

def redirectedToTwo : Attempt :=
  answered .connected (.status 1200 ⟨some ⟨[ascii "192.0.2.10", ascii "192.0.2.11"], [], []⟩, none⟩)

def measuredInTime : Measuring := ⟨true, fun _ => true, fun _ => true, fun _ => false, fun i => i⟩

def secondThreadFails : Measuring :=
  ⟨true, fun i => i = 0, fun _ => true, fun _ => true, fun i => i⟩

theorem run_redirectedToTwo : ∃ s,
    Run Main.MeasuredStep hostStart [(redirectedToTwo, measuredInTime)] s ∧
    s.whereabouts = ((false, true, false), 0, some (ascii "192.0.2.10")) := by
  have hruns : (hostStart.step (redirectedToTwo.measured measuredInTime)).map Main.whereabouts =
      some ((false, true, false), 0, some (ascii "192.0.2.10")) := by
    decide +kernel
  obtain ⟨s, hs, hwhere⟩ := map_eq_some_iff.mp hruns
  exact ⟨s, Run.next .start hs, hwhere⟩

/-- After a redirection to two brokers the first is the current one, and no freed node is read if
the threads are waited for. -/
theorem freed_node_read_iff_redirected : ∃ s,
    Run Main.MeasuredStep hostStart [(redirectedToTwo, measuredInTime)] s ∧ s.AtBroker ∧
    ¬s.ReadsFreed redirectedToTwo measuredInTime := by
  obtain ⟨s, hrun, hwhere⟩ := run_redirectedToTwo
  have h := freed_node_read_iff hrun
  have hflags := congrArg Prod.fst hwhere
  refine ⟨s, hrun, h.1 (congrArg (·.2.1) hflags) (congrArg (·.1) hflags), ?_⟩
  rw [h.2]
  unfold Main.lateThreads
  split_ifs
  · rfl
  · split
    · rfl
    · split
      · rfl
      · rename_i r hr
        unfold RedirectReply.lateThreads
        split_ifs
        · rw [List.filter_eq_nil_iff]
          exact fun _ _ => Bool.false_ne_true
        · rfl

/-- The list of a redirection is freed while the thread for its first broker is still to read it. -/
theorem freed_node_read_by_thread : hostStart.ReadsFreed redirectedToTwo secondThreadFails := by
  have hlate : hostStart.lateThreads redirectedToTwo secondThreadFails ≠ [] := by decide +kernel
  exact .inr ⟨hlate, not_keeps_of_late hlate⟩

end Maiccu.Gogoc
