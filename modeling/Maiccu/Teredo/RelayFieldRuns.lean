import Maiccu.Teredo.RelayFieldsSafe

/-!
# Fields that are used too early

Runs of a relay or a client on `Tracked` records, in any state, with or without local discovery. The
one field that is used before it is written is `last_rx`, in the arguments of `debug`.
-/

namespace Maiccu.Teredo

open Maiccu.Lib PeerProg List

structure FieldRelay (A : Type) where
  tunnel : Tunnel
  list : PeerList In6Addr Tracked A

namespace FieldRelay

variable {A : Type}

def new (mem : Mem Generation A (Item In6Addr Tracked)) (tun : Tunnel) : FieldRelay A :=
  ⟨tun, PeerList.new mem maxPeers⟩

variable [DecidableEq A] (r : FieldRelay A)

/-- `teredo_state_change`. -/
def stateChange (s : TeredoState) (ifaces : Option (List Iface)) : List FieldEv × FieldRelay A :=
  if s.up then
    ([.called (.call (.upCb s.addr s.mtu)) true],
      { tunnel := { r.tunnel with
          state := s
          discovery := if r.tunnel.discNetmask.isSome then ifaces else none }
        list := r.list.reset maxPeers })
  else
    (if r.tunnel.state.up then [.called (.call .downCb) true] else [],
      { r with tunnel := { r.tunnel with state := s } })

def runProg {α : Type} (x : FieldProg α) (e : Env In6Addr Tracked A) :
    Option (List FieldEv × FieldRelay A) :=
  (x.run Tracked.init none e r.list).map fun y => (y.2.1, { r with list := y.2.2 })

def runOp (op : PeerOp In6Addr Tracked A) : Option (List FieldEv × FieldRelay A) :=
  (Teredo.step Tracked.init r.list op).map fun y => ([], { r with list := y.2 })

def step (debug : Bool) (key : Keyed) (e : Env In6Addr Tracked A) :
    Input → Option (List FieldEv × FieldRelay A)
  | .packet now time p => r.runProg (Fields.teredoRunInner key r.tunnel now time p) e
  | .transmit now p => r.runProg (Fields.teredoTransmit debug r.tunnel now p) e
  | .gc => if r.list.held = none then r.runOp .gc else none
  | .free i => r.runOp (.free i)
  | .state s ifaces => if r.list.held = none then some (r.stateChange s ifaces) else none

end FieldRelay

structure FieldEvent (A : Type) where
  input : Input
  env : Env In6Addr Tracked A
  effects : List FieldEv

def FieldStep {A : Type} [DecidableEq A] (debug : Bool) (key : Keyed) (r : FieldRelay A)
    (e : FieldEvent A) (r' : FieldRelay A) : Prop :=
  r.step debug key e.env e.input = some (e.effects, r')

namespace FieldEvent

variable {A : Type} (e : FieldEvent A)

/-- A branch or a packet of the step depends on the field `f`, which was not written. -/
def UsesUnwritten (f : Field) : Prop := ∃ ok, .called (.unwritten f) ok ∈ e.effects

def SendsToNew : Prop := (∃ now p, e.input = .transmit now p) ∧ ∃ k, .created k ∈ e.effects

end FieldEvent

/-! ## Steps -/

section Steps

variable {A : Type} {debug : Bool} {key : Keyed} {r : FieldRelay A} {es : List (FieldEvent A)}

def SentToNew (es : List (FieldEvent A)) : Prop := ∃ e ∈ es, e.SendsToNew

def FieldsOk (es : List (FieldEvent A)) (r : FieldRelay A) : Prop :=
  Holds (fun (_ : List FieldEv) k t => Known r.tunnel (SentToNew es) k t) [] r.list none .none

/-- What a step does: it can be made, and only then is a field used that was not written. -/
def FieldStepOk (debug : Bool) (es : List (FieldEvent A)) (env : Env In6Addr Tracked A) (i : Input)
    (x : Option (List FieldEv × FieldRelay A)) : Prop :=
  ∃ evs r', x = some (evs, r') ∧ FieldsOk (es ++ [⟨i, env, evs⟩]) r' ∧
    (∀ f, (⟨i, env, evs⟩ : FieldEvent A).UsesUnwritten f →
      f = .lastRx ∧ debug = true ∧ SentToNew (es ++ [⟨i, env, evs⟩])) ∧
    (debug = true → (⟨i, env, evs⟩ : FieldEvent A).SendsToNew →
      ∃ f, (⟨i, env, evs⟩ : FieldEvent A).UsesUnwritten f)

theorem SentToNew.append (h : SentToNew es) (e : FieldEvent A) : SentToNew (es ++ [e]) := by
  obtain ⟨e', he', hsends⟩ := h
  exact ⟨e', mem_append_left _ he', hsends⟩

theorem fieldStepOk_of_noUse {env : Env In6Addr Tracked A} {i : Input}
    {x : Option (List FieldEv × FieldRelay A)} {evs : List FieldEv} {r' : FieldRelay A}
    (hx : x = some (evs, r')) (hinput : ∀ now p, i ≠ .transmit now p)
    (hevs : ∀ f ok, .called (.unwritten f) ok ∉ evs)
    (hr : FieldsOk (es ++ [⟨i, env, evs⟩]) r') : FieldStepOk debug es env i x := by
  refine ⟨evs, r', hx, hr, fun f hf => ?_, fun _ hs => ?_⟩
  · obtain ⟨ok, hmem⟩ := hf
    exact absurd hmem (hevs f ok)
  · obtain ⟨⟨now, p, hi⟩, -⟩ := hs
    exact absurd hi (hinput now p)

def receiving (tun : Tunnel) (sent : Prop) : Terms where
  tun := tun
  late _ := sent
  told _ := True
  logs := False
  late_append _ h := h
  told_called _ _ _ := trivial

/-- The terms of a step that sends. It uses `last_rx` too early if it makes a record. -/
def sending (debug : Bool) (tun : Tunnel) (sent : Prop) : Terms where
  tun := tun
  late h := sent ∨ ∃ k, .created k ∈ h
  told h := debug = true → (∃ k, .created k ∈ h) → ∃ f ok, .called (.unwritten f) ok ∈ h
  logs := debug = true
  late_append _ h := h.imp_right fun ⟨k, hk⟩ => ⟨k, mem_append_left _ hk⟩
  told_called x ok h := by
    rintro hdebug ⟨k, hk⟩
    obtain ⟨f, ok', hf⟩ := h hdebug ⟨k, (List.mem_append.mp hk).resolve_right (by simp)⟩
    exact ⟨f, ok', mem_append_left _ hf⟩

variable [DecidableEq A]

theorem FieldsOk.runProg {α : Type} {T : Terms} {x : FieldProg α} (hr : FieldsOk es r)
    (htun : T.tun = r.tunnel) (hlate : SentToNew es → T.late []) (hx : T.Safe x .none [])
    (env : Env In6Addr Tracked A) :
    ∃ evs r', r.runProg x env = some (evs, r') ∧ r'.tunnel = T.tun ∧
      Holds T.Inv evs r'.list none .none ∧ T.told evs ∧
      ∀ f ok, .called (.unwritten f) ok ∈ evs → f = .lastRx ∧ T.logs ∧ T.late evs := by
  have hl : Holds T.Inv [] r.list none .none := by
    refine Holds.imp hr fun k t hk => ?_
    rw [← htun] at hk
    exact hk.imp hlate
  obtain ⟨a, evs, l', ptr', c', hrun, hdone, hlist, hcalls⟩ :=
    run_of_wp Tracked.init Terms.stable_inv x hx env hl
  refine ⟨evs, { r with list := l' }, ?_, htun.symm, hlist.close hdone.1, hdone.2,
    fun f ok hmem => ?_⟩
  · unfold FieldRelay.runProg
    rw [hrun, Option.map_some]
  · obtain ⟨pre, post, heq⟩ := append_of_mem hmem
    obtain ⟨hf, hlogs, hpre⟩ := hcalls pre _ ok post heq
    refine ⟨hf, hlogs, ?_⟩
    rw [heq]
    exact T.late_mono _ hpre

theorem FieldsOk.packet (hr : FieldsOk es r) (env : Env In6Addr Tracked A) (now : UInt64)
    (time : UInt32) (p : TeredoPacket) :
    FieldStepOk debug es env (.packet now time p) (r.step debug key env (.packet now time p)) := by
  obtain ⟨evs, r', hrun, htun, hlist, -, huses⟩ :=
    hr.runProg (T := receiving r.tunnel (SentToNew es))
    rfl (fun h => h) (Fields.safe_teredoRunInner (fun _ => trivial)) env
  refine fieldStepOk_of_noUse hrun (fun _ _ => by simp) (fun f ok hmem => (huses f ok hmem).2.1) ?_
  refine Holds.imp hlist fun k t hk => ?_
  rw [htun]
  exact Known.imp hk fun h => h.append _

theorem FieldsOk.transmit (hr : FieldsOk es r) (env : Env In6Addr Tracked A) (now : UInt64)
    (p : List UInt8) :
    FieldStepOk debug es env (.transmit now p) (r.step debug key env (.transmit now p)) := by
  have hsafe : (sending debug r.tunnel (SentToNew es)).Safe
      (Fields.teredoTransmit debug r.tunnel now p) .none [] := by
    refine Fields.safe_teredoTransmit (fun h => h) ?_ (fun k => Or.inr ⟨k, by simp⟩) fun k =>
      ⟨?_, ?_⟩
    · exact fun _ ⟨k, hk⟩ => absurd hk not_mem_nil
    · exact fun hdebug htrue => nomatch hdebug.symm.trans htrue
    · exact fun ok _ _ => ⟨.lastRx, ok, by simp⟩
  obtain ⟨evs, r', hrun, htun, hlist, htold, huses⟩ := hr.runProg
    (T := sending debug r.tunnel (SentToNew es)) rfl Or.inl hsafe env
  have hlate : (sending debug r.tunnel (SentToNew es)).late evs →
      SentToNew (es ++ [⟨.transmit now p, env, evs⟩]) := by
    rintro (h | ⟨k, hk⟩)
    · exact h.append _
    · exact ⟨_, mem_append_right _ mem_cons_self, ⟨now, p, rfl⟩, k, hk⟩
  refine ⟨evs, r', hrun, ?_, fun f ⟨ok, hmem⟩ => ?_, fun hdebug hs => htold hdebug hs.2⟩
  · refine Holds.imp hlist fun k t hk => ?_
    rw [htun]
    exact Known.imp hk hlate
  · obtain ⟨hf, hdebug, hl⟩ := huses f ok hmem
    exact ⟨hf, hdebug, hlate hl⟩

theorem FieldsOk.runOp {i : Input} (env : Env In6Addr Tracked A)
    (hinput : ∀ now p, i ≠ .transmit now p) {op : PeerOp In6Addr Tracked A}
    (hop : ∃ l', Teredo.step Tracked.init r.list op = some (.null, l') ∧
      FieldsOk es { r with list := l' }) :
    FieldStepOk debug es env i (r.runOp op) := by
  obtain ⟨l', hstep, hl⟩ := hop
  have hrun : r.runOp op = some ([], { r with list := l' }) := by
    unfold FieldRelay.runOp
    rw [hstep, Option.map_some]
  exact fieldStepOk_of_noUse hrun hinput (fun _ _ => not_mem_nil)
    (Holds.imp hl fun _ _ hk => hk.imp fun h => h.append _)

omit [DecidableEq A] in
theorem FieldsOk.stateChange (hr : FieldsOk es r) (env : Env In6Addr Tracked A) (s : TeredoState)
    (ifaces : Option (List Iface)) :
    FieldStepOk debug es env (.state s ifaces) (some (r.stateChange s ifaces)) := by
  unfold FieldRelay.stateChange
  by_cases hup : s.up = true
  · rw [if_pos hup]
    exact fieldStepOk_of_noUse rfl (fun _ _ => by simp) (by simp) (Holds.reset hr _)
  · rw [if_neg hup]
    refine fieldStepOk_of_noUse rfl (fun _ _ => by simp) (fun f ok => ?_)
      (Holds.imp hr fun k t hk => ?_)
    · split_ifs <;> simp
    · exact { hk with
        lastRx := hk.lastRx.imp_right fun h => h.append _
        pings := Or.inr fun _ hup' => absurd hup' hup }

theorem FieldsOk.step (hr : FieldsOk es r) (env : Env In6Addr Tracked A) (i : Input) :
    FieldStepOk debug es env i (r.step debug key env i) := by
  have hheld := hr.1
  cases i with
  | packet now time p => exact hr.packet env now time p
  | transmit now p => exact hr.transmit env now p
  | gc =>
    have hrun : r.step debug key env .gc = r.runOp .gc := if_pos hheld
    rw [hrun]
    exact FieldsOk.runOp env (by simp) (Holds.gc Tracked.init hr)
  | free i => exact FieldsOk.runOp env (by simp) (Holds.free Tracked.init hr i)
  | state s ifaces =>
    have hrun : r.step debug key env (.state s ifaces) = some (r.stateChange s ifaces) :=
      if_pos hheld
    rw [hrun]
    exact hr.stateChange env s ifaces

/-! ## Runs -/

variable {mem : Mem Generation A (Item In6Addr Tracked)} {tun : Tunnel}

theorem fieldsOk_of_run (hrun : Run (FieldStep debug key) (FieldRelay.new mem tun) es r) :
    FieldsOk es r ∧
      (∀ e ∈ es, ∀ f, e.UsesUnwritten f → f = .lastRx ∧ debug = true ∧ SentToNew es) ∧
      (debug = true → ∀ e ∈ es, e.SendsToNew → ∃ f, e.UsesUnwritten f) := by
  refine hrun.induct ?_ ?_
  · refine ⟨⟨rfl, _, _, _, _, rep_new, ?_⟩, ?_, ?_⟩
    · exact nofun
    · exact nofun
    · exact nofun
  · rintro es r ⟨i, env, evs⟩ r' - ⟨hr, huses, hsends⟩ hstep
    obtain ⟨evs', r'', hstep', hr', huses', hsends'⟩ := hr.step env i
    rw [hstep] at hstep'
    cases hstep'
    refine ⟨hr', ?_, ?_⟩
    · intro e he f hf
      rcases mem_append.mp he with he | he
      · obtain ⟨hrx, hdebug, hsent⟩ := huses e he f hf
        exact ⟨hrx, hdebug, hsent.append _⟩
      · obtain rfl := mem_singleton.mp he
        exact huses' f hf
    · intro hdebug e he hs
      rcases mem_append.mp he with he | he
      · exact hsends hdebug e he hs
      · obtain rfl := mem_singleton.mp he
        exact hsends' hdebug hs

/-- **What is used too early.** Each next input is processed. A branch or a packet depends on a
field that was not written if and only if the arguments of `debug` are evaluated and a packet is
sent to a peer that is not in the list, and then the field is `last_rx`. -/
theorem unwritten_used_iff (hrun : Run (FieldStep debug key) (FieldRelay.new mem tun) es r) :
    (∀ env input, ∃ effects r', FieldStep debug key r ⟨input, env, effects⟩ r') ∧
      ((∃ e ∈ es, ∃ f, e.UsesUnwritten f) ↔ debug = true ∧ ∃ e ∈ es, e.SendsToNew) ∧
      ∀ e ∈ es, ∀ f, e.UsesUnwritten f → f = .lastRx := by
  obtain ⟨hr, huses, hsends⟩ := fieldsOk_of_run hrun
  refine ⟨fun env input => ?_, ⟨?_, ?_⟩, fun e he f hf => (huses e he f hf).1⟩
  · obtain ⟨evs, r', hstep, -⟩ := hr.step env input
    exact ⟨evs, r', hstep⟩
  · rintro ⟨e, he, f, hf⟩
    exact (huses e he f hf).2
  · rintro ⟨hdebug, e, he, hs⟩
    exact ⟨e, he, hsends hdebug e he hs⟩

end Steps

/-! ## A packet to a new peer -/

def downTunnel : Tunnel := ⟨true, none, none, { clientState with up := false }⟩

def junkTracked : Item In6Addr Tracked := ⟨clientAddr, junkItem.peer, fun _ => true⟩

def trackedMem : Mem Generation ℕ (Item In6Addr Tracked) :=
  ⟨fun _ => none, fun _ => false, fun _ => none, fun _ => .head .recent, fun _ => junkTracked⟩

def hostAddr : In6Addr := bytes [0x20, 1, 0xd, 0xb8, 0, 0, 0, 0, 0, 0, 0, 0, 0, 0, 0, 1]

def hostPacket : List UInt8 :=
  [0x60, 0, 0, 0, 0, 1, 17, 64] ++ clientAddr.toList ++ hostAddr.toList ++ [7]

def fieldUp : FieldEvent ℕ :=
  ⟨.state clientState none, ⟨[], []⟩, [.called (.call (.upCb clientAddr 1280)) true]⟩

def hostSent (reports : List FieldEv) : FieldEvent ℕ where
  input := .transmit 5 hostPacket
  env := ⟨[(false, some (3, junkTracked))], []⟩
  effects := .created hostAddr :: reports ++ [.called (.call (.sendPing clientAddr hostAddr)) true]

def upRelay : FieldRelay ℕ := ((FieldRelay.new trackedMem downTunnel).stateChange clientState
    none).2

theorem hostSent_release : ∃ r,
    Run (FieldStep false constKey) (FieldRelay.new trackedMem downTunnel) [fieldUp, hostSent []] r ∧
      ¬ ∃ e ∈ [fieldUp, hostSent []], ∃ f, e.UsesUnwritten f := by
  have hup : FieldStep false constKey (FieldRelay.new trackedMem downTunnel) fieldUp upRelay := rfl
  have hsent : FieldStep false constKey upRelay (hostSent []) _ := rfl
  have hrun := (Run.start.next hup).next hsent
  refine ⟨_, hrun, fun huse => ?_⟩
  exact nomatch ((unwritten_used_iff hrun).2.1.mp huse).1

/-- In a build with `debug` the text depends on the `last_rx` that `malloc` left in the record. -/
theorem hostSent_debug : ∃ r,
    Run (FieldStep true constKey) (FieldRelay.new trackedMem downTunnel)
        [fieldUp, hostSent [.called (.unwritten .lastRx) true]] r ∧
      (hostSent [.called (.unwritten .lastRx) true]).UsesUnwritten .lastRx := by
  have hup : FieldStep true constKey (FieldRelay.new trackedMem downTunnel) fieldUp upRelay := rfl
  have hsent : FieldStep true constKey upRelay
    (hostSent [.called (.unwritten .lastRx) true]) _ := rfl
  exact ⟨_, (Run.start.next hup).next hsent, true, mem_cons_of_mem _ mem_cons_self⟩

end Maiccu.Teredo
