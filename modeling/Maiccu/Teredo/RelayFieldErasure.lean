import Maiccu.Teredo.PeerListMap
import Maiccu.Teredo.RelayFieldRuns

/-!
# Runs without the reports

Every run of a relay is the run of a relay with `Tracked` records, without the reports of fields
that were not written. So what is known of the fields of `Tracked` records holds in every run.
-/

namespace Maiccu.Teredo

open Maiccu.Lib PeerProg Option

/-! ## Programs -/

def eraseEv : FieldEv → Option RelayEv
  | .input i => some (.input i)
  | .created k => some (.created k)
  | .called (.call c) ok => some (.called c ok)
  | .called (.unwritten _) _ => none

def eraseEvs (evs : List FieldEv) : List RelayEv := evs.filterMap eraseEv

def untracked (p : Peer) : Tracked := ⟨p, fun _ => false⟩

section Programs

variable {A α : Type} (bs : List (Bool × Option (A × Item In6Addr Peer)))

def trackBlocks :
    List (Bool × Option (A × Item In6Addr Tracked)) :=
  bs.map fun b => (b.1, PeerList.mapBlock untracked b.2)

theorem mapBlock_untracked (b : Option (A × Item In6Addr Peer)) :
    PeerList.mapBlock Tracked.peer (PeerList.mapBlock untracked b) = b := by
  cases b <;> rfl

theorem fresh_mapPeers (l : PeerList In6Addr Tracked A) (b : Option (A × Item In6Addr Tracked)) :
    fresh (l.mapPeers Tracked.peer) (PeerList.mapBlock Tracked.peer b) =
      PeerList.mapBlock Tracked.peer (fresh l b) := by
  rcases b with _ | ⟨a, junk⟩
  · rfl
  · show (if l.mem.alive a then none else _) = Option.map _ (if l.mem.alive a then none else _)
    split_ifs <;> rfl

theorem headD_trackBlocks : (trackBlocks bs).headD (false, none) =
      ((bs.headD (false, none)).1, PeerList.mapBlock untracked (bs.headD (false, none)).2) := by
  cases bs <;> rfl

theorem tail_trackBlocks : (trackBlocks bs).tail = trackBlocks bs.tail := by
  cases bs <;> rfl

variable [DecidableEq A]

/-- The run of `y` is the run of `x` without its reports, if the reports return what they should. -/
def Mirrors (x : FieldProg α) (y : RelayProg α) (ptr : Option A) (e : Env In6Addr Peer A)
    (l : PeerList In6Addr Tracked A) : Prop :=
  ∃ results, ∀ a evs l', x.run Tracked.init ptr ⟨trackBlocks e.blocks, results⟩ l =
    some (a, evs, l') → y.run Peer.init ptr e (l.mapPeers Tracked.peer) =
      some (a, eraseEvs evs, l'.mapPeers Tracked.peer)

variable {ptr : Option A} {e : Env In6Addr Peer A} {l : PeerList In6Addr Tracked A}

variable {x : FieldProg α} {y : RelayProg α} {f : Tracked → Tracked} {g : Peer → Peer}

theorem mirrors_of_none
    (hx : x.run (I := Input) Tracked.init ptr ⟨trackBlocks e.blocks, []⟩ l = none) :
    Mirrors x y ptr e l := by
  refine ⟨[], fun a evs l' hrun => ?_⟩
  rw [hx] at hrun
  cases hrun

theorem Mirrors.of_run {x' : FieldProg α} {y' : RelayProg α} {ptr' : Option A}
    {e' : Env In6Addr Peer A} {l₁ : PeerList In6Addr Tracked A} (h : Mirrors x' y' ptr' e' l₁)
    (hx : ∀ results, x.run (I := Input) Tracked.init ptr ⟨trackBlocks e.blocks, results⟩ l =
      x'.run Tracked.init ptr' ⟨trackBlocks e'.blocks, results⟩ l₁)
    (hy : y.run (I := Input) Peer.init ptr e (l.mapPeers Tracked.peer) = y'.run Peer.init ptr' e'
      (l₁.mapPeers Tracked.peer)) :
    Mirrors x y ptr e l := by
  obtain ⟨results, hmirror⟩ := h
  refine ⟨results, fun v evs l' hrun => ?_⟩
  rw [hx] at hrun
  rw [hy]
  exact hmirror v evs l' hrun

theorem mirrors_lookup {addr : In6Addr} {create? : Bool} {x : Lookup → FieldProg α}
    {y : Lookup → RelayProg α} (ih : ∀ r ptr (e : Env In6Addr Peer A) l, Mirrors (x r)
      (y r) ptr e l) :
    Mirrors (.lookup addr create? x) (.lookup addr create? y) ptr e l := by
  by_cases hheld : l.held = none
  swap
  · exact mirrors_of_none (if_pos hheld)
  have hheld' : (l.mapPeers Tracked.peer).held = none := hheld
  have hx : ∀ results, (PeerProg.lookup addr create? x).run (I := Input) Tracked.init ptr
      ⟨trackBlocks e.blocks, results⟩ l = _ := fun results => if_neg (not_not.mpr hheld)
  have hy : (PeerProg.lookup addr create? y).run (I := Input) Peer.init ptr e
      (l.mapPeers Tracked.peer) = _ := if_neg (not_not.mpr hheld')
  set b := e.blocks.headD (false, none) with hb
  have hinit : ∀ t : Tracked, t.init.peer = t.peer.init := fun _ => rfl
  have hlook := l.lookup_mapPeers Tracked.peer hinit addr create? b.1
    (fresh l (PeerList.mapBlock untracked b.2))
  rw [← fresh_mapPeers, mapBlock_untracked] at hlook
  simp only [headD_trackBlocks, tail_trackBlocks, ← hb] at hx
  simp only [hlook] at hy
  cases hl : l.lookup Tracked.init addr create? b.1 (fresh l (PeerList.mapBlock untracked b.2)) with
  | none =>
    refine mirrors_of_none ?_
    rw [hx, hl]
  | some r =>
    simp only [hl] at hx hy
    rcases r with ⟨_ | a | a, l'⟩
    · exact (ih .null none ⟨e.blocks.tail, e.results⟩ l').of_run hx hy
    · exact (ih .found (some a) ⟨e.blocks.tail, e.results⟩ l').of_run hx hy
    · obtain ⟨results, hmirror⟩ := ih .created (some a) ⟨e.blocks.tail, e.results⟩ l'
      refine ⟨results, fun v evs l'' hrun => ?_⟩
      rw [hx] at hrun
      obtain ⟨⟨v', evs', l₁⟩, hrun', heq⟩ := map_eq_some_iff.mp hrun
      cases heq
      rw [hy]
      exact congrArg (Option.map fun r => (r.1, .created addr :: r.2.1, r.2.2))
        (hmirror _ _ _ hrun')

theorem mirrors_read {x : Tracked → FieldProg α} {y : Peer → RelayProg α}
    (ih : ∀ t ptr (e : Env In6Addr Peer A) l, Mirrors (x t) (y t.peer) ptr e l) :
    Mirrors (.read x) (.read y) ptr e l := by
  cases ptr with
  | none => exact mirrors_of_none rfl
  | some a =>
    by_cases halive : l.mem.alive a = true
    · have halive' : (l.mapPeers Tracked.peer).mem.alive a = true := halive
      exact (ih (l.mem.val a).peer (some a) e l).of_run (fun _ => if_pos halive) (if_pos halive')
    · exact mirrors_of_none (if_neg halive)

theorem mirrors_peek {x : Tracked → FieldProg α}
    (ih : ∀ a, ptr = some a → Mirrors (x (l.mem.val a).peer) y ptr e l) :
    Mirrors (.read x) y ptr e l := by
  cases ptr with
  | none => exact mirrors_of_none rfl
  | some a =>
    by_cases halive : l.mem.alive a = true
    · exact (ih a rfl).of_run (fun _ => if_pos halive) rfl
    · exact mirrors_of_none (if_neg halive)

theorem written_mapPeers {a : A} (hfg : (f (l.mem.val a).peer).peer = g (l.mem.val a).peer.peer) :
    (written l a f).mapPeers Tracked.peer = written (l.mapPeers Tracked.peer) a g := by
  have hval := l.mem.mapVal_update (Item.map Tracked.peer) a
    ⟨(l.mem.val a).key, f (l.mem.val a).peer⟩
  unfold written PeerList.mapPeers
  rw [hval]
  show PeerList.mk { l.mem.mapVal (Item.map Tracked.peer) with
    val := Function.update _ a ⟨(l.mem.val a).key, (f (l.mem.val a).peer).peer⟩ } _ _ _ _ _ = _
  rw [hfg]
  rfl

theorem mirrors_write
    (hfg : ∀ a, ptr = some a → (f (l.mem.val a).peer).peer = g (l.mem.val a).peer.peer)
    (ih : ∀ ptr (e : Env In6Addr Peer A) l, Mirrors x y ptr e l) :
    Mirrors (.write f x) (.write g y) ptr e l := by
  cases ptr with
  | none => exact mirrors_of_none rfl
  | some a =>
    by_cases halive : l.mem.alive a = true
    · have halive' : (l.mapPeers Tracked.peer).mem.alive a = true := halive
      refine (ih (some a) e (written l a f)).of_run (fun _ => if_pos halive) ?_
      rw [written_mapPeers (hfg a rfl)]
      exact if_pos halive'
    · exact mirrors_of_none (if_neg halive)

theorem mirrors_unwritten {f : Field} {x : Bool → FieldProg α} (ih : Mirrors (x true) y ptr e l) :
    Mirrors (.call (.unwritten f) x) y ptr e l := by
  obtain ⟨results, hmirror⟩ := ih
  refine ⟨true :: results, fun v evs l' hrun => ?_⟩
  obtain ⟨⟨v', evs', l₁⟩, hrun', heq⟩ := map_eq_some_iff.mp hrun
  cases heq
  exact hmirror v' evs' l₁ hrun'

theorem mirrors_report (fs : List Field) (ih : Mirrors x y ptr e l) :
    Mirrors (Fields.report x fs) y ptr e l := by
  induction fs with
  | nil => exact ih
  | cons f fs ihf => exact mirrors_unwritten ihf

theorem mirrors_call {c : RelayCall} {x : Bool → FieldProg α} {y : Bool → RelayProg α}
    (ih : ∀ b ptr (e : Env In6Addr Peer A) l, Mirrors (x b) (y b) ptr e l) :
    Mirrors (.call (.call c) x) (.call c y) ptr e l := by
  obtain ⟨results, hmirror⟩ := ih (e.results.headD true) ptr ⟨e.blocks, e.results.tail⟩ l
  refine ⟨e.results.headD true :: results, fun v evs l' hrun => ?_⟩
  obtain ⟨⟨v', evs', l₁⟩, hrun', heq⟩ := map_eq_some_iff.mp hrun
  cases heq
  exact congrArg (Option.map fun r => (r.1, .called c (e.results.headD true) :: r.2.1, r.2.2))
    (hmirror _ _ _ hrun')

theorem mirrors_release (ih : ∀ ptr (e : Env In6Addr Peer A) l, Mirrors x y ptr e l) :
    Mirrors (.release x) (.release y) ptr e l := by
  by_cases hheld : l.held = none
  · exact mirrors_of_none (if_pos hheld)
  · have hheld' : (l.mapPeers Tracked.peer).held ≠ none := hheld
    exact (ih ptr e { l with held := none }).of_run (fun _ => if_neg hheld) (if_neg hheld')

theorem Fields.Erases.mirrors (hxy : Fields.Erases x y) (ptr : Option A) (e : Env In6Addr Peer A)
    (l : PeerList In6Addr Tracked A) :
    Mirrors x y ptr e l := by
  induction hxy generalizing ptr e l with
  | ret a =>
    refine ⟨[], fun v evs l' hrun => ?_⟩
    cases hrun
    rfl
  | lookup _ ih => exact mirrors_lookup ih
  | read _ ih => exact mirrors_read ih
  | peek _ ih => exact mirrors_peek fun a _ => ih _ ptr e l
  | write hf _ ih => exact mirrors_write (fun a _ => hf _) ih
  | change hf _ ih =>
    refine mirrors_peek fun a ha => mirrors_report _ (mirrors_write (fun b hb => ?_) ih)
    rw [ha, Option.some.injEq] at hb
    subst hb
    exact hf _
  | release _ ih => exact mirrors_release ih
  | call _ ih => exact mirrors_call ih
  | unwritten _ ih => exact mirrors_unwritten (ih true ptr e l)

end Programs

/-! ## Runs -/

section Runs

variable {A : Type} {debug : Bool} {key : Keyed}

def FieldRelay.erase (r : FieldRelay A) : Relay A := ⟨r.tunnel, r.list.mapPeers Tracked.peer⟩

/-- A step without its reports. -/
structure FieldEvent.ErasesTo (e : FieldEvent A) (e' : RelayEvent A) : Prop where
  input : e.input = e'.input
  effects : eraseEvs e.effects = e'.effects

variable [DecidableEq A] {r : FieldRelay A} {es : List (FieldEvent A)}

theorem erase_runProg {α : Type} {x : FieldProg α} {y : RelayProg α} (hxy : Fields.Erases x y)
    (e : Env In6Addr Peer A) (hx : ∀ env, ∃ evs r', r.runProg x env = some (evs, r')) :
    ∃ env evs r', r.runProg x env = some (evs, r') ∧
      runProg r.erase y e = some (eraseEvs evs, r'.erase) := by
  obtain ⟨results, hmirror⟩ := hxy.mirrors none e r.list
  obtain ⟨evs, r', hrun⟩ := hx ⟨trackBlocks e.blocks, results⟩
  refine ⟨_, evs, r', hrun, ?_⟩
  obtain ⟨⟨a, evs', l'⟩, hrun', heq⟩ := map_eq_some_iff.mp hrun
  cases heq
  exact congrArg (Option.map _) (hmirror a _ l' hrun')

theorem erase_runOp {op : PeerOp In6Addr Tracked A} {op' : PeerOp In6Addr Peer A}
    {evs : List FieldEv} {r' : FieldRelay A}
    (hop : step Peer.init (r.list.mapPeers Tracked.peer) op' =
      (step Tracked.init r.list op).map (PeerList.mapResult Tracked.peer))
    (hrun : r.runOp op = some (evs, r')) : runOp r.erase op' = some (eraseEvs evs, r'.erase) := by
  obtain ⟨⟨res, l'⟩, hstep, heq⟩ := map_eq_some_iff.mp hrun
  cases heq
  show (step Peer.init (r.list.mapPeers Tracked.peer) op').map _ = _
  rw [hop, hstep]
  rfl

omit [DecidableEq A] in
theorem erase_stateChange {s : TeredoState} {ifaces : Option (List Iface)} :
    teredoStateChange r.erase s ifaces =
      (eraseEvs (r.stateChange s ifaces).1, (r.stateChange s ifaces).2.erase) := by
  have htun : r.erase.tunnel = r.tunnel := rfl
  unfold teredoStateChange FieldRelay.stateChange
  rw [htun]
  by_cases hup : s.up = true
  · rw [if_pos hup, if_pos hup]
    rfl
  · rw [if_neg hup, if_neg hup]
    cases r.tunnel.state.up <;> rfl

theorem erase_step (hr : FieldsOk es r) (e : Env In6Addr Peer A) (i : Input) :
    ∃ env evs r', r.step debug key env i = some (evs, r') ∧
      relayStep key r.erase e i = some (eraseEvs evs, r'.erase) := by
  have hexists : ∀ env, ∃ evs r', r.step debug key env i = some (evs, r') := by
    intro env
    obtain ⟨evs, r', hstep, -⟩ := hr.step env i
    exact ⟨evs, r', hstep⟩
  cases i with
  | packet now time p => exact erase_runProg Fields.erases_teredoRunInner e hexists
  | transmit now p => exact erase_runProg (Fields.erases_teredoTransmit _) e hexists
  | gc =>
    have hrun : r.step debug key ⟨[], []⟩ .gc = r.runOp .gc := if_pos hr.1
    have hrun' : relayStep key r.erase e .gc = runOp r.erase .gc := if_pos hr.1
    obtain ⟨evs, r', hstep⟩ := hexists ⟨[], []⟩
    rw [hrun] at hstep
    refine ⟨_, evs, r', hrun.trans hstep, hrun'.trans ?_⟩
    exact erase_runOp (PeerList.step_gc_mapPeers _ _) hstep
  | free i =>
    obtain ⟨evs, r', hstep⟩ := hexists ⟨[], []⟩
    exact ⟨_, evs, r', hstep, erase_runOp (PeerList.step_free_mapPeers _ _ i) hstep⟩
  | state s ifaces =>
    have hrun : r.step debug key ⟨[], []⟩ (.state s ifaces) = some (r.stateChange s ifaces) :=
      if_pos hr.1
    have hrun' : relayStep key r.erase e (.state s ifaces) =
      some (teredoStateChange r.erase s ifaces) := if_pos hr.1
    refine ⟨_, _, _, hrun, hrun'.trans (congrArg some ?_)⟩
    exact erase_stateChange

variable {mem : Mem Generation A (Item In6Addr Peer)} {tun : Tunnel} {es' : List (RelayEvent A)}
  {r' : Relay A}

/-- **Erasure.** Every run of a relay is one with `Tracked` records, without its reports. -/
theorem exists_tracked_run (debug : Bool)
    (hrun : Run (RelayStep key) ⟨tun, PeerList.new mem maxPeers⟩ es' r') :
    ∃ es r, Run (FieldStep debug key) (FieldRelay.new (mem.mapVal (Item.map untracked)) tun) es r ∧
      r.erase = r' ∧ List.Forall₂ FieldEvent.ErasesTo es es' := by
  refine hrun.induct ⟨[], _, .start, rfl, .nil⟩ ?_
  rintro es' _ ⟨i, e, effects⟩ r' - ⟨es, r, hrun, rfl, hes⟩ hstep
  obtain ⟨env, evs, r₁, hstep₁, herase⟩ := erase_step (fieldsOk_of_run hrun).1 e i
  have heq : some (effects, r') = some (eraseEvs evs, r₁.erase) := hstep.symm.trans herase
  cases heq
  have hnext : FieldStep debug key r ⟨i, env, evs⟩ r₁ := hstep₁
  exact ⟨_, r₁, hrun.next hnext, rfl, List.rel_append hes (.cons ⟨rfl, rfl⟩ .nil)⟩

end Runs

/-- The packet makes the record of a peer. -/
theorem exists_tracked_run_packet : ∃ mem tun es r,
    Run (FieldStep true constKey) (FieldRelay.new mem tun) es r ∧
      RelayStep constKey clientUp packetEvent r.erase ∧
      List.Forall₂ FieldEvent.ErasesTo es [upEvent, packetEvent] := by
  have hup : RelayStep constKey (Relay.newClient clientMem clientState) upEvent clientUp := rfl
  have hpacket : RelayStep constKey clientUp packetEvent _ := rfl
  obtain ⟨es, r, hrun, herase, hes⟩ := exists_tracked_run true ((Run.start.next hup).next hpacket)
  exact ⟨_, _, es, r, hrun, herase.symm ▸ hpacket, hes⟩

end Maiccu.Teredo
