import Maiccu.Gogoc.EchoEngine

/-!
# Runs of the echo engine

What a step does to the counters and to the list of events is said once, in `Effect`
(`effect_of_step`). From it come the balance of the counters over whole runs and the meaning of a
general timeout.
-/

namespace Maiccu.Gogoc.Iee

open Maiccu.Lib Option List

/-! ## One step -/

/-- At most the flag `engOngoing` differs. -/
def Engine.Same (e e' : Engine) : Prop := { e with engOngoing := e'.engOngoing } = e'

section Same

variable {e e' e'' : Engine}

theorem Engine.Same.trans (h : e.Same e') (h' : e'.Same e'') : e.Same e'' := by
  unfold Engine.Same at *
  rw [← h', ← h]

theorem Engine.Same.symm (h : e.Same e') : e'.Same e := by
  unfold Engine.Same at *
  rw [← h]

variable (e)

theorem Engine.same_stopIf (stop : Bool) : e.Same (e.stopIf stop) := rfl

theorem Engine.same_lastReply : e.Same e.lastReply := by
  unfold Engine.lastReply
  split_ifs <;> rfl

theorem Engine.same_assess : e.Same e.assess.1 := by
  unfold Engine.assess
  split_ifs <;> rfl

theorem Engine.same_checkTimeouts (ret : Ret) : e.Same (checkTimeouts e ret).1 := by
  unfold checkTimeouts
  split_ifs <;> rfl

end Same

def Engine.Sends (e : Engine) (r : Request) : Prop :=
  (e.stopIf r.stop).engOngoing = true ∧ (e.echoNum = 0 ∨ e.countSend < e.echoNum)

instance (e : Engine) (r : Request) : Decidable (e.Sends r) := inferInstanceAs (Decidable (_ ∧ _))

def Engine.readRet (e : Engine) (w : Wait) : ReadRet := doRead (e.stopIf w.stop) w

/-- What a step at a place, with its input, does to the engine and reports. -/
inductive Effect (e : Engine) : Pc → Input → Obs → Engine → Prop where
  | nap {left : UInt32} {stop : Bool} {e' : Engine} :
      e.Same e' → Effect e (.sleeping left) (.nap stop) .none e'
  | idle {r : Request} {e' : Engine} :
      ¬e.Sends r → e.Same e' → Effect e .top (.request r) .none e'
  | quiet {tvRef : Timeval} {timeLeft : ℤ} {w : Wait} {e' : Engine} :
      (∀ seq, e.readRet w ≠ .pinginOntime seq) → e.Same e' →
      Effect e (.reading tvRef timeLeft) (.wait w) .none e'
  | starved {r : Request} {e' : Engine} :
      e.Sends r → r.starved = true → e.countRequest.Same e' →
      Effect e .top (.request r) .starved e'
  | sent {r : Request} {m : Cells EchoEvent} {e' : Engine} :
      e.Sends r → r.starved = false →
      insertEchoEvent (e.events.alloc (e.nextEvent r.now)) e.events.size = some m →
      ({ e.countRequest.setEchoTimeout with events := m } : Engine).Same e' →
      Effect e .top (.request r) (.sent e.events.size) e'
  | expired {tvRef : Timeval} {timeLeft : ℤ} {w : Wait} {a : ℕ} {l : Link EchoEvent}
      {m : Cells EchoEvent} {k : Option ℕ} {e' : Engine} :
      e.readRet w = .selectTimeout → e.events.head = some a → e.events.node a = some l →
      compareTv l.val.tvTimeout w.nowDelay < timeLeft →
      removeFreeEchoEvent e.events l.val.echoSeq = some (m, k) → (e.expire m).Same e' →
      Effect e (.reading tvRef timeLeft) (.wait w) (.expired a) e'
  | answered {tvRef : Timeval} {timeLeft : ℤ} {w : Wait} {seq : UInt16} {m : Cells EchoEvent}
      {k : Option ℕ} {e' : Engine} :
      e.readRet w = .pinginOntime seq → removeFreeEchoEvent e.events seq = some (m, k) →
      (e.answer m k).Same e' → Effect e (.reading tvRef timeLeft) (.wait w) (.answered k) e'

variable {e e' : Engine} {s s' : Process} {i : Input} {o : Obs}

theorem Engine.nextEvent_stopIf (e : Engine) (stop : Bool) (now : Timeval) :
    (e.stopIf stop).nextEvent now = e.nextEvent now := by
  unfold Engine.nextEvent Engine.countRequest Engine.setEchoTimeout Engine.stopIf
  split_ifs <;> rfl

variable {m : Cells EchoEvent}

theorem Engine.same_timed {stop : Bool} :
    ({ e.countRequest.setEchoTimeout with events := m } : Engine).Same
      { (e.stopIf stop).countRequest.setEchoTimeout with events := m } := by
  unfold Engine.countRequest Engine.setEchoTimeout Engine.stopIf
  split_ifs <;> rfl

theorem effect_of_send {r : Request} (h : send e r = (s', o)) (hpc : s'.pc ≠ .fault) :
    Effect e .top (.request r) o s'.engine := by
  unfold send at h
  simp only at h
  split_ifs at h with hsends
  swap
  · cases h
    exact .idle hsends rfl
  cases hdo : doSend (e.stopIf r.stop) r with
  | none =>
    rw [hdo] at h
    obtain ⟨rfl, -⟩ := Prod.mk.inj h
    exact absurd rfl hpc
  | some x =>
    obtain ⟨e₁, ret, o₁⟩ := x
    rw [hdo] at h
    simp only at h
    -- however the send ends, the engine is the one of `_do_send`
    have hend : o = o₁ ∧ e₁.Same s'.engine := by
      split_ifs at h <;> obtain ⟨rfl, rfl⟩ := Prod.mk.inj h <;> exact ⟨rfl, rfl⟩
    obtain ⟨rfl, hsame⟩ := hend
    unfold doSend at hdo
    by_cases hstarved : r.starved = true
    · rw [if_pos hstarved] at hdo
      obtain ⟨rfl, -, rfl⟩ := by simpa using hdo
      have hcount : e.countRequest.Same (e.stopIf r.stop).countRequest := rfl
      exact .starved hsends hstarved (hcount.trans hsame)
    · rw [if_neg hstarved] at hdo
      obtain ⟨m, hm, hx⟩ := map_eq_some_iff.mp hdo
      obtain ⟨rfl, -, rfl⟩ := hx
      rw [Engine.nextEvent_stopIf] at hm
      exact .sent hsends (by simpa using hstarved) hm (Engine.same_timed.trans hsame)

variable {tvRef : Timeval} {timeLeft : ℤ} {w : Wait} {ret : Ret} {xs : List (ℕ × EchoEvent)}
  {c : UInt32} {k : Option ℕ}

theorem effect_of_onRead {delay : ℤ} (hdelay : readDelay e w.nowDelay = some delay)
    (h : onRead (e.stopIf w.stop) timeLeft delay (e.readRet w) = some (e', ret, o)) :
    Effect e (.reading tvRef timeLeft) (.wait w) o e' := by
  cases hret : e.readRet w with
  | selectTimeout =>
    rw [hret] at h
    unfold onRead at h
    cases hhead : e.events.head with
    | none =>
      obtain ⟨rfl, -, rfl⟩ := by simpa [Engine.stopIf, hhead] using h
      exact .quiet (by simp [hret]) rfl
    | some a =>
      simp only [Engine.stopIf, hhead] at h
      simp only [readDelay, hhead] at hdelay
      obtain ⟨l, hl, rfl⟩ := map_eq_some_iff.mp hdelay
      split_ifs at h with hlt
      · rw [hl, bind_eq_bind, bind_some] at h
        obtain ⟨⟨m, k⟩, hm, hx⟩ := bind_eq_some_iff.mp h
        obtain ⟨rfl, -, rfl⟩ := by simpa using hx
        exact .expired hret hhead hl hlt hm rfl
      · obtain ⟨rfl, -, rfl⟩ := by simpa using h
        exact .quiet (by simp [hret]) rfl
  | pinginOntime seq =>
    rw [hret] at h
    obtain ⟨⟨m, k⟩, hm, hx⟩ := bind_eq_some_iff.mp h
    obtain ⟨rfl, -, rfl⟩ := by simpa using hx
    refine .answered hret hm ?_
    have hanswer : (e.answer m k).Same ((e.stopIf w.stop).answer m k) := rfl
    exact (hanswer.trans (Engine.same_assess _)).trans (Engine.same_lastReply _)
  | pinginLate seq =>
    rw [hret] at h
    obtain ⟨rfl, -, rfl⟩ := by simpa [onRead] using h
    exact .quiet (by simp [hret]) ((e.same_stopIf w.stop).trans (Engine.same_lastReply _))
  | _ =>
    rw [hret] at h
    obtain ⟨rfl, -, rfl⟩ := by simpa [onRead] using h
    exact .quiet (by simp [hret]) rfl

variable {e'' : Engine} {pc : Pc}

theorem Effect.same (h : Effect e pc i o e') (hsame : e'.Same e'') : Effect e pc i o e'' := by
  cases h with
  | nap h => exact .nap (h.trans hsame)
  | idle h₁ h => exact .idle h₁ (h.trans hsame)
  | quiet h₁ h => exact .quiet h₁ (h.trans hsame)
  | starved h₁ h₂ h => exact .starved h₁ h₂ (h.trans hsame)
  | sent h₁ h₂ h₃ h => exact .sent h₁ h₂ h₃ (h.trans hsame)
  | expired h₁ h₂ h₃ h₄ h₅ h => exact .expired h₁ h₂ h₃ h₄ h₅ (h.trans hsame)
  | answered h₁ h₂ h => exact .answered h₁ h₂ (h.trans hsame)

theorem readTurn_eq_some (h : readTurn e timeLeft w = some (e', ret, o)) :
    ∃ d e₁ ret₁, readDelay e w.nowDelay = some d ∧
      onRead (e.stopIf w.stop) timeLeft d (e.readRet w) = some (e₁, ret₁, o) ∧
      checkTimeouts e₁ ret₁ = (e', ret) := by
  obtain ⟨d, hd, hx⟩ := bind_eq_some_iff.mp h
  obtain ⟨⟨e₁, ret₁, o₁⟩, hon, hx⟩ := bind_eq_some_iff.mp hx
  have hx' : ((checkTimeouts e₁ ret₁).1, (checkTimeouts e₁ ret₁).2, o₁) = (e', ret, o) :=
    some.inj hx
  obtain ⟨hfst, hsnd⟩ := Prod.mk.inj hx'
  obtain ⟨hret, rfl⟩ := Prod.mk.inj hsnd
  exact ⟨d, e₁, ret₁, hd, hon, Prod.ext hfst hret⟩

theorem read_eq (h : read e tvRef timeLeft w = (s', o)) (hpc : s'.pc ≠ .fault) :
    ∃ e₁ ret, readTurn e timeLeft w = some (e₁, ret, o) ∧ s'.engine = e₁.stopIf w.stopLeft ∧
      s'.pc = if 0 < compareTv tvRef w.nowLeft ∧ s'.engine.engOngoing then
          .reading tvRef (compareTv tvRef w.nowLeft)
        else if ret = .success then .top else .done ret := by
  unfold read at h
  cases hturn : readTurn e timeLeft w with
  | none =>
    rw [hturn] at h
    obtain ⟨rfl, -⟩ := Prod.mk.inj h
    exact absurd rfl hpc
  | some x =>
    rw [hturn] at h
    cases h
    exact ⟨_, _, rfl, rfl, rfl⟩

theorem effect_of_read (h : read e tvRef timeLeft w = (s', o)) (hpc : s'.pc ≠ .fault) :
    Effect e (.reading tvRef timeLeft) (.wait w) o s'.engine := by
  obtain ⟨e₂, ret, hturn, hstop, -⟩ := read_eq h hpc
  obtain ⟨d, e₁, ret₁, hd, hon, hcheck⟩ := readTurn_eq_some hturn
  have hsame := e₁.same_checkTimeouts ret₁
  rw [hcheck] at hsame
  rw [hstop]
  exact (effect_of_onRead hd hon).same (hsame.trans (e₂.same_stopIf w.stopLeft))

theorem effect_of_step (h : step s i = some (s', o)) (hpc : s'.pc ≠ .fault) :
    Effect s.engine s.pc i o s'.engine := by
  unfold step at h
  split at h
  · rename_i hs
    cases h
    rw [hs]
    exact .nap rfl
  · rename_i hs
    rw [hs]
    exact effect_of_send (some.inj h) hpc
  · rename_i hs
    rw [hs]
    exact effect_of_read (some.inj h) hpc
  · exact nomatch h

/-! ## The balance of the counters -/

def Engine.IsPending (e : Engine) (x : ℕ × EchoEvent) : Prop :=
  ∃ xs, ChainAt e.events .head xs ∧ x ∈ xs

/-- The list of events has an end, and as many events as requests are neither on time nor late. -/
def Engine.Balanced (e : Engine) : Prop :=
  ∃ xs, ChainAt e.events .head xs ∧
    e.countSend = e.countOntime + e.countLate + UInt32.ofNat xs.length

structure NoUnderflow (e e' : Engine) : Prop where
  send : e.countSend = 0 → e'.countSend ≠ -1
  ontime : e.countOntime = 0 → e'.countOntime ≠ -1
  late : e.countLate = 0 → e'.countLate ≠ -1
  consecLate : e.countConsecLate = 0 → e'.countConsecLate ≠ -1

/-- A request has memory for its event, which is due after all pending ones; and a reply on time
that belongs to no pending event does not come when nothing is counted as late. -/
def Regular (s : Process) (i : Input) : Prop :=
  match s.pc, i with
  | .top, .request r =>
    s.engine.Sends r → r.starved = false ∧ ∀ x, s.engine.IsPending x →
      x.2.tvTimeout.micros < (s.engine.nextEvent r.now).tvTimeout.micros
  | .reading _ _, .wait w =>
    ∀ seq, s.engine.readRet w = .pinginOntime seq → s.engine.countLate = 0 →
      ∃ x, s.engine.IsPending x ∧ x.2.echoSeq = seq
  | _, _ => True

def Engine.Ok (e : Engine) : Prop :=
  ∃ xs, Pending e.events xs ∧ e.countSend = e.countOntime + e.countLate + UInt32.ofNat xs.length

theorem Engine.Ok.balanced (h : e.Ok) : e.Balanced := by
  obtain ⟨xs, hxs, hcount⟩ := h
  exact ⟨xs, hxs.chain, hcount⟩

theorem Engine.Same.ok (h : e.Same e') (hok : e.Ok) : e'.Ok := by
  rw [← h]
  exact hok

variable {x : ℕ × EchoEvent}

theorem Pending.isPending (h : Pending e.events xs) : e.IsPending x ↔ x ∈ xs := by
  constructor
  · rintro ⟨ys, hys, hx⟩
    rwa [← hys.unique h.chain]
  · exact fun hx => ⟨xs, h.chain, hx⟩

theorem not_isPending (h : e.events.head = none) : ¬e.IsPending x := by
  rintro ⟨ys, hys, hx⟩
  have hnil : ys = [] := hys.unique ⟨none, congrArg some h, rfl⟩
  exact absurd hx (by simp [hnil])

theorem Pending.readDelay_isSome (h : Pending e.events xs) (now : Timeval) :
    ∃ d, readDelay e now = some d := by
  unfold readDelay
  rw [h.chain.head_eq]
  cases xs with
  | nil => exact ⟨_, rfl⟩
  | cons x xs =>
    obtain ⟨q, hq⟩ := h.node_of_mem (x := x) (by simp)
    simp only [head?_cons, map_some, hq]
    exact ⟨_, rfl⟩

theorem Pending.onRead_isSome (h : Pending e.events xs) (timeLeft delay : ℤ) (ret : ReadRet) :
    ∃ x, onRead e timeLeft delay ret = some x := by
  cases ret with
  | selectTimeout =>
    unfold onRead
    rw [h.chain.head_eq]
    cases xs with
    | nil => exact ⟨_, rfl⟩
    | cons x xs =>
      obtain ⟨q, hq⟩ := h.node_of_mem (x := x) (by simp)
      obtain ⟨m', hm', -⟩ := h.remove x.2.echoSeq
      simp only [head?_cons, map_some, hq, bind_eq_bind, bind_some, hm']
      split_ifs <;> exact ⟨_, rfl⟩
  | pinginOntime seq =>
    obtain ⟨m', hm', -⟩ := h.remove seq
    unfold onRead
    simp only [hm', bind_eq_bind, bind_some]
    exact ⟨_, rfl⟩
  | _ => exact ⟨_, rfl⟩

theorem Pending.insert_isSome (h : Pending m xs) {v : EchoEvent} :
    ∃ m', insertEchoEvent (m.alloc v) m.size = some m' := by
  by_cases hlater : ∀ x ∈ xs, x.2.tvTimeout.micros < v.tvTimeout.micros
  · obtain ⟨m', hm', -⟩ := h.insert hlater
    exact ⟨m', hm'⟩
  · push Not at hlater
    obtain ⟨m', hm', -⟩ := h.insert_cycle hlater
    exact ⟨m', hm'⟩

theorem Pending.not_fault (h : Pending s.engine.events xs) (hstep : step s i = some (s', o)) :
    s'.pc ≠ .fault := by
  unfold step at hstep
  split at hstep
  · obtain ⟨rfl, -⟩ := Prod.mk.inj (some.inj hstep)
    unfold nap
    split_ifs <;> simp
  · rename_i r hs
    obtain hsend := some.inj hstep
    unfold send at hsend
    simp only at hsend
    split_ifs at hsend with hsends
    · have hdo : ∃ x, doSend (s.engine.stopIf r.stop) r = some x := by
        obtain ⟨m', hm'⟩ := h.insert_isSome
        unfold doSend
        rw [show (s.engine.stopIf r.stop).events = s.engine.events from rfl, hm']
        split_ifs <;> exact ⟨_, rfl⟩
      obtain ⟨x, hx⟩ := hdo
      rw [hx] at hsend
      simp only at hsend
      split_ifs at hsend <;> obtain ⟨rfl, -⟩ := Prod.mk.inj hsend <;> simp
    · obtain ⟨rfl, -⟩ := Prod.mk.inj hsend
      simp
  · rename_i tvRef timeLeft w hs
    obtain hread := some.inj hstep
    obtain ⟨d, hd⟩ := h.readDelay_isSome w.nowDelay
    obtain ⟨x, hx⟩ := Pending.onRead_isSome (e := s.engine.stopIf w.stop) h timeLeft d
      (doRead (s.engine.stopIf w.stop) w)
    unfold read at hread
    simp only [readTurn, hd, bind_eq_bind, bind_some, hx] at hread
    obtain ⟨rfl, -⟩ := Prod.mk.inj hread
    split_ifs <;> simp
  · exact nomatch hstep

theorem Engine.Same.noUnderflow {e₁ : Engine} (h : e₁.Same e') (hno : NoUnderflow e e₁) :
    NoUnderflow e e' := by
  rw [← h]
  exact ⟨hno.send, hno.ontime, hno.late, hno.consecLate⟩

theorem Engine.Same.balanced (h : e.Same e') : e'.Balanced ↔ e.Balanced := by
  rw [← h]
  rfl

theorem Engine.setEchoTimeout_eq (e : Engine) :
    e.setEchoTimeout = { e with echoTimeout := e.setEchoTimeout.echoTimeout } := by
  unfold Engine.setEchoTimeout
  split_ifs <;> rfl

/-- The timeout that the mode `ACD` has once `c` requests are counted. -/
def Engine.timeoutAt (e : Engine) (c : UInt32) : UInt32 := e.sendInterval * (e.echoNum - c)

/-- What no step changes; the timeout does change in the mode `ACD`. -/
structure Engine.SameSetup (e e' : Engine) : Prop where
  mode : e'.engMode = e.engMode
  threshold : e'.echoTimeoutThreshold = e.echoTimeoutThreshold
  timeoutAt : e'.timeoutAt = e.timeoutAt
  timeout : e.engMode ≠ .acd → e'.echoTimeout = e.echoTimeout

theorem Engine.SameSetup.trans (h : e.SameSetup e') (h' : e'.SameSetup e'') : e.SameSetup e'' :=
  ⟨h'.mode.trans h.mode, h'.threshold.trans h.threshold, h'.timeoutAt.trans h.timeoutAt,
    fun hmode => (h'.timeout (h.mode.trans_ne hmode)).trans (h.timeout hmode)⟩

theorem Engine.Same.setup (h : e.Same e') : e.SameSetup e' := by
  rw [← h]
  exact ⟨rfl, rfl, rfl, fun _ => rfl⟩

theorem Effect.setup (h : Effect e pc i o e') : e.SameSetup e' := by
  cases h with
  | nap hsame | idle _ hsame | quiet _ hsame | starved _ _ hsame | expired _ _ _ _ _ hsame
  | answered _ _ hsame =>
    refine Engine.SameSetup.trans ?_ hsame.setup
    exact ⟨rfl, rfl, rfl, fun _ => rfl⟩
  | sent _ _ _ hsame =>
    have htimeout : e.engMode ≠ .acd → e.countRequest.setEchoTimeout.echoTimeout =
        e.echoTimeout := by
      intro hmode
      rw [Engine.setEchoTimeout, if_neg (show e.countRequest.engMode ≠ .acd from hmode)]
      rfl
    rw [Engine.setEchoTimeout_eq] at hsame
    refine Engine.SameSetup.trans ?_ hsame.setup
    exact ⟨rfl, rfl, rfl, htimeout⟩

theorem ofNat_succ (n : ℕ) : UInt32.ofNat (n + 1) = UInt32.ofNat n + 1 := by
  rw [UInt32.ofNat_add]
  rfl

theorem ne_neg_one_of_succ (hc : c = 0) : c + 1 ≠ -1 := by
  rw [hc]
  decide

theorem ne_neg_one (hc : c = 0) : c ≠ -1 := by
  rw [hc]
  decide

theorem consec_ne_neg_one {c : UInt8} (hc : c = 0) : c ≠ -1 ∧ c + 1 ≠ -1 := by
  rw [hc]
  decide

theorem noUnderflow_answer_iff : NoUnderflow e (e.answer m k) ↔ (e.countLate = 0 → k ≠ none) := by
  constructor
  · intro h hzero hk
    apply h.late hzero
    simp only [Engine.answer, if_pos hk, hzero]
    decide
  · intro h
    refine ⟨ne_neg_one, ne_neg_one_of_succ, fun hzero => ?_, fun _ =>
      (by decide : (0 : UInt8) ≠ -1)⟩
    simp only [Engine.answer, if_neg (h hzero)]
    exact ne_neg_one hzero

theorem length_eraseP_find (xs : List (ℕ × EchoEvent)) (seq : UInt16) :
    UInt32.ofNat xs.length = UInt32.ofNat (xs.eraseP fun x => x.2.echoSeq = seq).length +
      if (xs.find? fun x => x.2.echoSeq = seq).map Prod.fst = none then 0 else 1 := by
  cases hfind : xs.find? fun x => decide (x.2.echoSeq = seq) with
  | none =>
    rw [eraseP_of_forall_not fun x hx => by simpa using List.find?_eq_none.mp hfind x hx]
    simp
  | some x =>
    have hlength := length_eraseP_add_one (mem_of_find?_eq_some hfind)
      (find?_some hfind)
    rw [← hlength, ofNat_succ]
    simp

theorem ok_expire (h : Pending e.events xs)
    (hcount : e.countSend = e.countOntime + e.countLate + UInt32.ofNat xs.length) (hx : x ∈ xs)
    (hm : removeFreeEchoEvent e.events x.2.echoSeq = some (m, k)) : (e.expire m).Ok := by
  obtain ⟨m', hm', hpending, -⟩ := h.remove x.2.echoSeq
  cases hm.symm.trans hm'
  refine ⟨_, hpending, ?_⟩
  have hlength := length_eraseP_find xs x.2.echoSeq
  have hfound : (xs.find? fun y => decide (y.2.echoSeq = x.2.echoSeq)).map Prod.fst ≠ none := by
    intro hnone
    rw [map_eq_none_iff, find?_eq_none] at hnone
    exact hnone x hx (by simp)
  show e.countSend = e.countOntime + (e.countLate + 1) + _
  grind

theorem ok_answer {seq : UInt16} (h : Pending e.events xs)
    (hcount : e.countSend = e.countOntime + e.countLate + UInt32.ofNat xs.length)
    (hm : removeFreeEchoEvent e.events seq = some (m, k)) : (e.answer m k).Ok := by
  obtain ⟨m', hm', hpending, -⟩ := h.remove seq
  cases hm.symm.trans hm'
  refine ⟨_, hpending, ?_⟩
  have hlength := length_eraseP_find xs seq
  show e.countSend = e.countOntime + 1 + ite _ (e.countLate - 1) e.countLate + _
  split_ifs <;> grind

theorem Engine.Ok.step (h : s.engine.Ok) (hstep : step s i = some (s', o)) (hreg : Regular s i) :
    s'.engine.Ok ∧ NoUnderflow s.engine s'.engine := by
  obtain ⟨xs, hxs, hcount⟩ := h
  have heffect := effect_of_step hstep (hxs.not_fault hstep)
  obtain ⟨e, pc⟩ := s
  cases heffect with
  | nap hsame | idle _ hsame | quiet _ hsame =>
    exact ⟨hsame.ok ⟨xs, hxs, hcount⟩, hsame.noUnderflow ⟨ne_neg_one, ne_neg_one, ne_neg_one,
      fun h => (consec_ne_neg_one h).1⟩⟩
  | starved hsends hstarved => exact nomatch (hreg hsends).1.symm.trans hstarved
  | sent hsends hstarved hm hsame =>
    have hlater : ∀ x ∈ xs, _ := fun x hx => (hreg hsends).2 x (hxs.isPending.mpr hx)
    obtain ⟨m', hm', hpending, -⟩ := hxs.insert hlater
    cases hm.symm.trans hm'
    rw [Engine.setEchoTimeout_eq] at hsame
    refine ⟨hsame.ok ⟨_, hpending, ?_⟩, hsame.noUnderflow ?_⟩
    · show e.countSend + 1 = e.countOntime + e.countLate + _
      rw [length_append, length_singleton, ofNat_succ, hcount]
      grind
    · exact ⟨ne_neg_one_of_succ, ne_neg_one, ne_neg_one, fun h => (consec_ne_neg_one h).1⟩
  | expired _ hhead hl _ hm hsame =>
    rw [hxs.chain.head_eq] at hhead
    obtain ⟨x, hx, rfl⟩ := map_eq_some_iff.mp hhead
    have hmem := mem_of_mem_head? hx
    obtain ⟨q, hq⟩ := hxs.node_of_mem hmem
    cases hq.symm.trans hl
    exact ⟨hsame.ok (ok_expire hxs hcount hmem hm),
      hsame.noUnderflow ⟨ne_neg_one, ne_neg_one, ne_neg_one_of_succ, fun h =>
        (consec_ne_neg_one h).2⟩⟩
  | @answered _ _ _ seq m k _ hread hm hsame =>
    refine ⟨hsame.ok (ok_answer hxs hcount hm), hsame.noUnderflow ?_⟩
    rw [noUnderflow_answer_iff]
    intro hzero hk
    obtain ⟨x, hx, hseq⟩ := hreg seq hread hzero
    obtain ⟨m', hm', -⟩ := hxs.remove seq
    obtain ⟨-, rfl⟩ := Prod.mk.inj (some.inj (hm.symm.trans hm'))
    rw [map_eq_none_iff, find?_eq_none] at hk
    exact hk x (hxs.isPending.mp hx) (by simpa using hseq)

theorem regular_of_step (h : s.engine.Ok) (hstep : step s i = some (s', o))
    (hbalanced : s'.engine.Balanced) (hno : NoUnderflow s.engine s'.engine) : Regular s i := by
  obtain ⟨xs, hxs, hcount⟩ := h
  have heffect := effect_of_step hstep (hxs.not_fault hstep)
  obtain ⟨e, pc⟩ := s
  cases heffect with
  | nap => exact trivial
  | idle hsends => exact fun h => absurd h hsends
  | quiet hread => exact fun seq hseq => absurd hseq (hread seq)
  | starved hsends hstarved hsame =>
    obtain ⟨ys, hys, hcount'⟩ := hsame.balanced.mp hbalanced
    obtain rfl := hxs.chain.unique hys
    have : e.countSend + 1 = e.countSend := hcount'.trans hcount.symm
    grind
  | sent hsends hstarved hm hsame =>
    refine fun _ => ⟨hstarved, fun x hx => ?_⟩
    by_contra hearly
    obtain ⟨m', hm', hcycle⟩ := hxs.insert_cycle ⟨x, hxs.isPending.mp hx, not_lt.mp hearly⟩
    cases hm.symm.trans hm'
    obtain ⟨ys, hys, -⟩ := hsame.balanced.mp hbalanced
    exact hcycle ys hys
  | expired hread => exact fun seq hseq => nomatch hread.symm.trans hseq
  | @answered _ _ _ seq m k _ hread hm hsame =>
    intro seq' hread' hzero
    obtain rfl : seq = seq' := by simpa using hread.symm.trans hread'
    have hfound := noUnderflow_answer_iff.mp (hsame.symm.noUnderflow hno) hzero
    obtain ⟨m', hm', -⟩ := hxs.remove seq
    obtain ⟨-, rfl⟩ := Prod.mk.inj (some.inj (hm.symm.trans hm'))
    obtain ⟨a, ha⟩ := ne_none_iff_exists'.mp hfound
    obtain ⟨x, hx, -⟩ := map_eq_some_iff.mp ha
    exact ⟨x, hxs.isPending.mpr (mem_of_find?_eq_some hx), by
      simpa using find?_some hx⟩

def Steps (s : Process) (x : Input × Obs) (s' : Process) : Prop := step s x.1 = some (s', x.2)

def RegularSteps (s : Process) (x : Input × Obs) (s' : Process) : Prop :=
  Steps s x s' ∧ Regular s x.1

/-- As long as the steps are regular, the requests are those on time, those late and those pending,
and no counter goes below zero. The first other step ends this: the event of the request is missing,
the list of events becomes a cycle, or a reply that was counted before takes the number of late ones
below zero. -/
theorem requests_balanced_iff {mode : Mode} {sendInterval echoNum echoTimeout : UInt32}
    {threshold : UInt8} {id : UInt16} {af : Family} {es : List (Input × Obs)}
    (hrun : Run RegularSteps
      (.start (.init mode sendInterval echoNum echoTimeout threshold id af)) es s) :
    s.engine.Balanced ∧ ∀ i o s', step s i = some (s', o) →
      (s'.engine.Balanced ∧ NoUnderflow s.engine s'.engine ↔ Regular s i) := by
  have hok : s.engine.Ok := hrun.invariant
    ⟨[], ⟨⟨none, rfl, rfl⟩, .nil⟩, rfl⟩
    fun _ _ _ hok hstep => (hok.step hstep.1 hstep.2).1
  refine ⟨hok.balanced, fun i o s' hstep => ⟨?_, fun hreg => ?_⟩⟩
  · rintro ⟨hbalanced, hno⟩
    exact regular_of_step hok hstep hbalanced hno
  · obtain ⟨hok', hno⟩ := hok.step hstep hreg
    exact ⟨hok'.balanced, hno⟩

/-! ## A reply that comes twice -/

def advance (test : Process → Input → Bool) (s : Process) (x : Input × Obs) : Option Process :=
  if test s x.1 then (step s x.1).bind fun y => if y.2 = x.2 then some y.1 else none else none

/-- The steps of a run are what they should be if each passes a test for it. -/
theorem exists_run {R : Process → Input × Obs → Process → Prop} (test : Process → Input → Bool)
    (hR : ∀ s x s', test s x.1 = true → Steps s x s' → R s x s') (es : List (Input × Obs))
    (p : Process → Bool) (h : (es.foldlM (advance test) s).any p = true) :
    ∃ s', Run R s es s' ∧ p s' = true := by
  obtain ⟨s', hs', hp⟩ := (any_eq_true _ _).mp h
  refine ⟨s', run_of_foldlM (fun s x s' hx => ?_) hs', hp⟩
  unfold advance at hx
  split_ifs at hx with htest
  obtain ⟨y, hy, hif⟩ := bind_eq_some_iff.mp hx
  split_ifs at hif with ho
  cases hif
  refine hR s x y.1 htest ?_
  show step s x.1 = some (y.1, x.2)
  rw [hy, ← ho]

/-- Nothing is pending when a request is sent, and a reply comes only if a request is late. -/
def isRegular (s : Process) : Input → Bool
  | .nap _ => true
  | .request r => !r.starved && s.engine.events.head.isNone
  | .wait w => s.engine.countLate ≠ 0 || w.select = .timeout

theorem regular_of_isRegular (h : isRegular s i = true) : Regular s i := by
  unfold Regular
  split
  · obtain ⟨hstarved, hnil⟩ := by simpa [isRegular] using h
    exact fun _ => ⟨hstarved, fun x hx => absurd hx (not_isPending hnil)⟩
  · intro seq hread hzero
    have hselect := by simpa [isRegular, hzero] using h
    simp [Engine.readRet, doRead, hselect] at hread
  · trivial

def sampleRequest (sec : ℤ) : Request where
  stop := false
  now := ⟨sec, 0⟩
  starved := false
  refused := false
  stopSent := false
  nowRef := ⟨sec, 0⟩
  nowLeft := ⟨sec, 0⟩

/-- The first request is not answered, the second one is. -/
theorem requests_balanced_iff_two :
    ∃ es s, Run RegularSteps (.start (keepalive 6000 7 .inet6)) es s ∧ s.engine.countSend = 2 ∧
      s.engine.countOntime = 1 ∧ s.engine.countLate = 1 ∧ s.engine.Balanced := by
  obtain ⟨s, hs, hp⟩ := exists_run (R := RegularSteps) (s := .start (keepalive 6000 7 .inet6))
    isRegular (fun _ _ _ htest hstep => ⟨hstep, regular_of_isRegular htest⟩)
    (replicate 7 (.nap false, .none) ++ [(.request (sampleRequest 0), .sent 0),
      (.wait (sampleWait .timeout ⟨0, 0⟩ ⟨5, 0⟩), .expired 0),
      (.wait (sampleWait .timeout ⟨5, 0⟩ ⟨6, 0⟩), .none), (.request (sampleRequest 6), .sent 1),
      (.wait (sampleWait (.packet ((sampleReply 0 7 1).set 8 6) 24) ⟨6, 0⟩ ⟨6, 1000⟩),
        .answered (some 1))])
    (fun s => decide (s.engine.countSend = 2 ∧ s.engine.countOntime = 1 ∧ s.engine.countLate = 1))
    (by decide +kernel)
  obtain ⟨hsend, hontime, hlate⟩ := of_decide_eq_true hp
  exact ⟨_, s, hs, hsend, hontime, hlate, (requests_balanced_iff hs).1⟩

theorem duplicate_reply_below_zero :
    ∃ es s s' o, Run Steps (.start (keepalive 1000 7 .inet6)) es s ∧
      step s (.wait (sampleWait (.packet (sampleReply 0 7 0) 24) ⟨0, 1000⟩ ⟨0, 2000⟩)) =
        some (s', o) ∧
      s.engine.countLate = 0 ∧ s'.engine.countLate.toNat = 2 ^ 32 - 1 ∧
      ¬NoUnderflow s.engine s'.engine := by
  obtain ⟨s, hs, hp⟩ := exists_run (s := .start (keepalive 1000 7 .inet6)) (fun _ _ => true)
    (fun _ _ _ _ hstep => hstep)
    [(.nap false, .none), (.nap false, .none), (.request (sampleRequest 0), .sent 0),
      (.wait (sampleWait (.packet (sampleReply 0 7 0) 24) ⟨0, 0⟩ ⟨0, 1000⟩), .answered (some 0))]
    (fun s => (step s (.wait (sampleWait (.packet (sampleReply 0 7 0) 24) ⟨0, 1000⟩ ⟨0, 2000⟩))).any
      fun y : Process × Obs => decide (s.engine.countLate = 0 ∧ y.1.engine.countLate = -1))
    (by decide +kernel)
  obtain ⟨y, hy, hlate⟩ := (any_eq_true _ _).mp hp
  obtain ⟨hzero, hneg⟩ := of_decide_eq_true hlate
  refine ⟨_, s, y.1, y.2, hs, hy, hzero, ?_, fun hno => hno.late hzero hneg⟩
  rw [hneg]
  rfl

end Maiccu.Gogoc.Iee
