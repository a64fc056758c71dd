import Maiccu.Gogoc.EchoRuns

/-!
# What a general timeout says

The engine counts a request as late when a wait ends without a packet although the first event runs
out before the time for reading does. It takes the reason of the end for granted: a signal that
interrupts `select` looks the same.
-/

namespace Maiccu.Gogoc.Iee

open Maiccu.Lib List Option

variable {e e' : Engine} {s s' : Process} {i : Input} {o : Obs} {es : List (Input × Obs)}

/-! ## The meaning -/

/-- Request `k` was sent, and counted as late in `post` when its whole time had elapsed. -/
def TimedOut (timeout : UInt32) (es post : List (Input × Obs)) (k : ℕ) : Prop :=
  ∃ r w, (.request r, .sent k) ∈ es ∧ (.wait w, .expired k) ∈ post ∧
    r.now.micros + 1000 * (timeout.toNat : ℤ) ≤ w.nowBack.micros

/-- Since the last reply on time `n` requests in a row have timed out. -/
def Unanswered (timeout : UInt32) (n : ℕ) (es : List (Input × Obs)) : Prop :=
  ∃ pre post k, es = pre ++ post ∧ (∀ x ∈ post, ∀ a, x.2 ≠ .answered a) ∧
    ∀ j < n, TimedOut timeout es post (k + j)

/-! ## The condition -/

/-- `select` returns without a packet only after the time it was given, on the clock of the host. -/
def Wait.Elapsed (w : Wait) (delay : ℤ) : Prop :=
  w.select = .timeout → w.nowDelay.micros + (convMsToTv delay).micros ≤ w.nowBack.micros

/-- The wait is not interrupted while the first event, which runs out before the time for reading,
still has time. -/
def Engine.Uninterrupted (e : Engine) (timeLeft : ℤ) (w : Wait) : Prop :=
  w.select = .interrupted → ∀ x, e.IsPending x → e.events.head = some x.1 →
    compareTv x.2.tvTimeout w.nowDelay < timeLeft → x.2.tvTimeout.micros ≤ w.nowBack.micros

/-- A reply on time to a pending request is one to the first of them. -/
def Engine.InOrder (e : Engine) (w : Wait) : Prop :=
  ∀ seq x, e.readRet w = .pinginOntime seq → e.IsPending x → x.2.echoSeq = seq →
    ∃ y, e.IsPending y ∧ e.events.head = some y.1 ∧ y.2.echoSeq = seq

/-- The clock is not set back before a request; and the waits are as above. -/
def Undisturbed (s : Process) (i : Input) : Prop :=
  match s.pc, i with
  | .top, .request r =>
    s.engine.Sends r → ∀ x, s.engine.IsPending x →
      x.2.tvTimeout.micros < (s.engine.nextEvent r.now).tvTimeout.micros
  | .reading _ timeLeft, .wait w =>
    (∀ d, readDelay s.engine w.nowDelay = some d → w.Elapsed (min timeLeft d)) ∧
      s.engine.Uninterrupted timeLeft w ∧ s.engine.InOrder w
  | _, _ => True

def UndisturbedSteps (s : Process) (x : Input × Obs) (s' : Process) : Prop :=
  Steps s x s' ∧ Undisturbed s x.1

/-! ## The threshold -/

variable {timeLeft : ℤ} {tvRef : Timeval} {w : Wait} {r : Request} {timeout : UInt32}
  {threshold : UInt8} {pc : Pc}

theorem onRead_ret {delay : ℤ} {ret : ReadRet} {r : Ret}
    (h : onRead e timeLeft delay ret = some (e', r, o)) : r ≠ .generalEchoTimeout := by
  cases ret with
  | selectTimeout =>
    cases hhead : e.events.head with
    | none =>
      obtain ⟨-, rfl, -⟩ := by simpa [onRead, hhead] using h
      decide
    | some a =>
      simp only [onRead, hhead] at h
      split_ifs at h
      · obtain ⟨l, -, hx⟩ := bind_eq_some_iff.mp h
        obtain ⟨⟨m, k⟩, -, hx⟩ := bind_eq_some_iff.mp hx
        obtain ⟨-, rfl, -⟩ := by simpa using hx
        decide
      · obtain ⟨-, rfl, -⟩ := by simpa using h
        decide
  | pinginOntime seq =>
    obtain ⟨⟨m, k⟩, -, hx⟩ := bind_eq_some_iff.mp h
    obtain ⟨-, rfl, -⟩ := by simpa using hx
    unfold Engine.assess
    split_ifs <;> simp
  | _ =>
    obtain ⟨-, rfl, -⟩ := by simpa [onRead] using h
    decide

/-- The engine reports a general timeout when the counter has reached the threshold, and goes on
only while it has not. -/
theorem read_threshold (h : read e tvRef timeLeft w = (s', o)) (hpc : s'.pc ≠ .fault) :
    (s'.pc = .done .generalEchoTimeout →
        s'.engine.echoTimeoutThreshold ≤ s'.engine.countConsecLate.toUInt32) ∧
      ((∃ ret, s'.pc = .done ret) ∨
        s'.engine.countConsecLate.toUInt32 < s'.engine.echoTimeoutThreshold) := by
  obtain ⟨e₂, ret, hturn, hstop, hpc'⟩ := read_eq h hpc
  obtain ⟨d, e₁, ret₁, -, hon, hcheck⟩ := readTurn_eq_some hturn
  rw [hstop] at hpc' ⊢
  unfold checkTimeouts at hcheck
  by_cases hle : e₁.echoTimeoutThreshold ≤ e₁.countConsecLate.toUInt32
  · rw [if_pos hle] at hcheck
    cases hcheck
    exact ⟨fun _ => hle, Or.inl ⟨_, by simpa [Engine.stopIf] using hpc'⟩⟩
  · rw [if_neg hle] at hcheck
    cases hcheck
    refine ⟨fun hdone => ?_, Or.inr (by simpa [Engine.stopIf] using hle)⟩
    rw [hdone] at hpc'
    split_ifs at hpc'
    exact absurd (Pc.done.inj hpc').symm (onRead_ret hon)

theorem doSend_ret {x : Engine × Ret × Obs} (h : doSend e r = some x) :
    x.2.1 ≠ .generalEchoTimeout := by
  unfold doSend at h
  by_cases hstarved : r.starved = true
  · rw [if_pos hstarved] at h
    rw [← some.inj h]
    simp
  · rw [if_neg hstarved] at h
    obtain ⟨m, -, rfl⟩ := map_eq_some_iff.mp h
    cases r.refused <;> simp

theorem send_ne_timeout (h : send e r = (s', o)) : s'.pc ≠ .done .generalEchoTimeout := by
  unfold send at h
  simp only at h
  split_ifs at h with hsends
  · cases hdo : doSend (e.stopIf r.stop) r with
    | none =>
      rw [hdo] at h
      obtain ⟨rfl, -⟩ := Prod.mk.inj h
      simp
    | some x =>
      have hret := doSend_ret hdo
      rw [hdo] at h
      simp only at h
      split_ifs at h <;> obtain ⟨rfl, -⟩ := Prod.mk.inj h <;> simp_all
  · obtain ⟨rfl, -⟩ := Prod.mk.inj h
    simp

theorem step_threshold (h : step s i = some (s', o)) (hpc : s'.pc ≠ .fault) :
    (s'.pc = .done .generalEchoTimeout →
        s'.engine.echoTimeoutThreshold ≤ s'.engine.countConsecLate.toUInt32) ∧
      ((∃ ret, s'.pc = .done ret) ∨
        s'.engine.countConsecLate.toUInt32 < s'.engine.echoTimeoutThreshold ∨
        s'.engine.countConsecLate = s.engine.countConsecLate) := by
  have heffect := effect_of_step h hpc
  obtain ⟨e, pc⟩ := s
  cases heffect with
  | nap hsame =>
    refine ⟨fun hdone => ?_, Or.inr (Or.inr (by rw [← hsame]))⟩
    obtain ⟨rfl, -⟩ := Prod.mk.inj (some.inj h)
    simp only [nap] at hdone
    split_ifs at hdone
  | idle _ hsame =>
    exact ⟨fun hdone => absurd hdone (send_ne_timeout (some.inj h)),
      Or.inr (Or.inr (by rw [← hsame]))⟩
  | starved _ _ hsame =>
    exact ⟨fun hdone => absurd hdone (send_ne_timeout (some.inj h)),
      Or.inr (Or.inr (by rw [← hsame]; rfl))⟩
  | sent _ _ _ hsame =>
    rw [Engine.setEchoTimeout_eq] at hsame
    exact ⟨fun hdone => absurd hdone (send_ne_timeout (some.inj h)),
      Or.inr (Or.inr (by rw [← hsame]; rfl))⟩
  | _ =>
    obtain ⟨hdone, hlt⟩ := read_threshold (some.inj h) hpc
    exact ⟨hdone, hlt.imp_right Or.inl⟩

/-! ## The invariant -/

/-- The pending requests are the last ones sent, from number `j` on, and the requests before them
that are counted as late in a row have timed out since the last reply on time. -/
structure Waiting (timeout : UInt32) (threshold : UInt8) (es : List (Input × Obs)) (e : Engine)
    (xs : List (ℕ × EchoEvent)) (j : ℕ) : Prop where
  pending : Pending e.events xs
  numbers : xs.map Prod.fst = range' j xs.length
  last : j + xs.length = e.events.size
  due : ∀ x ∈ xs, ∃ r, (.request r, .sent x.1) ∈ es ∧
    x.2.tvTimeout.micros = r.now.micros + 1000 * (timeout.toNat : ℤ)
  late : ∃ pre post, es = pre ++ post ∧ (∀ x ∈ post, ∀ a, x.2 ≠ .answered a) ∧
    ∃ k, j = k + e.countConsecLate.toNat ∧
      ∀ n < e.countConsecLate.toNat, TimedOut timeout es post (k + n)
  mode : e.engMode = .ka
  timeout_eq : e.echoTimeout = timeout
  threshold_eq : e.echoTimeoutThreshold = threshold.toUInt32

theorem TimedOut.append {post : List (Input × Obs)} {k : ℕ} (h : TimedOut timeout es post k)
    (x : Input × Obs) :
    TimedOut timeout (es ++ [x]) (post ++ [x]) k := by
  obtain ⟨r, w, hr, hw, hle⟩ := h
  exact ⟨r, w, mem_append_left _ hr, mem_append_left _ hw, hle⟩

section Waiting

variable {xs : List (ℕ × EchoEvent)} {j : ℕ}

theorem Waiting.due_append (h : Waiting timeout threshold es e xs j) {x : Input × Obs} :
    ∀ y ∈ xs, ∃ r, (.request r, .sent y.1) ∈ es ++ [x] ∧
      y.2.tvTimeout.micros = r.now.micros + 1000 * (timeout.toNat : ℤ) := by
  intro y hy
  obtain ⟨r, hr, hdue⟩ := h.due y hy
  exact ⟨r, mem_append_left _ hr, hdue⟩

variable {x : Input × Obs} {m : Cells EchoEvent} {k : Option ℕ}

section

variable (h : Waiting timeout threshold es e xs j)
include h

theorem Waiting.late_append (hx : ∀ a, x.2 ≠ .answered a) :
    ∃ pre post, es ++ [x] = pre ++ post ++ [x] ∧ (∀ y ∈ post ++ [x], ∀ a, y.2 ≠ .answered a) ∧
      ∃ k, j = k + e.countConsecLate.toNat ∧
        ∀ n < e.countConsecLate.toNat, TimedOut timeout (es ++ [x]) (post ++ [x]) (k + n) := by
  obtain ⟨pre, post, rfl, hpost, k, hk, hlate⟩ := h.late
  refine ⟨pre, post, rfl, fun y hy => ?_, k, hk, fun n hn => (hlate n hn).append x⟩
  rcases mem_append.mp hy with hy | hy
  · exact hpost y hy
  · rwa [mem_singleton.mp hy]

theorem Waiting.keep {c : UInt32}
    (hsame : ({ e with countSend := c } : Engine).Same e') (hx : ∀ a, x.2 ≠ .answered a) :
    Waiting timeout threshold (es ++ [x]) e' xs j := by
  obtain ⟨pre, post, heq, hpost, hk⟩ := h.late_append hx
  rw [append_assoc] at heq
  rw [← hsame]
  exact ⟨h.pending, h.numbers, h.last, h.due_append, ⟨pre, post ++ [x], heq, hpost, hk⟩, h.mode,
    h.timeout_eq, h.threshold_eq⟩

theorem Waiting.setEchoTimeout : e.countRequest.setEchoTimeout = e.countRequest := by
  have hmode : e.countRequest.engMode ≠ .acd := by
    show e.engMode ≠ .acd
    rw [h.mode]
    decide
  unfold Engine.setEchoTimeout
  rw [if_neg hmode]

theorem Waiting.sent
    (hm : insertEchoEvent (e.events.alloc (e.nextEvent r.now)) e.events.size = some m)
    (hlater : ∀ x ∈ xs, x.2.tvTimeout.micros < (e.nextEvent r.now).tvTimeout.micros)
    (hsame : ({ e.countRequest.setEchoTimeout with events := m } : Engine).Same e') :
    Waiting timeout threshold (es ++ [(.request r, .sent e.events.size)]) e'
      (xs ++ [(e.events.size, e.nextEvent r.now)]) j := by
  obtain ⟨m', hm', hpending, hsize⟩ := h.pending.insert hlater
  cases hm.symm.trans hm'
  rw [h.setEchoTimeout] at hsame
  obtain ⟨pre, post, heq, hpost, hk⟩ :=
    h.late_append (x := (.request r, .sent e.events.size)) (by simp)
  rw [append_assoc] at heq
  rw [← hsame]
  refine ⟨hpending, ?_, ?_, ?_, ⟨pre, _, heq, hpost, hk⟩, h.mode, h.timeout_eq, h.threshold_eq⟩
  · rw [map_append, h.numbers, length_append, length_singleton, range'_concat, one_mul, h.last]
    rfl
  · show _ = m.size
    rw [hsize, length_append, length_singleton, ← add_assoc, h.last]
  · intro y hy
    rcases mem_append.mp hy with hy | hy
    · exact h.due_append y hy
    · rw [mem_singleton.mp hy]
      refine ⟨r, by simp, ?_⟩
      show (echoDue e.countRequest.setEchoTimeout.echoTimeout r.now).micros = _
      rw [h.setEchoTimeout, micros_echoDue]
      show r.now.micros + 1000 * (e.echoTimeout.toNat : ℤ) = _
      rw [h.timeout_eq]

end

theorem Waiting.tail {x : ℕ × EchoEvent} (h : Waiting timeout threshold es e (x :: xs) j) :
    x.1 = j ∧ xs.map Prod.fst = range' (j + 1) xs.length := by
  have hnumbers := h.numbers
  exact cons.inj hnumbers

theorem eraseP_first (x : ℕ × EchoEvent) (xs : List (ℕ × EchoEvent)) :
    (x :: xs).eraseP (fun y => y.2.echoSeq = x.2.echoSeq) = xs :=
  eraseP_cons_of_pos (by simp)

theorem Waiting.expired {x : ℕ × EchoEvent} (h : Waiting timeout threshold es e (x :: xs) j)
    (hbelow : e.countConsecLate.toNat < 255)
    (hm : removeFreeEchoEvent e.events x.2.echoSeq = some (m, k))
    (hback : x.2.tvTimeout.micros ≤ w.nowBack.micros) (hsame : (e.expire m).Same e') :
    Waiting timeout threshold (es ++ [(.wait w, .expired x.1)]) e' xs (j + 1) := by
  obtain ⟨m', hm', hpending, hsize⟩ := h.pending.remove x.2.echoSeq
  obtain ⟨rfl, -⟩ := Prod.mk.inj (some.inj (hm.symm.trans hm'))
  rw [eraseP_first] at hpending
  obtain ⟨hx, hnumbers⟩ := h.tail
  obtain ⟨pre, post, heq, hpost, k, hk, hlate⟩ :=
    h.late_append (x := (.wait w, .expired x.1)) (by simp)
  rw [append_assoc] at heq
  have hconsec : (e.countConsecLate + 1).toNat = e.countConsecLate.toNat + 1 := by
    rw [UInt8.toNat_add]
    simp only [UInt8.reduceToNat]
    omega
  rw [← hsame]
  refine ⟨hpending, hnumbers, ?_, ?_, ⟨pre, _, heq, hpost, k, ?_, ?_⟩, h.mode, h.timeout_eq,
    h.threshold_eq⟩
  · show _ = m.size
    rw [hsize, ← h.last, length_cons]
    omega
  · exact fun y hy => h.due_append y (mem_cons_of_mem _ hy)
  · show j + 1 = k + (e.countConsecLate + 1).toNat
    omega
  · show ∀ n < (e.countConsecLate + 1).toNat, _
    intro n hn
    rcases Nat.lt_or_ge n e.countConsecLate.toNat with hlt | hge
    · exact hlate n hlt
    · -- the request that has just been counted
      have hn' : k + n = x.1 := by omega
      rw [hn']
      obtain ⟨r, hr, hdue⟩ := h.due x (by simp)
      exact ⟨r, w, mem_append_left _ hr, by simp, hdue ▸ hback⟩

theorem Waiting.answered (h : Waiting timeout threshold es e xs j) {seq : UInt16}
    (hm : removeFreeEchoEvent e.events seq = some (m, k))
    (hfirst : ∀ x ∈ xs, x.2.echoSeq = seq → ∃ y ∈ xs.head?, y.2.echoSeq = seq)
    (hsame : (e.answer m k).Same e') :
    ∃ ys i, Waiting timeout threshold (es ++ [(.wait w, .answered k)]) e' ys i := by
  obtain ⟨m', hm', hpending, hsize⟩ := h.pending.remove seq
  obtain ⟨rfl, -⟩ := Prod.mk.inj (some.inj (hm.symm.trans hm'))
  have hlate : ∀ i, ∃ pre post, es ++ [(Input.wait w, Obs.answered k)] = pre ++ post ∧
      (∀ y ∈ post, ∀ a, y.2 ≠ .answered a) ∧ ∃ l, i = l + (0 : UInt8).toNat ∧
        ∀ n < (0 : UInt8).toNat, TimedOut timeout (es ++ [(.wait w, .answered k)]) post (l + n) :=
    fun i => ⟨_, [], (append_nil _).symm, by simp, i, rfl, nofun⟩
  rw [← hsame]
  by_cases hany : ∃ x ∈ xs, x.2.echoSeq = seq
  · obtain ⟨x, hx, hseq⟩ := hany
    obtain ⟨y, hy, rfl⟩ := hfirst x hx hseq
    obtain ⟨ys, rfl⟩ : ∃ ys, xs = y :: ys := head?_eq_some_iff.mp hy
    rw [eraseP_first] at hpending
    refine ⟨ys, j + 1, hpending, h.tail.2, ?_, fun z hz => ?_, hlate (j + 1), h.mode, h.timeout_eq,
      h.threshold_eq⟩
    · show _ = m.size
      rw [hsize, ← h.last, length_cons]
      omega
    · exact h.due_append z (mem_cons_of_mem _ hz)
  · push Not at hany
    rw [eraseP_of_forall_not fun x hx => by simpa using hany x hx] at hpending
    exact ⟨xs, j, hpending, h.numbers, h.last.trans hsize.symm, h.due_append, hlate j, h.mode,
      h.timeout_eq, h.threshold_eq⟩

end Waiting

theorem decode_ne_selectTimeout {buf : Bytes 2048} {len : ℕ} {now : Timeval} :
    decodeIcmpPacket e buf len now ≠ .selectTimeout := by
  unfold decodeIcmpPacket
  split
  · simp
  · split_ifs <;> simp

theorem select_of_selectTimeout (h : e.readRet w = .selectTimeout) :
    w.select = .timeout ∨ w.select = .interrupted := by
  unfold Engine.readRet doRead at h
  cases hselect : w.select with
  | timeout => exact Or.inl rfl
  | interrupted => exact Or.inr rfl
  | packet buf len =>
    rw [hselect] at h
    exact absurd h decode_ne_selectTimeout
  | recvFailed | badFd =>
    rw [hselect] at h
    split_ifs at h
  | recvEmpty | failed =>
    rw [hselect] at h
    cases h

theorem nowBack_of_undisturbed {x : ℕ × EchoEvent} {q : Option ℕ}
    (hund : Undisturbed ⟨e, .reading tvRef timeLeft⟩ (.wait w))
    (hread : e.readRet w = .selectTimeout) (hx : e.IsPending x) (hhead : e.events.head = some x.1)
    (hnode : e.events.node x.1 = some ⟨x.2, q⟩)
    (hlt : compareTv x.2.tvTimeout w.nowDelay < timeLeft) :
    x.2.tvTimeout.micros ≤ w.nowBack.micros := by
  obtain ⟨helapsed, hsignal, -⟩ := hund
  rcases select_of_selectTimeout hread with hselect | hselect
  · have hdelay : readDelay e w.nowDelay = some (compareTv x.2.tvTimeout w.nowDelay) := by
      simp only [readDelay, hhead, hnode, map_some]
    have hle := helapsed _ hdelay hselect
    rw [min_eq_right hlt.le, convMsToTv_micros, compareTv_eq] at hle
    omega
  · exact hsignal hselect x hx hhead hlt

theorem Waiting.step {xs : List (ℕ × EchoEvent)} {j : ℕ}
    (h : Waiting timeout threshold es s.engine xs j) (hbelow : s.engine.countConsecLate.toNat < 255)
    (hstep : step s i = some (s', o)) (hund : Undisturbed s i) :
    ∃ ys n, Waiting timeout threshold (es ++ [(i, o)]) s'.engine ys n := by
  have heffect := effect_of_step hstep (h.pending.not_fault hstep)
  obtain ⟨e, pc⟩ := s
  cases heffect with
  | nap hsame | idle _ hsame | quiet _ hsame =>
    exact ⟨xs, j, h.keep (c := e.countSend) hsame (by simp)⟩
  | starved _ _ hsame => exact ⟨xs, j, h.keep (c := e.countSend + 1) hsame (by simp)⟩
  | sent hsends _ hm hsame =>
    have hlater : ∀ x ∈ xs, _ := fun x hx => hund hsends x (h.pending.isPending.mpr hx)
    exact ⟨_, _, h.sent hm hlater hsame⟩
  | expired hread hhead hl hlt hm hsame =>
    have hfirst := hhead
    rw [h.pending.chain.head_eq] at hfirst
    obtain ⟨x, hx, rfl⟩ := map_eq_some_iff.mp hfirst
    obtain ⟨ys, rfl⟩ := head?_eq_some_iff.mp hx
    obtain ⟨q, hq⟩ := h.pending.node_of_mem (x := x) (by simp)
    cases hq.symm.trans hl
    have hback := nowBack_of_undisturbed hund hread (h.pending.isPending.mpr (by simp)) hhead hl
      hlt
    exact ⟨_, _, h.expired hbelow hm hback hsame⟩
  | @answered _ _ _ seq _ _ _ hread hm hsame =>
    refine h.answered hm (fun x hx hseq => ?_) hsame
    obtain ⟨y, hy, hhead, hseq'⟩ := hund.2.2 seq x hread (h.pending.isPending.mpr hx) hseq
    have hmem := h.pending.isPending.mp hy
    rw [h.pending.chain.head_eq] at hhead
    obtain ⟨z, hz, hzy⟩ := map_eq_some_iff.mp hhead
    -- the event is known by its address
    have hzy' : z = y :=
      inj_on_of_nodup_map h.pending.nodup (mem_of_mem_head? hz) hmem hzy
    exact ⟨y, hzy' ▸ hz, hseq'⟩

/-- The engine is stopped as soon as the counter reaches the threshold. -/
structure Counted (s : Process) : Prop where
  below : (∃ ret, s.pc = .done ret) ∨ s.engine.countConsecLate = 0 ∨
    s.engine.countConsecLate.toUInt32 < s.engine.echoTimeoutThreshold
  done : s.pc = .done .generalEchoTimeout →
    s.engine.echoTimeoutThreshold ≤ s.engine.countConsecLate.toUInt32

theorem not_done_of_step (h : step s i = some (s', o)) : ¬∃ ret, s.pc = .done ret := by
  rintro ⟨ret, hret⟩
  obtain ⟨e, pc⟩ := s
  obtain rfl : pc = .done ret := hret
  cases i <;> cases h

theorem toNat_lt_of_below (h : Counted s)
    (hthreshold : s.engine.echoTimeoutThreshold = threshold.toUInt32)
    (hstep : step s i = some (s', o)) : s.engine.countConsecLate.toNat < 255 := by
  rcases h.below.resolve_left (not_done_of_step hstep) with hzero | hlt
  · rw [hzero]
    decide
  · rw [hthreshold, UInt32.lt_iff_toNat_lt, UInt8.toNat_toUInt32, UInt8.toNat_toUInt32] at hlt
    have := threshold.toNat_lt
    omega

theorem Counted.step (h : Counted s) (hstep : Iee.step s i = some (s', o)) (hpc : s'.pc ≠ .fault) :
    Counted s' := by
  obtain ⟨hdone, hbelow⟩ := step_threshold hstep hpc
  refine ⟨?_, hdone⟩
  rcases hbelow with hret | hlt | heq
  · exact Or.inl hret
  · exact Or.inr (Or.inr hlt)
  · rw [(effect_of_step hstep hpc).setup.threshold, heq]
    exact Or.inr (h.below.resolve_left (not_done_of_step hstep))

/-- Three requests and what follows each: a wait that ends at the time `back`. -/
def threeRequests (select : Select) (back : ℤ → Timeval) : List (Input × Obs) :=
  replicate 7 (.nap false, .none) ++
  [(.request (sampleRequest 0), .sent 0),
    (.wait (sampleWait select ⟨0, 0⟩ (back 0)), .expired 0),
    (.wait (sampleWait .timeout (back 0) ⟨6, 0⟩), .none),
    (.request (sampleRequest 6), .sent 1),
    (.wait (sampleWait select ⟨6, 0⟩ (back 6)), .expired 1),
    (.wait (sampleWait .timeout (back 6) ⟨12, 0⟩), .none),
    (.request (sampleRequest 12), .sent 2),
    (.wait (sampleWait select ⟨12, 0⟩ (back 12)), .expired 2)]

/-- Nothing is pending when a request is sent, and each wait ends after its time. -/
def isUndisturbed (s : Process) : Input → Bool
  | .nap _ => true
  | .request _ => s.engine.events.head.isNone
  | .wait w => w.select = .timeout && (readDelay s.engine w.nowDelay).all fun d =>
      match s.pc with
      | .reading _ timeLeft =>
        w.nowDelay.micros + (convMsToTv (min timeLeft d)).micros ≤ w.nowBack.micros
      | _ => true

theorem undisturbed_of_isUndisturbed (h : isUndisturbed s i = true) : Undisturbed s i := by
  unfold Undisturbed
  split
  · exact fun _ x hx => absurd hx (not_isPending (by simpa [isUndisturbed] using h))
  · rename_i hpc
    obtain ⟨hselect, hdelay⟩ := by simpa [isUndisturbed, hpc] using h
    refine ⟨fun d hd _ => by simpa [hd] using hdelay, by simp [Engine.Uninterrupted, hselect], ?_⟩
    intro seq x hread
    simp [Engine.readRet, doRead, hselect] at hread
  · trivial

def interruptedRun : List (Input × Obs) := threeRequests .interrupted fun t => ⟨t, 1000⟩

end Maiccu.Gogoc.Iee
