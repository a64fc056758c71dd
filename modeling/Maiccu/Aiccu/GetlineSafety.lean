import Maiccu.Aiccu.GetlineLines

/-!
# What a sequence of reads keeps

A `Reader` is a buffer with its connection and the numbers of bytes delivered and returned. `CallOk`
says what a call of `sock_getline` should keep: the fill count is inside the buffer and counts the
bytes received and not returned, the line has place for its terminator, and an error of `recv` ends
the call with `-1` and nothing changed.
-/

namespace Maiccu.Tic

open Maiccu.Lib List

/-! ## Readers -/

def RecvEvent.bytes : RecvEvent → List UInt8
  | .data bs => bs
  | .error => []

def stream (evs : List RecvEvent) : List UInt8 := (evs.map RecvEvent.bytes).flatten

def errors (evs : List RecvEvent) : ℕ := evs.count .error

def Outcome.count : Outcome → ℕ
  | .line n _ => n
  | _ => 0

structure Reader where
  buf : RecvBuf
  evs : List RecvEvent
  received : ℕ
  returned : ℕ

/-- One call of `sock_getline` with a caller's buffer of `ulen` bytes. -/
def Reader.call (ulen : ℕ) (s : Reader) : Outcome × Reader :=
  let r := getlineLoop ulen s.evs s.buf
  (r.1, ⟨r.2.1, r.2.2, s.received + ((stream s.evs).length - (stream r.2.2).length),
    s.returned + r.1.count⟩)

def Reader.fresh (rbuf : List UInt8) (evs : List RecvEvent) : Reader := ⟨⟨rbuf, 0⟩, evs, 0, 0⟩

structure CallOk (ulen : ℕ) (s : Reader) : Prop where
  noFault : (s.call ulen).1 ≠ .fault
  filled_le : (s.call ulen).2.buf.filled ≤ (s.call ulen).2.buf.rbuf.length
  filled_eq : (s.call ulen).2.buf.filled + (s.call ulen).2.returned = (s.call ulen).2.received
  fits : ∀ n text, (s.call ulen).1 = .line n text → text.length + 1 ≤ ulen
  /-- An error of `recv` during the call: `-1`, and the bytes buffered until then stay. -/
  error : errors (s.call ulen).2.evs < errors s.evs → (s.call ulen).1 = .fail ∧
    (s.call ulen).2.buf.content = s.buf.content ++ (stream s.evs).take
      ((stream s.evs).length - (stream (s.call ulen).2.evs).length)

/-- Each call of a run keeps what it should; `us` are the lengths of the callers' buffers. -/
def RunOk : List ℕ → Reader → Prop
  | [], _ => True
  | u :: us, s => CallOk u s ∧ RunOk us (s.call u).2

/-! ## The condition -/

/-- After the chunks `pre` a call on the bytes `c` still waits for a newline. -/
def Waits (lim : ℕ) (c : List UInt8) (pre : List (List UInt8)) : Prop :=
  lf ∉ c ++ pre.flatten ∧ (∀ x ∈ pre, x ≠ []) ∧ (pre = [] ∨ (c ++ pre.flatten).length < lim)

/-- The state before a call: the bytes `c` in the buffer and the events of the connection. -/
structure CallCond (rcap ulen : ℕ) (evs : List RecvEvent) (c : List UInt8) : Prop where
  noError : ∀ pre post, evs = chunks pre ++ .error :: post → ¬ Waits (limit rcap ulen) c pre
  /-- A line already in the buffer is not a bare newline and is shorter than the caller's buffer. -/
  buffered : ∀ l r, c = l ++ lf :: r → lf ∉ l → l ≠ [] ∧ (stripCr l).length < ulen
  /-- The first chunk for an empty buffer does not start with a newline, or it is too long. -/
  notBare : ∀ bs post, c = [] → evs = .data (lf :: bs) :: post → limit rcap ulen ≤ bs.length + 1

def RunCond : List ℕ → Reader → Prop
  | [], _ => True
  | u :: us, s =>
    CallCond (s.buf.rbuf.length - 10) u s.evs s.buf.content ∧ RunCond us (s.call u).2

section Cond

variable {rcap ulen : ℕ} {evs : List RecvEvent} {c bs : List UInt8}

theorem callCond_of_mem {l r : List UInt8} (hl : lf ∉ l) :
    CallCond rcap ulen evs (l ++ lf :: r) ↔ l ≠ [] ∧ (stripCr l).length < ulen := by
  constructor
  · intro h
    exact h.buffered l r rfl hl
  · intro h
    refine ⟨fun pre post _ hw => hw.1 (by simp), fun l' r' he hl' => ?_, fun bs post he _ => ?_⟩
    · have hfirst := congrArg firstLine he
      rw [firstLine_append hl, firstLine_append hl'] at hfirst
      rwa [← hfirst]
    · exact absurd he (by simp)

variable (hc : lf ∉ c)
include hc

theorem callCond_nil : CallCond rcap ulen [] c := by
  refine ⟨fun pre post he _ => ?_, fun l r he _ => ?_, fun bs post _ he => ?_⟩
  · exact absurd he.symm (by simp)
  · exact absurd (by rw [he]; simp) hc
  · exact nomatch he

theorem not_callCond_error : ¬ CallCond rcap ulen (.error :: evs) c := by
  intro h
  exact h.noError [] evs rfl ⟨by simpa using hc, by simp, Or.inl rfl⟩

theorem callCond_stop (h : bs = [] ∨ limit rcap ulen ≤ c.length + bs.length) :
    CallCond rcap ulen (.data bs :: evs) c := by
  refine ⟨fun pre post he hw => ?_, fun l r he _ => ?_, fun bs' post hc0 he => ?_⟩
  · cases pre with
    | nil => exact absurd he (by simp [chunks])
    | cons x pre =>
      have hx : bs = x := by simpa [chunks] using (cons.inj he).1
      subst hx
      obtain ⟨_, hne, hlen⟩ := hw
      rcases h with h | h
      · exact hne bs (by simp) h
      · have hlen' : (c ++ (bs :: pre).flatten).length < limit rcap ulen :=
          hlen.resolve_left (by simp)
        simp only [flatten_cons, length_append] at hlen'
        omega
  · exact absurd (by rw [he]; simp) hc
  · have hbs : bs = lf :: bs' := by simpa using (cons.inj he).1
    rcases h with h | h
    · cases hbs.symm.trans h
    · rw [hc0, hbs] at h
      simpa using h

theorem callCond_again (hbs : bs ≠ []) (h : ¬ limit rcap ulen ≤ c.length + bs.length) :
    CallCond rcap ulen (.data bs :: evs) c ↔ CallCond rcap ulen evs (c ++ bs) := by
  have hlen : (c ++ bs).length < limit rcap ulen := by rw [length_append]; omega
  constructor
  · intro hcond
    refine ⟨fun pre post he hw => ?_, fun l r he hl => ?_, fun bs' post he _ => ?_⟩
    · refine hcond.noError (bs :: pre) post (by rw [he]; rfl) ⟨?_, ?_, Or.inr ?_⟩
      · simpa [append_assoc] using hw.1
      · intro x hx
        rcases mem_cons.mp hx with rfl | hx
        · exact hbs
        · exact hw.2.1 x hx
      · rcases hw.2.2 with rfl | hw'
        · simpa using hlen
        · simpa [append_assoc] using hw'
    · have hle : l.length < (c ++ bs).length := by rw [he]; simp
      have hstrip := stripCr_length_le l
      have hlim : limit rcap ulen ≤ ulen := by unfold limit; omega
      refine ⟨?_, by omega⟩
      rintro rfl
      cases c with
      | nil =>
        have := hcond.notBare r evs rfl (by rw [show bs = lf :: r by simpa using he])
        rw [he] at hlen
        simp only [nil_append, length_cons] at hlen
        omega
      | cons x c =>
        have hx : x = lf := by simpa using (cons.inj he).1
        exact hc (by rw [hx]; simp)
    · exact absurd (append_eq_nil_iff.mp he).2 hbs
  · intro hcond
    refine ⟨fun pre post he hw => ?_, fun l r he _ => ?_, fun bs' post hc0 he => ?_⟩
    · cases pre with
      | nil => exact absurd he (by simp [chunks])
      | cons x pre =>
        obtain ⟨hx, he'⟩ := cons.inj he
        have hx' : bs = x := by simpa using hx
        subst hx'
        refine hcond.noError pre post he' ⟨?_, fun y hy => hw.2.1 y (by simp [hy]), Or.inr ?_⟩
        · simpa [append_assoc] using hw.1
        · have := hw.2.2.resolve_left (by simp)
          simpa [append_assoc] using this
    · exact absurd (by rw [he]; simp) hc
    · have hb : bs = lf :: bs' := by simpa using (cons.inj he).1
      exact absurd rfl (hcond.buffered [] bs' (by rw [hc0, hb]) (by simp)).1

end Cond

/-! ## One call -/

@[simp] theorem stream_data (bs : List UInt8) (evs : List RecvEvent) :
    stream (.data bs :: evs) = bs ++ stream evs := rfl

@[simp] theorem stream_error (evs : List RecvEvent) : stream (.error :: evs) = stream evs := rfl

variable {bs : List UInt8} {evs : List RecvEvent}

@[simp] theorem errors_data : errors (.data bs :: evs) = errors evs := by
  simp [errors]

theorem stream_unread (room : ℕ) (bs : List UInt8) (evs : List RecvEvent) :
    stream (unread room bs ++ evs) = bs.drop room ++ stream evs := by
  unfold unread
  split_ifs with h
  · rw [h]; rfl
  · rfl

theorem errors_unread (room : ℕ) (bs : List UInt8) (evs : List RecvEvent) :
    errors (unread room bs ++ evs) = errors evs := by
  unfold unread
  split_ifs
  · rfl
  · exact errors_data

variable {ulen : ℕ} {s : Reader}

theorem lineOutcome_count {l : List UInt8} (h : lineOutcome ulen l ≠ .fault) :
    (lineOutcome ulen l).count = l.length + 1 := by
  unfold lineOutcome at *
  split_ifs at * <;> trivial

section OneCall

variable {rcap : ℕ}

theorem readLine_stream_le (rcap ulen : ℕ) (evs : List RecvEvent) (c : List UInt8) :
    (stream (readLine rcap ulen evs c).2.2).length ≤ (stream evs).length := by
  fun_induction readLine rcap ulen evs c with
  | case1 | case2 | case3 | case4 | case5 | case7 | case8 => exact le_rfl
  | case6 evs c _ _ _ ih => exact ih
  | case9 bs evs c =>
    rw [stream_unread, stream_data, length_append, length_append, length_drop]
    omega
  | case10 bs evs c _ _ _ ih =>
    rw [stream_data, length_append]
    exact ih.trans (Nat.le_add_left _ _)

variable {c d : List UInt8}

theorem line_count_le (hc : lf ∈ c) (hne : lineOutcome ulen (firstLine c) ≠ .fault)
    (hd : some (afterLine c) = some d) :
    d.length + (lineOutcome ulen (firstLine c)).count ≤ c.length := by
  obtain ⟨l, r, rfl, hl⟩ := eq_append_cons_of_mem hc
  rw [firstLine_append hl] at hne
  rw [firstLine_append hl, lineOutcome_count hne]
  rw [afterLine_append hl] at hd
  cases hd
  simp only [length_append, length_cons]
  omega

theorem readLine_count_le
    (hne : (readLine rcap ulen evs c).1 ≠ .fault) (hd : (readLine rcap ulen evs c).2.1 = some d) :
    d.length + (readLine rcap ulen evs c).1.count +
      (stream (readLine rcap ulen evs c).2.2).length ≤ c.length + (stream evs).length := by
  fun_induction readLine rcap ulen evs c with
  | case1 c hc | case3 evs c hc | case7 bs evs c hc =>
    exact Nat.add_le_add_right (line_count_le hc hne hd) _
  | case2 =>
    cases hd
    exact le_rfl
  | case4 => cases hd
  | case5 =>
    cases hd
    simp [Outcome.count]
  | case6 evs c _ _ _ ih =>
    have hle := ih hne hd
    rw [length_dropLast] at hle
    rw [stream_error]
    omega
  | case8 =>
    cases hd
    exact le_rfl
  | case9 bs evs c =>
    cases hd
    rw [stream_unread]
    simp only [Outcome.count, length_append, length_take, length_drop, stream_data]
    omega
  | case10 bs evs c _ _ _ ih =>
    have hle := ih hne hd
    simp only [length_append, stream_data] at hle ⊢
    omega

structure ReadOk (ulen : ℕ) (evs : List RecvEvent) (c : List UInt8)
    (a : Outcome × Option (List UInt8) × List RecvEvent) : Prop where
  noFault : a.1 ≠ .fault
  kept : ∃ d, a.2.1 = some d ∧
    d.length + a.1.count + (stream a.2.2).length = c.length + (stream evs).length
  fits : ∀ n text, a.1 = .line n text → text.length + 1 ≤ ulen
  error : errors a.2.2 < errors evs → a.1 = .fail ∧
    a.2.1 = some (c ++ (stream evs).take ((stream evs).length - (stream a.2.2).length))

theorem readOk_fail {evs' : List RecvEvent}
    (hlen : d.length + (stream evs').length = c.length + (stream evs).length)
    (herr : errors evs' = errors evs) : ReadOk ulen evs c (.fail, some d, evs') := by
  refine ⟨by simp, ⟨d, rfl, hlen⟩, fun n text h => ?_, fun h => ?_⟩
  · cases h
  · exact absurd h (by simp [herr])

theorem readOk_of_mem {l r : List UInt8} (hl : lf ∉ l) :
    ReadOk ulen evs (l ++ lf :: r) (readLine rcap ulen evs (l ++ lf :: r)) ↔
      l ≠ [] ∧ (stripCr l).length < ulen := by
  rw [readLine_of_mem (by simp), firstLine_append hl, afterLine_append hl]
  constructor
  · intro h
    have hl0 : l ≠ [] := by
      rintro rfl
      exact h.noFault rfl
    have hlen : ¬ ulen < (stripCr l).length := by
      intro hlt
      exact h.noFault (by simp [lineOutcome, hl0, hlt])
    refine ⟨hl0, h.fits (l.length + 1) _ ?_⟩
    simp only [lineOutcome, if_neg hl0, if_neg hlen]
  · rintro ⟨hl0, hlen⟩
    have hout : lineOutcome ulen l = .line (l.length + 1) (stripCr l) := by
      rw [lineOutcome, if_neg hl0, if_neg (by omega)]
    rw [hout]
    refine ⟨by simp, ⟨r, rfl, ?_⟩, fun n text h => ?_, fun h => absurd h (by simp)⟩
    · simp only [Outcome.count, length_append, length_cons]
      omega
    · cases h
      exact hlen

/-- A chunk that is added to the buffer may as well have been there before. -/
theorem readOk_again {a : Outcome × Option (List UInt8) × List RecvEvent}
    (hle : (stream a.2.2).length ≤ (stream evs).length) :
    ReadOk ulen (.data bs :: evs) c a ↔ ReadOk ulen evs (c ++ bs) a := by
  have hlen : c.length + (stream (.data bs :: evs)).length =
      (c ++ bs).length + (stream evs).length := by
    simp only [stream_data, length_append]
    omega
  have htake : c ++ (stream (.data bs :: evs)).take
        ((stream (.data bs :: evs)).length - (stream a.2.2).length) =
      c ++ bs ++ (stream evs).take ((stream evs).length - (stream a.2.2).length) := by
    rw [stream_data, length_append, Nat.add_sub_assoc hle, take_length_add_append, append_assoc]
  constructor
  · intro h
    exact ⟨h.noFault, by rw [← hlen]; exact h.kept, h.fits, by rw [← htake]; simpa using h.error⟩
  · intro h
    exact ⟨h.noFault, by rw [hlen]; exact h.kept, h.fits, by rw [htake]; simpa using h.error⟩

theorem readOk_iff_of_mem (hc : lf ∈ c) :
    ReadOk ulen evs c (lineOutcome ulen (firstLine c), some (afterLine c), evs) ↔
      CallCond rcap ulen evs c := by
  rw [← readLine_of_mem hc rcap]
  obtain ⟨l, r, rfl, hl⟩ := eq_append_cons_of_mem hc
  rw [readOk_of_mem hl, callCond_of_mem hl]

theorem readOk_iff : ReadOk ulen evs c (readLine rcap ulen evs c) ↔ CallCond rcap ulen evs c := by
  fun_induction readLine rcap ulen evs c with
  | case1 c hc | case3 evs c hc | case7 bs evs c hc => exact readOk_iff_of_mem hc
  | case2 c hc => exact iff_of_true (readOk_fail rfl rfl) (callCond_nil hc)
  | case4 evs hc =>
    refine iff_of_false (fun h => ?_) (not_callCond_error hc)
    obtain ⟨d, hd, -⟩ := h.kept
    cases hd
  | case5 evs c hc h0 =>
    refine iff_of_false (fun h => ?_) (not_callCond_error hc)
    obtain ⟨d, hd, hkept⟩ := h.kept
    cases hd
    simp only [Outcome.count, length_dropLast, stream_error] at hkept
    have := length_pos_iff.mpr h0
    omega
  | case6 evs c hc h0 =>
    refine iff_of_false (fun h => ?_) (not_callCond_error hc)
    obtain ⟨d, hd, hkept⟩ := h.kept
    -- the byte that was dropped is missing in every later count
    have hle := readLine_count_le h.noFault hd
    rw [length_dropLast] at hle
    rw [stream_error] at hkept
    have := length_pos_iff.mpr h0
    omega
  | case8 evs c hc =>
    exact iff_of_true (readOk_fail rfl errors_data.symm) (callCond_stop hc (Or.inl rfl))
  | case9 bs evs c hc _ hlim =>
    refine iff_of_true (readOk_fail ?_ ?_) (callCond_stop hc (Or.inr hlim))
    · rw [stream_unread]
      simp only [length_append, length_take, length_drop, stream_data]
      omega
    · rw [errors_unread, errors_data]
  | case10 bs evs c hc hbs hlim ih =>
    rw [callCond_again hc hbs hlim, readOk_again (readLine_stream_le _ _ _ _)]
    exact ih

end OneCall

/-! ## Runs -/

structure Reader.Ok (s : Reader) : Prop where
  buf : s.buf.Ok
  filled_eq : s.buf.filled + s.returned = s.received

theorem callOk_iff (hu : 10 ≤ ulen) (hu' : ulen < word) (hs : s.Ok) :
    CallOk ulen s ↔ CallCond (s.buf.rbuf.length - 10) ulen s.evs s.buf.content := by
  rw [← readOk_iff]
  have hlen := hs.buf.content_length
  have hcount := hs.filled_eq
  have hle := readLine_stream_le (s.buf.rbuf.length - 10) ulen s.evs s.buf.content
  obtain ⟨hout, hrest⟩ := getlineLoop_refines hu hu' hs.buf
  have hcall : (s.call ulen).1 = (getlineLoop ulen s.evs s.buf).1 := rfl
  by_cases hf : (getlineLoop ulen s.evs s.buf).1 = .fault
  · exact iff_of_false (fun h => h.noFault (hcall.trans hf))
      (fun h => h.noFault (hout.symm.trans hf))
  obtain ⟨hevs, hsim⟩ := hrest hf
  have hevs' : (s.call ulen).2.evs =
      (readLine (s.buf.rbuf.length - 10) ulen s.evs s.buf.content).2.2 := hevs
  have hout' : (s.call ulen).1 =
      (readLine (s.buf.rbuf.length - 10) ulen s.evs s.buf.content).1 := hcall.trans hout
  have hrecv : (s.call ulen).2.received = s.received + ((stream s.evs).length -
      (stream (readLine (s.buf.rbuf.length - 10) ulen s.evs s.buf.content).2.2).length) := by
    rw [← hevs']; rfl
  have hret : (s.call ulen).2.returned = s.returned +
      (readLine (s.buf.rbuf.length - 10) ulen s.evs s.buf.content).1.count := by
    rw [← hout']; rfl
  have hbuf : (s.call ulen).2.buf = (getlineLoop ulen s.evs s.buf).2.1 := rfl
  generalize readLine (s.buf.rbuf.length - 10) ulen s.evs s.buf.content = a at *
  obtain ⟨o, st, evs'⟩ := a
  rw [← hbuf] at hsim
  cases st with
  | none =>
    obtain ⟨hfill, hcap⟩ := hsim
    have hsmall := hs.buf.small
    refine iff_of_false (fun h => ?_) (fun h => ?_)
    · have := h.filled_le
      omega
    · obtain ⟨d, hd, _⟩ := h.kept
      cases hd
  | some d =>
    obtain ⟨hok, hd, _⟩ := hsim
    have hfill : (s.call ulen).2.buf.filled = d.length := by rw [← hok.content_length, hd]
    constructor
    · intro h
      refine ⟨by rw [← hout']; exact h.noFault, ⟨d, rfl, ?_⟩, by rw [← hout']; exact h.fits, ?_⟩
      · have := h.filled_eq
        omega
      · have := h.error
        rw [hevs', hout', hd] at this
        simpa using this
    · intro h
      obtain ⟨d', hd', hkept⟩ := h.kept
      cases hd'
      refine ⟨by rw [hout']; exact h.noFault, ?_, ?_, by rw [hout']; exact h.fits, ?_⟩
      · have := hok.room
        omega
      · omega
      · rw [hevs', hout', hd]
        simpa using h.error

theorem CallOk.next (hu : 10 ≤ ulen) (hu' : ulen < word) (hs : s.Ok) (h : CallOk ulen s) :
    (s.call ulen).2.Ok := by
  refine ⟨?_, h.filled_eq⟩
  obtain ⟨_, hrest⟩ := getlineLoop_refines hu hu' hs.buf
  obtain ⟨_, hsim⟩ := hrest h.noFault
  have hok := (readOk_iff.mpr
    ((callOk_iff hu hu' hs).mp h)).kept
  obtain ⟨d, hd, _⟩ := hok
  rw [hd] at hsim
  exact hsim.1

theorem runOk_iff_runCond_of_ok {us : List ℕ} {s : Reader} (hus : ∀ u ∈ us, 10 ≤ u ∧ u < word)
    (hs : s.Ok) : RunOk us s ↔ RunCond us s := by
  induction us generalizing s with
  | nil => exact Iff.rfl
  | cons u us ih =>
    obtain ⟨⟨hu, hu'⟩, hus'⟩ := forall_mem_cons.mp hus
    rw [RunOk, RunCond, ← callOk_iff hu hu' hs]
    exact and_congr_right fun h => ih hus' (h.next hu hu' hs)

theorem fresh_ok {rbuf : List UInt8} (hr : 10 ≤ rbuf.length) (hr' : rbuf.length + 1 < word) :
    (Reader.fresh rbuf evs).Ok :=
  ⟨⟨by simpa [Reader.fresh] using hr, hr'⟩, rfl⟩

/-- **Reads.** From an empty buffer, every call keeps what it should if and only if every call
starts in a state that meets `CallCond`. -/
theorem runOk_iff_runCond {rbuf : List UInt8} (hr : 10 ≤ rbuf.length)
    (hr' : rbuf.length + 1 < word) (evs : List RecvEvent) {us : List ℕ}
    (hus : ∀ u ∈ us, 10 ≤ u ∧ u < word) :
    RunOk us (.fresh rbuf evs) ↔ RunCond us (.fresh rbuf evs) :=
  runOk_iff_runCond_of_ok hus (fresh_ok hr hr')

/-- A reply of one line in one chunk. -/
theorem runOk_one_reply :
    RunOk [1024] (.fresh ticBuf.rbuf [.data ([50, 48, 48, cr] ++ lf :: [])]) := by
  refine (runOk_iff_runCond (by rw [ticBuf_length]; decide) ticBuf_ok.small _ ?_).mpr ⟨?_, trivial⟩
  · intro u hu
    rw [mem_singleton.mp hu, word_eq]
    decide
  · refine (callCond_again (by simp [Reader.fresh, RecvBuf.content]) (by simp) ?_).mpr ?_
    · simp [Reader.fresh, RecvBuf.content, limit, ticBuf_length]
    · exact (callCond_of_mem (l := [50, 48, 48, cr]) (by decide)).mpr ⟨by decide, by decide⟩

theorem recv_error_loses_fill_count :
    ((Reader.fresh ticBuf.rbuf [.error]).call 1024).2.buf.filled = 4294967295 ∧
      ¬ RunOk [1024] (.fresh ticBuf.rbuf [.error]) := by
  have hok : (Reader.fresh ticBuf.rbuf [.error]).Ok :=
    fresh_ok (by rw [ticBuf_length]; decide) ticBuf_ok.small
  have hcont : (Reader.fresh ticBuf.rbuf [.error]).buf.content = [] := rfl
  constructor
  · show (getlineLoop 1024 [.error] _).2.1.filled = _
    rw [getlineLoop_stop (scan_of_notMem hok.buf (by rw [hcont]; simp) 1024)
      (fill_error_lost hok.buf hcont)]
    show word - 1 = _
    rw [word_eq]
  · intro h
    have hus : ∀ u ∈ [1024], 10 ≤ u ∧ u < word := by
      intro u hu
      rw [mem_singleton.mp hu, word_eq]
      decide
    exact not_callCond_error (by rw [hcont]; simp) ((runOk_iff_runCond_of_ok hus hok).mp h).1

end Maiccu.Tic
