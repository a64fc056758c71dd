import Maiccu.Aiccu.ReadLine

/-!
# The lines of a stream, whatever its chunks

The successive calls of `sock_getline` on a fresh buffer, for a stream delivered in the chunks `cs`.
The fill test stands before the search for a newline, so a chunk that brings complete lines can
still end the call with `-1`; and an empty line makes the code look at `rbuf[-1]`.
-/

namespace Maiccu.Tic

open Maiccu.Lib List

def outcomes (ulen : ℕ) : ℕ → List RecvEvent → RecvBuf → List Outcome
  | 0, _, _ => []
  | n + 1, evs, b =>
    (getlineLoop ulen evs b).1 ::
      outcomes ulen n (getlineLoop ulen evs b).2.2 (getlineLoop ulen evs b).2.1

/-- A line as the caller should get it: its text, and the count of its bytes with the newline. -/
def lineResult (l : List UInt8) : Outcome := .line (l.length + 1) (stripCr l)

/-- What the calls should return for the stream `s`: its lines in order, then `-1`. -/
def lineResults (s : List UInt8) : List Outcome := (records lf s).map lineResult ++ [.fail]

def chunks (cs : List (List UInt8)) : List RecvEvent := cs.map .data

variable {ulen : ℕ}

theorem lineOutcome_of_le {l : List UInt8} (h : l ≠ []) (hl : l.length ≤ ulen) :
    lineOutcome ulen l = lineResult l := by
  have := stripCr_length_le l
  rw [lineOutcome, if_neg h, if_neg (by omega), lineResult]

/-! ## One call -/

section OneCall

variable (rcap : ℕ) {cs : List (List UInt8)} {c : List UInt8}

theorem readLine_no_newline (h : lf ∉ c ++ cs.flatten) :
    (readLine rcap ulen (chunks cs) c).1 = .fail := by
  have hc : lf ∉ c := fun hm => h (mem_append_left _ hm)
  induction cs generalizing c with
  | nil => simp [chunks, readLine, hc]
  | cons x cs ih =>
    show (readLine rcap ulen (.data x :: chunks cs) c).1 = .fail
    rw [readLine, if_neg hc]
    split_ifs
    · rfl
    · rfl
    · have h' : lf ∉ c ++ x ++ cs.flatten := by simpa [append_assoc] using h
      exact ih h' fun hm => h' (mem_append_left _ hm)

structure Leaves (lim : ℕ) (c : List UInt8) (cs : List (List UInt8)) (l c' : List UInt8)
    (cs' : List (List UInt8)) : Prop where
  stream : c ++ cs.flatten = l ++ lf :: (c' ++ cs'.flatten)
  line : lf ∉ l
  fits : FitsFrom lf lim c cs ↔ FitsFrom lf lim c' cs'
  chunk : ∀ x ∈ cs', x ≠ []

theorem readLine_leaves (hne : ∀ x ∈ cs, x ≠ []) (hlen : c.length ≤ ulen) (hc : lf ∈ c) :
    ∃ l c' cs', Leaves (limit rcap ulen) c cs l c' cs' ∧ l.length ≤ ulen ∧ c'.length ≤ ulen ∧
      readLine rcap ulen (chunks cs) c = (lineOutcome ulen l, some c', chunks cs') := by
  obtain ⟨l, r, rfl, hl⟩ := eq_append_cons_of_mem hc
  simp only [length_append, length_cons] at hlen
  refine ⟨l, r, cs, ⟨by simp, hl, ?_, hne⟩, by omega, by omega, ?_⟩
  · exact fitsFrom_congr lf (unfinished_append_cons lf l r) _
  · rw [readLine_of_mem hc, firstLine_append hl, afterLine_append hl]

/-- A call on a stream with a newline to come gives up on a chunk that does not fit, or ends with
the first line. -/
theorem readLine_newline (hne : ∀ x ∈ cs, x ≠ []) (hlen : c.length ≤ ulen)
    (hm : lf ∈ c ++ cs.flatten) :
    ((readLine rcap ulen (chunks cs) c).1 = .fail ∧ ¬ FitsFrom lf (limit rcap ulen) c cs) ∨
      ∃ l c' cs', Leaves (limit rcap ulen) c cs l c' cs' ∧ l.length ≤ ulen ∧ c'.length ≤ ulen ∧
        readLine rcap ulen (chunks cs) c = (lineOutcome ulen l, some c', chunks cs') := by
  induction cs generalizing c with
  | nil => exact .inr (readLine_leaves rcap hne hlen (by simpa using hm))
  | cons x cs ih =>
    have hx : x ≠ [] := hne x (by simp)
    by_cases hc : lf ∈ c
    · exact .inr (readLine_leaves rcap hne hlen hc)
    have hfits : FitsFrom lf (limit rcap ulen) c (x :: cs) ↔
        c.length + x.length < limit rcap ulen ∧ FitsFrom lf (limit rcap ulen) (c ++ x) cs := by
      rw [fitsFrom_cons, unfinished_of_notMem lf hc]
      have hm' : lf ∈ x ++ cs.flatten := (mem_append.mp hm).resolve_left hc
      exact and_congr_left' ⟨fun h => h hm', fun h _ => h⟩
    show ((readLine rcap ulen (.data x :: chunks cs) c).1 = .fail ∧ _) ∨ ∃ l c' cs', _ ∧ _ ∧ _ ∧
      readLine rcap ulen (.data x :: chunks cs) c = _
    rw [readLine, if_neg hc, if_neg hx]
    by_cases hlim : limit rcap ulen ≤ c.length + x.length
    · left
      rw [if_pos hlim, hfits]
      exact ⟨rfl, fun h => absurd h.1 (by omega)⟩
    · rw [if_neg hlim]
      have hle : (c ++ x).length ≤ ulen := by
        rw [length_append]
        rw [limit_le_iff] at hlim
        omega
      rw [and_iff_right (by omega)] at hfits
      rw [hfits]
      rcases ih (fun y hy => hne y (mem_cons_of_mem _ hy)) hle
        (by simpa [append_assoc] using hm) with h | ⟨l, c', cs', hleaves, h⟩
      · exact Or.inl h
      · refine Or.inr ⟨l, c', cs', ⟨?_, hleaves.line, ?_, hleaves.chunk⟩, h⟩
        · rw [← hleaves.stream]; simp
        · exact hfits.trans hleaves.fits

end OneCall

/-! ## All calls -/

def NoBareNewline (s : List UInt8) : Prop := ∀ l ∈ records lf s, l ≠ []

theorem outcomes_eq_lineResults_iff (hu : 10 ≤ ulen) (hu' : ulen < word) {n : ℕ} {b : RecvBuf}
    {cs : List (List UInt8)} (hb : b.Ok) (hlen : b.content.length ≤ ulen) (hne : ∀ x ∈ cs, x ≠ [])
    (hn : (records lf (b.content ++ cs.flatten)).length = n) :
    outcomes ulen (n + 1) (chunks cs) b = lineResults (b.content ++ cs.flatten) ↔
      NoBareNewline (b.content ++ cs.flatten) ∧
        FitsFrom lf (limit (b.rbuf.length - 10) ulen) b.content cs := by
  induction n generalizing b cs with
  | zero =>
    have hnil : records lf (b.content ++ cs.flatten) = [] := length_eq_zero_iff.mp hn
    have hno : lf ∉ b.content ++ cs.flatten := by
      intro hm
      obtain ⟨l, r, hlr, hl⟩ := eq_append_cons_of_mem hm
      rw [hlr, records_append_cons lf hl] at hnil
      exact nomatch hnil
    have hfail : (getlineLoop ulen (chunks cs) b).1 = .fail := by
      rw [(getlineLoop_refines hu hu' hb).1]
      exact readLine_no_newline _ hno
    refine iff_of_true ?_ ⟨?_, fitsFrom_of_notMem lf _ fun h => hno (mem_append_right _ h)⟩
    · simp only [outcomes, hfail, lineResults, hnil, map_nil, nil_append]
    · intro l hl
      rw [hnil] at hl
      exact nomatch hl
  | succ n ih =>
    have hm : lf ∈ b.content ++ cs.flatten := by
      by_contra hno
      rw [records_of_notMem lf hno] at hn
      exact nomatch hn
    obtain ⟨hout, hrest⟩ := getlineLoop_refines hu hu' hb
    rw [outcomes]
    rcases readLine_newline (b.rbuf.length - 10) hne hlen hm with
      ⟨hfail, hfits⟩ | ⟨l, c', cs', hleaves, hl, hc', hread⟩
    · -- the call gave up: the first result is not a line
      obtain ⟨l, r, hlr, hl⟩ := eq_append_cons_of_mem hm
      rw [hout, hfail]
      simp only [hfits, and_false, iff_false]
      intro h
      rw [hlr, lineResults, records_append_cons lf hl] at h
      simp [lineResult] at h
    · rw [hread] at hout hrest
      have hrec : records lf (b.content ++ cs.flatten) = l :: records lf (c' ++ cs'.flatten) := by
        rw [hleaves.stream, records_append_cons lf hleaves.line]
      have hres : lineResults (b.content ++ cs.flatten) =
          lineResult l :: lineResults (c' ++ cs'.flatten) := by
        rw [lineResults, hrec]; rfl
      rw [hres]
      by_cases hl0 : l = []
      · -- a bare newline is a fault
        subst hl0
        rw [hout, lineOutcome, if_pos rfl]
        constructor
        · intro h
          exact absurd (cons.inj h).1 (by simp [lineResult])
        · rintro ⟨hbare, _⟩
          exact absurd rfl (hbare [] (by rw [hrec]; simp))
      · rw [lineOutcome_of_le hl0 hl] at hout hrest
        obtain ⟨hevs, hok, hcont, hlen'⟩ := hrest (by rw [hout]; simp [lineResult])
        have hn' : (records lf (c' ++ cs'.flatten)).length = n := by
          rw [hrec] at hn; simpa using hn
        have hih := ih hok (by rw [hcont]; exact hc') hleaves.chunk (by rw [hcont]; exact hn')
        rw [hcont, hlen'] at hih
        rw [hout, hevs]
        simp only [cons.injEq, true_and]
        rw [hih, hleaves.fits]
        refine and_congr_left' ?_
        unfold NoBareNewline
        rw [hrec]
        simp [hl0]

/-- **Segmentation.** The successive calls on an empty buffer return the lines of the stream, with
one carriage return removed, and then `-1`, if and only if no line is a bare newline and no chunk,
with the unfinished line it arrives after, comes within ten bytes of the end of either buffer while
a newline is still to come. -/
theorem getline_lines_iff (hu : 10 ≤ ulen) (hu' : ulen < word) {rbuf : List UInt8}
    (hr : 10 ≤ rbuf.length) (hr' : rbuf.length + 1 < word) {cs : List (List UInt8)}
    (hne : ∀ x ∈ cs, x ≠ []) :
    outcomes ulen ((records lf cs.flatten).length + 1) (chunks cs) ⟨rbuf, 0⟩ =
        lineResults cs.flatten ↔
      NoBareNewline cs.flatten ∧ FitsFrom lf (limit (rbuf.length - 10) ulen) [] cs :=
  outcomes_eq_lineResults_iff hu hu' (b := ⟨rbuf, 0⟩) ⟨by simpa using hr, hr'⟩
    (by simp [RecvBuf.content]) hne rfl

theorem getline_lines_two_chunks :
    outcomes 1024 3 (chunks [[50, 48, 48, 13], [lf, 50, 48, 49, lf]]) ⟨ticBuf.rbuf, 0⟩ =
      [.line 5 [50, 48, 48], .line 4 [50, 48, 49], .fail] := by
  have hrec : records lf [[50, 48, 48, 13], [lf, 50, 48, 49, lf]].flatten =
      [[50, 48, 48, 13], [50, 48, 49]] := by decide
  have hiff := @getline_lines_iff 1024 (by decide) (by rw [word_eq]; decide) ticBuf.rbuf
    (by rw [ticBuf_length]; decide) ticBuf_ok.small [[50, 48, 48, 13], [lf, 50, 48, 49, lf]]
    (by decide)
  rw [lineResults, NoBareNewline, hrec, fitsFrom_cons, fitsFrom_cons, ticBuf_length] at hiff
  exact hiff.mpr ⟨by decide, fun _ => by decide, fun _ => by decide, fitsFrom_nil _⟩

/-- A list of 127 lines of eight bytes that arrives in one chunk. -/
theorem getline_lines_one_long_chunk :
    (∀ l ∈ records lf (replicate 127 ([50, 48, 49, 32, 84, 49, 13] ++ [lf])).flatten,
      l.length < 10) ∧
    outcomes 1024 128 (chunks [(replicate 127 ([50, 48, 49, 32, 84, 49, 13] ++ [lf])).flatten])
        ticBuf ≠
      lineResults (replicate 127 ([50, 48, 49, 32, 84, 49, 13] ++ [lf])).flatten := by
  constructor
  · decide +kernel
  · intro hout
    -- The chunk fills the buffer up to the limit, so that the first call gives up.
    exact absurd (congrArg head? hout) (by decide +kernel)

end Maiccu.Tic
