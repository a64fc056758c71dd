import Maiccu.Aiccu.SockGetline

/-!
# The line reader on the bytes in use

`readLine` is `sock_getline` on the list of the bytes in use alone: no array, no left-over bytes and
no wrapping arithmetic. The abstract state is lost (`none`) after a failed `recv` on an empty
buffer, when the fill count is `2 ^ 32 - 1`.
-/

namespace Maiccu.Tic

open Maiccu.Lib List

def RecvBuf.content (b : RecvBuf) : List UInt8 := b.rbuf.take b.filled

/-- One carriage return at the end of a line is not part of its text. -/
def stripCr (l : List UInt8) : List UInt8 := if l.getLast? = some cr then l.dropLast else l

theorem stripCr_length_le (l : List UInt8) : (stripCr l).length ≤ l.length := by
  unfold stripCr
  split_ifs <;> simp

def lineOutcome (ulen : ℕ) (l : List UInt8) : Outcome :=
  if l = [] then .fault
  else if ulen < (stripCr l).length then .fault
  else .line (l.length + 1) (stripCr l)

def firstLine (c : List UInt8) : List UInt8 := c.takeWhile (fun x => decide (x ≠ lf))

def afterLine (c : List UInt8) : List UInt8 := c.drop ((firstLine c).length + 1)

variable {l r bs : List UInt8} {n ulen : ℕ} {b b' : RecvBuf} {o : Outcome} {ev : RecvEvent}

theorem firstLine_append (h : lf ∉ l) (r : List UInt8) : firstLine (l ++ lf :: r) = l := by
  unfold firstLine
  rw [takeWhile_append_of_pos]
  · simp
  · intro x hx
    simp only [ne_eq, decide_eq_true_eq]
    rintro rfl
    exact h hx

theorem afterLine_append (h : lf ∉ l) (r : List UInt8) : afterLine (l ++ lf :: r) = r := by
  unfold afterLine
  rw [firstLine_append h, show l ++ lf :: r = (l ++ [lf]) ++ r by simp]
  exact drop_left' (by simp)

/-- The fill count from which a call gives up: ten bytes before the end of either buffer. -/
def limit (rcap ulen : ℕ) : ℕ := min rcap (ulen - 10)

/-- `sock_getline` on the bytes in use; `rcap` is the length of the receive buffer less ten. -/
def readLine (rcap ulen : ℕ) :
    List RecvEvent → List UInt8 → Outcome × Option (List UInt8) × List RecvEvent
  | [], c =>
    if lf ∈ c then (lineOutcome ulen (firstLine c), some (afterLine c), [])
    else (.fail, some c, [])
  | .error :: evs, c =>
    if lf ∈ c then (lineOutcome ulen (firstLine c), some (afterLine c), .error :: evs)
    else if c = [] then (.fail, none, evs)
    else if limit rcap ulen ≤ c.length - 1 then (.fail, some c.dropLast, evs)
    else readLine rcap ulen evs c.dropLast
  | .data bs :: evs, c =>
    if lf ∈ c then (lineOutcome ulen (firstLine c), some (afterLine c), .data bs :: evs)
    else if bs = [] then (.fail, some c, evs)
    else if limit rcap ulen ≤ c.length + bs.length then
      (.fail, some (c ++ bs.take (rcap - c.length)), unread (rcap - c.length) bs ++ evs)
    else readLine rcap ulen evs (c ++ bs)

theorem readLine_of_mem {c : List UInt8} (h : lf ∈ c) (rcap ulen : ℕ) (evs : List RecvEvent) :
    readLine rcap ulen evs c = (lineOutcome ulen (firstLine c), some (afterLine c), evs) := by
  cases evs with
  | nil => simp [readLine, h]
  | cons ev evs => cases ev <;> simp [readLine, h]

/-! ## The search -/

theorem seek_found (h : lf ∉ l) (hn : l.length < n) : seek (l ++ lf :: r) n = .found l.length := by
  induction l generalizing n with
  | nil => simp [seek]
  | cons x l ih =>
    rw [mem_cons, not_or] at h
    rw [length_cons] at hn
    rw [cons_append, seek, if_neg (Ne.symm h.1), if_neg (by omega), ih h.2 (by omega)]
    rfl

theorem seek_missing (hn : 0 < n) (hle : n ≤ bs.length) (h : lf ∉ bs.take n) :
    seek bs n = .missing := by
  fun_induction seek bs n with
  | case1 => exact absurd hle (by simp; omega)
  | case2 bs n => exact absurd (by simp [take_cons hn]) h
  | case3 => rfl
  | case4 x bs n hx hlt ih =>
    rw [take_cons hn, mem_cons, not_or] at h
    rw [ih (by omega) (by simp at hle; omega) h.2]
    rfl

theorem seek_past_end (hn : bs.length < n) :
    seek bs n = .fault ∨ ∃ i < bs.length, seek bs n = .found i := by
  fun_induction seek bs n with
  | case1 => exact .inl rfl
  | case2 bs n => exact .inr ⟨0, by simp, rfl⟩
  | case3 x bs n hx hle =>
    rw [length_cons] at hn
    omega
  | case4 x bs n hx hlt ih =>
    rw [length_cons] at hn ⊢
    rcases ih (by omega) with h | ⟨i, hi, h⟩
    · exact .inl (by rw [h]; rfl)
    · exact .inr ⟨i + 1, by omega, by rw [h]; rfl⟩

/-! ## One turn of the loop -/

/-- A buffer with ten bytes to spare, of a size whose arithmetic does not wrap. -/
structure RecvBuf.Ok (b : RecvBuf) : Prop where
  room : b.filled + 10 ≤ b.rbuf.length
  small : b.rbuf.length + 1 < word

theorem RecvBuf.Ok.content_length (hb : b.Ok) : b.content.length = b.filled := by
  have := hb.room
  simp only [RecvBuf.content, length_take]
  omega

theorem ticBuf_ok : ticBuf.Ok :=
  ⟨by rw [ticBuf_length]; decide, by rw [ticBuf_length, word_eq]; decide⟩

theorem scan_of_notMem (hb : b.Ok) (h : lf ∉ b.content) (ulen : ℕ) : scan ulen b = none := by
  unfold scan
  by_cases h0 : 0 < b.filled
  · rw [if_pos h0, seek_missing h0 (by have := hb.room; omega) h]
  · rw [if_neg h0]

theorem copyLine_front {rest : List UInt8} (hr : b.rbuf = l ++ lf :: (r ++ rest))
    (hf : b.filled = l.length + 1 + r.length) (hs : b.rbuf.length < word) :
    ∃ b', copyLine ulen b l.length = (lineOutcome ulen l, b') ∧
      (lineOutcome ulen l ≠ .fault → b'.filled = r.length ∧ b'.content = r ∧
        b'.rbuf.length = b.rbuf.length) := by
  by_cases hl : l = []
  · exact ⟨b, by simp [copyLine, lineOutcome, hl], by simp [lineOutcome, hl]⟩
  have hlen : b.rbuf.length = l.length + 1 + r.length + rest.length := by
    rw [hr]; simp; omega
  have hpos : 0 < l.length := length_pos_iff.mpr hl
  have hlast : (b.rbuf.getD (l.length - 1) 0 = cr) ↔ l.getLast? = some cr := by
    rw [hr, getD_eq_getElem?_getD, getElem?_append_left (by omega),
      getLast?_eq_getElem?, getElem?_eq_getElem (by omega)]
    simp
  have hat : b.rbuf.getD l.length 0 = lf := by rw [hr]; simp
  -- both branches leave the same count and the text of the line
  have hj : ∃ j, (if b.rbuf.getD (l.length - 1) 0 = cr then l.length - 1 else l.length) = j ∧
      (stripCr l).length = j ∧ b.rbuf.take j = stripCr l ∧
      (if b.rbuf.getD j 0 = cr then j + 1 else j) + 1 = l.length + 1 := by
    by_cases hc : l.getLast? = some cr
    · refine ⟨l.length - 1, by rw [if_pos (hlast.mpr hc)], ?_, ?_, ?_⟩
      · simp [stripCr, hc]
      · rw [stripCr, if_pos hc, hr, take_append_of_le_length (by omega), ← dropLast_eq_take]
      · rw [if_pos (hlast.mpr hc)]; omega
    · refine ⟨l.length, by rw [if_neg (fun h => hc (hlast.mp h))], ?_, ?_, ?_⟩
      · simp [stripCr, hc]
      · rw [stripCr, if_neg hc, hr, take_left' rfl]
      · rw [hat, if_neg (by decide)]
  obtain ⟨j, hj, hjlen, htake, hn⟩ := hj
  have hleft : usub b.filled (l.length + 1) = r.length := by
    rw [usub_of_le (by omega) (by omega), hf]; omega
  unfold copyLine
  simp only [hj, hn, hleft, htake]
  rw [if_neg (by omega)]
  by_cases hu : ulen < j
  · exact ⟨b, by simp [hu, lineOutcome, hl, hjlen], by simp [lineOutcome, hl, hjlen, hu]⟩
  · refine ⟨⟨(b.rbuf.drop (l.length + 1)).take r.length ++ b.rbuf.drop r.length, r.length⟩,
      by rw [if_neg hu, if_neg (by omega)]; simp [lineOutcome, hl, hjlen, hu], fun _ => ?_⟩
    have hdrop : (b.rbuf.drop (l.length + 1)).take r.length = r := by
      rw [hr, show l ++ lf :: (r ++ rest) = (l ++ [lf]) ++ (r ++ rest) by simp,
        drop_left' (by simp), take_left' rfl]
    refine ⟨rfl, ?_, ?_⟩
    · simp only [RecvBuf.content]
      rw [hdrop, take_left' rfl]
    · simp only [length_append, length_drop, hdrop]
      omega

theorem scan_of_mem (hb : b.Ok) (h : lf ∈ b.content) :
    ∃ b', scan ulen b = some (lineOutcome ulen (firstLine b.content), b') ∧
      (lineOutcome ulen (firstLine b.content) ≠ .fault → b'.Ok ∧
        b'.content = afterLine b.content ∧ b'.rbuf.length = b.rbuf.length) := by
  obtain ⟨l, r, hc, hl⟩ := eq_append_cons_of_mem h
  have hroom := hb.room
  have hlen := hb.content_length
  have hf : b.filled = l.length + 1 + r.length := by
    rw [← hlen, hc]; simp; omega
  have hrb : b.rbuf = l ++ lf :: (r ++ b.rbuf.drop b.filled) := by
    conv_lhs => rw [← take_append_drop b.filled b.rbuf]
    rw [show b.rbuf.take b.filled = l ++ lf :: r from hc]
    simp
  obtain ⟨b', hcopy, hspec⟩ := copyLine_front hrb hf (by have := hb.small; omega)
  have hseek : seek b.rbuf b.filled = .found l.length := by
    rw [hrb]; exact seek_found hl (by omega)
  rw [hc, firstLine_append hl, afterLine_append hl]
  refine ⟨b', by unfold scan; rw [if_pos (by omega), hseek, ← hcopy], fun hne => ?_⟩
  obtain ⟨h1, h2, h3⟩ := hspec hne
  exact ⟨⟨by rw [h1, h3]; omega, by rw [h3]; exact hb.small⟩, h2, h3⟩

theorem limit_le_iff {rcap : ℕ} : limit rcap ulen ≤ n ↔ rcap ≤ n ∨ ulen - 10 ≤ n := by
  unfold limit
  omega

theorem overfull_iff (h10 : 10 ≤ b.rbuf.length) (hs : b.rbuf.length < word) (hu : 10 ≤ ulen)
    (hu' : ulen < word) :
    overfull ulen b ↔ limit (b.rbuf.length - 10) ulen ≤ b.filled := by
  unfold overfull
  rw [usub_of_le h10 hs, usub_of_le hu hu', limit_le_iff]

theorem store_spec (got : List UInt8) (hs : b.rbuf.length + 1 < word)
    (h : b.filled + got.length + 10 ≤ b.rbuf.length) :
    (b.store got).Ok ∧ (b.store got).content = b.content ++ got ∧
      (b.store got).filled = b.filled + got.length ∧
      (b.store got).rbuf.length = b.rbuf.length := by
  have hlen : (b.store got).rbuf.length = b.rbuf.length := by
    simp only [RecvBuf.store, length_append, length_take, length_drop]
    omega
  have hfill : (b.store got).filled = b.filled + got.length := by
    exact uadd_of_lt (by omega)
  refine ⟨⟨by rw [hfill, hlen]; omega, by rw [hlen]; exact hs⟩, ?_, hfill, hlen⟩
  unfold RecvBuf.content
  rw [hfill]
  exact take_left' (by simp only [length_append, length_take]; omega)

theorem room_eq (hb : b.Ok) :
    usub (usub b.rbuf.length b.filled) 10 = b.rbuf.length - 10 - b.filled := by
  have h1 := hb.room
  have h2 := hb.small
  have hsub : usub b.rbuf.length b.filled = b.rbuf.length - b.filled :=
    usub_of_le (by omega) (by omega)
  rw [hsub, usub_of_le (by omega) (by omega)]
  omega

/-! ## Refinement -/

def Sim (n : ℕ) (b : RecvBuf) : Option (List UInt8) → Prop
  | some c => b.Ok ∧ b.content = c ∧ b.rbuf.length = n
  | none => b.filled = word - 1 ∧ b.rbuf.length = n

section Fill

variable (hb : b.Ok) (hu : 10 ≤ ulen) (hu' : ulen < word)

include hb hu hu' in
/-- A chunk up to the limit ends the call. If it is cut, the rest of it stays unread. -/
theorem fill_data_full (h : limit (b.rbuf.length - 10) ulen ≤ b.content.length + bs.length) :
    ∃ b', fill ulen b (.data bs) =
        .stop .fail b' (unread (b.rbuf.length - 10 - b.content.length) bs) ∧
      Sim b.rbuf.length b'
        (some (b.content ++ bs.take (b.rbuf.length - 10 - b.content.length))) := by
  have h1 := hb.room
  have h2 := hb.small
  rw [hb.content_length] at *
  simp only [fill, room_eq hb]
  by_cases hg : bs.take (b.rbuf.length - 10 - b.filled) = []
  · refine ⟨b, by rw [if_pos hg], hb, ?_, rfl⟩
    rw [hg, append_nil]
  · have hlen : (bs.take (b.rbuf.length - 10 - b.filled)).length =
        min (b.rbuf.length - 10 - b.filled) bs.length := length_take
    obtain ⟨hok, hc, hf, hl⟩ := store_spec (b := b)
      (bs.take (b.rbuf.length - 10 - b.filled)) h2 (by omega)
    have hover : overfull ulen (b.store (bs.take (b.rbuf.length - 10 - b.filled))) := by
      rw [overfull_iff (by omega) (by omega) hu hu', hl, hf]
      rw [limit_le_iff] at *
      omega
    exact ⟨_, by rw [if_neg hg, if_neg (by omega), if_pos hover], hok, hc, hl⟩

include hb hu hu' in
theorem fill_data_again (hne : bs ≠ [])
    (h : ¬ limit (b.rbuf.length - 10) ulen ≤ b.content.length + bs.length) :
    ∃ b', fill ulen b (.data bs) = .again b' ∧ Sim b.rbuf.length b' (some (b.content ++ bs)) := by
  have h1 := hb.room
  have h2 := hb.small
  rw [hb.content_length, limit_le_iff] at h
  simp only [fill, room_eq hb]
  have hall : bs.take (b.rbuf.length - 10 - b.filled) = bs := take_of_length_le (by omega)
  obtain ⟨hok, hc, hf, hl⟩ := store_spec (b := b) bs h2 (by omega)
  have hover : ¬ overfull ulen (b.store bs) := by
    rw [overfull_iff (by omega) (by omega) hu hu', hl, hf, limit_le_iff]
    omega
  rw [hall]
  exact ⟨_, by rw [if_neg hne, if_neg (by omega), if_neg hover], hok, hc, hl⟩

theorem fill_data_nil : fill ulen b (.data []) = .stop .fail b [] := by
  unfold fill
  simp only [take_nil, if_true, unread_nil]

include hb in
theorem fill_error_lost (h : b.content = []) :
    fill ulen b .error = .stop .fail ⟨b.rbuf, word - 1⟩ [] := by
  have h2 := hb.small
  have h0 : b.filled = 0 := by rw [← hb.content_length, h]; rfl
  have hadd : uadd b.filled (word - 1) = word - 1 := by rw [h0]; unfold uadd; rw [word_eq]
  have hover : overfull ulen ⟨b.rbuf, word - 1⟩ := by
    left
    have := usub_lt b.rbuf.length 10
    show usub b.rbuf.length 10 ≤ word - 1
    omega
  simp only [fill, hadd]
  rw [if_pos hover]

include hb in
theorem sim_dropLast (h : b.content ≠ []) :
    Sim b.rbuf.length ⟨b.rbuf, uadd b.filled (word - 1)⟩ (some b.content.dropLast) ∧
      uadd b.filled (word - 1) = b.content.length - 1 := by
  have h1 := hb.room
  have h2 := hb.small
  have hpos : 0 < b.filled := by
    rw [← hb.content_length]; exact length_pos_iff.mpr h
  have hadd : uadd b.filled (word - 1) = b.filled - 1 := by
    unfold uadd
    rw [word_eq] at *
    omega
  rw [hadd, hb.content_length]
  refine ⟨⟨⟨by show b.filled - 1 + 10 ≤ b.rbuf.length; omega, h2⟩, ?_, rfl⟩, rfl⟩
  simp only [RecvBuf.content]
  rw [dropLast_eq_take, take_take, length_take]
  congr 1
  omega

include hb hu hu' in
theorem fill_error (hb' : b' = ⟨b.rbuf, uadd b.filled (word - 1)⟩) (h : b.content ≠ []) :
    fill ulen b .error = if limit (b.rbuf.length - 10) ulen ≤ b.content.length - 1
      then .stop .fail b' [] else .again b' := by
  have h1 := hb.room
  have h2 := hb.small
  have hover : overfull ulen b' ↔ limit (b.rbuf.length - 10) ulen ≤ b.content.length - 1 := by
    subst hb'
    rw [overfull_iff (by simp only; omega) (by simp only; omega) hu hu', (sim_dropLast hb h).2]
  subst hb'
  simp only [fill, hover]

end Fill

def Agree (n : ℕ) (r : Outcome × RecvBuf × List RecvEvent)
    (a : Outcome × Option (List UInt8) × List RecvEvent) : Prop :=
  r.1 = a.1 ∧ (r.1 ≠ .fault → r.2.2 = a.2.2 ∧ Sim n r.2.1 a.2.1)

theorem getlineLoop_some (h : scan ulen b = some (o, b')) (evs : List RecvEvent) :
    getlineLoop ulen evs b = (o, b', evs) := by
  cases evs <;> simp only [getlineLoop, h]

theorem getlineLoop_stop {rest : List RecvEvent} (h : scan ulen b = none)
    (hf : fill ulen b ev = .stop o b' rest) (evs : List RecvEvent) :
    getlineLoop ulen (ev :: evs) b = (o, b', rest ++ evs) := by
  simp only [getlineLoop, h, hf]

theorem getlineLoop_again (h : scan ulen b = none) (hf : fill ulen b ev = .again b')
    (evs : List RecvEvent) :
    getlineLoop ulen (ev :: evs) b = getlineLoop ulen evs b' := by
  simp only [getlineLoop, h, hf]

theorem agree_of_mem (hb : b.Ok) (h : lf ∈ b.content) (evs : List RecvEvent) :
    Agree b.rbuf.length (getlineLoop ulen evs b)
      (readLine (b.rbuf.length - 10) ulen evs b.content) := by
  obtain ⟨b', hscan, hspec⟩ := scan_of_mem hb h
  rw [readLine_of_mem h, getlineLoop_some hscan]
  exact ⟨rfl, fun hne => ⟨rfl, hspec hne⟩⟩

/-- **Refinement.** On a buffer with ten bytes to spare the loop of `sock_getline` is `readLine`
on the bytes in use. -/
theorem getlineLoop_refines (hu : 10 ≤ ulen) (hu' : ulen < word) {evs : List RecvEvent}
    (hb : b.Ok) : Agree b.rbuf.length (getlineLoop ulen evs b)
      (readLine (b.rbuf.length - 10) ulen evs b.content) := by
  induction evs generalizing b with
  | nil =>
    by_cases h : lf ∈ b.content
    · exact agree_of_mem hb h _
    · have hg : getlineLoop ulen [] b = (.fail, b, []) := by
        simp only [getlineLoop, scan_of_notMem hb h]
      rw [hg, readLine, if_neg h]
      exact ⟨rfl, fun _ => ⟨rfl, hb, rfl, rfl⟩⟩
  | cons ev evs ih =>
    by_cases h : lf ∈ b.content
    · exact agree_of_mem hb h _
    have hscan := scan_of_notMem hb h ulen
    cases ev with
    | error =>
      rw [readLine, if_neg h]
      by_cases h0 : b.content = []
      · rw [if_pos h0, getlineLoop_stop hscan (fill_error_lost hb h0)]
        exact ⟨rfl, fun _ => ⟨rfl, rfl, rfl⟩⟩
      · have hfill := fill_error hb hu hu' rfl h0
        obtain ⟨⟨hok, hc, hl⟩, _⟩ := sim_dropLast hb h0
        rw [if_neg h0]
        by_cases hlim : limit (b.rbuf.length - 10) ulen ≤ b.content.length - 1
        · rw [if_pos hlim] at hfill ⊢
          rw [getlineLoop_stop hscan hfill]
          exact ⟨rfl, fun _ => ⟨rfl, hok, hc, hl⟩⟩
        · rw [if_neg hlim] at hfill ⊢
          rw [getlineLoop_again hscan hfill, ← hc]
          exact ih hok
    | data bs =>
      rw [readLine, if_neg h]
      by_cases hbs : bs = []
      · subst hbs
        rw [if_pos rfl, getlineLoop_stop hscan fill_data_nil]
        exact ⟨rfl, fun _ => ⟨rfl, hb, rfl, rfl⟩⟩
      · rw [if_neg hbs]
        by_cases hlim : limit (b.rbuf.length - 10) ulen ≤ b.content.length + bs.length
        · obtain ⟨b', hfill, hsim⟩ := fill_data_full hb hu hu' hlim
          rw [if_pos hlim, getlineLoop_stop hscan hfill]
          exact ⟨rfl, fun _ => ⟨rfl, hsim⟩⟩
        · obtain ⟨b', hfill, hok, hc, hl⟩ := fill_data_again hb hu hu' hbs hlim
          rw [if_neg hlim, getlineLoop_again hscan hfill, ← hc, ← hl]
          exact ih hok

/-- After a failed `recv` on an empty buffer the next call leaves the arrays. -/
theorem getlineLoop_lost (hf : b.filled = word - 1) (hs : b.rbuf.length + 1 < word) (ulen : ℕ)
    (evs : List RecvEvent) : (getlineLoop ulen evs b).1 = .fault := by
  have hmove : ∀ n ≤ b.rbuf.length + 1, b.rbuf.length < n + usub b.filled n := by
    intro n hn
    rw [usub_of_le (by omega) (by omega)]
    omega
  have hcopy : ∀ i < b.rbuf.length, copyLine ulen b i = (.fault, b) := by
    intro i hi
    unfold copyLine
    by_cases h0 : i = 0
    · rw [if_pos h0]
    · rw [if_neg h0]
      have hj : (if b.rbuf.getD (i - 1) 0 = cr then i - 1 else i) ≤ i := by split_ifs <;> omega
      generalize (if b.rbuf.getD (i - 1) 0 = cr then i - 1 else i) = j at hj
      by_cases hu : ulen < j
      · rw [if_pos hu]
      · rw [if_neg hu, if_pos (hmove _ (by split_ifs <;> omega))]
  have hscan : scan ulen b = some (.fault, b) := by
    unfold scan
    rw [if_pos (by omega)]
    rcases seek_past_end (show b.rbuf.length < b.filled by omega) with h | ⟨i, hi, h⟩
    · rw [h]
    · rw [h, ← hcopy i hi]
  rw [getlineLoop_some hscan]

end Maiccu.Tic
