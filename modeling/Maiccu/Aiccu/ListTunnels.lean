import Maiccu.Aiccu.LoginCallers
import Maiccu.Lib.CText

/-!
# The list of tunnels

`tic_ListTunnels` makes an entry of a list of each line between `201` and `202`, which has to have
four fields. At a line that has not, or a failed read, the entries so far are freed.
`ticListTunnels` says what the function has done when the outcomes of `sock_getline` so far are in.
Entries are numbered as they are allocated.
-/

namespace Maiccu.Tic

open Maiccu.Lib List Option

/-! ## A line in the buffer of the caller -/

/-- `char buf[1024]` with a line in it, cleared before. -/
def lineArray (text : List UInt8) : List UInt8 := text ++ replicate (bufLen - text.length) 0

/-- There is a zero in the buffer. -/
def Ends (text : List UInt8) : Prop := text.length < bufLen ∨ text.length = bufLen ∧ 0 ∈ text

/-- There is a zero in the buffer where also the message behind a code ends. -/
def Terminated (text : List UInt8) : Prop :=
  text.length < bufLen ∨ text.length = bufLen ∧ 0 ∈ text.drop 4

variable {text : List UInt8}

theorem Terminated.ends (h : Terminated text) : Ends text :=
  h.imp_right fun h => ⟨h.1, mem_of_mem_drop h.2⟩

theorem exists_lineArray (h : Ends text) : ∃ r, lineArray text = cString text ++ 0 :: r := by
  unfold lineArray
  by_cases hmem : 0 ∈ text
  · obtain ⟨s, r, rfl, hs⟩ := eq_append_cons_of_mem hmem
    refine ⟨r ++ replicate (bufLen - (s ++ 0 :: r).length) 0, ?_⟩
    rw [cString_append_of_notMem hs]
    simp [cString]
  · obtain ⟨k, hk⟩ : ∃ k, bufLen - text.length = k + 1 := by
      have := h.resolve_right fun h => hmem h.2
      exact ⟨bufLen - text.length - 1, by omega⟩
    rw [cString_of_notMem hmem, hk, replicate_succ]
    exact ⟨_, rfl⟩

theorem length_cString_lt (h : Ends text) : (cString text).length < bufLen := by
  have hle : (cString text).length ≤ text.length := (List.takeWhile_prefix _).length_le
  rcases h with h | ⟨hlen, hmem⟩
  · omega
  · refine lt_of_le_of_ne (hlen ▸ hle) fun heq => ?_
    have hall : cString text = text := (List.takeWhile_prefix _).eq_of_length (heq.trans hlen.symm)
    exact zero_notMem_cString text (hall.symm ▸ hmem)

/-- The lines `201` and `202` around a reply. -/
def startOfList : List UInt8 := ascii "201"

def endOfList : List UInt8 := ascii "202"

def Outcome.line? : Outcome → Option (List UInt8)
  | .line _ text => some text
  | _ => none

/-! ## Fields -/

/-- The result is `none` if the string does not end inside the array. -/
def countfields : List UInt8 → Option ℕ
  | [] => none
  | c :: s =>
    if c = 0 then some 1 else (countfields s).map fun n => if c = 32 then n + 1 else n

/-- The loops of `copyfield`: `field` is what the inner loop has passed of its field. Behind the
last field the walk goes on past the zero. -/
def copyfieldLoop : List UInt8 → ℕ → Option (List UInt8) → Option (Option (List UInt8))
  | [], _, _ => none
  | c :: s, n, none =>
    if c = 0 then some none
    else if c = 32 then if usub n 1 = 0 then some (some []) else copyfieldLoop s (usub n 1) none
    else copyfieldLoop s (usub n 1) (some [c])
  | c :: s, n, some field =>
    if c = 0 ∨ c = 32 then if n = 0 then some (some field) else copyfieldLoop s n none
    else copyfieldLoop s n (some (field ++ [c]))

/-- What is written to `buf`, if there is a field with this number. -/
def copyfield (a : List UInt8) (n buflen : ℕ) : Option (Option (List UInt8)) :=
  (copyfieldLoop a n none).map (Option.map (List.take buflen))

/-! ## Entries -/

/-- `struct TIC_sTunnel`. -/
structure STunnel where
  sId : List UInt8
  sIPv6 : List UInt8
  sIPv4 : List UInt8
  sPOPId : List UInt8
  deriving DecidableEq

/-- `if (!copyfield(buf, n, buf2, sizeof(buf2))) break;` and the `strdup` of `buf2`. -/
def readField {α : Type} (a : List UInt8) (n : ℕ) (k : List UInt8 → Option (Option α)) :
    Option (Option α) :=
  match copyfield a n bufLen with
  | none => none
  | some none => some none
  | some (some field) => if field.length < bufLen then k field else none

def readTunnel (a : List UInt8) : Option (Option STunnel) :=
  readField a 1 fun sId => readField a 2 fun sIPv6 => readField a 3 fun sIPv4 =>
    readField a 4 fun sPOPId => some (some ⟨sId, sIPv6, sIPv4, sPOPId⟩)

structure ListState where
  list : List (ℕ × STunnel)
  allocated : ℕ

/-- What the function leaves: the list it returns, the entries allocated and those freed. -/
structure Listed where
  ret : List (ℕ × STunnel)
  allocated : ℕ
  freed : List ℕ

/-- The end of the function, with the entry that was not added to the list. -/
def finish (text : List UInt8) (pending : List ℕ) (st : ListState) : Option Listed :=
  if endOfList <+: text then some ⟨st.list, st.allocated, pending⟩
  else (message text).map fun _ => ⟨[], st.allocated, pending ++ st.list.map Prod.fst⟩

/-- What a line does. -/
inductive LineStep where
  | next (st : ListState)
  | stop (r : Option Listed)

def listLine (text : List UInt8) (st : ListState) : LineStep :=
  if endOfList <+: text then .stop (finish text [] st) else
  match countfields (lineArray text) with
  | none => .stop none
  | some i =>
    if i ≠ 4 then .stop (finish text [] st) else
    match readTunnel (lineArray text) with
    | none => .stop none
    | some none => .stop (finish text [st.allocated] ⟨st.list, st.allocated + 1⟩)
    | some (some tun) => .next ⟨st.list ++ [(st.allocated, tun)], st.allocated + 1⟩

inductive ListRun where
  | reading (st : ListState)
  | returned (r : Listed) (unread : List Outcome)
  | fault

def ListRun.ofEnd (r : Option Listed) (unread : List Outcome) : ListRun :=
  match r with
  | none => .fault
  | some r => .returned r unread

/-- The loop over the lines. A failed read leaves `buf` cleared. -/
def listLoop : List Outcome → ListState → ListRun
  | [], st => .reading st
  | .fault :: _, _ => .fault
  | .fail :: os, st => .ofEnd (finish [] [] st) os
  | .line _ text :: os, st =>
    match listLine text st with
    | .next st' => listLoop os st'
    | .stop r => .ofEnd r os

/-- `tic_ListTunnels`, after the request was sent. -/
def ticListTunnels : List Outcome → ListRun
  | [] => .reading ⟨[], 0⟩
  | .fault :: _ => .fault
  | .fail :: os => .returned ⟨[], 0, []⟩ os
  | .line _ text :: os =>
    if startOfList <+: text then listLoop os ⟨[], 0⟩
    else .ofEnd ((message text).map fun _ => ⟨[], 0, []⟩) os

/-! ## The fields of a line -/

section Fields

variable {a f g r s : List UInt8} {n : ℕ}

theorem countfields_append (hs : 0 ∉ s) (r : List UInt8) :
    countfields (s ++ 0 :: r) = some (s.count 32 + 1) := by
  induction s with
  | nil => rfl
  | cons c s ih =>
    rw [mem_cons, not_or] at hs
    rw [cons_append, countfields, if_neg (Ne.symm hs.1), ih hs.2, map_some, count_cons]
    by_cases hc : c = 32
    · simp [hc]
    · simp [hc]

variable {c : UInt8}

theorem copyfieldLoop_inside (hc : c = 0 ∨ c = 32) (h0 : 0 ∉ f) (h32 : 32 ∉ f) :
    copyfieldLoop (f ++ c :: r) n (some g) =
      if n = 0 then some (some (g ++ f)) else copyfieldLoop r n none := by
  induction f generalizing g with
  | nil => rw [nil_append, copyfieldLoop, if_pos hc, append_nil]
  | cons d f ih =>
    rw [mem_cons, not_or] at h0 h32
    have hd : ¬ (d = 0 ∨ d = 32) := not_or.mpr ⟨Ne.symm h0.1, Ne.symm h32.1⟩
    rw [cons_append, copyfieldLoop, if_neg hd, ih h0.2 h32.2, append_assoc]
    rfl

/-- A field and the character that ends it; at a zero there has to be something before it. -/
theorem copyfieldLoop_field (hc : c = 32 ∨ c = 0 ∧ f ≠ []) (h0 : 0 ∉ f) (h32 : 32 ∉ f) :
    copyfieldLoop (f ++ c :: r) n none =
      if usub n 1 = 0 then some (some f) else copyfieldLoop r (usub n 1) none := by
  cases f with
  | nil =>
    obtain rfl : c = 32 := hc.resolve_right fun h => h.2 rfl
    rw [nil_append, copyfieldLoop, if_neg (by decide), if_pos rfl]
  | cons d f =>
    rw [mem_cons, not_or] at h0 h32
    rw [cons_append, copyfieldLoop, if_neg (Ne.symm h0.1), if_neg (Ne.symm h32.1),
      copyfieldLoop_inside (hc.elim Or.inr fun h => Or.inl h.1) h0.2 h32.2, singleton_append]

theorem usub_succ_one (hn : n + 1 < word) : usub (n + 1) 1 = n :=
  usub_of_le (Nat.le_add_left 1 n) hn

theorem copyfieldLoop_one (hc : c = 32 ∨ c = 0 ∧ f ≠ []) (h0 : 0 ∉ f) (h32 : 32 ∉ f) :
    copyfieldLoop (f ++ c :: r) 1 none = some (some f) := by
  rw [copyfieldLoop_field hc h0 h32, if_pos (usub_succ_one (by rw [word_eq]; decide))]

theorem copyfieldLoop_succ (hn : n + 2 < word) (h0 : 0 ∉ f) (h32 : 32 ∉ f) :
    copyfieldLoop (f ++ 32 :: r) (n + 2) none = copyfieldLoop r (n + 1) none := by
  rw [copyfieldLoop_field (Or.inl rfl) h0 h32, usub_succ_one hn, if_neg (Nat.succ_ne_zero n)]

theorem copyfield_of_loop {buflen : ℕ} (h : copyfieldLoop a n none = some (some f))
    (hlen : f.length ≤ buflen) : copyfield a n buflen = some (some f) := by
  rw [copyfield, h, map_some, map_some, take_of_length_le hlen]

end Fields

/-- The field with the number `n`, if `countfields` says that there is one. -/
def nthField (s : List UInt8) (n : ℕ) : Option (List UInt8) :=
  if n = 0 then none else (s.splitOn 32)[n - 1]?

/-- Whatever stands behind the string `s`: `copyfield` succeeds for the fields that are counted, and
stores the field with a zero behind it. -/
def CopiesField (s : List UInt8) (n buflen : ℕ) : Prop :=
  ∀ r, copyfield (s ++ 0 :: r) n buflen = some (nthField s n) ∧
    countfields (s ++ 0 :: r) = some (s.splitOn 32).length ∧
    ∀ f ∈ nthField s n, f.length < buflen

section CopyField

variable {r s : List UInt8} {m : ℕ}

theorem length_splitOn (s : List UInt8) : (s.splitOn 32).length = s.count 32 + 1 := by
  induction s with
  | nil => rfl
  | cons c s ih =>
    rw [splitOn_cons_eq_if_modifyHead]
    by_cases hc : c = 32
    · simp [hc, ih]
    · simp [hc, ih]

theorem usub_mod_one (hm : 1 ≤ m) (hm' : m ≤ word) : usub (m % word) 1 = m - 1 := by
  unfold usub
  rw [word_eq] at *
  omega

/-- Before the field `m` the number is counted down to zero, where `word` stands for zero. -/
theorem copyfieldLoop_fields (hs : 0 ∉ s) (hm : 1 ≤ m) (hm' : m ≤ word) :
    copyfieldLoop (s ++ 0 :: r) (m % word) none =
      if m < (s.splitOn 32).length ∨
        m = (s.splitOn 32).length ∧ (s.splitOn 32).getLast? ≠ some [] then
        some (s.splitOn 32)[m - 1]?
      else if (s.splitOn 32).getLast? = some [] then some none
      else copyfieldLoop r (m - (s.splitOn 32).length) none := by
  induction hfs : s.splitOn 32 generalizing s m with
  | nil => exact absurd hfs (splitOn_ne_nil 32 s)
  | cons f fs ih =>
    by_cases hmem : 32 ∈ s
    · obtain ⟨a, t, rfl, ha⟩ := eq_append_cons_of_mem hmem
      rw [splitOn_append_cons_self_of_not_mem ha] at hfs
      cases hfs
      rw [mem_append, mem_cons, not_or, not_or] at hs
      rw [append_assoc, cons_append, copyfieldLoop_field (Or.inl rfl) hs.1 ha, usub_mod_one hm hm']
      obtain ⟨g, gs, hgs⟩ := exists_cons_of_ne_nil (splitOn_ne_nil 32 t)
      by_cases hone : m = 1
      · subst hone
        rw [if_pos rfl, if_pos (Or.inl (by simp [hgs]))]
        rfl
      · have hlt : m - 1 < word := by omega
        have := ih hs.2.2 (by omega) hlt.le rfl
        rw [Nat.mod_eq_of_lt hlt] at this
        rw [if_neg (by omega), this, hgs]
        obtain ⟨k, rfl⟩ : ∃ k, m = k + 2 := ⟨m - 2, by omega⟩
        simp [getLast?_cons_cons]
    · rw [splitOn_eq_singleton hmem] at hfs
      cases hfs
      by_cases hnil : f = []
      · subst hnil
        rw [if_neg (by simp; omega), if_pos getLast?_singleton, nil_append, copyfieldLoop,
          if_pos rfl]
      · rw [copyfieldLoop_field (Or.inr ⟨rfl, hnil⟩) hs hmem, usub_mod_one hm hm']
        by_cases hone : m = 1
        · subst hone
          simp [hnil]
        · rw [if_neg (by omega), if_neg (by simp; omega)]
          simp [hnil]

end CopyField

/-- In a string that is empty or ends with a blank the last field is missed. Of any other string the
bytes behind are read for a field that is not counted. -/
theorem copyfield_exact_iff (s : List UInt8) (n buflen : ℕ) (hs : 0 ∉ s) (hlen : s.length < 2 ^ 31)
    (hn : n < word) :
    CopiesField s n buflen ↔ (∀ f ∈ nthField s n, f.length < buflen) ∧
      if (s.splitOn 32).getLast? = some [] then n ≠ (s.splitOn 32).length
      else 1 ≤ n ∧ n ≤ (s.splitOn 32).length := by
  have hcount : ∀ r, countfields (s ++ 0 :: r) = some (s.splitOn 32).length := fun r => by
    rw [countfields_append hs, length_splitOn]
  have hpos := length_pos_of_ne_nil (splitOn_ne_nil 32 s)
  unfold CopiesField copyfield nthField
  simp only [hcount, true_and, forall_and, forall_const]
  rw [and_comm]
  refine and_congr_right fun hfits => ?_
  cases n with
  | zero =>
    have hfew : (s.splitOn 32).length < word := by
      have := @count_le_length _ _ 32 s
      rw [length_splitOn, word_eq]
      omega
    have hloop := fun r => @copyfieldLoop_fields r s word hs (by omega) le_rfl
    rw [Nat.mod_self] at hloop
    simp only [hloop, hfew.ne', hfew.not_gt, false_and, or_false, if_false]
    by_cases hend : (s.splitOn 32).getLast? = some []
    · simp [hend, hpos.ne]
    · refine iff_of_false (fun h => ?_) (by simp [hend])
      have := h []
      rw [if_neg hend] at this
      cases this
  | succ n =>
    have hloop := fun r => copyfieldLoop_fields (r := r) hs (Nat.succ_pos n) hn.le
    simp only [Nat.mod_eq_of_lt hn] at hloop
    simp only [hloop]
    have htake : ((s.splitOn 32)[n]?).map (take buflen) = (s.splitOn 32)[n]? := by
      cases hf : (s.splitOn 32)[n]? with
      | none => rfl
      | some f => exact congrArg some (take_of_length_le (hfits f hf).le)
    by_cases hend : (s.splitOn 32).getLast? = some []
    · by_cases hlt : n + 1 < (s.splitOn 32).length
      · simp [hend, hlt, htake, hlt.ne]
      · simp [hend, hlt]
        omega
    · by_cases hle : n + 1 ≤ (s.splitOn 32).length
      · simp [hend, le_iff_lt_or_eq.mp hle, htake, hle]
      · refine iff_of_false (fun h => ?_) (by simp [hend, hle])
        have := h []
        rw [if_neg (by omega), if_neg hend] at this
        cases this

theorem copyfield_exact_second : CopiesField (ascii "T1 fe80::1") 2 10 :=
  (copyfield_exact_iff _ 2 10 (by decide) (by decide) (by rw [word_eq]; decide)).mpr
    (by decide +kernel)

/-- The second field of `"a "` is counted and not found; that of `"a"` is what stands behind it. -/
theorem second_field_missed_or_read_behind :
    countfields (ascii "a " ++ [0]) = some 2 ∧ copyfield (ascii "a " ++ [0]) 2 10 = some none ∧
    countfields (ascii "a" ++ [0, 98, 0]) = some 1 ∧
    copyfield (ascii "a" ++ [0, 98, 0]) 2 10 = some (some [98]) := by
  decide +kernel

/-! ## A tunnel in a line -/

def STunnel.fields (tun : STunnel) : List (List UInt8) :=
  [tun.sId, tun.sIPv6, tun.sIPv4, tun.sPOPId]

/-- The line is that of the tunnel: its fields, with a space between them. -/
structure TunnelLine (text : List UInt8) (tun : STunnel) : Prop where
  text_eq : cString text = tun.sId ++ 32 :: (tun.sIPv6 ++ 32 :: (tun.sIPv4 ++ 32 :: tun.sPOPId))
  space_notMem : ∀ f ∈ tun.fields, 32 ∉ f

/-- A line that a list has to have between its first and its last one. -/
structure IsTunnelLine (text : List UInt8) : Prop where
  not_end : ¬ endOfList <+: text
  spaces : (cString text).count 32 = 3
  last : (cString text).getLast? ≠ some 32

section Tunnel

variable {s r : List UInt8} {tun : STunnel} {n : ℕ}

theorem exists_field (h : s.count 32 = n + 1) : ∃ f r, s = f ++ 32 :: r ∧ 32 ∉ f ∧
    r.count 32 = n := by
  have hpos : 0 < s.count 32 := by omega
  obtain ⟨f, r, rfl, hf⟩ := eq_append_cons_of_mem (count_pos_iff.mp hpos)
  refine ⟨f, r, rfl, hf, ?_⟩
  rw [count_append, count_eq_zero_of_not_mem hf, count_cons_self] at h
  omega

theorem exists_tunnelLine (h : (cString text).count 32 = 3) : ∃ tun, TunnelLine text tun := by
  obtain ⟨f₁, r₁, heq₁, hf₁, hr₁⟩ := exists_field h
  obtain ⟨f₂, r₂, heq₂, hf₂, hr₂⟩ := exists_field hr₁
  obtain ⟨f₃, r₃, heq₃, hf₃, hr₃⟩ := exists_field hr₂
  refine ⟨⟨f₁, f₂, f₃, r₃⟩, ⟨by rw [heq₁, heq₂, heq₃], ?_⟩⟩
  simp only [STunnel.fields, forall_mem_cons]
  exact ⟨hf₁, hf₂, hf₃, count_eq_zero.mp hr₃, by simp⟩

theorem TunnelLine.last_iff (h : TunnelLine text tun) :
    (cString text).getLast? = some 32 ↔ tun.sPOPId = [] := by
  have hnot : 32 ∉ tun.sPOPId := h.space_notMem _ (by simp [STunnel.fields])
  rw [h.text_eq]
  rcases eq_nil_or_concat tun.sPOPId with hnil | ⟨f, c, hf⟩
  · simp [hnil, getLast?_append, getLast?_cons]
  · rw [hf, concat_eq_append] at hnot ⊢
    have hc : c ≠ 32 := fun h => hnot (by simp [h])
    simp [getLast?_append, getLast?_cons, hc]

theorem readTunnel_of_tunnelLine (ht : Ends text) (h : TunnelLine text tun) :
    readTunnel (lineArray text) = some (if tun.sPOPId = [] then none else some tun) := by
  obtain ⟨r, hr⟩ := exists_lineArray ht
  have hzero := zero_notMem_cString text
  have hlen := length_cString_lt ht
  have hnot := h.space_notMem
  simp only [STunnel.fields, forall_mem_cons] at hnot
  obtain ⟨h₁, h₂, h₃, h₄, -⟩ := hnot
  rw [h.text_eq] at hr hzero hlen
  simp only [mem_append, mem_cons, not_or] at hzero
  obtain ⟨z₁, -, z₂, -, z₃, -, z₄⟩ := hzero
  simp only [length_append, length_cons] at hlen
  simp only [append_assoc, cons_append] at hr
  have hword : 4 < word := by rw [word_eq]; decide
  have c₁ : copyfield (lineArray text) 1 bufLen = some (some tun.sId) := by
    refine copyfield_of_loop ?_ (by omega)
    rw [hr, copyfieldLoop_one (Or.inl rfl) z₁ h₁]
  have c₂ : copyfield (lineArray text) 2 bufLen = some (some tun.sIPv6) := by
    refine copyfield_of_loop ?_ (by omega)
    rw [hr, copyfieldLoop_succ (by omega) z₁ h₁, copyfieldLoop_one (Or.inl rfl) z₂ h₂]
  have c₃ : copyfield (lineArray text) 3 bufLen = some (some tun.sIPv4) := by
    refine copyfield_of_loop ?_ (by omega)
    rw [hr, copyfieldLoop_succ (by omega) z₁ h₁, copyfieldLoop_succ (by omega) z₂ h₂,
      copyfieldLoop_one (Or.inl rfl) z₃ h₃]
  have hfour : copyfieldLoop (lineArray text) 4 none = copyfieldLoop (tun.sPOPId ++ 0 :: r) 1
      none := by
    rw [hr, copyfieldLoop_succ (by omega) z₁ h₁, copyfieldLoop_succ (by omega) z₂ h₂,
      copyfieldLoop_succ (by omega) z₃ h₃]
  have c₄ : copyfield (lineArray text) 4 bufLen =
      some (if tun.sPOPId = [] then none else some tun.sPOPId) := by
    split_ifs with hnil
    · rw [copyfield, hfour, hnil]
      rfl
    · refine copyfield_of_loop (hfour.trans ?_) (by omega)
      exact copyfieldLoop_one (Or.inr ⟨rfl, hnil⟩) z₄ h₄
  simp only [readTunnel, readField, c₁, c₂, c₃, c₄]
  rw [if_pos (by omega), if_pos (by omega), if_pos (by omega)]
  split_ifs with hnil
  · rfl
  · show (if tun.sPOPId.length < bufLen then _ else _) = _
    rw [if_pos (by omega)]

end Tunnel

/-! ## One line -/

/-- Each tunnel that was allocated is returned or freed. -/
def Listed.Balanced (r : Listed) : Prop := (r.ret.map Prod.fst ++ r.freed).Perm (range r.allocated)

def ListState.Complete (st : ListState) : Prop := st.list.map Prod.fst = range st.allocated

section Line

variable {st : ListState} {tun : STunnel}

theorem message_of_terminated (h : Terminated text) : ∃ m, message text = some m :=
  ⟨_, if_pos (h.imp_right fun h => h.2)⟩

theorem message_of_not_terminated (hlen : text.length ≤ bufLen) (h : ¬ Terminated text) :
    message text = none := by
  refine if_neg fun hm => h ?_
  exact hm.imp_right fun hmem => ⟨by unfold Terminated at h; omega, hmem⟩

theorem countfields_lineArray (h : Ends text) :
    countfields (lineArray text) = some ((cString text).count 32 + 1) := by
  obtain ⟨r, hr⟩ := exists_lineArray h
  rw [hr, countfields_append (zero_notMem_cString text)]

theorem listLine_of_end (h : endOfList <+: text) (st : ListState) :
    listLine text st = .stop (some ⟨st.list, st.allocated, []⟩) := by
  rw [listLine, if_pos h, finish, if_pos h]

theorem listLine_of_tunnelLine (ht : Ends text) (h : IsTunnelLine text)
    (htun : TunnelLine text tun) (st : ListState) :
    listLine text st = .next ⟨st.list ++ [(st.allocated, tun)], st.allocated + 1⟩ := by
  have hfour := countfields_lineArray ht
  rw [h.spaces] at hfour
  have hread := readTunnel_of_tunnelLine ht htun
  rw [if_neg fun hnil => h.last (htun.last_iff.mpr hnil)] at hread
  rw [listLine, if_neg h.not_end, hfour]
  simp only [ne_eq, Nat.reduceAdd, not_true_eq_false, if_false, hread]

/-- At any other line the function ends with the message behind the code of the line. -/
theorem listLine_of_other (ht : Ends text) (hend : ¬ endOfList <+: text)
    (h : ¬ IsTunnelLine text) (hst : st.Complete) :
    ∃ r : Listed, listLine text st = .stop ((message text).map fun _ => r) ∧ r.ret = [] ∧
      r.Balanced := by
  rw [listLine, if_neg hend, countfields_lineArray ht]
  by_cases hspaces : (cString text).count 32 = 3
  · -- an entry was allocated, but its last field is missing
    obtain ⟨tun, htun⟩ := exists_tunnelLine hspaces
    have hnil : tun.sPOPId = [] := by
      by_contra hne
      exact h ⟨hend, hspaces, fun hlast => hne (htun.last_iff.mp hlast)⟩
    have hread := readTunnel_of_tunnelLine ht htun
    rw [if_pos hnil] at hread
    simp only [hspaces, ne_eq, Nat.reduceAdd, not_true_eq_false, if_false, hread]
    rw [finish, if_neg hend]
    refine ⟨_, rfl, rfl, ?_⟩
    show ([] ++ ([st.allocated] ++ st.list.map Prod.fst)).Perm (range (st.allocated + 1))
    rw [hst, range_succ, nil_append]
    exact perm_append_comm
  · have hne : (cString text).count 32 + 1 ≠ 4 := by omega
    simp only [if_pos hne]
    rw [finish, if_neg hend]
    refine ⟨_, rfl, rfl, ?_⟩
    show ([] ++ ([] ++ st.list.map Prod.fst)).Perm (range st.allocated)
    rw [hst]
    exact List.Perm.refl _

theorem countfields_of_notMem {s : List UInt8} (h : 0 ∉ s) : countfields s = none := by
  induction s with
  | nil => rfl
  | cons c s ih =>
    rw [mem_cons, not_or] at h
    rw [countfields, if_neg (Ne.symm h.1), ih h.2, map_none]

/-- With the zero among its first four bytes a line is too short for three spaces and a field. -/
theorem IsTunnelLine.terminated (h : IsTunnelLine text) (ht : Ends text) : Terminated text := by
  refine ht.imp_right fun ⟨hlen, hmem⟩ => ⟨hlen, ?_⟩
  by_contra hnot
  obtain ⟨s, r, rfl, hs⟩ := eq_append_cons_of_mem hmem
  have hstr : cString (s ++ 0 :: r) = s := by
    rw [cString_append_of_notMem hs]
    simp [cString]
  have hshort : s.length ≤ 3 := by
    by_contra hlong
    exact hnot (by simp [drop_append_of_le_length (show 4 ≤ s.length by omega)])
  have hspaces : s.count 32 = 3 := hstr ▸ h.spaces
  have hle := @count_le_length _ _ 32 s
  have hall := count_eq_length.mp (show s.count 32 = s.length by omega)
  have hs' : s = replicate 3 32 := eq_replicate_iff.mpr ⟨by omega, fun b hb => (hall b hb).symm⟩
  exact h.last (by rw [hstr, hs']; rfl)

theorem listLine_of_not_terminated (hlen : text.length ≤ bufLen) (hend : ¬ endOfList <+: text)
    (h : ¬ Terminated text) (hst : st.Complete) : listLine text st = .stop none := by
  by_cases ht : Ends text
  · obtain ⟨r, hr, -⟩ := listLine_of_other ht hend (fun hl => h (hl.terminated ht)) hst
    rw [hr, message_of_not_terminated hlen h, map_none]
  · have hfull : bufLen - text.length = 0 := by
      unfold Ends at ht
      omega
    rw [listLine, if_neg hend, lineArray, hfull, replicate_zero, append_nil,
      countfields_of_notMem fun hmem => ht (.inr ⟨by omega, hmem⟩)]

end Line

/-! ## The whole reply -/

def Outcome.Readable : Outcome → Prop
  | .line _ text => endOfList <+: text ∨ Terminated text
  | .fail => True
  | .fault => False

/-- A line is read up to a zero behind its code if it does not start with `202`, and the next one is
read if it has a tunnel. -/
def ReadableLines : List Outcome → Prop
  | [] => True
  | o :: os => o.Readable ∧ ((∃ text ∈ o.line?, IsTunnelLine text) → ReadableLines os)

/-- Of a first line that does not start with `201` the message is read. -/
def ReadableReply : List Outcome → Prop
  | .line _ text :: os => if startOfList <+: text then ReadableLines os else Terminated text
  | .fault :: _ => False
  | _ => True

def TunnelReply (os : List Outcome) (texts : List (List UInt8)) : Prop :=
  ∃ first last, os.map Outcome.line? = some first :: (texts.map some ++ [some last]) ∧
    startOfList <+: first ∧ (∀ text ∈ texts, IsTunnelLine text) ∧ endOfList <+: last

section Reply

variable {os : List Outcome} {st : ListState} {r : Listed} {unread : List Outcome}

def ListState.add (st : ListState) (tun : STunnel) : ListState :=
  ⟨st.list ++ [(st.allocated, tun)], st.allocated + 1⟩

theorem ListState.Complete.add (h : st.Complete) (tun : STunnel) : (st.add tun).Complete := by
  show (st.list ++ [(st.allocated, tun)]).map Prod.fst = range (st.allocated + 1)
  rw [map_append, h, range_succ]
  rfl

theorem ListState.Complete.balanced (h : st.Complete) :
    Listed.Balanced ⟨[], st.allocated, st.list.map Prod.fst⟩ := by
  show ([] ++ st.list.map Prod.fst).Perm (range st.allocated)
  rw [h]
  exact List.Perm.refl _

variable {o : Outcome} {texts : List (List UInt8)} {tuns : List STunnel}

theorem line_of_line? (h : o.line? = some text) : ∃ n, o = .line n text := by
  cases o with
  | line n text' =>
    cases h
    exact ⟨n, rfl⟩
  | _ => cases h

theorem listLoop_end (h : endOfList <+: text) :
    listLoop (.line n text :: os) st = .returned ⟨st.list, st.allocated, []⟩ os := by
  rw [listLoop, listLine_of_end h]
  rfl

theorem listLoop_tunnel (ho : (Outcome.line n text).Readable) (hline : IsTunnelLine text)
    (htun : TunnelLine text tun) :
    listLoop (.line n text :: os) st = listLoop os (st.add tun) := by
  rw [listLoop, listLine_of_tunnelLine (ho.resolve_left hline.not_end).ends hline htun]
  rfl

theorem listLoop_cons (ho : o.Readable) (hst : st.Complete) :
    (∃ text, o.line? = some text ∧ endOfList <+: text ∧
      listLoop (o :: os) st = .returned ⟨st.list, st.allocated, []⟩ os) ∨
    (∃ text tun, o.line? = some text ∧ IsTunnelLine text ∧ TunnelLine text tun ∧
      listLoop (o :: os) st = listLoop os (st.add tun)) ∨
    ∃ r, listLoop (o :: os) st = .returned r os ∧ r.ret = [] ∧ r.Balanced := by
  cases o with
  | fault => exact ho.elim
  | fail => exact Or.inr (Or.inr ⟨_, rfl, rfl, hst.balanced⟩)
  | line n text =>
    by_cases hend : endOfList <+: text
    · exact Or.inl ⟨text, rfl, hend, listLoop_end hend⟩
    by_cases hline : IsTunnelLine text
    · obtain ⟨tun, htun⟩ := exists_tunnelLine hline.spaces
      exact Or.inr (Or.inl ⟨text, tun, rfl, hline, htun, listLoop_tunnel ho hline htun⟩)
    · replace ho := ho.resolve_left hend
      obtain ⟨r, hr, hret, hbal⟩ := listLine_of_other ho.ends hend hline hst
      obtain ⟨m, hm⟩ := message_of_terminated ho
      rw [listLoop, hr, hm]
      exact Or.inr (Or.inr ⟨r, rfl, hret, hbal⟩)

theorem listLoop_ok (hos : ReadableLines os) (hst : st.Complete) :
    listLoop os st ≠ .fault ∧ ∀ r unread, listLoop os st = .returned r unread → r.Balanced := by
  induction os generalizing st with
  | nil => exact ⟨nofun, nofun⟩
  | cons o os ih =>
    rcases listLoop_cons hos.1 hst with
      ⟨text, -, -, hloop⟩ | ⟨text, tun, ho, hline, -, hloop⟩ | ⟨r, hloop, -, hbal⟩
    · rw [hloop]
      refine ⟨nofun, ?_⟩
      rintro r unread heq
      cases heq
      show (st.list.map Prod.fst ++ []).Perm (range st.allocated)
      rw [hst, append_nil]
    · rw [hloop]
      exact ih (hos.2 ⟨text, ho, hline⟩) (hst.add tun)
    · rw [hloop]
      refine ⟨nofun, ?_⟩
      rintro r' unread heq
      cases heq
      exact hbal

theorem readableLines_of_listLoop (hlen : ∀ o ∈ os, ∀ text ∈ o.line?, text.length ≤ bufLen)
    (hst : st.Complete) (h : listLoop os st ≠ .fault) : ReadableLines os := by
  induction os generalizing st with
  | nil => trivial
  | cons o os ih =>
    rw [forall_mem_cons] at hlen
    have ho : o.Readable := by
      cases o with
      | fault => exact h rfl
      | fail => trivial
      | line n text =>
        by_contra hnot
        obtain ⟨hend, hterm⟩ := not_or.mp hnot
        rw [listLoop, listLine_of_not_terminated (hlen.1 text rfl) hend hterm hst] at h
        exact h rfl
    refine ⟨ho, fun ⟨text, htext, hline⟩ => ?_⟩
    obtain ⟨n, rfl⟩ := line_of_line? htext
    obtain ⟨tun, htun⟩ := exists_tunnelLine hline.spaces
    rw [listLoop_tunnel ho hline htun] at h
    exact ih hlen.2 (hst.add tun) h

theorem exists_of_listLoop (hos : ReadableLines os) (hst : st.Complete)
    (h : listLoop os st = .returned r unread) (hne : r.ret ≠ []) :
    ∃ read texts last tuns, os = read ++ unread ∧
      read.map Outcome.line? = texts.map some ++ [some last] ∧ (∀ text ∈ texts, IsTunnelLine text) ∧
      endOfList <+: last ∧ Forall₂ TunnelLine texts tuns ∧
      r.ret.map Prod.snd = st.list.map Prod.snd ++ tuns := by
  induction os generalizing st with
  | nil => cases h
  | cons o os ih =>
    rcases listLoop_cons hos.1 hst with
      ⟨text, ho, hend, hloop⟩ | ⟨text, tun, ho, hline, htun, hloop⟩ | ⟨r', hloop, hret, -⟩
    · rw [hloop] at h
      cases h
      exact ⟨[o], [], text, [], rfl, by simp [ho], by simp, hend, .nil, by simp⟩
    · rw [hloop] at h
      obtain ⟨read, texts, last, tuns, rfl, hread, hlines, hlast, htuns, hlist⟩ :=
        ih (hos.2 ⟨text, ho, hline⟩) (hst.add tun) h
      refine ⟨o :: read, text :: texts, last, tun :: tuns, rfl, ?_, ?_, hlast, .cons htun htuns, ?_⟩
      · rw [map_cons, hread, ho]
        rfl
      · rw [forall_mem_cons]
        exact ⟨hline, hlines⟩
      · rw [hlist]
        simp [ListState.add]
    · rw [hloop] at h
      cases h
      exact absurd hret hne

theorem listLoop_of_lines {last : List UInt8} (hos : ReadableLines (os ++ unread))
    (hread : os.map Outcome.line? = texts.map some ++ [some last])
    (hlines : ∀ text ∈ texts, IsTunnelLine text) (hlast : endOfList <+: last)
    (htuns : Forall₂ TunnelLine texts tuns) :
    ∃ r, listLoop (os ++ unread) st = .returned r unread ∧
      r.ret.map Prod.snd = st.list.map Prod.snd ++ tuns := by
  induction htuns generalizing os st with
  | nil =>
    obtain ⟨o, rfl, ho⟩ := map_eq_singleton_iff.mp hread
    obtain ⟨n, rfl⟩ := line_of_line? ho
    exact ⟨_, listLoop_end hlast, by simp⟩
  | @cons text tun texts tuns htun _ ih =>
    obtain ⟨o, os', rfl, ho, hread'⟩ := map_eq_cons_iff.mp hread
    obtain ⟨n, rfl⟩ := line_of_line? ho
    rw [forall_mem_cons] at hlines
    obtain ⟨r, hr, hlist⟩ := ih (hos.2 ⟨text, ho, hlines.1⟩) hread' hlines.2
    refine ⟨r, (listLoop_tunnel hos.1 hlines.1 htun).trans hr, ?_⟩
    rw [hlist]
    simp [ListState.add]

theorem complete_nil : ListState.Complete ⟨[], 0⟩ := rfl

theorem ticListTunnels_cons (hos : ReadableReply (o :: os)) :
    (∃ text, o.line? = some text ∧ startOfList <+: text ∧ ReadableLines os ∧
      ticListTunnels (o :: os) = listLoop os ⟨[], 0⟩) ∨
    ticListTunnels (o :: os) = .returned ⟨[], 0, []⟩ os := by
  cases o with
  | fault => exact hos.elim
  | fail => exact Or.inr rfl
  | line n text =>
    rw [ticListTunnels]
    by_cases hstart : startOfList <+: text
    · rw [ReadableReply, if_pos hstart] at hos
      exact Or.inl ⟨text, rfl, hstart, hos, if_pos hstart⟩
    · rw [ReadableReply, if_neg hstart] at hos
      obtain ⟨m, hm⟩ := message_of_terminated hos
      rw [if_neg hstart, hm]
      exact Or.inr rfl

theorem readableReply_of_ne_fault (hlen : ∀ o ∈ os, ∀ text ∈ o.line?, text.length ≤ bufLen)
    (h : ticListTunnels os ≠ .fault) : ReadableReply os := by
  match os with
  | [] | .fail :: _ => trivial
  | .fault :: _ => exact h rfl
  | .line n text :: os =>
    rw [forall_mem_cons] at hlen
    rw [ticListTunnels] at h
    rw [ReadableReply]
    split_ifs at h ⊢ with hstart
    · exact readableLines_of_listLoop hlen.2 complete_nil h
    · by_contra hterm
      rw [message_of_not_terminated (hlen.1 text rfl) hterm] at h
      exact h rfl

theorem tunnelReply_of_returned (hos : ReadableReply os)
    (h : ticListTunnels os = .returned r unread) (hne : r.ret ≠ []) :
    ∃ read texts, os = read ++ unread ∧ TunnelReply read texts ∧
      Forall₂ TunnelLine texts (r.ret.map Prod.snd) := by
  cases os with
  | nil => cases h
  | cons o os =>
    rcases ticListTunnels_cons hos with ⟨first, ho, hstart, hos, hrun⟩ | hrun
    · rw [hrun] at h
      obtain ⟨read, texts, last, tuns, rfl, hread, hlines, hlast, htuns, hlist⟩ :=
        exists_of_listLoop hos complete_nil h hne
      have hret : r.ret.map Prod.snd = tuns := hlist
      refine ⟨o :: read, texts, rfl, ⟨first, last, ?_, hstart, hlines, hlast⟩, hret.symm ▸ htuns⟩
      rw [map_cons, ho, hread]
    · rw [hrun] at h
      cases h
      exact absurd rfl hne

theorem ticListTunnels_of_tunnelReply (hos : ReadableReply (os ++ unread))
    (h : TunnelReply os texts) (htuns : Forall₂ TunnelLine texts tuns) :
    ∃ r, ticListTunnels (os ++ unread) = .returned r unread ∧ r.ret.map Prod.snd = tuns := by
  obtain ⟨first, last, hos', hstart, hlines, hlast⟩ := h
  obtain ⟨o, os, rfl, ho, hread⟩ := map_eq_cons_iff.mp hos'
  obtain ⟨n, rfl⟩ := line_of_line? ho
  rw [cons_append, ReadableReply, if_pos hstart] at hos
  obtain ⟨r, hr, hlist⟩ := listLoop_of_lines hos hread hlines hlast htuns
  exact ⟨r, (if_pos hstart).trans hr, hlist⟩

theorem ticListTunnels_ok (hos : ReadableReply os) :
    ticListTunnels os ≠ .fault ∧
      ∀ r unread, ticListTunnels os = .returned r unread → r.Balanced := by
  cases os with
  | nil => exact ⟨nofun, nofun⟩
  | cons o os =>
    rcases ticListTunnels_cons hos with ⟨-, -, -, hos, hrun⟩ | hrun
    · rw [hrun]
      exact listLoop_ok hos complete_nil
    · rw [hrun]
      refine ⟨nofun, ?_⟩
      rintro r unread heq
      cases heq
      exact List.Perm.refl _

end Reply

/-- **The list of tunnels.** Nothing is read past the end of the buffer, the list is non-empty if
and only if what was read is a line `201`, lines with three spaces that do not end in a space, and a
line `202`, it then has the tunnels of these lines, and each entry allocated is returned or freed,
once, if and only if there is a zero in the buffer where the line is read as a string. -/
theorem ticListTunnels_list_iff (os : List Outcome)
    (hlen : ∀ o ∈ os, ∀ text ∈ o.line?, text.length ≤ bufLen) :
    (ticListTunnels os ≠ .fault ∧
      (∀ unread tuns, tuns ≠ [] →
        ((∃ r, ticListTunnels os = .returned r unread ∧ r.ret.map Prod.snd = tuns) ↔
          ∃ read texts, os = read ++ unread ∧ TunnelReply read texts ∧
            Forall₂ TunnelLine texts tuns)) ∧
      ∀ r unread, ticListTunnels os = .returned r unread → r.Balanced) ↔ ReadableReply os := by
  refine ⟨fun h => readableReply_of_ne_fault hlen h.1, fun hos => ?_⟩
  obtain ⟨hfault, hbalanced⟩ := ticListTunnels_ok hos
  refine ⟨hfault, fun unread tuns hne => ⟨?_, ?_⟩, hbalanced⟩
  · rintro ⟨r, hr, rfl⟩
    exact tunnelReply_of_returned hos hr fun hnil => hne (by rw [hnil]; rfl)
  · rintro ⟨read, texts, rfl, hreply, htuns⟩
    exact ticListTunnels_of_tunnelReply hos hreply htuns

def oneTunnel : List Outcome :=
  [.line 5 (ascii "201 T"), .line 20 (ascii "T1 2001:db8::2 192.0.2.1 pop"),
    .line 9 (ascii "202 Done")]

theorem oneTunnel_listed : ReadableReply oneTunnel ∧
    ∃ r, ticListTunnels oneTunnel = .returned r [] ∧ r.Balanced ∧ r.ret.map Prod.snd =
      [⟨ascii "T1", ascii "2001:db8::2", ascii "192.0.2.1", ascii "pop"⟩] := by
  have hos : ReadableReply oneTunnel := ⟨Or.inr (Or.inl (by decide)), fun _ =>
    ⟨Or.inl (by decide), fun _ => trivial⟩⟩
  have hline : IsTunnelLine (ascii "T1 2001:db8::2 192.0.2.1 pop") :=
    ⟨by decide, by decide, by decide⟩
  have htun : TunnelLine (ascii "T1 2001:db8::2 192.0.2.1 pop")
      ⟨ascii "T1", ascii "2001:db8::2", ascii "192.0.2.1", ascii "pop"⟩ := ⟨by decide, by decide⟩
  obtain ⟨-, hiff, hbalanced⟩ := (ticListTunnels_list_iff oneTunnel (by decide)).mpr hos
  obtain ⟨r, hr, hret⟩ := (hiff [] _ (cons_ne_nil _ [])).mpr
    ⟨oneTunnel, [ascii "T1 2001:db8::2 192.0.2.1 pop"], (append_nil _).symm,
      ⟨ascii "201 T", ascii "202 Done", rfl, by decide, by simpa using hline, by decide⟩,
      .cons htun .nil⟩
  exact ⟨hos, r, hr, hbalanced r [] hr, hret⟩

/-! ## A line that fills the buffer -/

def fullLine : List UInt8 := ascii "T1 a b " ++ replicate 1017 120

def fullReply : List UInt8 := ascii "201" ++ lf :: (fullLine ++ lf :: (ascii "202" ++ [lf]))

def someLogin : LoginEnv := ⟨0, [], [], [], [], fun _ => []⟩

/-- The welcome that never ends makes the login give up, and the adapter goes on. The reads for the
list then bring a line that fills the buffer, and the fields are counted past its end. -/
theorem full_line_counted_past_end :
    ∃ t, loginToTicServer someLogin (some [.data fullReply]) ⟨none, ticBuf, [], []⟩ = some (0, t) ∧
      t.sock = some (.conn []) ∧ outcomes bufLen 2 [] t.buf =
        [.line 4 (ascii "201"), .line 1025 fullLine] ∧
      ticListTunnels (outcomes bufLen 2 [] t.buf) = .fault := by
  have hruns : ∃ x ∈ loginToTicServer someLogin (some [.data fullReply]) ⟨none, ticBuf, [], []⟩,
      x.1 = 0 ∧ x.2.sock = some (.conn []) ∧
        outcomes bufLen 2 [] x.2.buf = [.line 4 (ascii "201"), .line 1025 fullLine] := by
    decide +kernel
  obtain ⟨⟨-, t⟩, hlogin, rfl, hsock, houtcomes⟩ := hruns
  refine ⟨t, hlogin, hsock, houtcomes, ?_⟩
  -- The line has 1024 bytes, and there is no zero behind it at which the count would end.
  have hcount : countfields (lineArray fullLine) = none := by decide +kernel
  have hend : ¬ endOfList <+: fullLine := by decide +kernel
  rw [houtcomes, ticListTunnels, if_pos (by decide), listLoop, listLine, if_neg hend, hcount]
  rfl

end Maiccu.Tic
