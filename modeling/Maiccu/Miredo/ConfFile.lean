import Maiccu.Lib.Lines
import Maiccu.Miredo.Conf

/-!
# Reading the settings from a file

`miredo_conf_read_FILE` reads a line with `fgets` and looks for the line feed at the place that
`strlen` gives. If there is none it goes on to the next line feed of the file, but a line that holds
a zero byte was read to its end: then the next line gets lost. A zero at the start of a line makes
it look before the buffer, and a last line without a line feed is skipped.
-/

namespace Maiccu.Miredo

open Maiccu.Lib List Option

/-! ## The code -/

/-- Up to `n` bytes, and none behind a line feed. -/
def takeLine : ℕ → List UInt8 → List UInt8
  | 0, _ => []
  | _ + 1, [] => []
  | n + 1, c :: s => if c = 10 then [10] else c :: takeLine n s

/-- `fgets`, with what is left of the file. Behind the bytes `s` the file ends, or cannot be read if
`failed` is set. -/
def fgets (size : ℕ) (failed : Bool) (s : List UInt8) : Option (List UInt8 × List UInt8) :=
  let line := takeLine (size - 1) s
  if line = [] then none
  else if failed = true ∧ line.length < size - 1 ∧ line.getLast? ≠ some 10 then none
  else some (line, s.drop line.length)

/-- `isspace` of the C locale. -/
def isSpace (c : UInt8) : Bool := c = 32 || (9 ≤ c && c ≤ 13)

/-- A conversion `%s` of at most `w` bytes, with what is left of the text. -/
def scanWord (w : ℕ) (s : List UInt8) : Option (List UInt8 × List UInt8) :=
  let t := s.dropWhile isSpace
  let word := (t.takeWhile fun c => !isSpace c).take w
  if t = [] then none else some (word, t.drop word.length)

/-- `sscanf (lbuf, " %31s %1023s", nbuf, vbuf)` -/
def scanLine (s : List UInt8) : Option (List UInt8 × Option (List UInt8)) :=
  (scanWord 31 s).map fun x => (x.1, (scanWord 1023 x.2).map Prod.fst)

/-- What a line comes to. -/
inductive LineResult where
  /-- `Skipped overly long line %u` -/
  | overlong
  /-- An empty line, or a comment. -/
  | nothing
  /-- `Ignoring line %u: %s` -/
  | ignored (name : List UInt8)
  | stored (setting : Setting)
  | refused (setting : Setting)
  deriving DecidableEq

/-- The number that a round gives to the line, what `fgets` has read, and what the loop with `fgetc`
has read after it. -/
structure Round where
  number : ℕ
  line : List UInt8
  eaten : List UInt8
  result : LineResult
  deriving DecidableEq

def scanResult (conf : Conf) (number : ℕ) (memory : Bool) (text : List UInt8) :
    Option (Conf × LineResult) :=
  match scanLine text with
  | none => some (conf, .nothing)
  | some (nbuf, vbuf) =>
    if nbuf.head? = some 35 then some (conf, .nothing)
    else
      match vbuf with
      | none => some (conf, .ignored nbuf)
      | some vbuf =>
        (miredoConfSet conf nbuf vbuf number memory).map fun x =>
          (x.1, if x.2 then .stored ⟨nbuf, vbuf, number⟩ else .refused ⟨nbuf, vbuf, number⟩)

/-- A round, with what is left of the file. It is none if the buffer holds an empty text: `len` is
then the largest number there is, and `lbuf[len]` is outside. -/
def readRound (conf : Conf) (number : ℕ) (memory : Bool) (lbuf rest : List UInt8) :
    Option (Conf × Round × List UInt8) :=
  let text := cString lbuf
  if text = [] then none
  else if text.getLast? ≠ some 10 then
    let eaten := takeLine rest.length rest
    some (conf, ⟨number, lbuf, eaten, .overlong⟩, rest.drop eaten.length)
  else
    (scanResult conf number memory text.dropLast).map fun x =>
      (x.1, ⟨number, lbuf, [], x.2⟩, rest)

/-- What reading a file comes to: the store, the value returned, the rounds and what is left. -/
structure FileRead where
  conf : Conf
  ret : Bool
  rounds : List Round
  left : List UInt8

def FileRead.cons (r : Round) (f : FileRead) : FileRead := { f with rounds := r :: f.rounds }

/-- The loop of `miredo_conf_read_FILE`; it has counted `line` lines. -/
def readLoop (memory : ℕ → Bool) (failed : Bool) :
    ℕ → Conf → ℕ → List UInt8 → Option FileRead
  | fuel, conf, line, s =>
    match fgets 1056 failed s with
    | none => some ⟨conf, !failed, [], s⟩
    | some (lbuf, rest) =>
      match fuel with
      | 0 => none
      | fuel + 1 =>
        match readRound conf (line + 1) (memory (line + 1)) lbuf rest with
        | none => none
        | some (conf, r, rest) =>
          match r.result with
          | .refused _ => some ⟨conf, false, [r], rest⟩
          | _ => (readLoop memory failed fuel conf (line + 1) rest).map (FileRead.cons r)

/-- There is memory for the setting of line `n` if `memory n`. -/
def miredoConfReadFILE (memory : ℕ → Bool) (failed : Bool) (conf : Conf) (s : List UInt8) :
    Option FileRead :=
  readLoop memory failed s.length conf 0 s

/-! ## The purpose -/

variable (s : List UInt8)

/-- The lines of a file; behind the last line feed there may be one more. -/
def fileLines : List (List UInt8) :=
  records 10 s ++ if unfinished 10 s = [] then [] else [unfinished 10 s]

def word : List UInt8 := (s.dropWhile isSpace).takeWhile fun c => !isSpace c

def afterWord : List UInt8 := (s.dropWhile isSpace).dropWhile fun c => !isSpace c

variable (l : List UInt8)

/-- The name and the value of a line that has both and is not a comment. -/
def lineSetting : Option (List UInt8 × List UInt8) :=
  if word l = [] ∨ (word l).head? = some 35 ∨ word (afterWord l) = [] then none
  else some (word l, word (afterWord l))

def LineResult.setting? : LineResult → Option Setting
  | .stored s => some s
  | _ => none

def LineResult.pair? (r : LineResult) : Option (List UInt8 × List UInt8) :=
  r.setting?.map fun s => (s.name, s.value)

/-- How what was stored for a line has to compare with what the line has. -/
abbrev Fits := Option (List UInt8 × List UInt8) → Option (List UInt8 × List UInt8) → Prop

def OneSetting : Fits := fun has got => has.isSome = got.isSome

def SameSetting : Fits := fun has got => has = got

/-- A round stores what its line has. Other lines it has read have no setting. -/
def Round.Right (fits : Fits) (r : Round) : Prop :=
  match fileLines (r.line ++ r.eaten) with
  | [] => True
  | l :: ls => fits (lineSetting l) r.result.pair? ∧ ∀ l' ∈ ls, lineSetting l' = none

/-- All rounds do, the store has these settings behind those it had, and lines that were not read
have no setting. -/
structure FileRead.Right (fits : Fits) (ss : List Setting) (f : FileRead) : Prop where
  holds : f.conf.Holds (ss ++ f.rounds.filterMap fun r => r.result.setting?) false
  rounds : ∀ r ∈ f.rounds, r.Right fits
  left : ∀ l ∈ fileLines f.left, lineSetting l = none

/-- The file `s` is read into a new store without looking outside the buffer, and what each line has
is stored. -/
def ReadsRight (fits : Fits) (memory : ℕ → Bool) (failed : Bool) (s : List UInt8) : Prop :=
  ∃ f, miredoConfReadFILE memory failed miredoConfCreate s = some f ∧ f.Right fits []

/-! ## When it is so -/

def CallsSet : Prop :=
  word l ≠ [] ∧ (word l).head? ≠ some 35 ∧ (31 < (word l).length ∨ word (afterWord l) ≠ [])

def WordsFit : Prop :=
  (word l).head? = some 35 ∨ (word l).length ≤ 31 ∧ (word (afterWord l)).length ≤ 1023

/-- A single word is not long enough to be taken for two. -/
def OneWordFits : Prop :=
  (word l).head? = some 35 ∨ (word l).length ≤ 31 ∨ word (afterWord l) ≠ []

instance (l : List UInt8) : Decidable (CallsSet l) := inferInstanceAs (Decidable (_ ∧ _))

/-- The condition on the lines, of which the last one, `u`, has no line feed. The line read next
gets the number `n + 1`. -/
def LinesRight (wordsFit : List UInt8 → Prop) (memory : ℕ → Bool) (failed : Bool) (u : List UInt8) :
    ℕ → List (List UInt8) → Prop
  | _, [] => (failed = true ∧ u.length < 1055 ∨ u.head? ≠ some 0) ∧ lineSetting u = none
  | n, l :: ls =>
    if l.head? = some 0 then False
    else if l.length = 1055 then
      lineSetting l = none ∧ LinesRight wordsFit memory failed u (n + 1) ls
    else if 0 ∈ l then
      lineSetting l = none ∧
        match ls with
        | [] => lineSetting u = none
        | l' :: ls =>
          lineSetting l' = none ∧ LinesRight wordsFit memory failed u (n + 1) ls
    else if CallsSet l ∧ memory (n + 1) = false then
      lineSetting l = none ∧ (∀ l' ∈ ls, lineSetting l' = none) ∧ lineSetting u = none
    else wordsFit l ∧ LinesRight wordsFit memory failed u (n + 1) ls

/-! ## Lines -/

section Lines

variable {r u : List UInt8} {l s} {n : ℕ}

section

variable (h : 10 ∉ l)
include h

theorem takeLine_add (n : ℕ) (r : List UInt8) :
    takeLine (l.length + n) (l ++ r) = l ++ takeLine n r := by
  induction l with
  | nil => rw [length_nil, Nat.zero_add, nil_append, nil_append]
  | cons c l ih =>
    rw [mem_cons, not_or] at h
    rw [length_cons, Nat.succ_add, cons_append, takeLine, if_neg (Ne.symm h.1), ih h.2, cons_append]

theorem takeLine_append (hn : l.length < n) (r : List UInt8) :
    takeLine n (l ++ 10 :: r) = l ++ [10] := by
  obtain ⟨k, rfl⟩ := Nat.exists_eq_add_of_lt hn
  exact takeLine_add h (k + 1) (10 :: r)

theorem takeLine_of_notMem (hn : l.length ≤ n) : takeLine n l = l := by
  obtain ⟨k, rfl⟩ := Nat.exists_eq_add_of_le hn
  have hadd := takeLine_add h k []
  have hnil : takeLine k [] = [] := by cases k <;> rfl
  rwa [hnil, append_nil] at hadd

theorem fileLines_append (r : List UInt8) : fileLines (l ++ 10 :: r) = l :: fileLines r := by
  unfold fileLines
  rw [records_append_cons 10 h, unfinished_append_cons]
  rfl

theorem fileLines_line : fileLines (l ++ [10] ++ []) = [l] := by
  rw [append_nil]
  exact fileLines_append h []

end

theorem fileLines_of_notMem (h : 10 ∉ u) : fileLines u = if u = [] then [] else [u] := by
  unfold fileLines
  rw [records_of_notMem 10 h, unfinished_of_notMem 10 h]
  rfl

theorem exists_line (s : List UInt8) : 10 ∉ s ∨ ∃ l r, 10 ∉ l ∧ s = l ++ 10 :: r := by
  by_cases h : 10 ∈ s
  · obtain ⟨l, r, hs, hl⟩ := eq_append_cons_of_mem h
    exact .inr ⟨l, r, hl, hs⟩
  · exact .inl h

theorem forall_fileLines : (∀ l ∈ fileLines s, lineSetting l = none) ↔
    (∀ l ∈ records 10 s, lineSetting l = none) ∧ lineSetting (unfinished 10 s) = none := by
  unfold fileLines
  rw [forall_mem_append]
  by_cases hu : unfinished 10 s = []
  · rw [if_pos hu, hu, show lineSetting [] = none from rfl]
    simp
  · rw [if_neg hu, forall_mem_singleton]

end Lines

/-! ## Words -/

section Words

variable {x y : List UInt8} {s}

theorem word_append_afterWord (s : List UInt8) : word s ++ afterWord s = s.dropWhile isSpace :=
  takeWhile_append_dropWhile

theorem not_of_dropWhile {p : UInt8 → Bool} {c : UInt8} (h : s.dropWhile p = c :: x) :
    p c = false := by
  have hhead := head_dropWhile_not p (l := s) (by rw [h]; exact cons_ne_nil c x)
  simpa [h] using hhead

theorem word_eq_nil_iff : word s = [] ↔ s.dropWhile isSpace = [] := by
  constructor
  · intro h
    unfold word at h
    cases ht : s.dropWhile isSpace with
    | nil => rfl
    | cons c t =>
      rw [ht, takeWhile_cons_of_pos (by simp [not_of_dropWhile ht])] at h
      cases h
  · intro h
    unfold word
    rw [h]
    rfl

theorem scanWord_eq (w : ℕ) (s : List UInt8) :
    scanWord w s = if word s = [] then none
      else some ((word s).take w, (word s).drop w ++ afterWord s) := by
  show (if s.dropWhile isSpace = [] then none
    else some ((word s).take w, (s.dropWhile isSpace).drop ((word s).take w).length)) = _
  have hrest : (s.dropWhile isSpace).drop ((word s).take w).length =
      (word s).drop w ++ afterWord s := by
    rw [← word_append_afterWord, length_take, drop_append]
    by_cases hw : w ≤ (word s).length
    · rw [Nat.min_eq_left hw, Nat.sub_eq_zero_of_le hw, drop_zero]
    · rw [Nat.min_eq_right (by omega), drop_length, Nat.sub_self, drop_zero,
        drop_of_length_le (by omega)]
  simp only [word_eq_nil_iff, hrest]

theorem isSpace_of_mem_word {c : UInt8} (h : c ∈ word s) : isSpace c = false := by
  simpa using mem_takeWhile_imp h

theorem word_drop {w : ℕ} (h : w < (word s).length) :
    word ((word s).drop w ++ afterWord s) = (word s).drop w := by
  have hmem : ∀ c ∈ (word s).drop w, isSpace c = false :=
    fun c hc => isSpace_of_mem_word (mem_of_mem_drop hc)
  have hafter : (afterWord s).takeWhile (fun c => !isSpace c) = [] := by
    unfold afterWord
    cases ht : (s.dropWhile isSpace).dropWhile fun c => !isSpace c with
    | nil => rfl
    | cons c t => rw [takeWhile_cons_of_neg (by simpa using not_of_dropWhile ht)]
  cases hx : (word s).drop w with
  | nil =>
    have hlen := congrArg length hx
    rw [length_drop, length_nil] at hlen
    omega
  | cons c x =>
    rw [hx] at hmem
    have hc : ¬ isSpace c = true := by simp [hmem c mem_cons_self]
    unfold word
    rw [cons_append, dropWhile_cons_of_neg hc, ← cons_append,
      takeWhile_append_of_pos (by simpa using hmem), hafter, append_nil]

/-- What the second conversion reads: the second word, or the rest of a long first one. -/
def secondWord (s : List UInt8) : List UInt8 :=
  if 31 < (word s).length then (word s).drop 31 else word (afterWord s)

theorem scanLine_eq (s : List UInt8) :
    scanLine s = if word s = [] then none
      else some ((word s).take 31,
        if secondWord s = [] then none else some ((secondWord s).take 1023)) := by
  have hsecond : word ((word s).drop 31 ++ afterWord s) = secondWord s := by
    unfold secondWord
    split_ifs with hlong
    · exact word_drop hlong
    · rw [drop_of_length_le (by omega), nil_append]
  unfold scanLine
  rw [scanWord_eq]
  split_ifs with hw hv
  · rfl
  · rw [map_some, scanWord_eq, hsecond, if_pos hv]
    rfl
  · rw [map_some, scanWord_eq, hsecond, if_neg hv]
    rfl

theorem secondWord_ne_nil_iff :
    secondWord s ≠ [] ↔ 31 < (word s).length ∨ word (afterWord s) ≠ [] := by
  unfold secondWord
  split_ifs with hlong
  · simp [hlong]
  · simp [hlong]

/-- The setting that is stored for a line, if there is memory for it. -/
def codePair (l : List UInt8) : Option (List UInt8 × List UInt8) :=
  if CallsSet l then some ((word l).take 31, (secondWord l).take 1023) else none

theorem head?_take_word (s : List UInt8) : ((word s).take 31).head? = (word s).head? := by
  cases word s <;> rfl

variable {l}

theorem pairs_of_blank (h : word l = [] ∨ (word l).head? = some 35) :
    lineSetting l = none ∧ codePair l = none := by
  refine ⟨if_pos ?_, if_neg ?_⟩
  · rcases h with h | h
    · exact .inl h
    · exact .inr (.inl h)
  · rintro ⟨hword, hcomment, -⟩
    rcases h with h | h
    · exact hword h
    · exact hcomment h

theorem pairs_of_words (h : ¬ (word l = [] ∨ (word l).head? = some 35)) : (lineSetting l =
        if word (afterWord l) = [] then none else some (word l, word (afterWord l))) ∧
      codePair l =
        if secondWord l = [] then none else some ((word l).take 31, (secondWord l).take 1023) := by
  rw [not_or] at h
  constructor
  · unfold lineSetting
    simp only [h.1, h.2, false_or]
  · have hcalls : CallsSet l ↔ secondWord l ≠ [] := by
      rw [secondWord_ne_nil_iff]
      exact (and_iff_right h.1).trans (and_iff_right h.2)
    simp only [codePair, hcalls, ite_not, ne_eq]

theorem oneSetting_iff (l : List UInt8) :
    OneSetting (lineSetting l) (codePair l) ↔ OneWordFits l := by
  unfold OneSetting OneWordFits
  by_cases h : word l = [] ∨ (word l).head? = some 35
  · obtain ⟨hline, hcode⟩ := pairs_of_blank h
    rw [hline, hcode]
    refine iff_of_true rfl ?_
    rcases h with h | h
    · exact .inr (.inl (by simp [h]))
    · exact .inl h
  · obtain ⟨hline, hcode⟩ := pairs_of_words h
    rw [hline, hcode, or_iff_right fun hcomment => h (.inr hcomment)]
    have hsecond := secondWord_ne_nil_iff (s := l)
    by_cases hafter : word (afterWord l) = []
    · by_cases hlong : 31 < (word l).length
      · have hne := hsecond.mpr (.inl hlong)
        simp [hafter, hne, hlong]
      · have hnil : secondWord l = [] := by
          rw [← not_ne_iff, hsecond, not_or, not_ne_iff]
          exact ⟨hlong, hafter⟩
        simp [hafter, hnil]
        omega
    · have hne := hsecond.mpr (.inr hafter)
      simp [hafter, hne]

theorem sameSetting_iff (l : List UInt8) :
    SameSetting (lineSetting l) (codePair l) ↔ WordsFit l := by
  unfold SameSetting WordsFit
  by_cases h : word l = [] ∨ (word l).head? = some 35
  · obtain ⟨hline, hcode⟩ := pairs_of_blank h
    rw [hline, hcode]
    refine iff_of_true rfl ?_
    rcases h with h | h
    · have hafter : word (afterWord l) = [] := by
        have hnil := word_eq_nil_iff.mp h
        unfold afterWord
        rw [hnil]
        rfl
      exact .inr (by simp [h, hafter])
    · exact .inl h
  · obtain ⟨hline, hcode⟩ := pairs_of_words h
    rw [hline, hcode, or_iff_right fun hcomment => h (.inr hcomment)]
    by_cases hlong : 31 < (word l).length
    · -- the name is cut
      have hne := secondWord_ne_nil_iff.mpr (.inl hlong)
      have hcut : word l ≠ (word l).take 31 := by
        intro heq
        have hlen := congrArg length heq
        rw [length_take] at hlen
        omega
      refine iff_of_false ?_ fun hshort => by omega
      split_ifs
      · exact not_false
      · intro heq
        exact hcut (congrArg Prod.fst (some.inj heq))
    · have hsecond : secondWord l = word (afterWord l) := if_neg hlong
      rw [hsecond, take_of_length_le (by omega)]
      split_ifs with hafter
      · simp [hafter]
        omega
      · rw [Option.some.injEq, Prod.mk.injEq, and_iff_right rfl, eq_comm, take_eq_self_iff]
        exact (and_iff_right (by omega)).symm

end Words

/-! ## Rounds -/

section Rounds

variable {fits : Fits} {wordsFit : List UInt8 → Prop} {memory : ℕ → Bool} {failed : Bool}
  {conf conf' : Conf} {ss : List Setting} {n fuel : ℕ} {r u lbuf rest left : List UInt8} {l s}
  {f : FileRead} {x : Round}

theorem right_cons : (f.cons x).Right fits ss ↔
    x.Right fits ∧ f.Right fits (ss ++ x.result.setting?.toList) := by
  have hmap : ss ++ (x :: f.rounds).filterMap (fun r => r.result.setting?) =
      ss ++ x.result.setting?.toList ++ f.rounds.filterMap fun r => r.result.setting? := by
    cases hx : x.result.setting? with
    | none | some t => simp [hx]
  constructor
  · intro h
    obtain ⟨hx, hrounds⟩ := forall_mem_cons.mp h.rounds
    exact ⟨hx, hmap ▸ h.holds, hrounds, h.left⟩
  · rintro ⟨hx, h⟩
    exact ⟨hmap ▸ h.holds, forall_mem_cons.mpr ⟨hx, h.rounds⟩, h.left⟩

def LoopRight (fits : Fits) (memory : ℕ → Bool) (failed : Bool) (fuel : ℕ) (conf : Conf) (n : ℕ)
    (s : List UInt8) (ss : List Setting) : Prop :=
  ∃ f, readLoop memory failed fuel conf n s = some f ∧ f.Right fits ss

theorem loopRight_of_eq (h : readLoop memory failed fuel conf n s = some f) :
    LoopRight fits memory failed fuel conf n s ss ↔ f.Right fits ss := by
  unfold LoopRight
  rw [h]
  simp only [Option.some.injEq, exists_eq_left']

theorem loopRight_next (hfgets : fgets 1056 failed s = some (lbuf, rest))
    (hround : readRound conf (n + 1) (memory (n + 1)) lbuf rest = some (conf', x, left))
    (hok : ∀ t, x.result ≠ .refused t) :
    LoopRight fits memory failed (fuel + 1) conf n s ss ↔ x.Right fits ∧
        LoopRight fits memory failed fuel conf' (n + 1) left (ss ++ x.result.setting?.toList) := by
  have hloop : readLoop memory failed (fuel + 1) conf n s =
      (readLoop memory failed fuel conf' (n + 1) left).map (FileRead.cons x) := by
    rw [readLoop, hfgets]
    dsimp only
    rw [hround]
    dsimp only
    split
    · exact absurd ‹_› (hok _)
    · rfl
  unfold LoopRight
  rw [hloop]
  constructor
  · rintro ⟨f', hf', hright⟩
    obtain ⟨f, hf, rfl⟩ := map_eq_some_iff.mp hf'
    obtain ⟨hx, hright⟩ := right_cons.mp hright
    exact ⟨hx, f, hf, hright⟩
  · rintro ⟨hx, f, hf, hright⟩
    exact ⟨f.cons x, by rw [hf]; rfl, right_cons.mpr ⟨hx, hright⟩⟩

theorem readLoop_outside (hfgets : fgets 1056 failed s = some (lbuf, rest))
    (hzero : lbuf.head? = some 0) : readLoop memory failed fuel conf n s = none := by
  have htext : cString lbuf = [] := by
    cases lbuf with
    | nil => rfl
    | cons c lbuf =>
      obtain rfl : c = 0 := some.inj hzero
      rfl
  rw [readLoop, hfgets]
  cases fuel with
  | zero => rfl
  | succ fuel =>
    dsimp only
    rw [readRound, if_pos htext]

theorem not_loopRight_of_outside (hfgets : fgets 1056 failed s = some (lbuf, rest))
    (hzero : lbuf.head? = some 0) : ¬ LoopRight fits memory failed fuel conf n s ss := by
  rintro ⟨f, hf, -⟩
  rw [readLoop_outside hfgets hzero] at hf
  cases hf

theorem fgets_line (failed : Bool) (h : 10 ∉ l) (hlen : l.length < 1055) (r : List UInt8) :
    fgets 1056 failed (l ++ 10 :: r) = some (l ++ [10], r) := by
  unfold fgets
  rw [takeLine_append h hlen, if_neg (by simp), if_neg (by simp)]
  simp

theorem fgets_full (failed : Bool) (h : 10 ∉ l) (hlen : l.length = 1055) (r : List UInt8) :
    fgets 1056 failed (l ++ r) = some (l, r) := by
  have htake : takeLine 1055 (l ++ r) = l := by
    rw [← hlen, ← Nat.add_zero l.length, takeLine_add h, takeLine, append_nil]
  unfold fgets
  rw [show 1056 - 1 = 1055 from rfl, htake, if_neg (fun hnil => by simp [hnil] at hlen),
    if_neg (by omega), drop_left]

theorem fgets_last (failed : Bool) (h : 10 ∉ u) (hlen : u.length ≤ 1055) : fgets 1056 failed u =
      if u = [] ∨ failed = true ∧ u.length < 1055 then none else some (u, []) := by
  have hlast : u.getLast? ≠ some 10 := fun hlast => h (mem_of_getLast? hlast)
  unfold fgets
  dsimp only
  rw [show 1056 - 1 = 1055 from rfl, takeLine_of_notMem h hlen, drop_length]
  by_cases hnil : u = []
  · simp [hnil]
  · simp [hnil, hlast]

theorem cString_ne_nil (hne : lbuf ≠ []) (hzero : lbuf.head? ≠ some 0) : cString lbuf ≠ [] := by
  cases lbuf with
  | nil => exact absurd rfl hne
  | cons c lbuf =>
    have hc : c ≠ 0 := fun hc => hzero (congrArg some hc)
    unfold cString
    rw [takeWhile_cons_of_pos (by simpa using hc)]
    exact cons_ne_nil _ _

theorem readRound_overlong (hne : lbuf ≠ []) (hzero : lbuf.head? ≠ some 0) (h : 10 ∉ cString lbuf)
    (conf : Conf) (n : ℕ) (memory : Bool) (rest : List UInt8) :
    readRound conf n memory lbuf rest = some (conf, ⟨n, lbuf, takeLine rest.length rest, .overlong⟩,
        rest.drop (takeLine rest.length rest).length) := by
  unfold readRound
  rw [if_neg (cString_ne_nil hne hzero), if_pos]
  exact fun hlast => h (mem_of_getLast? hlast)

theorem readRound_line (h : 0 ∉ l) (memory : Bool) (rest : List UInt8) :
    readRound conf n memory (l ++ [10]) rest =
      (scanResult conf n memory l).map fun x => (x.1, ⟨n, l ++ [10], [], x.2⟩, rest) := by
  have htext : cString (l ++ [10]) = l ++ [10] := cString_of_notMem (by simp [h])
  unfold readRound
  rw [htext, if_neg (by simp), if_neg (by simp), dropLast_concat]

/-! ## A line that is scanned -/

theorem scanResult_of_not_calls (h : ¬ CallsSet l) {memory : Bool} :
    ∃ x, scanResult conf n memory l = some (conf, x) ∧ x.setting? = none ∧ ∀ t, x ≠ .refused t := by
  unfold scanResult
  rw [scanLine_eq]
  by_cases hword : word l = []
  · rw [if_pos hword]
    exact ⟨.nothing, rfl, rfl, nofun⟩
  · rw [if_neg hword]
    dsimp only
    rw [head?_take_word]
    by_cases hcomment : (word l).head? = some 35
    · rw [if_pos hcomment]
      exact ⟨.nothing, rfl, rfl, nofun⟩
    · have hsecond : secondWord l = [] := by
        by_contra hne
        exact h ⟨hword, hcomment, secondWord_ne_nil_iff.mp hne⟩
      rw [if_neg hcomment, if_pos hsecond]
      exact ⟨_, rfl, rfl, nofun⟩

theorem scanResult_of_calls (h : CallsSet l) (memory : Bool) :
    let t : Setting := ⟨(word l).take 31, (secondWord l).take 1023, n⟩
    scanResult conf n memory l = (miredoConfSet conf t.name t.value n memory).map fun x =>
      (x.1, if x.2 then .stored t else .refused t) := by
  obtain ⟨hword, hcomment, hsecond⟩ := h
  unfold scanResult
  rw [scanLine_eq, if_neg hword]
  dsimp only
  rw [head?_take_word, if_neg hcomment, if_neg (secondWord_ne_nil_iff.mpr hsecond)]

/-! ## The loop -/

structure Means (fits : Fits) (wordsFit : List UInt8 → Prop) : Prop where
  none : ∀ has, fits has none ↔ has = none
  code : ∀ l, fits (lineSetting l) (codePair l) ↔ wordsFit l

variable {ls : List (List UInt8)}

theorem right_of_lines (h : fileLines (x.line ++ x.eaten) = l :: ls) :
    x.Right fits ↔ fits (lineSetting l) x.result.pair? ∧ ∀ l' ∈ ls, lineSetting l' = none := by
  unfold Round.Right
  rw [h]

theorem right_of_stop (hholds : conf.Holds ss false) {ret : Bool} :
    FileRead.Right fits ss ⟨conf, ret, [], left⟩ ↔ ∀ l ∈ fileLines left, lineSetting l = none := by
  constructor
  · exact fun h => h.left
  · exact fun h => ⟨by simpa using hholds, nofun, h⟩

theorem loopRight_of_end (hfgets : fgets 1056 failed s = none) (hholds : conf.Holds ss false) :
    LoopRight fits memory failed fuel conf n s ss ↔ ∀ l ∈ fileLines s, lineSetting l = none := by
  have hloop : readLoop memory failed fuel conf n s = some ⟨conf, !failed, [], s⟩ := by
    rw [readLoop, hfgets]
  exact (loopRight_of_eq hloop).trans (right_of_stop hholds)

theorem loopRight_nil (hholds : conf.Holds ss false) :
    LoopRight fits memory failed fuel conf n [] ss :=
  (loopRight_of_end rfl hholds).mpr (by simp [fileLines_of_notMem])

section

variable (hm : Means fits wordsFit)
include hm

theorem loopRight_overlong (hfgets : fgets 1056 failed s = some (lbuf, rest)) (hne : lbuf ≠ [])
    (hzero : lbuf.head? ≠ some 0) (hfeed : 10 ∉ cString lbuf)
    (hlines : fileLines (lbuf ++ takeLine rest.length rest) = l :: ls) :
    LoopRight fits memory failed (fuel + 1) conf n s ss ↔
      (lineSetting l = none ∧ ∀ l' ∈ ls, lineSetting l' = none) ∧
        LoopRight fits memory failed fuel conf (n + 1)
          (rest.drop (takeLine rest.length rest).length)
          ss := by
  have hround := readRound_overlong hne hzero hfeed conf (n + 1) (memory (n + 1)) rest
  rw [loopRight_next hfgets hround nofun, right_of_lines hlines]
  show (fits (lineSetting l) none ∧ _) ∧
    LoopRight fits memory failed fuel conf (n + 1) _ (ss ++ []) ↔ _
  rw [hm.none, append_nil]

theorem loopRight_last (h : 10 ∉ u) (hlen : u.length ≤ 1055)
    (hfuel : u.length ≤ fuel) (hholds : conf.Holds ss false) :
    LoopRight fits memory failed fuel conf n u ss ↔
      (failed = true ∧ u.length < 1055 ∨ u.head? ≠ some 0) ∧ lineSetting u = none := by
  have hfgets := fgets_last failed h hlen
  split_ifs at hfgets with hend
  · rw [loopRight_of_end hfgets hholds, forall_fileLines, records_of_notMem 10 h,
      unfinished_of_notMem 10 h]
    have hcond : failed = true ∧ u.length < 1055 ∨ u.head? ≠ some 0 := by
      rcases hend with rfl | hend
      · exact .inr (by simp)
      · exact .inl hend
    simp [hcond]
  · rw [not_or] at hend
    obtain ⟨fuel, rfl⟩ : ∃ i, fuel = i + 1 :=
      ⟨fuel - 1, by have := length_pos_iff.mpr hend.1; omega⟩
    rw [or_iff_right hend.2]
    by_cases hzero : u.head? = some 0
    · exact iff_of_false (not_loopRight_of_outside hfgets hzero) fun hcond => hcond.1 hzero
    · have hlines : fileLines (u ++ takeLine 0 []) = [u] := by
        rw [takeLine, append_nil, fileLines_of_notMem h, if_neg hend.1]
      rw [loopRight_overlong hm hfgets hend.1 hzero (fun hmem => h (takeWhile_subset _ hmem))
        hlines]
      constructor
      · exact fun hcond => ⟨hzero, hcond.1.1⟩
      · exact fun hcond => ⟨⟨hcond.2, nofun⟩, loopRight_nil hholds⟩

theorem loopRight_full (h : 10 ∉ l) (hlen : l.length = 1055) (hzero : l.head? ≠ some 0) :
    LoopRight fits memory failed (fuel + 1) conf n (l ++ 10 :: r) ss ↔
      lineSetting l = none ∧ LoopRight fits memory failed fuel conf (n + 1) r ss := by
  have hne : l ≠ [] := fun hnil => by simp [hnil] at hlen
  rw [loopRight_overlong hm (fgets_full failed h hlen (10 :: r)) hne hzero
    (fun hmem => h (takeWhile_subset _ hmem)) (fileLines_append h [])]
  exact and_congr_left fun _ => and_iff_left nofun

theorem loopRight_zero (h : 10 ∉ l) (hlen : l.length < 1055)
    (hmem : 0 ∈ l) (hzero : l.head? ≠ some 0) :
    LoopRight fits memory failed (fuel + 1) conf n (l ++ 10 :: r) ss ↔
      lineSetting l = none ∧ (∀ l' ∈ fileLines (takeLine r.length r), lineSetting l' = none) ∧
        LoopRight fits memory failed fuel conf (n + 1) (r.drop (takeLine r.length r).length)
          ss := by
  have hhead : (l ++ [10]).head? ≠ some 0 := by
    cases l with
    | nil => simp at hmem
    | cons c l => exact hzero
  have hfeed : 10 ∉ cString (l ++ [10]) := by
    rw [cString_append_of_mem hmem]
    exact fun hmem => h (takeWhile_subset _ hmem)
  have hlines : fileLines ((l ++ [10]) ++ takeLine r.length r) =
      l :: fileLines (takeLine r.length r) := by
    rw [append_assoc]
    exact fileLines_append h _
  rw [loopRight_overlong hm (fgets_line failed h hlen r) (by simp) hhead hfeed hlines, and_assoc]

theorem loopRight_refused (h : 10 ∉ l) (hlen : l.length < 1055)
    (hmem : 0 ∉ l) (hcalls : CallsSet l) (hrefuse : memory (n + 1) = false)
    (hholds : conf.Holds ss false) :
    LoopRight fits memory failed (fuel + 1) conf n (l ++ 10 :: r) ss ↔
      lineSetting l = none ∧ ∀ l' ∈ fileLines r, lineSetting l' = none := by
  let t : Setting := ⟨(word l).take 31, (secondWord l).take 1023, n + 1⟩
  have hround : readRound conf (n + 1) (memory (n + 1)) (l ++ [10]) r =
      some (conf, ⟨n + 1, l ++ [10], [], .refused t⟩, r) := by
    rw [readRound_line hmem, scanResult_of_calls hcalls, hrefuse]
    rfl
  have hloop : readLoop memory failed (fuel + 1) conf n (l ++ 10 :: r) =
      some (FileRead.cons ⟨n + 1, l ++ [10], [], .refused t⟩ ⟨conf, false, [], r⟩) := by
    rw [readLoop, fgets_line failed h hlen r]
    dsimp only
    rw [hround]
    rfl
  rw [loopRight_of_eq hloop, right_cons, right_of_lines (fileLines_line h)]
  show (fits (lineSetting l) none ∧ _) ∧ FileRead.Right fits (ss ++ []) _ ↔ _
  rw [hm.none, append_nil, right_of_stop hholds]
  exact and_congr_left fun _ => and_iff_left nofun

end

theorem loopRight_line (hm : Means fits wordsFit) (h : 10 ∉ l) (hlen : l.length < 1055)
    (hmem : 0 ∉ l) (hmemory : ¬ (CallsSet l ∧ memory (n + 1) = false))
    (hholds : conf.Holds ss false) :
    ∃ conf' ss', conf'.Holds ss' false ∧
      (LoopRight fits memory failed (fuel + 1) conf n (l ++ 10 :: r) ss ↔
        wordsFit l ∧ LoopRight fits memory failed fuel conf' (n + 1) r ss') := by
  -- what the round stores is what `codePair` says
  have hscan : ∃ conf' x, scanResult conf (n + 1) (memory (n + 1)) l = some (conf', x) ∧
      x.pair? = codePair l ∧ (∀ t, x ≠ .refused t) ∧
      conf'.Holds (ss ++ x.setting?.toList) false := by
    by_cases hcalls : CallsSet l
    · have hroom : memory (n + 1) = true := by simpa [hcalls] using hmemory
      obtain ⟨conf', hset, hholds'⟩ := hholds.set (fun _ => rfl) ((word l).take 31)
        ((secondWord l).take 1023) (n + 1)
      refine ⟨conf', .stored _, ?_, ?_, nofun, hholds'⟩
      · rw [scanResult_of_calls hcalls, hroom]
        rw [hset]
        rfl
      · exact (if_pos hcalls).symm
    · obtain ⟨x, hx, hnone, hok⟩ := scanResult_of_not_calls hcalls
      refine ⟨conf, x, hx, ?_, hok, ?_⟩
      · rw [LineResult.pair?, hnone]
        exact (if_neg hcalls).symm
      · rw [hnone]
        simpa using hholds
  obtain ⟨conf', x, hx, hpair, hok, hholds'⟩ := hscan
  refine ⟨conf', _, hholds', ?_⟩
  have hround : readRound conf (n + 1) (memory (n + 1)) (l ++ [10]) r =
      some (conf', ⟨n + 1, l ++ [10], [], x⟩, r) := by
    rw [readRound_line hmem, hx]
    rfl
  rw [loopRight_next (fgets_line failed h hlen r) hround hok, right_of_lines (fileLines_line h)]
  show (fits (lineSetting l) x.pair? ∧ _) ∧ _ ↔ _
  rw [hpair, hm.code]
  exact and_congr_left fun _ => and_iff_left nofun

theorem not_loopRight_of_zero (h : 10 ∉ l) (hlen : l.length ≤ 1055) (hzero : l.head? = some 0) :
    ¬LoopRight fits memory failed (fuel + 1) conf n (l ++ 10 :: r) ss := by
  by_cases hfull : l.length = 1055
  · exact not_loopRight_of_outside (fgets_full failed h hfull _) hzero
  · refine not_loopRight_of_outside (fgets_line failed h (by omega) r) ?_
    cases l with
    | nil => cases hzero
    | cons c l => exact hzero

theorem loopRight_iff (hm : Means fits wordsFit) (hfuel : s.length ≤ fuel)
    (hshort : ∀ l ∈ fileLines s, l.length < 1056) (hholds : conf.Holds ss false) :
    LoopRight fits memory failed fuel conf n s ss ↔
      LinesRight wordsFit memory failed (unfinished 10 s) n (records 10 s) := by
  induction fuel using Nat.strong_induction_on generalizing conf n s ss with
  | _ fuel ih =>
    rcases exists_line s with h | ⟨l, r, h, rfl⟩
    · rw [records_of_notMem 10 h, unfinished_of_notMem 10 h]
      have hlen : s.length ≤ 1055 := by
        rw [fileLines_of_notMem h] at hshort
        by_cases hnil : s = []
        · simp [hnil]
        · rw [if_neg hnil, forall_mem_singleton] at hshort
          omega
      exact loopRight_last hm h hlen hfuel hholds
    · rw [fileLines_append h, forall_mem_cons] at hshort
      rw [length_append, length_cons] at hfuel
      obtain ⟨fuel, rfl⟩ : ∃ i, fuel = i + 1 := ⟨fuel - 1, by omega⟩
      rw [records_append_cons 10 h, unfinished_append_cons]
      unfold LinesRight
      split_ifs with hzero hfull hmem hrefuse
      · exact iff_of_false (not_loopRight_of_zero h (by omega) hzero) not_false
      · rw [loopRight_full hm h hfull hzero, ih fuel (by omega) (by omega) hshort.2 hholds]
      · rw [loopRight_zero hm h (by omega) hmem hzero]
        refine and_congr_right fun _ => ?_
        rcases exists_line r with hr | ⟨l', r', hl', rfl⟩
        · rw [records_of_notMem 10 hr, unfinished_of_notMem 10 hr, takeLine_of_notMem hr le_rfl,
            drop_length, forall_fileLines, records_of_notMem 10 hr, unfinished_of_notMem 10 hr]
          simp [loopRight_nil hholds]
        · rw [fileLines_append hl', forall_mem_cons] at hshort
          rw [length_append, length_cons] at hfuel
          rw [records_append_cons 10 hl', unfinished_append_cons,
            takeLine_append hl' (by simp), fileLines_append hl' []]
          have hdrop : (l' ++ 10 :: r').drop (l' ++ [10]).length = r' := by simp
          rw [hdrop, ih fuel (by omega) (by omega) hshort.2.2 hholds]
          simp [fileLines_of_notMem]
      · rw [loopRight_refused hm h (by omega) hmem hrefuse.1 hrefuse.2 hholds, forall_fileLines]
      · obtain ⟨conf', ss', hholds', hiff⟩ := loopRight_line hm h (by omega) hmem hrefuse hholds
        rw [hiff, ih fuel (by omega) (by omega) hshort.2 hholds']

theorem readsRight_iff (hm : Means fits wordsFit) (hshort : ∀ l ∈ fileLines s, l.length < 1056) :
    ReadsRight fits memory failed s ↔
      LinesRight wordsFit memory failed (unfinished 10 s) 0 (records 10 s) :=
  loopRight_iff hm le_rfl hshort holds_create

end Rounds

theorem means_oneSetting : Means OneSetting OneWordFits where
  none has := by
    unfold OneSetting
    cases has <;> simp
  code := oneSetting_iff

theorem means_sameSetting : Means SameSetting WordsFit where
  none _ := Iff.rfl
  code := sameSetting_iff

/-- A file with lines shorter than the buffer is read without looking outside, and with one setting
for each line that has one, just if its lines are right; and with the same setting, just if their
words fit too. -/
theorem read_file_iff (memory : ℕ → Bool) (failed : Bool) (s : List UInt8)
    (hshort : ∀ l ∈ fileLines s, l.length < 1056) :
    (ReadsRight OneSetting memory failed s ↔
        LinesRight OneWordFits memory failed (unfinished 10 s) 0 (records 10 s)) ∧
      (ReadsRight SameSetting memory failed s ↔
        LinesRight WordsFit memory failed (unfinished 10 s) 0 (records 10 s)) :=
  ⟨readsRight_iff means_oneSetting hshort, readsRight_iff means_sameSetting hshort⟩

def plainFile : List UInt8 := ascii "# port\nBindPort 3545\n"

theorem read_file_plain : ReadsRight SameSetting (fun _ => true) false plainFile := by
  have hlines : records 10 plainFile = [ascii "# port", ascii "BindPort 3545"] := by decide
  have hend : unfinished 10 plainFile = [] := by decide
  have hshort : ∀ l ∈ fileLines plainFile, l.length < 1056 := by
    decide
  apply (read_file_iff (fun _ => true) false plainFile hshort).2.mpr
  rw [hlines, hend]
  simp only [LinesRight, WordsFit]
  decide

/-- A last line without a line feed is lost, and so is one behind a line with a zero. A line that
starts with a zero makes the code look outside the buffer. -/
theorem read_file_lost :
    ¬ ReadsRight OneSetting (fun _ => true) false (ascii "BindPort 3545") ∧
      ¬ ReadsRight OneSetting (fun _ => true) false ([35, 0, 10] ++ ascii "BindPort 3545\n") ∧
      miredoConfReadFILE (fun _ => true) false miredoConfCreate [0, 10] = none := by
  refine ⟨?_, ?_, ?_⟩
  · rw [readsRight_iff means_oneSetting (by decide), records_of_notMem 10 (by decide),
      unfinished_of_notMem 10 (by decide)]
    exact fun h => nomatch h.2
  · have hlines : records 10 ([35, 0, 10] ++ ascii "BindPort 3545\n") =
        [[35, 0], ascii "BindPort 3545"] := by decide
    rw [readsRight_iff means_oneSetting (by decide), hlines]
    exact fun h => nomatch h.2.1
  · exact readLoop_outside (fgets_line false (l := [0]) (by decide) (by decide) []) rfl

end Maiccu.Miredo
