import Mathlib.Data.List.DropRight
import Maiccu.Lib.CBuffer

/-!
# Reading the configuration file

`ReadConfigurationData` of `namevalueparser.cc`. The pointer `buffer` runs over the blanks in front
of a line and stays there for the next one, which may have the length of the whole array. A stream
with the fail bit set reads nothing and does not come to the end of the file.
-/

namespace Maiccu.Gogoc.NameValue

open Maiccu.Lib List

/-- `NV_MAX_LINE_LENGTH`. -/
def maxLineLength : ℕ := 2048

structure InStream where
  rest : List UInt8
  eof : Bool
  fail : Bool

/-- The text that `getline` stores, with a zero behind it. A line that does not fit sets the fail
bit, and so does a call that reads nothing. -/
def InStream.getline (n : ℕ) : InStream → List UInt8 × InStream
  | ⟨rest, false, false⟩ =>
    let line := rest.takeWhile (· ≠ 10)
    if line.length < n then
      (line, match rest.dropWhile (· ≠ 10) with
        | [] => ⟨[], true, line = []⟩
        | _ :: rest => ⟨rest, false, false⟩)
    else (line.take (n - 1), ⟨rest.drop (n - 1), false, true⟩)
  | x => ([], { x with fail := true })

inductive Entry where
  | emptyLine
  | comment (text : List UInt8)
  | nameValue (name value : List UInt8)
  deriving DecidableEq

/-- What a line adds; none if it has no name. -/
def lineEntry (line : List UInt8) : Option Entry :=
  let text := cString (line.dropWhile (· = 32))
  if text = [] then some .emptyLine
  else if text.head? = some 35 then some (.comment text)
  else (strtok 61 text).1.map fun name => .nameValue name (strtok 61 text).2

/-- The loop, with `buffer` at `p`: whether the value true is returned, and not an exception thrown,
and what was added. It is none while the loop goes on. -/
def readLoop : ℕ → InStream → ℕ → List Entry → Option (Except Fault (Bool × List Entry))
  | 0, _, _, _ => none
  | fuel + 1, x, p, es =>
    if x.eof then some (.ok (true, es))
    else
      let line := (x.getline maxLineLength).1
      if p + line.length < maxLineLength then
        match lineEntry line with
        | none => some (.ok (false, es))
        | some e => readLoop fuel (x.getline maxLineLength).2
            (p + (line.takeWhile (· = 32)).length) (es ++ [e])
      else some (.error .overflow)

/-- `ReadConfigurationData` for a file that can be opened. -/
def readConfigurationData (fuel : ℕ) (file : List UInt8) :
    Option (Except Fault (Bool × List Entry)) :=
  readLoop fuel ⟨file, false, false⟩ 0 []

/-- The lines fit behind the blanks in front of those before, `p` in number, up to the first line
without a name. -/
def LinesFit : ℕ → List (List UInt8) → Prop
  | _, [] => True
  | p, l :: ls =>
    p + (l.take (maxLineLength - 1)).length < maxLineLength ∧
      (lineEntry (l.take (maxLineLength - 1)) = none ∨
        l.length < maxLineLength ∧ LinesFit (p + (l.takeWhile (· = 32)).length) ls)

instance LinesFit.decidable : ∀ p ls, Decidable (LinesFit p ls)
  | _, [] => isTrue trivial
  | p, l :: ls =>
    have := LinesFit.decidable (p + (l.takeWhile (· = 32)).length) ls
    inferInstanceAs (Decidable (_ ∧ (_ ∨ _ ∧ _)))

def Ends (x : InStream) (p : ℕ) (es : List Entry) : Prop :=
  ∃ fuel r, readLoop fuel x p es = some (.ok r)

variable {x : InStream} {p : ℕ} {es : List Entry} {l rest : List UInt8}

theorem ends_iff (h : x.eof = false) : Ends x p es ↔
    p + (x.getline maxLineLength).1.length < maxLineLength ∧
      ∀ e, lineEntry (x.getline maxLineLength).1 = some e → Ends (x.getline maxLineLength).2
        (p + ((x.getline maxLineLength).1.takeWhile (· = 32)).length) (es ++ [e]) := by
  have hstep : Ends x p es ↔ ∃ fuel r, readLoop (fuel + 1) x p es = some (.ok r) := by
    refine ⟨fun ⟨fuel, r, hr⟩ => ?_, fun ⟨fuel, hr⟩ => ⟨fuel + 1, hr⟩⟩
    cases fuel with
    | zero => cases hr
    | succ fuel => exact ⟨fuel, r, hr⟩
  simp only [hstep, readLoop, h, Bool.false_eq_true, if_false]
  by_cases hfits : p + (x.getline maxLineLength).1.length < maxLineLength
  swap
  · simp only [hfits, if_false, false_and, Option.some.injEq, reduceCtorEq, exists_false]
  simp only [hfits, if_true, true_and]
  cases lineEntry (x.getline maxLineLength).1 with
  | none => exact iff_of_true ⟨0, _, rfl⟩ nofun
  | some e => exact ⟨fun hr _ he => Option.some.inj he ▸ hr, fun hr => hr e rfl⟩

theorem not_ends_of_fail (rest : List UInt8) : ¬ Ends ⟨rest, false, true⟩ p es := by
  rintro ⟨fuel, r, hr⟩
  induction fuel generalizing es with
  | zero => cases hr
  | succ fuel ih =>
    -- nothing is read, and an empty line is added
    have hget : InStream.getline maxLineLength ⟨rest, false, true⟩ =
      ([], ⟨rest, false, true⟩) := rfl
    rw [readLoop, if_neg Bool.false_ne_true, hget] at hr
    dsimp only at hr
    split_ifs at hr
    · exact ih hr
    · cases hr

theorem ends_line_iff {ls : List (List UInt8)} (hl : rest.takeWhile (· ≠ 10) = l)
    (hnext : l.length < maxLineLength → ∀ p es,
      Ends (InStream.getline maxLineLength ⟨rest, false, false⟩).2 p es ↔ LinesFit p ls) :
    Ends ⟨rest, false, false⟩ p es ↔ LinesFit p (l :: ls) := by
  rw [ends_iff rfl, LinesFit]
  by_cases hlen : l.length < maxLineLength
  · have hget : (InStream.getline maxLineLength ⟨rest, false, false⟩).1 = l := by
      simp only [InStream.getline, hl, hlen, if_true]
    have htake : l.take (maxLineLength - 1) = l := take_of_length_le (by omega)
    simp only [hget, htake, hnext hlen, hlen, true_and]
    cases lineEntry l <;> simp
  · simp only [InStream.getline, hl, hlen, if_false, false_and, or_false, not_ends_of_fail,
      imp_false, Option.eq_none_iff_forall_ne_some]

theorem ends_iff_linesFit (rest : List UInt8) :
    Ends ⟨rest, false, false⟩ p es ↔ LinesFit p (rest.splitOn 10) := by
  induction hls : rest.splitOn 10 generalizing rest p es with
  | nil => exact absurd hls (splitOn_ne_nil 10 rest)
  | cons l ls ih =>
    by_cases hmem : 10 ∈ rest
    · obtain ⟨a, r, rfl, ha⟩ := eq_append_cons_of_mem hmem
      rw [splitOn_append_cons_self_of_not_mem ha] at hls
      cases hls
      have hl : (l ++ 10 :: r).takeWhile (· ≠ 10) = l := by
        rw [takeWhile_append_cons (by simp), takeWhile_ne_of_notMem ha]
      have hrest : (l ++ 10 :: r).dropWhile (· ≠ 10) = 10 :: r := by
        rw [dropWhile_append, dropWhile_ne_of_notMem ha]
        rfl
      refine ends_line_iff hl fun hlen p es => ?_
      simp only [InStream.getline, hl, hrest, hlen, if_true]
      exact ih r rfl
    · rw [splitOn_eq_singleton hmem] at hls
      cases hls
      have hl := takeWhile_ne_of_notMem hmem
      refine ends_line_iff hl fun hlen p es => ?_
      simp only [InStream.getline, hl, dropWhile_ne_of_notMem hmem, hlen, if_true]
      exact iff_of_true ⟨1, _, if_pos rfl⟩ trivial

/-- **The configuration file.** For every content: the function ends, and every line is stored
inside the array, if and only if the lines that are read fit. -/
theorem configuration_read_iff (file : List UInt8) :
    (∃ fuel r, readConfigurationData fuel file = some (.ok r)) ↔ LinesFit 0 (file.splitOn 10) :=
  ends_iff_linesFit file

set_option maxRecDepth 10000 in
/-- A line of 2047 bytes behind a blank line of one byte is stored past the end, and with a line of
2048 bytes the loop has no end. -/
theorem blank_line_shifts_buffer :
    readConfigurationData 3 (32 :: 10 :: replicate 2047 97) = some (.error .overflow) ∧
      ¬ ∃ fuel r, readConfigurationData fuel (replicate 2048 97) = some (.ok r) := by
  refine ⟨by decide +kernel, fun h => ?_⟩
  have hfit := (ends_iff_linesFit _).mp h
  exact absurd hfit (by decide +kernel)

/-! ## Names and values -/

def trim (s : List UInt8) : List UInt8 :=
  (s.dropWhile fun c => c = 32 || c = 9).rdropWhile fun c => c = 32 || c = 9

/-- The name and the value that `AddNameValue` stores. -/
def addNameValue (name value : List UInt8) : Option (List UInt8 × List UInt8) :=
  if trim name = [] then none else some (trim name, trim value)

def Entry.pair : Entry → Option (List UInt8 × List UInt8)
  | .nameValue name value => addNameValue name value
  | _ => none

/-- What a line stores by the documentation. -/
def documented (text : List UInt8) : Option (Option (List UInt8 × List UInt8)) :=
  if 61 ∈ text then
    some (addNameValue (text.takeWhile (· ≠ 61)) (text.dropWhile (· ≠ 61)).tail)
  else none

/-- A line is read as it is documented if and only if it has an equals sign and does not begin with
one, or only blanks follow the equals signs at its start, at least one of them. -/
theorem line_documented_iff (line text : List UInt8)
    (htext : cString (line.dropWhile (· = 32)) = text) (hblank : text ≠ [])
    (hcomment : text.head? ≠ some 35) :
    (lineEntry line).map Entry.pair = documented text ↔ 61 ∈ text ∧
      (text.head? = some 61 → ∃ name, (strtok 61 text).1 = some name ∧ trim name = []) := by
  have hentry : (lineEntry line).map Entry.pair =
      (strtok 61 text).1.map fun name => addNameValue name (strtok 61 text).2 := by
    unfold lineEntry
    rw [htext]
    simp [hblank, hcomment, Function.comp_def, Entry.pair]
  rw [hentry, documented]
  cases text with
  | nil => exact absurd rfl hblank
  | cons c text =>
    by_cases hc : c = 61
    · subst hc
      -- the token begins behind the equals signs, and the documented name is empty
      rw [if_pos mem_cons_self]
      cases (strtok 61 (61 :: text)).1 <;> simp [addNameValue, show trim [] = [] from rfl]
    · rw [strtok_cons_of_ne hc]
      by_cases hmem : 61 ∈ text
      · simp [hc, hmem, Ne.symm hc]
      · simp [hc, hmem, Ne.symm hc]

theorem line_documented_pair : (lineEntry [97, 32, 61, 32, 98]).map Entry.pair =
    documented (cString [97, 32, 61, 32, 98]) :=
  (line_documented_iff _ _ rfl (by decide) (by decide)).mpr (by decide)

/-- The lines `abc` and `=a=b`. -/
theorem lines_not_documented :
    (lineEntry [97, 98, 99]).map Entry.pair = some (some ([97, 98, 99], [])) ∧
      documented [97, 98, 99] = none ∧
      (lineEntry [61, 97, 61, 98]).map Entry.pair = some (some ([97], [98])) ∧
      documented [61, 97, 61, 98] = some none := by
  decide

end Maiccu.Gogoc.NameValue
