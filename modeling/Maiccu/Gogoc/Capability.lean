import Mathlib.Data.UInt
import Maiccu.Gogoc.Session

/-!
# Capabilities and the mechanism of the authentication

`tspExtractCapability` of `tsp_cap.c` reads the line with which a server answers the version, and
`tspAuthenticate` of `tsp_auth.c` takes the strongest mechanism in it that the configuration allows.
The scanner overlooks the end of the string in two places, so the memory behind it is part of the
model.
-/

namespace Maiccu.Gogoc.Auth

open Maiccu.Lib List

/-! ## The capability flags -/

inductive Mechanism where
  | passdss3des1
  | digestMd5
  | anonymous
  | plain
  deriving DecidableEq

def Mechanism.name : Mechanism → List UInt8
  | .passdss3des1 => ascii "PASSDSS-3DES-1"
  | .digestMd5 => ascii "DIGEST-MD5"
  | .anonymous => ascii "ANONYMOUS"
  | .plain => ascii "PLAIN"

def Mechanism.flag : Mechanism → UInt32
  | .passdss3des1 => 0x80
  | .digestMd5 => 0x40
  | .plain => 0x20
  | .anonymous => 0x10

def Mechanism.ofName (value : List UInt8) : Option Mechanism :=
  [Mechanism.passdss3des1, .digestMd5, .anonymous, .plain].find? fun m => SameNoCase m.name value

def tspSetCapability (token value : List UInt8) : UInt32 :=
  if token = ascii "TUNNEL" ∧ value = ascii "V6V4" then 0x1
  else if token = ascii "TUNNEL" ∧ value = ascii "V6UDPV4" then 0x2
  else if token = ascii "TUNNEL" ∧ value = ascii "V4V6" then 0x4
  else if token = ascii "AUTH" then
    match Mechanism.ofName value with
    | some m => m.flag
    | none => 0
  else 0

/-- `seg` is what stands between `s` and `e`. The memory ends with a zero. After a separator and
after an equals sign `s = ++e` is followed by the `e++` of the loop, so the byte at the new `s` is
`unseen`. -/
def scanCapability (unseen : Bool) (seg token value : List UInt8) (flags : UInt32) :
    List UInt8 → UInt32
  | [] => flags
  | c :: rest =>
    if unseen = true then scanCapability false [c] token value flags rest
    else if c = 0 then flags
    else if c = 32 ∨ c = 13 ∨ c = 10 then
      let value' := if seg ≠ [] ∧ token ≠ [] ∧ value = [] then cString seg else value
      if seg ≠ [] ∧ token ≠ [] ∧ value' ≠ [] then
        scanCapability true [] [] [] (flags ||| tspSetCapability token value') rest
      else scanCapability true [] token value' flags rest
    else if c = 61 ∧ seg ≠ [] then scanCapability true [] (cString seg) value flags rest
    else scanCapability false (seg ++ [c]) token value flags rest

/-- `mem` is the memory from the start of the string on. -/
def tspExtractCapability (mem : List UInt8) : UInt32 :=
  scanCapability false [] [] [] 0 (mem.drop 11)

/-! ## The choice of the mechanism -/

def allowedMechanisms (method : List UInt8) : UInt32 :=
  if SameNoCase method (ascii "any") then 0xF0 else tspSetCapability (ascii "AUTH") method

def chosenMechanism (method : List UInt8) (cap : UInt32) : Option Mechanism :=
  let mechanism := allowedMechanisms method
  if ¬SameNoCase method (ascii "anonymous") then
    if mechanism &&& cap &&& Mechanism.passdss3des1.flag ≠ 0 then some .passdss3des1
    else if mechanism &&& cap &&& Mechanism.digestMd5.flag ≠ 0 then some .digestMd5
    else if mechanism &&& cap &&& Mechanism.plain.flag ≠ 0 then some .plain
    else none
  else if mechanism &&& cap &&& Mechanism.anonymous.flag ≠ 0 then some .anonymous
  else none

/-- The mechanism whose procedure is run, if there is one, and the status; `procedure m` is the
status of the procedure of `m`. -/
def tspAuthenticate (method : List UInt8) (cap : UInt32) (procedure : Mechanism → Status) :
    Option Mechanism × Status :=
  match chosenMechanism method cap with
  | some m => (some m, procedure m)
  | none => (none, .noCommonAuthentication)

/-! ## Flags -/

theorem or_and_ne_zero {a b m : UInt32} : (a ||| b) &&& m ≠ 0 ↔ a &&& m ≠ 0 ∨ b &&& m ≠ 0 := by
  have hdistrib : (a ||| b) &&& m = (a &&& m) ||| (b &&& m) := by
    refine UInt32.toBitVec_inj.mp ?_
    ext i
    simp only [UInt32.toBitVec_and, UInt32.toBitVec_or, BitVec.getElem_and, BitVec.getElem_or,
      Bool.and_or_distrib_right]
  rw [hdistrib, Ne, UInt32.or_eq_zero_iff, not_and_or]

variable {m m' : Mechanism} {method : List UInt8} {has has' : Mechanism → Prop}

theorem name_injective (h : SameNoCase m.name m'.name) : m = m' := by
  cases m <;> cases m' <;> first | rfl | exact nomatch h

theorem ofName_eq_some_iff {value : List UInt8} :
    Mechanism.ofName value = some m ↔ SameNoCase m.name value := by
  have hsome : ∀ m', Mechanism.ofName value = some m' → SameNoCase m'.name value := by
    intro m' h
    have hfound := find?_some h
    exact of_decide_eq_true hfound
  constructor
  · exact hsome m
  · intro hname
    cases h : Mechanism.ofName value with
    | none =>
      refine absurd hname (of_decide_eq_false ?_)
      have hnone := find?_eq_none.mp h m (by cases m <;> decide)
      exact Bool.eq_false_iff.mpr hnone
    | some m' => rw [name_injective (hname.trans (hsome m' h).symm)]

theorem tspSetCapability_auth (value : List UInt8) : tspSetCapability (ascii "AUTH") value =
    match Mechanism.ofName value with
    | some m => m.flag
    | none => 0 := by
  have htunnel : ascii "AUTH" ≠ ascii "TUNNEL" := by decide
  unfold tspSetCapability
  simp only [htunnel, false_and, if_false, if_true]

theorem tspSetCapability_flag (token value : List UInt8) (m : Mechanism) :
    tspSetCapability token value &&& m.flag ≠ 0 ↔
      token = ascii "AUTH" ∧ SameNoCase m.name value := by
  by_cases hauth : token = ascii "AUTH"
  · rw [hauth, tspSetCapability_auth, ← ofName_eq_some_iff]
    cases Mechanism.ofName value with
    | none => exact iff_of_false (not_not.mpr UInt32.zero_and) fun h => nomatch h.2
    | some m' =>
      rw [Option.some_inj, and_iff_right rfl, eq_comm]
      cases m <;> cases m' <;> decide
  · refine iff_of_false (not_not.mpr ?_) fun h => hauth h.1
    unfold tspSetCapability
    split_ifs
    · cases m <;> rfl
    · cases m <;> rfl
    · cases m <;> rfl
    · exact UInt32.zero_and

/-! ## The line -/

/-- A byte that is neither a separator nor an equals sign nor the end of a string. -/
def Plain (c : UInt8) : Prop := c ≠ 0 ∧ (c ≠ 32 ∧ c ≠ 13 ∧ c ≠ 10) ∧ c ≠ 61

instance (c : UInt8) : Decidable (Plain c) := inferInstanceAs (Decidable (_ ∧ _))

/-- A pair of the line. -/
structure Pair where
  name : List UInt8
  value : List UInt8
  name_plain : ∀ c ∈ name, Plain c
  value_plain : ∀ c ∈ value, Plain c
  value_ne : value ≠ []

def Pair.text (p : Pair) : List UInt8 := p.name ++ 61 :: p.value

/-- How the line ends. -/
inductive Ending where
  | crlf
  | lf
  | string

def Ending.bytes : Ending → List UInt8
  | .crlf => [13, 10]
  | .lf => [10]
  | .string => []

def lineText (pairs : List Pair) : List UInt8 := [32].intercalate (pairs.map Pair.text)

def capabilityLine (pairs : List Pair) (ending : Ending) (behind : List UInt8) : List UInt8 :=
  ascii "CAPABILITY " ++ (lineText pairs ++ (ending.bytes ++ 0 :: behind))

def lineFlags (flags : UInt32) (pairs : List Pair) : UInt32 :=
  pairs.foldl (fun flags p => flags ||| tspSetCapability p.name p.value) flags

section Scan

variable {seg token value tail : List UInt8} {flags : UInt32}

theorem scan_unseen {d : UInt8} : scanCapability true seg token value flags (d :: tail) =
      scanCapability false [d] token value flags tail := by
  rw [scanCapability, if_pos rfl]

theorem scan_plain {w : List UInt8} (hw : ∀ c ∈ w, Plain c) (tail : List UInt8) :
    scanCapability false seg token value flags (w ++ tail) =
      scanCapability false (seg ++ w) token value flags tail := by
  induction w generalizing seg with
  | nil => rw [nil_append, append_nil]
  | cons c w ih =>
    obtain ⟨hzero, ⟨hspace, hcr, hlf⟩, hequals⟩ := hw c mem_cons_self
    rw [cons_append, scanCapability, if_neg Bool.false_ne_true, if_neg hzero,
      if_neg (not_or.mpr ⟨hspace, not_or.mpr ⟨hcr, hlf⟩⟩), if_neg fun h => hequals h.1,
      ih fun d hd => hw d (mem_cons_of_mem _ hd), append_assoc, singleton_append]

variable {behind : List UInt8}

theorem scan_zero : scanCapability false seg token value flags (0 :: behind) = flags := by
  rw [scanCapability, if_neg Bool.false_ne_true, if_pos rfl]

theorem scan_equals_first (tail : List UInt8) :
    scanCapability false [] token value flags (61 :: tail) =
      scanCapability false [61] token value flags tail := by
  rw [scanCapability, if_neg Bool.false_ne_true, if_neg (by decide), if_neg (by decide),
    if_neg fun h => h.2 rfl, nil_append]

theorem scan_equals (hseg : seg ≠ []) (tail : List UInt8) :
    scanCapability false seg token value flags (61 :: tail) =
      scanCapability true [] (cString seg) value flags tail := by
  rw [scanCapability, if_neg Bool.false_ne_true, if_neg (by decide), if_neg (by decide),
    if_pos ⟨rfl, hseg⟩]

section Separator

variable {c : UInt8} (hc : c = 32 ∨ c = 13 ∨ c = 10) (tail : List UInt8)
include hc

theorem scan_separator_value (hseg : seg ≠ []) (hclean : 0 ∉ seg) (htoken : token ≠ []) :
    scanCapability false seg token [] flags (c :: tail) =
      scanCapability true [] [] [] (flags ||| tspSetCapability token seg) tail := by
  have hzero : c ≠ 0 := by rcases hc with rfl | rfl | rfl <;> decide
  have hvalue : (if seg ≠ [] ∧ token ≠ [] ∧ ([] : List UInt8) = [] then cString seg else []) =
      seg := by
    rw [if_pos ⟨hseg, htoken, rfl⟩, cString_of_notMem hclean]
  rw [scanCapability, if_neg Bool.false_ne_true, if_neg hzero, if_pos hc, hvalue]
  exact if_pos ⟨hseg, htoken, hseg⟩

theorem scan_separator_unnamed : scanCapability false seg [] [] flags (c :: tail) =
      scanCapability true [] [] [] flags tail := by
  have hzero : c ≠ 0 := by rcases hc with rfl | rfl | rfl <;> decide
  rw [scanCapability, if_neg Bool.false_ne_true, if_neg hzero, if_pos hc]
  simp only [ne_eq, not_true_eq_false, false_and, and_false, if_false]

end Separator

theorem scan_text (p : Pair) (tail : List UInt8) :
    scanCapability false [] [] [] flags (p.text ++ tail) =
      if p.name = [] then scanCapability false p.text [] [] flags tail
      else scanCapability false p.value p.name [] flags tail := by
  obtain ⟨d, value, hvalue⟩ := exists_cons_of_ne_nil p.value_ne
  unfold Pair.text
  rw [append_assoc, cons_append]
  split_ifs with hname
  · rw [hname, nil_append, nil_append, scan_equals_first, scan_plain p.value_plain,
      singleton_append]
  · have hclean : 0 ∉ p.name := fun h => (p.name_plain 0 h).1 rfl
    rw [scan_plain p.name_plain, nil_append, scan_equals hname, cString_of_notMem hclean,
      hvalue, cons_append, scan_unseen,
      scan_plain fun c hc => p.value_plain c (by rw [hvalue]; exact mem_cons_of_mem _ hc),
      singleton_append]

variable {c : UInt8} {p : Pair}

theorem scan_pair (hc : c = 32 ∨ c = 13 ∨ c = 10) :
    scanCapability false [] [] [] flags (p.text ++ c :: tail) =
      scanCapability true [] [] [] (flags ||| tspSetCapability p.name p.value) tail := by
  rw [scan_text]
  split_ifs with hname
  · have htunnel : ([] : List UInt8) ≠ ascii "TUNNEL" := by decide
    have hauth : ([] : List UInt8) ≠ ascii "AUTH" := by decide
    have hnone : tspSetCapability [] p.value = 0 := by
      unfold tspSetCapability
      simp only [htunnel, hauth, false_and, if_false]
    rw [hname, hnone, UInt32.or_zero]
    exact scan_separator_unnamed hc tail
  · have hclean : 0 ∉ p.value := fun h => (p.value_plain 0 h).1 rfl
    exact scan_separator_value hc tail p.value_ne hclean hname

theorem scan_pair_end : scanCapability false [] [] [] flags (p.text ++ 0 :: behind) = flags := by
  rw [scan_text, scan_zero, scan_zero, ite_self]

theorem scan_unseen_pair (p : Pair) (tail : List UInt8) :
    scanCapability true [] [] [] flags (p.text ++ tail) =
      scanCapability false [] [] [] flags (p.text ++ tail) := by
  unfold Pair.text
  cases hname : p.name with
  | nil =>
    rw [nil_append, cons_append, scan_unseen, scan_equals_first]
  | cons c name =>
    have hc : ∀ d ∈ [c], Plain d := by
      intro d hd
      refine p.name_plain d ?_
      rw [hname, mem_singleton.mp hd]
      exact mem_cons_self
    rw [cons_append, cons_append, scan_unseen]
    show _ = scanCapability false [] [] [] flags ([c] ++ (name ++ 61 :: p.value ++ tail))
    rw [scan_plain hc, nil_append]

theorem lineText_singleton (p : Pair) : lineText [p] = p.text := intercalate_singleton

variable {pairs : List Pair}

theorem lineText_cons {q : Pair} :
    lineText (p :: q :: pairs) = p.text ++ 32 :: lineText (q :: pairs) := by
  unfold lineText
  rfl

theorem lineText_of_cons : ∃ rest, lineText (p :: pairs) = p.text ++ rest := by
  cases pairs with
  | nil => exact ⟨[], by rw [lineText_singleton, append_nil]⟩
  | cons q pairs => exact ⟨_, lineText_cons⟩

theorem scan_line_cons (p q : Pair) (pairs : List Pair) (tail : List UInt8) :
    scanCapability false [] [] [] flags (lineText (p :: q :: pairs) ++ tail) =
      scanCapability false [] [] [] (flags ||| tspSetCapability p.name p.value)
        (lineText (q :: pairs) ++ tail) := by
  obtain ⟨rest, hrest⟩ := lineText_of_cons
  rw [lineText_cons, append_assoc, cons_append, scan_pair (.inl rfl), hrest,
    append_assoc, scan_unseen_pair]

theorem scan_line (hc : c = 32 ∨ c = 13 ∨ c = 10) :
    scanCapability false [] [] [] flags (lineText pairs ++ c :: tail) =
      scanCapability true [] [] [] (lineFlags flags pairs) tail := by
  induction pairs generalizing flags with
  | nil => exact scan_separator_unnamed hc tail
  | cons p pairs ih =>
    cases pairs with
    | nil =>
      rw [lineText_singleton]
      exact scan_pair hc
    | cons q pairs =>
      rw [scan_line_cons, ih]
      rfl

theorem scan_line_end : scanCapability false [] [] [] flags (lineText pairs ++ 0 :: behind) =
      lineFlags flags pairs.dropLast := by
  induction pairs generalizing flags with
  | nil => exact scan_zero
  | cons p pairs ih =>
    cases pairs with
    | nil =>
      rw [lineText_singleton]
      exact scan_pair_end
    | cons q pairs =>
      rw [scan_line_cons, ih]
      rfl

theorem scan_flags (unseen : Bool) (mem : List UInt8) :
    scanCapability unseen seg token value flags mem =
      flags ||| scanCapability unseen seg token value 0 mem := by
  induction mem generalizing unseen seg token value flags with
  | nil => exact UInt32.or_zero.symm
  | cons c mem ih =>
    have htaken : ∀ set : UInt32, scanCapability true [] [] [] (flags ||| set) mem =
        flags ||| scanCapability true [] [] [] (0 ||| set) mem := by
      intro set
      calc scanCapability true [] [] [] (flags ||| set) mem
          = flags ||| set ||| scanCapability true [] [] [] 0 mem := ih true
        _ = flags ||| (set ||| scanCapability true [] [] [] 0 mem) := UInt32.or_assoc _ _ _
        _ = flags ||| scanCapability true [] [] [] set mem := congrArg _ (ih true).symm
        _ = flags ||| scanCapability true [] [] [] (0 ||| set) mem := by rw [UInt32.zero_or]
    unfold scanCapability
    dsimp only
    split_ifs
    · exact ih _
    · exact UInt32.or_zero.symm
    · exact htaken _
    · exact ih _
    · exact htaken _
    · exact ih _
    · exact ih _
    · exact ih _

end Scan

/-- The flags from the memory behind the zero that ends the string. -/
def flagsBehind (behind : List UInt8) : UInt32 := scanCapability false [0] [] [] 0 behind

/-- A line feed as the last byte leads the scanner past the end of the string, and without one the
last pair is lost. -/
theorem extract_line (pairs : List Pair) (ending : Ending) (behind : List UInt8) :
    tspExtractCapability (capabilityLine pairs ending behind) =
      match ending with
      | .crlf => lineFlags 0 pairs
      | .lf => lineFlags 0 pairs ||| flagsBehind behind
      | .string => lineFlags 0 pairs.dropLast := by
  have hdrop : (capabilityLine pairs ending behind).drop 11 =
      lineText pairs ++ (ending.bytes ++ 0 :: behind) := by
    have hlength : (ascii "CAPABILITY ").length = 11 := by decide
    rw [capabilityLine, ← hlength, drop_left]
  unfold tspExtractCapability
  cases ending with
  | crlf =>
    exact (scan_line (.inr (.inl rfl))).trans (scan_unseen.trans scan_zero)
  | lf =>
    exact (scan_line (.inr (.inr rfl))).trans (scan_unseen.trans (scan_flags _ _))
  | string => exact scan_line_end

/-! ## Which mechanism is run -/

def Pair.Names (p : Pair) (m : Mechanism) : Prop :=
  p.name = ascii "AUTH" ∧ SameNoCase m.name p.value

instance (p : Pair) (m : Mechanism) : Decidable (p.Names m) := inferInstanceAs (Decidable (_ ∧ _))

def Listed (pairs : List Pair) (m : Mechanism) : Prop := ∃ p ∈ pairs, p.Names m

instance (pairs : List Pair) (m : Mechanism) : Decidable (Listed pairs m) :=
  inferInstanceAs (Decidable (∃ p ∈ pairs, p.Names m))

def Allowed (method : List UInt8) (m : Mechanism) : Prop :=
  SameNoCase method (ascii "any") ∨ SameNoCase m.name method

instance (method : List UInt8) (m : Mechanism) : Decidable (Allowed method m) :=
  inferInstanceAs (Decidable (_ ∨ _))

/-- The strongest of the mechanisms with the property `has` that the configuration allows. -/
def strongest (method : List UInt8) (has : Mechanism → Prop) [DecidablePred has] :
    Option Mechanism :=
  [Mechanism.passdss3des1, .digestMd5, .plain].find? fun m => has m ∧ Allowed method m

theorem lineFlags_flag (flags : UInt32) (pairs : List Pair) (m : Mechanism) :
    lineFlags flags pairs &&& m.flag ≠ 0 ↔ flags &&& m.flag ≠ 0 ∨ Listed pairs m := by
  induction pairs generalizing flags with
  | nil => exact (or_iff_left fun ⟨_, h, _⟩ => nomatch h).symm
  | cons p pairs ih =>
    refine (ih _).trans ?_
    rw [or_and_ne_zero, tspSetCapability_flag, or_assoc]
    refine or_congr_right ⟨?_, ?_⟩
    · rintro (hp | ⟨q, hq, hnames⟩)
      · exact ⟨p, mem_cons_self, hp⟩
      · exact ⟨q, mem_cons_of_mem _ hq, hnames⟩
    · rintro ⟨q, hq, hnames⟩
      rcases mem_cons.mp hq with rfl | hq
      · exact .inl hnames
      · exact .inr ⟨q, hq, hnames⟩

theorem allowed_and_flag (method : List UInt8) (m : Mechanism) :
    allowedMechanisms method &&& m.flag = if Allowed method m then m.flag else 0 := by
  unfold allowedMechanisms
  by_cases hany : SameNoCase method (ascii "any")
  · rw [if_pos hany, if_pos (.inl hany)]
    cases m <;> rfl
  · rw [if_neg hany, tspSetCapability_auth]
    have hname : Allowed method m ↔ Mechanism.ofName method = some m := by
      rw [ofName_eq_some_iff]
      exact or_iff_right hany
    simp only [hname]
    cases Mechanism.ofName method with
    | none => exact UInt32.zero_and
    | some m' => cases m <;> cases m' <;> rfl

theorem allowed_and_cap (method : List UInt8) (cap : UInt32) (m : Mechanism) :
    allowedMechanisms method &&& cap &&& m.flag ≠ 0 ↔ cap &&& m.flag ≠ 0 ∧ Allowed method m := by
  rw [UInt32.and_comm (allowedMechanisms method), UInt32.and_assoc, allowed_and_flag]
  split_ifs with hallowed
  · exact (and_iff_left hallowed).symm
  · exact iff_of_false (not_not.mpr UInt32.and_zero) fun h => hallowed h.2

/-- The mechanism that is run is the strongest one, and it is `ANONYMOUS` only if that is
configured. -/
def RunsStrongest (method : List UInt8) (has : Mechanism → Prop) [DecidablePred has]
    (runs : Option Mechanism) : Prop :=
  runs.filter (· ≠ .anonymous) = strongest method has ∧
    (runs = some .anonymous → SameNoCase method (ascii "anonymous"))

theorem not_allowed_of_anonymous (hmethod : SameNoCase method (ascii "anonymous"))
    (hm : m ≠ .anonymous) :
    ¬Allowed method m := by
  have hsame : SameNoCase (ascii "anonymous") Mechanism.anonymous.name := by decide
  have hany : ¬SameNoCase (ascii "anonymous") (ascii "any") := by decide
  rintro (h | hname)
  · exact hany (hmethod.symm.trans h)
  · have h : SameNoCase m.name Mechanism.anonymous.name := hname.trans (hmethod.trans hsame)
    exact hm (name_injective h)

theorem strongest_mem [DecidablePred has] (h : strongest method has = some m) :
    has m ∧ Allowed method m := by
  have hfound := find?_some h
  exact of_decide_eq_true hfound

theorem strongest_ne_anonymous [DecidablePred has] : strongest method has ≠ some .anonymous := by
  intro h
  exact nomatch mem_of_find?_eq_some h

theorem strongest_eq (method : List UInt8) (has : Mechanism → Prop) [DecidablePred has] :
    strongest method has =
      if has .passdss3des1 ∧ Allowed method .passdss3des1 then some .passdss3des1
      else if has .digestMd5 ∧ Allowed method .digestMd5 then some .digestMd5
      else if has .plain ∧ Allowed method .plain then some .plain
      else none := by
  have hcons : ∀ m ms, find? (fun m => decide (has m ∧ Allowed method m)) (m :: ms) =
      if has m ∧ Allowed method m then some m
      else find? (fun m => decide (has m ∧ Allowed method m)) ms := by
    intro m ms
    rw [find?_cons]
    split_ifs with h
    · rw [decide_eq_true h]
    · rw [decide_eq_false h]
  unfold strongest
  rw [hcons, hcons, hcons, find?_nil]

theorem chosen_runsStrongest {cap : UInt32} :
    RunsStrongest method (fun m => cap &&& m.flag ≠ 0) (chosenMechanism method cap) := by
  unfold chosenMechanism
  simp only [allowed_and_cap]
  by_cases hmethod : SameNoCase method (ascii "anonymous")
  · refine ⟨?_, fun _ => hmethod⟩
    have hnone : strongest method (fun m => cap &&& m.flag ≠ 0) = none := by
      refine find?_eq_none.mpr fun m hm => ?_
      have hne : m ≠ .anonymous := by
        rintro rfl
        exact nomatch hm
      exact fun h => not_allowed_of_anonymous hmethod hne (of_decide_eq_true h).2
    rw [hnone]
    split_ifs
    · rfl
    · rfl
  · rw [if_pos hmethod, ← strongest_eq method fun m => cap &&& m.flag ≠ 0]
    refine ⟨?_, fun h => absurd h strongest_ne_anonymous⟩
    cases hm : strongest method fun m => cap &&& m.flag ≠ 0 with
    | none => rfl
    | some m =>
      have hne : m ≠ .anonymous := by
        rintro rfl
        exact strongest_ne_anonymous hm
      rw [Option.filter, if_pos (decide_eq_true hne)]

theorem strongest_eq_iff [DecidablePred has] [DecidablePred has'] (hle : ∀ m, has m → has' m) :
    strongest method has = strongest method has' ↔ ∀ m, strongest method has' = some m → has m := by
  constructor
  · intro heq m hm
    exact (strongest_mem (heq.trans hm)).1
  · intro hkept
    cases h' : strongest method has' with
    | none =>
      refine find?_eq_none.mpr fun m hm h => ?_
      have hno := find?_eq_none.mp h' m hm
      exact hno (decide_eq_true ((of_decide_eq_true h).imp_left (hle m)))
    | some m =>
      have hhas := hkept m h'
      have hallowed := (strongest_mem h').2
      obtain ⟨-, before, rest, hlist, hbefore⟩ := find?_eq_some_iff_append.mp h'
      refine find?_eq_some_iff_append.mpr
        ⟨decide_eq_true ⟨hhas, hallowed⟩, before, rest, hlist, fun k hk => ?_⟩
      have hno := hbefore k hk
      rw [Bool.not_eq_true', decide_eq_false_iff_not] at hno ⊢
      exact fun h => hno (h.imp_left (hle k))

theorem strongest_congr [DecidablePred has] [DecidablePred has'] (h : ∀ m, has m ↔ has' m) :
    strongest method has = strongest method has' :=
  (strongest_eq_iff fun m => (h m).mp).mpr fun m hm => (h m).mpr (strongest_mem hm).1

theorem tspAuthenticate_fst (method : List UInt8) (cap : UInt32) (procedure : Mechanism → Status) :
    (tspAuthenticate method cap procedure).1 = chosenMechanism method cap := by
  unfold tspAuthenticate
  cases chosenMechanism method cap with
  | none | some m => rfl

theorem extract_flag (pairs : List Pair) (ending : Ending) (behind : List UInt8) (m : Mechanism) :
    tspExtractCapability (capabilityLine pairs ending behind) &&& m.flag ≠ 0 ↔
      match ending with
      | .crlf => Listed pairs m
      | .lf => Listed pairs m ∨ flagsBehind behind &&& m.flag ≠ 0
      | .string => Listed pairs.dropLast m := by
  have hline : ∀ ps, lineFlags 0 ps &&& m.flag ≠ 0 ↔ Listed ps m := fun ps =>
    (lineFlags_flag 0 ps m).trans (or_iff_right (not_not.mpr UInt32.zero_and))
  rw [extract_line]
  cases ending with
  | crlf => exact hline pairs
  | lf => exact or_and_ne_zero.trans (or_congr_left (hline pairs))
  | string => exact hline pairs.dropLast

/-- For a line that ends with CR and LF the strongest mechanism is run. If it ends with LF alone it
is, unless the memory behind the string has a stronger one. If it ends with the string it is, unless
only the last pair names it. -/
theorem strongest_mechanism_run_iff (method : List UInt8) (pairs : List Pair) (ending : Ending)
    (behind : List UInt8) (procedure : Mechanism → Status) :
    RunsStrongest method (Listed pairs)
      (tspAuthenticate method (tspExtractCapability (capabilityLine pairs ending behind))
        procedure).1 ↔
      match ending with
      | .crlf => True
      | .lf => ∀ m, strongest method (fun m => Listed pairs m ∨ flagsBehind behind &&& m.flag ≠ 0) =
          some m → Listed pairs m
      | .string => ∀ m, strongest method (Listed pairs) = some m → Listed pairs.dropLast m := by
  rw [tspAuthenticate_fst]
  obtain ⟨hfilter, hanonymous⟩ := chosen_runsStrongest
  unfold RunsStrongest
  rw [hfilter, and_iff_left hanonymous]
  have hflag := extract_flag pairs ending behind
  cases ending with
  | crlf => exact iff_of_true (strongest_congr hflag) trivial
  | lf =>
    rw [strongest_congr hflag, eq_comm]
    exact strongest_eq_iff fun m => .inl
  | string =>
    rw [strongest_congr hflag]
    refine strongest_eq_iff fun m ⟨p, hp, hnames⟩ => ⟨p, dropLast_subset _ hp, hnames⟩

-- The buffer of `tspGetCapabilities` is zero behind the line.
example (behind : List UInt8) : flagsBehind (0 :: behind) = 0 := scan_zero

/-! ## A line that ends with the string -/

def tunnelV6v4 : Pair := ⟨ascii "TUNNEL", ascii "V6V4",
  by decide +kernel, by decide +kernel, by decide +kernel⟩

def authPlain : Pair := ⟨ascii "AUTH", ascii "PLAIN",
  by decide +kernel, by decide +kernel, by decide +kernel⟩

def authDigestMd5 : Pair := ⟨ascii "AUTH", ascii "DIGEST-MD5",
  by decide +kernel, by decide +kernel, by decide +kernel⟩

def digestLast : List Pair := [tunnelV6v4, authPlain, authDigestMd5]

theorem plain_run_for_digest :
    (tspAuthenticate (ascii "any") (tspExtractCapability (capabilityLine digestLast .string []))
      fun _ => .success).1 = some .plain ∧ Listed digestLast .digestMd5 ∧
    ¬RunsStrongest (ascii "any") (Listed digestLast)
      (tspAuthenticate (ascii "any") (tspExtractCapability (capabilityLine digestLast .string []))
        fun _ => .success).1 := by
  have hplain : (tspAuthenticate (ascii "any")
      (tspExtractCapability (capabilityLine digestLast .string [])) fun _ => .success).1 =
        some .plain := by
    decide +kernel
  have hdigest : strongest (ascii "any") (Listed digestLast) = some .digestMd5 := by
    decide +kernel
  refine ⟨hplain, (strongest_mem hdigest).1, ?_⟩
  rintro ⟨hstrongest, -⟩
  exact nomatch hstrongest

end Maiccu.Gogoc.Auth
