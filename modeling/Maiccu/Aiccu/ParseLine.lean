import Maiccu.Aiccu.CheckTime
import Maiccu.Lib.CText
import Maiccu.Lib.CutText

/-!
# Lines with a title and a value

`parseline` of `common.c` reads a line `title separator value` into the field that a table of rules
gives for the title. The loop that should skip blanks in front of a value has a condition that is
never true, the first rule is taken whose title the text starts with, the character where no
separator was found is overwritten, and quotes are looked for right behind the first character of
the separator.
-/

namespace Maiccu.Aiccu

open Maiccu.Lib List Option

/-! ## Rules -/

/-- `enum pl_ruletype`, without the mark of the end of a table. -/
inductive PlRuletype where
  | string
  | integer
  | bool
  | ipv4
  | ipv6
  deriving DecidableEq

/-- What a field of the type holds. A string is a pointer, and `bool` is 0 or 1. -/
abbrev PlRuletype.Val : PlRuletype → Type
  | .string => Option (List UInt8)
  | .integer => UInt32
  | .bool => Bool
  | .ipv4 => Bytes 4
  | .ipv6 => Bytes 16

abbrev Record (F : Type) (kind : F → PlRuletype) : Type := (f : F) → (kind f).Val

/-- `struct pl_rule`. The type of a rule is the type of its field. -/
structure PlRule (F : Type) where
  title : List UInt8
  offset : F
  deriving DecidableEq

/-- The functions for addresses: `inet_pton` with `AF_INET` and `AF_INET6`, and `inet_ntop`. -/
structure Inet where
  pton4 : List UInt8 → Option (Bytes 4)
  pton6 : List UInt8 → Option (Bytes 16)
  ntop6 : Bytes 16 → List UInt8

/-- What is stored for the text of a value; if nothing is, the field stays as it is. -/
def PlRuletype.read (inet : Inet) : (k : PlRuletype) → List UInt8 → Option k.Val
  | .string, val => some (some val)
  | .integer, val => some (UInt32.ofInt (Tic.atoi val))
  | .bool, val =>
    if val = ascii "yes" ∨ val = ascii "true" then some true
    else if val = ascii "no" ∨ val = ascii "false" then some false
    else none
  | .ipv4, val => inet.pton4 val
  | .ipv6, val => inet.pton6 val

section Rule

variable {F : Type} [DecidableEq F] {kind : F → PlRuletype}

def PlRule.store (inet : Inet) (r : PlRule F) (val : List UInt8) (data : Record F kind) :
    Record F kind :=
  match (kind r.offset).read inet val with
  | some x => Function.update data r.offset x
  | none => data

end Rule

/-! ## The line -/

/-- A `char` array with a string in it: the string, and the bytes behind its terminator. -/
structure LineBuf where
  line : List UInt8
  rest : List UInt8
  zero_notMem : 0 ∉ line

def LineBuf.ofArray (a : List UInt8) : LineBuf :=
  ⟨cString a, a.drop ((cString a).length + 1), zero_notMem_cString a⟩

variable {line : List UInt8}

theorem line_ofArray (hline : 0 ∉ line) (s : List UInt8) :
    (LineBuf.ofArray (line ++ 0 :: s)).line = line := by
  show cString (line ++ 0 :: s) = line
  rw [cString_append_of_notMem hline]
  simp [cString]

def isBlank (c : UInt8) : Bool := c = 10 || c = 13 || c = 9 || c = 32

def chop (s : List UInt8) : List UInt8 := s.rdropWhile isBlank

def Ignored (t : List UInt8) : Prop :=
  t = [] ∨ t.head? = some 35 ∨ t.head? = some 59 ∨ [47, 47] <+: t

instance (t : List UInt8) : Decidable (Ignored t) :=
  inferInstanceAs (Decidable (_ ∨ _ ∨ _ ∨ _))

/-- Where the walk to the separator stops: at the separator, or at the last character. -/
def endOfKey (split : List UInt8) : List UInt8 → ℕ
  | c :: d :: s => if split <+: c :: d :: s then 0 else endOfKey split (d :: s) + 1
  | _ => 0

/-- The string at the position `v` of an array, which has to end inside the array. -/
def stringAt (a : List UInt8) (v : ℕ) : Option (List UInt8) :=
  if 0 ∈ a.drop v then some (cString (a.drop v)) else none

/-- The value in the array `a`, whose line was cut at the position `i`. -/
def valueAt (split a : List UInt8) (i : ℕ) : Option (List UInt8) :=
  let p := i + 1
  let val := i + split.length
  if a.getD p 0 = 34 ∨ a.getD p 0 = 39 then
    -- up to the next quote or the end of the line
    let j := p + 1 + ((a.drop (p + 1)).takeWhile fun c => decide (c ≠ a.getD val 0 ∧ c ≠ 0)).length
    stringAt (a.set j 0) (val + 1)
  else stringAt a val

structure Parsed (S : Type) where
  ret : Bool
  data : S
  /-- The string that is left in the buffer. -/
  line : List UInt8
  /-- The value and the title in `Unknown boolean value "%s" for option "%s"`. -/
  warning : Option (List UInt8 × List UInt8)

section Parseline

variable {F : Type} [DecidableEq F] {kind : F → PlRuletype} (inet : Inet)

def PlRule.warning (kind : F → PlRuletype) (r : PlRule F) (val : List UInt8) :
    Option (List UInt8 × List UInt8) :=
  if kind r.offset = .bool ∧ (PlRuletype.bool.read inet val).isNone then some (val, r.title)
  else none

def LineBuf.behind (b : LineBuf) : List UInt8 :=
  replicate (b.line.length - (chop b.line).length) 0 ++ 0 :: b.rest

/-- The result is `none` if a value is read past the end of the array. -/
def parseline (split : List UInt8) (rules : List (PlRule F)) (b : LineBuf) (data : Record F kind) :
    Option (Parsed (Record F kind)) :=
  let t := chop b.line
  if Ignored t then some ⟨true, data, t, none⟩ else
  let i := endOfKey split t
  match rules.find? fun r => decide (r.title <+: t.take i) with
  | none => some ⟨false, data, t.take i, none⟩
  | some r => (valueAt split ((t ++ b.behind).set i 0) i).map fun val =>
    ⟨true, r.store inet val data, t.take i, r.warning inet kind val⟩

end Parseline

/-! ## The walk to the separator -/

section Walk

variable {m s a b : List UInt8}

theorem endOfKey_of_cutAt (h : cutAt m s = some (a, b)) (hlen : 2 ≤ m.length + b.length) :
    endOfKey m s = a.length := by
  induction s generalizing a with
  | nil =>
    have := congrArg length (eq_append_of_cutAt h)
    simp at this
    omega
  | cons c s ih =>
    rw [cutAt] at h
    split_ifs at h with hm
    · cases h
      cases s with
      | nil => rfl
      | cons d s => rw [endOfKey, if_pos hm, length_nil]
    · obtain ⟨⟨a', b'⟩, hr, heq⟩ := map_eq_some_iff.mp h
      simp only [Prod.mk.injEq] at heq
      obtain ⟨rfl, rfl⟩ := heq
      cases s with
      | nil =>
        have := congrArg length (eq_append_of_cutAt hr)
        simp at this
        omega
      | cons d s => rw [endOfKey, if_neg hm, ih hr, length_cons]

theorem endOfKey_of_cutAt_none (h : cutAt m s = none) : endOfKey m s = s.length - 1 := by
  induction s with
  | nil => rfl
  | cons c s ih =>
    cases s with
    | nil => rfl
    | cons d s =>
      rw [cutAt] at h
      split_ifs at h with hm
      rw [map_eq_none_iff] at h
      rw [endOfKey, if_neg hm, ih h]
      simp

end Walk

/-! ## The two separators -/

inductive Separator where
  /-- `" "` in a configuration file. -/
  | blank
  /-- `": "` in a reply. -/
  | colon
  deriving DecidableEq

def Separator.text : Separator → List UInt8
  | .blank => [32]
  | .colon => [58, 32]

def openQuote : List UInt8 → List UInt8
  | [] => []
  | q :: m => if q = 34 ∨ q = 39 then m.takeWhile (fun c => decide (c ≠ q)) else q :: m

/-- The value that the code takes from the text behind a separator. For `": "` the quote is expected
where the blank is. -/
def Separator.value : Separator → List UInt8 → List UInt8
  | .blank, w => openQuote w
  | .colon, w => w

section Value

variable {b : LineBuf} {sep : Separator} {k w : List UInt8}

theorem zero_notMem_chop (b : LineBuf) : 0 ∉ chop b.line := fun h =>
  b.zero_notMem ((List.rdropWhile_prefix isBlank _).subset h)

theorem exists_behind (b : LineBuf) : ∃ r, b.behind = 0 :: r := by
  unfold LineBuf.behind
  cases b.line.length - (chop b.line).length with
  | zero | succ n => exact ⟨_, rfl⟩

theorem stringAt_append {a s r : List UInt8} {v : ℕ} (hs : 0 ∉ s) (hv : a.length = v) :
    stringAt (a ++ (s ++ 0 :: r)) v = some s := by
  unfold stringAt
  rw [drop_left' hv, if_pos (by simp), cString_append_of_notMem hs]
  simp [cString]

theorem exists_openQuote (q : UInt8) (m r : List UInt8) : ∃ x y,
    m ++ 0 :: r = m.takeWhile (fun c => decide (c ≠ q)) ++ x :: y ∧ (x = q ∨ x = 0) := by
  have hsplit := takeWhile_append_dropWhile (p := fun c => decide (c ≠ q)) (l := m)
  cases hd : m.dropWhile fun c => decide (c ≠ q) with
  | nil =>
    rw [hd, append_nil] at hsplit
    exact ⟨0, r, by rw [hsplit], Or.inr rfl⟩
  | cons x y =>
    have hx := head_dropWhile_not (fun c => decide (c ≠ q)) (l := m) (by rw [hd]; simp)
    simp only [hd, head_cons] at hx
    refine ⟨x, y ++ 0 :: r, ?_, Or.inl (by simpa using hx)⟩
    rw [← cons_append, ← hd, ← append_assoc, hsplit]

theorem stringAt_set_takeWhile {a m r : List UInt8} {q : UInt8} {v : ℕ} (hm : 0 ∉ m)
    (hv : a.length = v) :
    stringAt ((a ++ (m ++ 0 :: r)).set (v + ((m ++ 0 :: r).takeWhile
      fun c => decide (c ≠ q ∧ c ≠ 0)).length) 0) v = some (m.takeWhile fun c =>
        decide (c ≠ q)) := by
  have hnot : 0 ∉ m.takeWhile fun c => decide (c ≠ q) := fun h =>
    hm ((List.takeWhile_prefix _).subset h)
  obtain ⟨x, y, heq, hx⟩ := exists_openQuote q m r
  have hpos : ∀ c ∈ m.takeWhile (fun c => decide (c ≠ q)), decide (c ≠ q ∧ c ≠ 0) = true := by
    intro c hc
    have hcq := mem_takeWhile_imp hc
    rw [decide_eq_true_eq] at hcq ⊢
    exact ⟨hcq, fun h => hnot (h ▸ hc)⟩
  have hnone : (x :: y).takeWhile (fun c => decide (c ≠ q ∧ c ≠ 0)) = [] :=
    takeWhile_cons_of_neg (by rcases hx with rfl | rfl <;> simp)
  rw [heq, takeWhile_append_of_pos hpos, hnone, append_nil, ← hv, set_append_right _ _ (by omega),
    Nat.add_sub_cancel_left, set_append_right _ _ le_rfl, Nat.sub_self, set_cons_zero]
  exact stringAt_append hnot rfl

theorem chop_eq_self_of_cutAt (h : cutAt sep.text (chop line) = some (k, w)) :
    w ≠ [] ∧ chop w = w := by
  have hself : chop (chop line) = chop line := rdropWhile_idempotent _ _
  rw [eq_append_of_cutAt h] at hself
  have hend := rdropWhile_eq_self_of_append hself
  refine ⟨?_, rdropWhile_eq_self_of_append hend⟩
  rintro rfl
  cases sep with
  | blank | colon => exact nomatch hend

end Value

/-! ## What `parseline` does -/

section Outcome

variable {F : Type} [DecidableEq F] {kind : F → PlRuletype} {inet : Inet} {sep : Separator}
  {rules : List (PlRule F)} {b : LineBuf} {data : Record F kind} {k w : List UInt8}

theorem parseline_of_ignored (h : Ignored (chop b.line)) :
    parseline inet sep.text rules b data = some ⟨true, data, chop b.line, none⟩ := if_pos h

theorem valueAt_of_cutAt (h : cutAt sep.text (chop b.line) = some (k, w)) :
    valueAt sep.text ((chop b.line ++ b.behind).set k.length 0) k.length = some (sep.value w) := by
  obtain ⟨hne, -⟩ := chop_eq_self_of_cutAt h
  have hline := eq_append_of_cutAt h
  obtain ⟨r, hr⟩ := exists_behind b
  have hw : 0 ∉ w := fun h0 => zero_notMem_chop b (hline ▸ by simp [h0])
  rw [hline, hr]
  cases sep with
  | blank =>
    obtain ⟨q, m, rfl⟩ := exists_cons_of_ne_nil hne
    have harr : (k ++ (Separator.blank.text ++ q :: m) ++ 0 :: r).set k.length 0 =
        (k ++ [0]) ++ (q :: m ++ 0 :: r) := by simp [Separator.text]
    have hq : ((k ++ [0]) ++ (q :: m ++ 0 :: r)).getD (k.length + 1) 0 = q := by
      simp
    rw [harr]
    simp only [valueAt, hq, Separator.text, length_singleton]
    rw [show Separator.blank.value (q :: m) = openQuote (q :: m) from rfl, openQuote]
    split_ifs with hquote
    · have hdrop : ((k ++ [0]) ++ (q :: m ++ 0 :: r)).drop (k.length + 1 + 1) = m ++ 0 :: r := by
        rw [show k ++ [0] ++ (q :: m ++ 0 :: r) = (k ++ [0, q]) ++ (m ++ 0 :: r) by simp]
        exact drop_left' (by simp)
      rw [hdrop, show k ++ [0] ++ (q :: m ++ 0 :: r) = (k ++ [0, q]) ++ (m ++ 0 :: r) by simp]
      refine stringAt_set_takeWhile (fun h0 => hw (mem_cons_of_mem q h0)) ?_
      simp
    · refine stringAt_append hw ?_
      simp
  | colon =>
    have harr : (k ++ (Separator.colon.text ++ w) ++ 0 :: r).set k.length 0 =
        (k ++ [0, 32]) ++ (w ++ 0 :: r) := by simp [Separator.text]
    have hp : ((k ++ [0, 32]) ++ (w ++ 0 :: r)).getD (k.length + 1) 0 = 32 := by
      rw [show k ++ [0, 32] ++ (w ++ 0 :: r) = (k ++ [0]) ++ (32 :: (w ++ 0 :: r)) by simp,
        getD_append_right _ _ _ _ (by simp)]
      simp
    rw [harr]
    simp only [valueAt, hp]
    exact stringAt_append hw (by simp [Separator.text])

theorem parseline_of_cutAt (hi : ¬ Ignored (chop b.line))
    (h : cutAt sep.text (chop b.line) = some (k, w)) :
    parseline inet sep.text rules b data =
      match rules.find? fun r => decide (r.title <+: k) with
      | none => some ⟨false, data, k, none⟩
      | some r =>
        some ⟨true, r.store inet (sep.value w) data, k, r.warning inet kind (sep.value w)⟩ := by
  obtain ⟨hne, -⟩ := chop_eq_self_of_cutAt h
  have hlen : 2 ≤ sep.text.length + w.length := by
    have := length_pos_iff.mpr hne
    cases sep <;> simp [Separator.text]
    omega
  have hend := endOfKey_of_cutAt h hlen
  have htake : (chop b.line).take k.length = k := by
    rw [eq_append_of_cutAt h, take_left]
  unfold parseline
  simp only [if_neg hi, hend, htake, valueAt_of_cutAt h, map_some]

/-- What is taken for the value of a line without a separator. -/
def LineBuf.endValue (b : LineBuf) : Separator → Option (List UInt8)
  | .blank => some []
  | .colon => stringAt b.behind 1

theorem parseline_of_cutAt_none (hi : ¬ Ignored (chop b.line))
    (h : cutAt sep.text (chop b.line) = none) :
    parseline inet sep.text rules b data =
      match rules.find? fun r => decide (r.title <+: (chop b.line).dropLast) with
      | none => some ⟨false, data, (chop b.line).dropLast, none⟩
      | some r => (b.endValue sep).map fun val =>
        ⟨true, r.store inet val data, (chop b.line).dropLast, r.warning inet kind val⟩ := by
  have hne : chop b.line ≠ [] := fun h0 => hi (Or.inl h0)
  have hend := endOfKey_of_cutAt_none h
  have htake : (chop b.line).take ((chop b.line).length - 1) = (chop b.line).dropLast :=
    (dropLast_eq_take).symm
  have hvalue : valueAt sep.text ((chop b.line ++ b.behind).set ((chop b.line).length - 1) 0)
      ((chop b.line).length - 1) = b.endValue sep := by
    obtain ⟨a, x, ht⟩ := (eq_nil_or_concat (chop b.line)).resolve_left hne
    obtain ⟨r, hr⟩ := exists_behind b
    have harr : (a ++ [x] ++ b.behind).set a.length 0 = (a ++ [0]) ++ b.behind := by simp
    have hp : ((a ++ [0]) ++ b.behind).getD (a.length + 1) 0 = 0 := by
      rw [hr, getD_append_right _ _ _ _ (by simp)]
      simp
    rw [ht, concat_eq_append, length_append, length_singleton, Nat.add_sub_cancel, harr]
    simp only [valueAt, hp]
    rw [if_neg (by decide)]
    cases sep with
    | blank =>
      rw [hr]
      exact stringAt_append (s := []) not_mem_nil (by simp [Separator.text])
    | colon =>
      unfold LineBuf.endValue stringAt
      have hdrop : ((a ++ [0]) ++ b.behind).drop (a.length + Separator.colon.text.length) =
          b.behind.drop 1 := by
        rw [show a.length + Separator.colon.text.length = (a ++ [0]).length + 1 by
          simp [Separator.text], drop_append]
        simp
      rw [hdrop]
  unfold parseline
  simp only [if_neg hi, hend, htake, hvalue]

end Outcome

end Maiccu.Aiccu
