import Mathlib.Algebra.Order.BigOperators.Group.List
import Mathlib.Data.List.TakeWhile
import Maiccu.Lib.Bytes

/-!
# Texts in C

Texts as lists of bytes without the zero at the end, and the library functions on them: comparing
without regard to case, cutting at separators, printing numbers.
-/

namespace Maiccu.Lib

open List

def ascii (s : String) : List UInt8 := s.toList.map fun c => UInt8.ofNat c.toNat

/-- `tolower`. -/
def lower (c : UInt8) : UInt8 := if 65 ≤ c ∧ c ≤ 90 then c + 32 else c

/-- `strcasecmp (s, t) == 0`. -/
def SameNoCase (s t : List UInt8) : Prop := s.map lower = t.map lower

instance (s t : List UInt8) : Decidable (SameNoCase s t) := inferInstanceAs (Decidable (_ = _))

/-- What `snprintf` writes to a buffer of the size `n`. -/
def snprintf (n : ℕ) (s : List UInt8) : List UInt8 := s.take (n - 1)

/-- `%d`. -/
def showInt (n : ℤ) : List UInt8 := ascii (toString n)

/-- All that `strtok` returns for a text and the separator `c`. -/
def tokens (c : UInt8) (s : List UInt8) : List (List UInt8) := (s.splitOn c).filter (· ≠ [])

/-- The text in which `strtok` has cut the first token off. -/
def cutToken (c : UInt8) (s : List UInt8) : List UInt8 :=
  s.takeWhile (· = c) ++ (s.dropWhile (· = c)).takeWhile (· ≠ c)

/-- What follows the first place where the text `m` stands. -/
def after (m : List UInt8) : List UInt8 → Option (List UInt8)
  | [] => if m = [] then some [] else none
  | c :: s => if m.isPrefixOf (c :: s) then some ((c :: s).drop m.length) else after m s

/-- The place of the first occurrence of `m`. -/
def strstr (m : List UInt8) : List UInt8 → Option ℕ
  | [] => if m = [] then some 0 else none
  | c :: s => if m.isPrefixOf (c :: s) then some 0 else (strstr m s).map (· + 1)

/-- What successive calls of `fgets` with a buffer of the size `n` read; `line` was read already. -/
def fgetsLines (n : ℕ) (line : List UInt8) : List UInt8 → List (List UInt8)
  | [] => if line = [] then [] else [line]
  | c :: s =>
    if c = 10 ∨ line.length + 2 = n then (line ++ [c]) :: fgetsLines n [] s
    else fgetsLines n (line ++ [c]) s

/-- The text in a buffer: up to the first zero. -/
def cString (s : List UInt8) : List UInt8 := s.takeWhile (· ≠ 0)

def chomp (s : List UInt8) : List UInt8 :=
  if s.getLast? = some 10 ∨ s.getLast? = some 13 then s.dropLast else s

variable {n k : ℕ} {s : List UInt8} {c x : UInt8}

theorem snprintf_of_lt (h : s.length < n) : snprintf n s = s :=
  take_of_length_le (by omega)

/-! ## The text in a buffer -/

theorem takeWhile_append_cons {p : UInt8 → Bool} (hc : p c = false) (s t : List UInt8) :
    (s ++ c :: t).takeWhile p = s.takeWhile p := by
  rw [takeWhile_append]
  split_ifs with hall
  · rw [takeWhile_cons_of_neg (by rw [hc]; exact Bool.false_ne_true), append_nil]
    exact ((List.takeWhile_prefix p).eq_of_length hall).symm
  · rfl

theorem takeWhile_ne_of_notMem (h : c ∉ s) : s.takeWhile (· ≠ c) = s :=
  takeWhile_eq_self_iff.mpr fun _ hx => decide_eq_true fun hc => h (hc ▸ hx)

theorem eq_of_append_cons {a b x y : List UInt8} (ha : c ∉ a) (hb : c ∉ b)
    (h : a ++ c :: x = b ++ c :: y) : a = b := by
  have hcut := congrArg (takeWhile (· ≠ c)) h
  rwa [takeWhile_append_cons (by simp), takeWhile_append_cons (by simp),
    takeWhile_ne_of_notMem ha, takeWhile_ne_of_notMem hb] at hcut

theorem cString_append_of_mem (hs : 0 ∈ s) (t : List UInt8) : cString (s ++ t) = cString s := by
  obtain ⟨a, b, rfl, -⟩ := eq_append_cons_of_mem hs
  unfold cString
  rw [append_assoc, cons_append, takeWhile_append_cons (by decide),
    takeWhile_append_cons (by decide)]

theorem cString_of_notMem (hs : 0 ∉ s) : cString s = s :=
  takeWhile_eq_self_iff.mpr fun _ hc => decide_eq_true fun h => hs (h ▸ hc)

theorem cString_append_of_notMem (hs : 0 ∉ s) (t : List UInt8) :
    cString (s ++ t) = s ++ cString t :=
  takeWhile_append_of_pos fun _ hc => decide_eq_true fun h => hs (h ▸ hc)

theorem zero_notMem_cString (s : List UInt8) : 0 ∉ cString s := fun h =>
  absurd rfl (of_decide_eq_true (mem_takeWhile_imp (p := fun c => decide (c ≠ 0)) h))

/-! ## Dotted addresses -/

/-- The decimal digit `k`. -/
def digit (k : ℕ) : UInt8 := UInt8.ofNat (48 + k)

variable (b : UInt8)

/-- The byte `b` in decimal. -/
def showByte : List UInt8 :=
  (if 100 ≤ b.toNat then [digit (b.toNat / 100)] else []) ++
    (if 10 ≤ b.toNat then [digit (b.toNat / 10 % 10)] else []) ++ [digit (b.toNat % 10)]

/-- `inet_ntop` for an IPv4 address. -/
def inetNtop (a : Bytes 4) : List UInt8 :=
  showByte (a.get 0) ++ 46 :: (showByte (a.get 1) ++ 46 :: (showByte (a.get 2) ++
    46 :: showByte (a.get 3)))

/-- The number with the digits `s`. -/
def readDec (s : List UInt8) : ℕ := s.foldl (fun n c => 10 * n + (c.toNat - 48)) 0

theorem digit_mem (hk : k ≤ 9) : 48 ≤ digit k ∧ digit k ≤ 57 := by
  constructor
  · rw [UInt8.le_iff_toNat_le]
    simp only [digit, UInt8.toNat_ofNat', UInt8.reduceToNat]
    omega
  · rw [UInt8.le_iff_toNat_le]
    simp only [digit, UInt8.toNat_ofNat', UInt8.reduceToNat]
    omega

theorem showByte_digits {b : UInt8} (hc : c ∈ showByte b) : 48 ≤ c ∧ c ≤ 57 := by
  have hb := b.toNat_lt
  unfold showByte at hc
  rw [mem_append, mem_append, mem_singleton] at hc
  rcases hc with (hc | hc) | rfl
  · split_ifs at hc
    · rw [mem_singleton.mp hc]
      exact digit_mem (by omega)
    · cases hc
  · split_ifs at hc
    · rw [mem_singleton.mp hc]
      exact digit_mem (by omega)
    · cases hc
  · exact digit_mem (by omega)

theorem showByte_length : (showByte b).length ≤ 3 := by
  unfold showByte
  split_ifs <;> simp

theorem digit_toNat (hk : k ≤ 9) : (digit k).toNat - 48 = k := by
  simp only [digit, UInt8.toNat_ofNat']
  omega

theorem readDec_showByte : readDec (showByte b) = b.toNat := by
  have hb := b.toNat_lt
  have h₁ := digit_toNat (k := b.toNat / 100) (by omega)
  have h₂ := digit_toNat (k := b.toNat / 10 % 10) (by omega)
  have h₃ := digit_toNat (k := b.toNat % 10) (by omega)
  unfold readDec showByte
  split_ifs <;>
    simp only [cons_append, nil_append, foldl_cons, foldl_nil, h₁, h₂, h₃] <;>
    omega

theorem showByte_injective : Function.Injective showByte := fun a b h =>
  UInt8.toNat_inj.mp (by rw [← readDec_showByte a, ← readDec_showByte b, h])

theorem dot_notMem_showByte : 46 ∉ showByte b := fun h =>
  nomatch (showByte_digits h).1

theorem showByte_append_inj {y : UInt8} {t : List UInt8}
    (h : showByte x ++ 46 :: s = showByte y ++ 46 :: t) : x = y ∧ s = t := by
  have hxy := eq_of_append_cons (dot_notMem_showByte x) (dot_notMem_showByte y) h
  rw [hxy] at h
  exact ⟨showByte_injective hxy, (cons.inj (append_cancel_left h)).2⟩

theorem inetNtop_injective : Function.Injective inetNtop := by
  intro a b h
  obtain ⟨h₀, h⟩ := showByte_append_inj h
  obtain ⟨h₁, h⟩ := showByte_append_inj h
  obtain ⟨h₂, h⟩ := showByte_append_inj h
  have h₃ := showByte_injective h
  exact List.Vector.ext fun
    | 0 => h₀
    | 1 => h₁
    | 2 => h₂
    | 3 => h₃

theorem inetNtop_chars {a : Bytes 4} (hx : x ∈ inetNtop a) : x = 46 ∨ 48 ≤ x ∧ x ≤ 57 := by
  simp only [inetNtop, mem_append, mem_cons] at hx
  rcases hx with hx | rfl | hx | rfl | hx | rfl | hx
  · exact .inr (showByte_digits hx)
  · exact .inl rfl
  · exact .inr (showByte_digits hx)
  · exact .inl rfl
  · exact .inr (showByte_digits hx)
  · exact .inl rfl
  · exact .inr (showByte_digits hx)

theorem inetNtop_length (a : Bytes 4) : (inetNtop a).length ≤ 15 := by
  have h₀ := showByte_length (a.get 0)
  have h₁ := showByte_length (a.get 1)
  have h₂ := showByte_length (a.get 2)
  have h₃ := showByte_length (a.get 3)
  simp only [inetNtop, length_append, length_cons]
  omega

/-! ## Printed numbers -/

theorem mem_showNat (h : c ∈ showInt n) : 48 ≤ c ∧ c ≤ 57 := by
  obtain ⟨d, hd, rfl⟩ := mem_map.mp h
  have hdigits : d ∈ Nat.toDigits 10 n := by
    have hrepr : (toString (n : ℤ)).toList = Nat.toDigits 10 n := String.toList_ofList
    rwa [hrepr] at hd
  have hrange := Nat.isDigit_of_mem_toDigits (by omega) (by omega) hdigits
  unfold Char.isDigit at hrange
  rw [Bool.and_eq_true, decide_eq_true_eq, decide_eq_true_eq] at hrange
  have hbounds : 48 ≤ d.toNat ∧ d.toNat ≤ 57 := hrange
  rw [UInt8.le_iff_toNat_le, UInt8.le_iff_toNat_le, UInt8.toNat_ofNat', Nat.mod_eq_of_lt (by omega)]
  exact hbounds

theorem mem_showInt {n : ℤ} (h : c ∈ showInt n) : c = 45 ∨ 48 ≤ c ∧ c ≤ 57 := by
  cases n with
  | ofNat n => exact Or.inr (mem_showNat h)
  | negSucc n =>
    have hshow : showInt (Int.negSucc n) = 45 :: showInt (n + 1 : ℕ) := by
      show ("-" ++ (n + 1).repr).toList.map _ = _
      rw [String.toList_append]
      rfl
    rw [hshow, mem_cons] at h
    exact h.imp_right mem_showNat

/-! ## Texts in pieces -/

theorem flatMap_eq_iff {α β : Type*} {f g : α → List β} {l : List α}
    (h : ∀ x ∈ l, (f x).length ≤ (g x).length) :
    l.flatMap f = l.flatMap g ↔ ∀ x ∈ l, f x = g x := by
  refine ⟨fun heq => ?_, flatMap_congr⟩
  have hsum := congrArg length heq
  rw [length_flatMap, length_flatMap] at hsum
  have hlen : ∀ x ∈ l, (f x).length = (g x).length := by
    intro x hx
    by_contra hne
    exact hsum.not_lt (sum_lt_sum _ _ h ⟨x, hx, (h x hx).lt_of_ne hne⟩)
  refine map_eq_map_iff.mp (eq_iff_flatten_eq.mpr ⟨heq, ?_⟩)
  rw [map_map, map_map]
  exact map_congr_left hlen

end Maiccu.Lib
