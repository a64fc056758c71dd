import Maiccu.Lib.CText

/-!
# Buffers of a fixed size

Copying a text to a buffer, reading a text through a pointer, and `strtok`. What C leaves undefined
is a `Fault`. A call of `strtok` is told apart from the text it leaves in the buffer, which is
`cutToken`.
-/

namespace Maiccu.Lib

open List

inductive Fault where
  /-- A store past the end of a buffer. -/
  | overflow
  /-- A read through a null pointer. -/
  | nullRead
  deriving DecidableEq

/-- `strcpy` to a buffer of the size `n`. -/
def strcpy (n : ℕ) (s : List UInt8) : Except Fault (List UInt8) :=
  if s.length < n then .ok s else .error .overflow

def storeAt (a : List UInt8) (p : ℕ) (s : List UInt8) : Except Fault (List UInt8) :=
  if p + s.length ≤ a.length then .ok (a.take p ++ (s ++ a.drop (p + s.length)))
  else .error .overflow

def deref {α : Type*} : Option α → Except Fault α
  | some a => .ok a
  | none => .error .nullRead

/-- The token that a call of `strtok` with the separator `c` returns, and where the next call with a
null pointer goes on. -/
def strtok (c : UInt8) (s : List UInt8) : Option (List UInt8) × List UInt8 :=
  match s.dropWhile (· = c) with
  | [] => (none, [])
  | d :: t => (some ((d :: t).takeWhile (· ≠ c)), ((d :: t).dropWhile (· ≠ c)).tail)

variable {c d : UInt8} {n : ℕ} {a s : List UInt8}

theorem strcpy_of_lt (h : s.length < n) : strcpy n s = .ok s := if_pos h

theorem strcpy_of_le (h : n ≤ s.length) : strcpy n s = .error .overflow := if_neg (by omega)

theorem strcpy_bind {f : List UInt8 → Except Fault (List UInt8)}
    (h : n ≤ s.length → f s = .error .overflow) : (strcpy n s >>= f) = f s := by
  rcases Nat.lt_or_ge s.length n with hs | hs
  · rw [strcpy_of_lt hs]
    rfl
  · rw [strcpy_of_le hs, h hs]
    rfl

theorem exists_strcpy_iff : (∃ t, strcpy n s = .ok t) ↔ s.length < n := by
  refine ⟨fun ⟨t, h⟩ => ?_, fun h => ⟨s, strcpy_of_lt h⟩⟩
  by_contra hs
  rw [strcpy_of_le (Nat.le_of_not_lt hs)] at h
  cases h

/-! ## Stores -/

section Stores

variable {b r x : List UInt8} {p : ℕ}

theorem storeAt_append (h : s.length ≤ r.length) :
    storeAt (x ++ r) x.length s = .ok (x ++ (s ++ r.drop s.length)) := by
  unfold storeAt
  rw [if_pos (by rw [length_append]; omega), drop_append]
  simp [drop_eq_nil_of_le]

theorem length_of_storeAt (h : storeAt a p s = .ok b) :
    b.length = a.length ∧ p + s.length ≤ a.length := by
  unfold storeAt at h
  split_ifs at h with hin
  cases h
  refine ⟨?_, hin⟩
  simp only [length_append, length_take, length_drop]
  omega

end Stores

/-! ## Tokens -/

@[simp]
theorem strtok_nil (c : UInt8) : strtok c [] = (none, []) := rfl

@[simp]
theorem strtok_cons_self (c : UInt8) (s : List UInt8) : strtok c (c :: s) = strtok c s := by
  unfold strtok
  rw [dropWhile_cons_of_pos (by simp)]

theorem strtok_cons_of_ne (h : d ≠ c) (s : List UInt8) :
    strtok c (d :: s) = (some (d :: s.takeWhile (· ≠ c)), (s.dropWhile (· ≠ c)).tail) := by
  unfold strtok
  rw [dropWhile_cons_of_neg (by simpa using h)]
  dsimp only
  rw [takeWhile_cons_of_pos (by simpa using h), dropWhile_cons_of_pos (by simpa using h)]

theorem strtok_eq_none_iff : (strtok c s).1 = none ↔ ∀ d ∈ s, d = c := by
  have hall := dropWhile_eq_nil_iff (p := fun x => decide (x = c)) (l := s)
  unfold strtok
  cases hdrop : s.dropWhile (· = c) with
  | nil => simpa [hdrop] using hall
  | cons d t => simpa [hdrop] using hall

theorem length_le_of_strtok (h : (strtok c s).1 = some a) : a.length ≤ s.length := by
  unfold strtok at h
  split at h
  · cases h
  · rename_i hdrop
    cases h
    rw [← hdrop]
    exact ((List.takeWhile_prefix _).length_le).trans (dropWhile_suffix _).length_le

theorem dropWhile_ne_of_notMem (h : c ∉ s) : s.dropWhile (· ≠ c) = [] :=
  dropWhile_eq_nil_iff.mpr fun _ hx => decide_eq_true fun hc => h (hc ▸ hx)

theorem strtok_of_notMem (hne : a ≠ []) (h : c ∉ a) : strtok c a = (some a, []) := by
  cases a with
  | nil => exact absurd rfl hne
  | cons d a =>
    rw [mem_cons, not_or] at h
    rw [strtok_cons_of_ne (Ne.symm h.1), takeWhile_ne_of_notMem h.2, dropWhile_ne_of_notMem h.2,
      tail_nil]

theorem strtok_append (hne : a ≠ []) (h : c ∉ a) (s : List UInt8) :
    strtok c (a ++ c :: s) = (some a, s) := by
  cases a with
  | nil => exact absurd rfl hne
  | cons d a =>
    rw [mem_cons, not_or] at h
    rw [cons_append, strtok_cons_of_ne (Ne.symm h.1), takeWhile_append_cons (by simp),
      takeWhile_ne_of_notMem h.2, dropWhile_append, dropWhile_ne_of_notMem h.2]
    simp

theorem cutToken_append (hne : a ≠ []) (h : c ∉ a) (s : List UInt8) :
    cutToken c (a ++ c :: s) = a := by
  cases a with
  | nil => exact absurd rfl hne
  | cons d a =>
    have hd : d ≠ c := fun hd => h (hd ▸ mem_cons_self)
    unfold cutToken
    rw [cons_append, takeWhile_cons_of_neg (by simpa using hd),
      dropWhile_cons_of_neg (by simpa using hd), nil_append, ← cons_append,
      takeWhile_append_cons (by simp), takeWhile_ne_of_notMem h]

theorem tokens_append_cons (c : UInt8) (a s : List UInt8) :
    tokens c (a ++ c :: s) = tokens c a ++ tokens c s := by
  unfold tokens
  rw [splitOn_append_cons_self, filter_append]

theorem tokens_of_notMem (hne : a ≠ []) (h : c ∉ a) : tokens c a = [a] := by
  unfold tokens
  rw [splitOn_eq_singleton h, filter_singleton, decide_eq_true hne]
  rfl

theorem tokens_cutToken (c : UInt8) (s : List UInt8) :
    tokens c (cutToken c s) = (tokens c s).take 1 := by
  induction s with
  | nil => rfl
  | cons d s ih =>
    by_cases hd : d = c
    · subst hd
      have hcut : cutToken d (d :: s) = d :: cutToken d s := by simp [cutToken]
      rw [hcut]
      exact (tokens_append_cons d [] _).trans
        (ih.trans (congrArg _ (tokens_append_cons d [] s).symm))
    by_cases hs : c ∈ d :: s
    · obtain ⟨a, t, hat, ha⟩ := eq_append_cons_of_mem hs
      have hne : a ≠ [] := by
        rintro rfl
        exact hd (cons.inj hat).1
      rw [hat, cutToken_append hne ha, tokens_append_cons, tokens_of_notMem hne ha]
      rfl
    · have hcut : cutToken c (d :: s) = d :: s := by
        unfold cutToken
        rw [takeWhile_cons_of_neg (by simpa using hd), dropWhile_cons_of_neg (by simpa using hd),
          takeWhile_ne_of_notMem hs]
        rfl
      rw [hcut, tokens_of_notMem (cons_ne_nil d s) hs]
      rfl
theorem length_cutToken_le (c : UInt8) (s : List UInt8) : (cutToken c s).length ≤ s.length := by
  unfold cutToken
  have h₁ := (List.takeWhile_prefix (fun x => decide (x ≠ c))
    (l := s.dropWhile (fun x => decide (x = c)))).length_le
  have h₂ := congrArg length (takeWhile_append_dropWhile (p := fun x => decide (x = c))
    (l := s))
  rw [length_append] at h₂ ⊢
  omega

end Maiccu.Lib
