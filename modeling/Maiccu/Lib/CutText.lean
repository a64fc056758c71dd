import Mathlib.Data.List.DropRight
import Mathlib.Data.List.Infix

/-!
# Cutting texts

`cutAt m s` is the text before the first place where `m` stands in `s`, and the text behind it. What
stands behind a text does not move the first place, if there is one (`cutAt_append`).
-/

namespace Maiccu.Lib

open List Option

variable {α β : Type*}

section Cut

variable [DecidableEq α] {m s a b z : List α} {c : α}

def cutAt (m : List α) : List α → Option (List α × List α)
  | [] => if m = [] then some ([], []) else none
  | c :: s =>
    if m <+: c :: s then some ([], (c :: s).drop m.length)
    else (cutAt m s).map fun r => (c :: r.1, r.2)

theorem eq_append_of_cutAt (h : cutAt m s = some (a, b)) : s = a ++ (m ++ b) := by
  induction s generalizing a with
  | nil =>
    rw [cutAt] at h
    split_ifs at h with hm
    cases h
    rw [hm]
    rfl
  | cons c s ih =>
    rw [cutAt] at h
    split_ifs at h with hm
    · cases h
      exact (prefix_iff_eq_append.mp hm).symm
    · obtain ⟨⟨a', b'⟩, hr, heq⟩ := map_eq_some_iff.mp h
      cases heq
      rw [cons_append, ← ih hr]

theorem cutAt_append (h : cutAt m s = some (a, b)) (z : List α) :
    cutAt m (s ++ z) = some (a, b ++ z) := by
  induction s generalizing a with
  | nil =>
    rw [cutAt] at h
    split_ifs at h with hm
    cases h
    subst hm
    cases z <;> simp [cutAt]
  | cons c s ih =>
    rw [cons_append, cutAt]
    rw [cutAt] at h
    split_ifs at h with hm
    · cases h
      have hm' : m <+: c :: (s ++ z) := hm.trans (prefix_append (c :: s) z)
      rw [if_pos hm', ← cons_append, drop_append_of_le_length hm.length_le]
    · obtain ⟨⟨a', b'⟩, hr, heq⟩ := map_eq_some_iff.mp h
      cases heq
      have hlen : m.length ≤ (c :: s).length := by
        rw [eq_append_of_cutAt hr]
        simp
        omega
      have hm' : ¬ m <+: c :: (s ++ z) := fun hpre =>
        hm (prefix_of_prefix_length_le hpre (prefix_append (c :: s) z) hlen)
      rw [if_neg hm', ih hr, map_some]

theorem cutAt_eq_none_iff : cutAt m s = none ↔ ¬ m <:+: s := by
  induction s with
  | nil =>
    rw [cutAt]
    split_ifs with hm
    · simp [hm]
    · simp [hm]
  | cons c s ih =>
    rw [cutAt, infix_cons_iff]
    split_ifs with hm
    · simp [hm]
    · rw [map_eq_none_iff, ih, not_or]
      exact ⟨fun h => ⟨hm, h⟩, fun h => h.2⟩

theorem cutAt_singleton_eq_none_iff : cutAt [c] s = none ↔ c ∉ s := by
  rw [cutAt_eq_none_iff, singleton_infix_iff]

theorem cutAt_singleton_append (h : c ∉ a) : cutAt [c] (a ++ c :: b) = some (a, b) := by
  induction a with
  | nil => simp [cutAt]
  | cons d a ih =>
    rw [mem_cons, not_or] at h
    have hne : ¬ [c] <+: d :: (a ++ c :: b) := fun hpre => h.1 (cons_prefix_cons.mp hpre).1
    rw [cons_append, cutAt, if_neg hne, ih h.2, map_some]

end Cut

/-! ## The end of a text -/

section Right

variable {p : α → Bool} {s z : List α}

theorem rdropWhile_append_of_forall (h : ∀ x ∈ z, p x = true) :
    (s ++ z).rdropWhile p = s.rdropWhile p := by
  rw [rdropWhile, rdropWhile, reverse_append, dropWhile_append_of_pos (by simpa using h)]

theorem rdropWhile_append_of_ne_nil (h : z.rdropWhile p ≠ []) (s : List α) :
    (s ++ z).rdropWhile p = s ++ z.rdropWhile p := by
  rw [rdropWhile, ne_eq, reverse_eq_nil_iff] at h
  rw [rdropWhile, rdropWhile, reverse_append, dropWhile_append, if_neg (by simpa using h)]
  rw [reverse_append, reverse_reverse]

theorem rdropWhile_eq_self_of_append (h : (s ++ z).rdropWhile p = s ++ z) : z.rdropWhile p = z := by
  rw [rdropWhile_eq_self_iff] at h ⊢
  intro hz
  rw [← getLast_append_of_ne_nil (by simp [hz]) hz]
  exact h _

end Right

/-! ## The first of some entries -/

theorem find?_eq_of_map_find? {f : α → β} {p q : β → Bool} {l : List α}
    (h : (l.map f).find? p = (l.map f).find? q) :
    l.find? (fun x => p (f x)) = l.find? (fun x => q (f x)) := by
  induction l with
  | nil => rfl
  | cons x l ih =>
    rw [map_cons, find?_cons, find?_cons] at h
    rw [find?_cons, find?_cons]
    cases hp : p (f x) <;> cases hq : q (f x) <;> simp only [hp, hq] at h ⊢
    · exact ih h
    · exact absurd (find?_some h) (by simp [hp])
    · exact absurd (find?_some h.symm) (by simp [hq])

end Maiccu.Lib
