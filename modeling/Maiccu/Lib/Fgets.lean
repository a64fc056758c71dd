import Maiccu.Lib.CText

/-!
# Lines read by `fgets`

A file that was written line by line is read back with a buffer of a fixed size. Each line feed
starts over, so the file can be read one written line at a time (`fgetsLines_append`). A line that
fits is read as it is, and one that fills the buffer is read without its line feed, which comes as a
line of its own.
-/

namespace Maiccu.Lib

open List

variable {n : ℕ} {a l line s : List UInt8}

theorem fgetsLines_append (n : ℕ) (line s t : List UInt8) :
    fgetsLines n line (s ++ 10 :: t) = fgetsLines n line (s ++ [10]) ++ fgetsLines n [] t := by
  induction s generalizing line with
  | nil => simp [fgetsLines]
  | cons c s ih =>
    simp only [cons_append, fgetsLines]
    split_ifs
    · rw [ih, cons_append]
    · exact ih _

theorem fgetsLines_keep (s : List UInt8) (ha : 10 ∉ a) (hroom : line.length + a.length + 2 ≤ n) :
    fgetsLines n line (a ++ s) = fgetsLines n (line ++ a) s := by
  induction a generalizing line with
  | nil => simp
  | cons c a ih =>
    rw [mem_cons, not_or] at ha
    rw [length_cons] at hroom
    have hstays : ¬ (c = 10 ∨ line.length + 2 = n) := by
      rintro (hc | hn)
      · exact ha.1 hc.symm
      · omega
    rw [cons_append, fgetsLines, if_neg hstays, ih ha.2 (by simp; omega), append_assoc,
      singleton_append]

theorem fgetsLines_of_room (ha : 10 ∉ a) (hroom : line.length + a.length + 2 ≤ n) :
    fgetsLines n line (a ++ [10]) = [line ++ a ++ [10]] := by
  rw [fgetsLines_keep [10] ha hroom]
  simp [fgetsLines]

theorem fgetsLines_of_full (ha : 10 ∉ a) (hne : a ≠ []) (hfull : line.length + a.length + 1 = n) :
    fgetsLines n line (a ++ [10]) = [line ++ a, [10]] := by
  obtain ⟨a, c, rfl⟩ := (eq_nil_or_concat a).resolve_left hne
  rw [concat_eq_append] at *
  rw [mem_append, not_or] at ha
  rw [length_append, length_singleton] at hfull
  rw [append_assoc, fgetsLines_keep _ ha.1 (by omega), singleton_append, fgetsLines,
    if_pos (.inr (by simp; omega))]
  simp [fgetsLines]

theorem of_mem_fgetsLines (hl : l ∈ fgetsLines n line s) :
    (line.length + 2 ≤ n → l.length < n) ∧ (∀ c ∈ l, c ∈ line ∨ c ∈ s) ∧
      (10 ∉ line → 10 ∉ l.dropLast) := by
  induction s generalizing line with
  | nil =>
    rw [fgetsLines] at hl
    split_ifs at hl
    · cases hl
    · rw [mem_singleton.mp hl]
      exact ⟨fun h => by omega, fun c hc => .inl hc, fun h h' => h (dropLast_subset _ h')⟩
  | cons c s ih =>
    rw [fgetsLines] at hl
    split_ifs at hl with hcut
    · rcases mem_cons.mp hl with rfl | hl
      · rw [dropLast_concat]
        exact ⟨fun h => by simp; omega, fun d hd => by grind, id⟩
      · obtain ⟨hlen, hmem, hlf⟩ := ih hl
        exact ⟨fun h => hlen (by simp; omega), fun d hd => by grind, fun _ => hlf (by simp)⟩
    · obtain ⟨hlen, hmem, hlf⟩ := ih hl
      exact ⟨fun h => hlen (by simp; omega), fun d hd => by grind, fun h => hlf (by grind)⟩

/-! ## The end of a line -/

@[simp]
theorem chomp_append_lf (s : List UInt8) : chomp (s ++ [10]) = s := by
  unfold chomp
  rw [getLast?_concat, if_pos (Or.inl rfl), dropLast_concat]

theorem chomp_eq_self_iff (hne : s ≠ []) :
    chomp s = s ↔ s.getLast? ≠ some 10 ∧ s.getLast? ≠ some 13 := by
  rw [← not_or]
  unfold chomp
  split_ifs with hend
  · refine ⟨fun h => ?_, fun h => absurd hend h⟩
    have hlen := congrArg length h
    have hpos := length_pos_iff.mpr hne
    rw [length_dropLast] at hlen
    omega
  · exact ⟨fun _ => hend, fun _ => rfl⟩

theorem length_chomp_le : (chomp s).length ≤ s.length := by
  unfold chomp
  split_ifs
  · rw [length_dropLast]
    omega
  · exact le_rfl

theorem chomp_of_length_le (h : s.length ≤ (chomp s).length) : chomp s = s := by
  unfold chomp at h ⊢
  split_ifs at h ⊢
  · rw [length_dropLast] at h
    have hnil : s = [] := length_eq_zero_iff.mp (by omega)
    rw [hnil, dropLast_nil]
  · rfl

theorem mem_of_mem_chomp {c : UInt8} (h : c ∈ chomp s) : c ∈ s := by
  unfold chomp at h
  split_ifs at h
  · exact dropLast_subset _ h
  · exact h

theorem notMem_chomp (h : 10 ∉ s.dropLast) : 10 ∉ chomp s := by
  unfold chomp
  split_ifs with hend
  · exact h
  · intro hmem
    have hne : s ≠ [] := ne_nil_of_mem hmem
    rw [← dropLast_append_getLast hne, mem_append, mem_singleton] at hmem
    rcases hmem with hmem | hmem
    · exact h hmem
    · rw [getLast?_eq_some_getLast hne] at hend
      exact hend (Or.inl (congrArg some hmem.symm))

end Maiccu.Lib
