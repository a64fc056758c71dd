import Mathlib.Data.List.Nodup

/-!
# The peer table

What the peer list of a Teredo relay is for, without its pointers: a table of peers by address in
two generations. A lookup makes an entry recent, a collection drops the old entries and makes the
recent ones old. The table has room for a fixed number of entries.
-/

namespace Maiccu.Teredo

open List Option

variable {K P : Type*} [DecidableEq K]

structure PeerTable (K P : Type*) where
  recent : List (K × P)
  old : List (K × P)
  /-- The number of entries there is room for. -/
  left : ℕ

namespace PeerTable

variable {t : PeerTable K P} {k : K} {p : P} {max : ℕ}

def entries (t : PeerTable K P) : List (K × P) := t.recent ++ t.old

def keys (t : PeerTable K P) : List K := t.entries.map Prod.fst

def find (t : PeerTable K P) (k : K) : Option P :=
  (t.entries.find? (fun e => decide (e.1 = k))).map Prod.snd

/-! ## Operations -/

def empty (max : ℕ) : PeerTable K P := ⟨[], [], max⟩

def touch (t : PeerTable K P) (k : K) : PeerTable K P :=
  match t.find k with
  | none => t
  | some p =>
    ⟨(k, p) :: t.recent.filter (fun e => decide (e.1 ≠ k)),
      t.old.filter (fun e => decide (e.1 ≠ k)), t.left⟩

def insert (t : PeerTable K P) (k : K) (p : P) : PeerTable K P :=
  ⟨(k, p) :: t.recent, t.old, t.left - 1⟩

def modify (t : PeerTable K P) (f : P → P) : PeerTable K P :=
  match t.recent with
  | [] => t
  | (k, p) :: r => ⟨(k, f p) :: r, t.old, t.left⟩

def collect (t : PeerTable K P) : PeerTable K P := ⟨[], t.recent, t.left + t.old.length⟩

/-- No address has two entries, and the room and the entries make up the size of the table. -/
structure Ok (max : ℕ) (t : PeerTable K P) : Prop where
  nodup : t.keys.Nodup
  room : t.left + t.entries.length = max

/-! ## Looking up -/

theorem find_eq_none_iff : t.find k = none ↔ k ∉ t.keys := by
  unfold find keys
  rw [map_eq_none_iff, find?_eq_none]
  constructor
  · intro h hk
    obtain ⟨e, he, rfl⟩ := mem_map.mp hk
    exact h e he (by simp)
  · intro h e he hek
    exact h (mem_map.mpr ⟨e, he, by simpa using hek⟩)

theorem mem_of_find (h : t.find k = some p) : (k, p) ∈ t.entries := by
  obtain ⟨e, he, rfl⟩ := map_eq_some_iff.mp h
  have hk : e.1 = k := by simpa using find?_some he
  rw [← hk]
  exact mem_of_find?_eq_some he

omit [DecidableEq K] in
theorem eq_of_mem {l : List (K × P)} (hnd : (l.map Prod.fst).Nodup) {q : P} (hp : (k, p) ∈ l)
    (hq : (k, q) ∈ l) : p = q := by
  have := inj_on_of_nodup_map hnd hp hq rfl
  exact (Prod.mk.inj this).2

theorem find_eq_some_iff (hnd : t.keys.Nodup) : t.find k = some p ↔ (k, p) ∈ t.entries := by
  refine ⟨mem_of_find, fun h => ?_⟩
  cases hf : t.find k with
  | none => exact absurd (mem_map.mpr ⟨_, h, rfl⟩) (find_eq_none_iff.mp hf)
  | some q => rw [eq_of_mem hnd h (mem_of_find hf)]

/-! ## The table stays in order -/

theorem filter_append_cons {pre post : List (K × P)}
    (hnd : ((pre ++ (k, p) :: post).map Prod.fst).Nodup) :
    (pre ++ (k, p) :: post).filter (fun e => decide (e.1 ≠ k)) = pre ++ post := by
  rw [map_append, map_cons, nodup_middle, nodup_cons] at hnd
  have hne : ∀ e ∈ pre ++ post, decide (e.1 ≠ k) = true := by
    intro e he
    rw [decide_eq_true_eq]
    rintro rfl
    refine hnd.1 ?_
    rw [← map_append]
    exact mem_map.mpr ⟨e, he, rfl⟩
  rw [filter_append, filter_cons_of_neg (by simp), ← filter_append, filter_eq_self.mpr hne]

theorem perm_touch (hnd : t.keys.Nodup) : (t.touch k).entries.Perm t.entries := by
  unfold touch
  cases hf : t.find k with
  | none => exact List.Perm.refl _
  | some p =>
    obtain ⟨pre, post, hsplit⟩ := append_of_mem (mem_of_find hf)
    have hnd' : ((pre ++ (k, p) :: post).map Prod.fst).Nodup := by rw [← hsplit]; exact hnd
    show ((k, p) :: (t.recent.filter _ ++ t.old.filter _)).Perm t.entries
    rw [← filter_append, show t.recent ++ t.old = t.entries from rfl, hsplit,
      filter_append_cons hnd']
    exact perm_middle.symm

theorem Ok.touch (h : t.Ok max) (k : K) : (t.touch k).Ok max := by
  have hp := perm_touch (k := k) h.nodup
  refine ⟨(hp.map Prod.fst).nodup_iff.mpr h.nodup, ?_⟩
  have hleft : (t.touch k).left = t.left := by
    unfold PeerTable.touch
    cases t.find k <;> rfl
  rw [hleft, hp.length_eq]
  exact h.room

theorem Ok.insert (h : t.Ok max) (hk : t.find k = none) (hl : 0 < t.left) (p : P) :
    (t.insert k p).Ok max := by
  refine ⟨nodup_cons.mpr ⟨find_eq_none_iff.mp hk, h.nodup⟩, ?_⟩
  have hroom := h.room
  show t.left - 1 + (t.entries.length + 1) = max
  omega

omit [DecidableEq K] in
theorem keys_modify (t : PeerTable K P) (f : P → P) : (t.modify f).keys = t.keys := by
  obtain ⟨recent, old, left⟩ := t
  cases recent <;> rfl

omit [DecidableEq K] in
theorem Ok.modify (h : t.Ok max) (f : P → P) : (t.modify f).Ok max := by
  refine ⟨by rw [keys_modify]; exact h.nodup, ?_⟩
  have hroom := h.room
  obtain ⟨recent, old, left⟩ := t
  cases recent <;> exact hroom

omit [DecidableEq K] in
theorem Ok.collect (h : t.Ok max) : t.collect.Ok max := by
  have hnd : (t.recent.map Prod.fst ++ t.old.map Prod.fst).Nodup := by
    rw [← map_append]
    exact h.nodup
  refine ⟨(nodup_append.mp hnd).1, ?_⟩
  have hroom := h.room
  unfold entries at hroom
  rw [length_append] at hroom
  show t.left + t.old.length + t.recent.length = max
  omega

omit [DecidableEq K] in
theorem ok_empty : (empty max : PeerTable K P).Ok max := ⟨nodup_nil, rfl⟩

/-! ## Generations -/

omit [DecidableEq K] in
theorem mem_recent_modify (t : PeerTable K P) (f : P → P) :
    (t.modify f).recent.map Prod.fst = t.recent.map Prod.fst := by
  obtain ⟨recent, old, left⟩ := t
  cases recent <;> rfl

theorem mem_recent_touch (hk : t.find k ≠ none) {j : K} :
    j ∈ (t.touch k).recent.map Prod.fst ↔ j = k ∨ j ∈ t.recent.map Prod.fst := by
  obtain ⟨p, hp⟩ := ne_none_iff_exists'.mp hk
  unfold touch
  rw [hp]
  simp only [map_cons, mem_cons, List.mem_map, mem_filter, decide_eq_true_eq]
  constructor
  · rintro (rfl | ⟨e, ⟨he, _⟩, rfl⟩)
    · exact Or.inl rfl
    · exact Or.inr ⟨e, he, rfl⟩
  · rintro (rfl | ⟨e, he, rfl⟩)
    · exact Or.inl rfl
    · by_cases hek : e.1 = k
      · exact Or.inl hek
      · exact Or.inr ⟨e, ⟨he, hek⟩, rfl⟩

theorem find_collect (hnd : t.keys.Nodup) (hk : t.find k = some p) :
    t.collect.find k = if k ∈ t.recent.map Prod.fst then some p else none := by
  split_ifs with hr
  · obtain ⟨e, he, rfl⟩ := mem_map.mp hr
    have hnd' : t.collect.keys.Nodup := by
      have hsub : t.collect.keys.Sublist t.keys :=
        (sublist_append_left t.recent t.old).map Prod.fst
      exact hsub.nodup hnd
    have hep : e.2 = p :=
      eq_of_mem hnd (mem_append_left _ he) ((find_eq_some_iff hnd).mp hk)
    rw [find_eq_some_iff hnd', ← hep]
    exact he
  · rw [find_eq_none_iff]
    exact hr

end PeerTable

end Maiccu.Teredo
