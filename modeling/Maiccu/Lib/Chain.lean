import Mathlib.Data.List.Perm.Subperm

/-!
# Singly linked lists in memory

A node has a value and a `next` pointer. A `Slot` is a place that holds a pointer: the head of the
list or the `next` field of a node. `ChainAt m s xs`: the list which starts at the slot `s` has the
nodes `xs`, given by address and value. Nothing keeps a list free of cycles, so walks count the
nodes they may still visit.
-/

namespace Maiccu.Lib

open Option List

/-- A node of a list. -/
structure Link (V : Type*) where
  val : V
  next : Option ℕ

/-- The head of a list, and all nodes that were ever allocated; a freed one is `none`. -/
structure Cells (V : Type*) where
  head : Option ℕ
  nodes : List (Option (Link V))

inductive Slot where
  | head
  | next (a : ℕ)
  deriving DecidableEq

variable {V : Type*} (m : Cells V)

namespace Cells

def node (a : ℕ) : Option (Link V) := m.nodes[a]?.join

/-- The pointer in a slot; none if the slot is in a freed node. -/
def get : Slot → Option (Option ℕ)
  | .head => some m.head
  | .next a => (m.node a).map Link.next

/-- Store a pointer; none if the slot is in a freed node. -/
def set (s : Slot) (p : Option ℕ) : Option (Cells V) :=
  match s with
  | .head => some { m with head := p }
  | .next a => (m.node a).map fun l => { m with nodes := m.nodes.set a (some { l with next := p }) }

def alloc (v : V) : Cells V := { m with nodes := m.nodes ++ [some ⟨v, none⟩] }

def free (a : ℕ) : Cells V := { m with nodes := m.nodes.set a none }

/-- The number of nodes so far, which is the address of the next one. -/
def size : ℕ := m.nodes.length

/-- The first node whose value passes the test is taken out of the list that starts at a slot, and
freed. The result is none if a freed node is met. -/
def removeFirst (p : V → Bool) (m : Cells V) : ℕ → Slot → Option (Cells V × Option (ℕ × V))
  | 0, _ => none
  | n + 1, s =>
    match m.get s with
    | none => none
    | some none => some (m, none)
    | some (some a) =>
      match m.node a with
      | none => none
      | some c =>
        if p c.val then (m.set s c.next).map fun m' => (m'.free a, some (a, c.val))
        else removeFirst p m n (.next a)

/-- The slot behind the first nodes of a list, whose values pass the test. -/
def seek (p : V → Bool) (m : Cells V) : ℕ → Slot → Option Slot
  | 0, _ => none
  | n + 1, s =>
    match m.get s with
    | none => none
    | some none => some s
    | some (some a) =>
      match m.node a with
      | none => none
      | some c => if p c.val then seek p m n (.next a) else some s

/-- The node `k` is put into the list, behind the first nodes whose values pass the test. -/
def insertAt (p : V → Bool) (m : Cells V) (k : ℕ) : Option (Cells V) :=
  (m.seek p m.size .head).bind fun s =>
    (m.get s).bind fun q => (m.set (.next k) q).bind fun m' => m'.set s (some k)

def freeAll (m : Cells V) : ℕ → Option ℕ → Option (Cells V × List V)
  | _, none => some (m, [])
  | 0, some _ => none
  | n + 1, some a =>
    match m.node a with
    | none => none
    | some c => (freeAll (m.free a) n c.next).map fun x => (x.1, c.val :: x.2)

end Cells

/-- The list from the pointer `p` on has the nodes `xs`. -/
def Chain (m : Cells V) : Option ℕ → List (ℕ × V) → Prop
  | p, [] => p = none
  | p, x :: xs => p = some x.1 ∧ ∃ q, m.node x.1 = some ⟨x.2, q⟩ ∧ Chain m q xs

def ChainAt (s : Slot) (xs : List (ℕ × V)) : Prop :=
  ∃ p, m.get s = some p ∧ Chain m p xs

variable {m' : Cells V} {m} {s t : Slot} {p q : Option ℕ} {a b : ℕ} {v : V} {xs : List (ℕ × V)}

variable {l : Link V}

/-! ## The operations -/

theorem Cells.node_eq_some : m.node a = some l ↔ m.nodes[a]? = some (some l) :=
  join_eq_some_iff

theorem Cells.lt_size (h : m.node a = some l) : a < m.size := by
  rw [node_eq_some] at h
  exact (List.getElem?_eq_some_iff.mp h).1

theorem Cells.node_free_of_ne (h : b ≠ a) : (m.free a).node b = m.node b := by
  simp only [node, free, getElem?_set_ne h.symm]

theorem Cells.node_alloc (ha : a < m.size) (v : V) : (m.alloc v).node a = m.node a := by
  simp only [node, alloc, getElem?_append_left ha]

theorem Cells.node_alloc_size (m : Cells V) (v : V) : (m.alloc v).node m.size = some ⟨v, none⟩ := by
  simp [node, alloc, size]

@[simp] theorem Cells.size_alloc (m : Cells V) (v : V) : (m.alloc v).size = m.size + 1 := by
  simp [size, alloc]

@[simp] theorem Cells.size_free : (m.free a).size = m.size := by
  simp [size, free]

theorem Cells.exists_set (h : m.get s = some q) (p : Option ℕ) : ∃ m', m.set s p = some m' := by
  cases s with
  | head => exact ⟨_, rfl⟩
  | next a =>
    obtain ⟨l, hl, -⟩ := map_eq_some_iff.mp h
    exact ⟨_, by rw [set, hl]; rfl⟩

/-- The memory after a change of pointers: those in the slots of `S` may be others now. -/
structure Cells.Relinked (m m' : Cells V) (S : Slot → Prop) : Prop where
  get : ∀ t, ¬S t → m'.get t = m.get t
  val : ∀ b, (m'.node b).map Link.val = (m.node b).map Link.val
  size : m'.size = m.size

theorem Cells.get_free_of_ne (h : t ≠ .next a) : (m.free a).get t = m.get t := by
  cases t with
  | head => rfl
  | next b =>
    show Option.map _ _ = Option.map _ _
    rw [Cells.node_free_of_ne fun hb => h (congrArg Slot.next hb)]

theorem Cells.get_of_set (h : m.set s p = some m') : m'.get s = some p := by
  cases s with
  | head =>
    cases h
    rfl
  | next a =>
    obtain ⟨l, hl, rfl⟩ := map_eq_some_iff.mp h
    have ha : a < m.nodes.length := Cells.lt_size hl
    simp [Cells.get, Cells.node, ha]

theorem Cells.relinked_of_set (h : m.set s p = some m') : m.Relinked m' (· = s) := by
  cases s with
  | head =>
    cases h
    refine ⟨fun t ht => ?_, fun _ => rfl, rfl⟩
    cases t with
    | head => exact absurd rfl ht
    | next a => rfl
  | next a =>
    obtain ⟨l, hl, rfl⟩ := map_eq_some_iff.mp h
    have ha : a < m.nodes.length := Cells.lt_size hl
    have hnode : ∀ b, b ≠ a →
        ({ m with nodes := m.nodes.set a (some { l with next := p }) } : Cells V).node b =
          m.node b := by
      intro b hb
      simp only [Cells.node, getElem?_set_ne hb.symm]
    refine ⟨fun t ht => ?_, fun b => ?_, by simp [Cells.size]⟩
    · cases t with
      | head => rfl
      | next b =>
        show Option.map _ _ = Option.map _ _
        rw [hnode b fun hb => ht (congrArg Slot.next hb)]
    · by_cases hb : b = a
      · rw [hb, hl]
        simp [Cells.node, ha]
      · rw [hnode b hb]

theorem Cells.node_eq_iff :
    m.node a = some ⟨v, q⟩ ↔ (m.node a).map Link.val = some v ∧ m.get (.next a) = some q := by
  constructor
  · intro h
    simp [Cells.get, h]
  · rintro ⟨hv, hq⟩
    obtain ⟨l, hl, rfl⟩ := map_eq_some_iff.mp hv
    rw [Cells.get, hl, map_some, Option.some.injEq] at hq
    rw [hl, ← hq]

theorem Cells.Relinked.node (h : m.Relinked m' (· = s)) (hs : Slot.next a ≠ s) :
    m'.node a = m.node a := by
  cases hl : m.node a with
  | none => exact map_eq_none_iff.mp ((h.val a).trans (by rw [hl]; rfl))
  | some l =>
    apply Cells.node_eq_iff.mpr
    rw [h.val a, h.get _ hs]
    exact Cells.node_eq_iff.mp hl

/-! ## Lists -/

theorem Chain.frame (h : Chain m p xs) (hnode : ∀ x ∈ xs, m'.node x.1 = m.node x.1) :
    Chain m' p xs := by
  induction xs generalizing p with
  | nil => exact h
  | cons x xs ih =>
    obtain ⟨hp, q, hq, htail⟩ := h
    refine ⟨hp, q, (hnode x (by simp)).trans hq, ?_⟩
    exact ih htail fun y hy => hnode y (mem_cons_of_mem _ hy)

theorem ChainAt.nil (h : ChainAt m s []) : m.get s = some none := by
  obtain ⟨p, hp, rfl⟩ := h
  exact hp

theorem chainAt_cons : ChainAt m s ((a, v) :: xs) ↔
    m.get s = some (some a) ∧ (m.node a).map Link.val = some v ∧ ChainAt m (.next a) xs := by
  constructor
  · rintro ⟨p, hp, rfl, q, hq, hxs⟩
    obtain ⟨hv, hn⟩ := Cells.node_eq_iff.mp hq
    exact ⟨hp, hv, q, hn, hxs⟩
  · rintro ⟨hp, hv, q, hn, hxs⟩
    exact ⟨_, hp, rfl, q, Cells.node_eq_iff.mpr ⟨hv, hn⟩, hxs⟩

theorem ChainAt.val_of_mem (h : ChainAt m s xs) :
    ∀ x ∈ xs, (m.node x.1).map Link.val = some x.2 := by
  induction xs generalizing s with
  | nil => exact nofun
  | cons y ys ih =>
    obtain ⟨-, hv, htail⟩ := chainAt_cons.mp h
    intro x hx
    rcases mem_cons.mp hx with rfl | hx
    · exact hv
    · exact ih htail x hx

theorem ChainAt.lt (h : ChainAt m s xs) : ∀ x ∈ xs, x.1 < m.size := by
  intro x hx
  obtain ⟨c, hc, -⟩ := map_eq_some_iff.mp (h.val_of_mem x hx)
  exact Cells.lt_size hc

theorem ChainAt.size_notMem (h : ChainAt m s xs) : m.size ∉ xs.map Prod.fst := by
  intro hmem
  obtain ⟨x, hx, heq⟩ := mem_map.mp hmem
  exact absurd (h.lt x hx) (by omega)

theorem ChainAt.head_eq (h : ChainAt m .head xs) : m.head = xs.head?.map Prod.fst := by
  cases xs with
  | nil => exact some.inj h.nil
  | cons x xs => exact some.inj (chainAt_cons.mp h).1

theorem ChainAt.frame (h : ChainAt m s xs) (hs : m'.get s = m.get s)
    (hnode : ∀ x ∈ xs, m'.node x.1 = m.node x.1) : ChainAt m' s xs := by
  obtain ⟨p, hp, hxs⟩ := h
  exact ⟨p, hs.trans hp, hxs.frame hnode⟩

theorem ChainAt.alloc (h : ChainAt m .head xs) (v : V) : ChainAt (m.alloc v) .head xs :=
  h.frame rfl fun x hx => Cells.node_alloc (h.lt x hx) v

theorem ChainAt.unique {ys : List (ℕ × V)} (h : ChainAt m s xs) (h' : ChainAt m s ys) :
    xs = ys := by
  induction xs generalizing s ys with
  | nil =>
    cases ys with
    | nil => rfl
    | cons y ys => exact nomatch h.nil.symm.trans (chainAt_cons.mp h').1
  | cons x xs ih =>
    obtain ⟨hx, hv, htail⟩ := chainAt_cons.mp h
    cases ys with
    | nil => exact nomatch h'.nil.symm.trans hx
    | cons y ys =>
      obtain ⟨hy, hw, htail'⟩ := chainAt_cons.mp h'
      have hxy : x.1 = y.1 := some.inj (some.inj (hx.symm.trans hy))
      rw [← hxy] at hw htail'
      have hval : x.2 = y.2 := some.inj (hv.symm.trans hw)
      rw [Prod.ext hxy hval, ih htail htail']

theorem ChainAt.exists_tail (h : ChainAt m s xs) (hs : m.get s = some (some a)) :
    ∃ ys, ys.length < xs.length ∧ ChainAt m (.next a) ys := by
  cases xs with
  | nil => exact nomatch h.nil.symm.trans hs
  | cons x xs =>
    obtain ⟨hx, -, htail⟩ := chainAt_cons.mp h
    obtain rfl : a = x.1 := some.inj (some.inj (hs.symm.trans hx))
    exact ⟨xs, Nat.lt_succ_self _, htail⟩

theorem not_chain_of_cycle (ha : m.get (.next a) = some (some b))
    (hb : m.get (.next b) = some (some a)) (n : ℕ) :
    ∀ xs : List (ℕ × V), xs.length < n → ¬ChainAt m (.next a) xs := by
  induction n with
  | zero => exact fun xs hlt => absurd hlt (by omega)
  | succ n ih =>
    intro xs hlt h
    obtain ⟨ys, hys, h⟩ := h.exists_tail ha
    obtain ⟨zs, hzs, h⟩ := h.exists_tail hb
    exact ih zs (by omega) h

/-- The slot `s` is not in a node of `xs`. -/
def Slot.Outside (s : Slot) (xs : List (ℕ × V)) : Prop := ∀ x ∈ xs, s ≠ .next x.1

theorem Slot.outside_head : Slot.head.Outside xs := fun _ _ => by simp

theorem Slot.Outside.tail {x : ℕ × V} (h : s.Outside (x :: xs)) : s.Outside xs :=
  fun y hy => h y (mem_cons_of_mem _ hy)

theorem Slot.outside_of_nodup (h : ((a, v) :: xs).map Prod.fst |>.Nodup) :
    (Slot.next a).Outside xs := by
  intro x hx heq
  rw [map_cons, nodup_cons] at h
  exact h.1 (mem_map.mpr ⟨x, hx, (Slot.next.inj heq).symm⟩)

theorem ChainAt.unlink {c : Link V} (h : ChainAt m s ((a, v) :: xs)) (hc : m.node a = some c)
    (hset : m.set s c.next = some m') (hout : s.Outside ((a, v) :: xs))
    (hnodup : ((a, v) :: xs).map Prod.fst |>.Nodup) : ChainAt (m'.free a) s xs := by
  obtain ⟨-, -, q, hq, hxs⟩ := chainAt_cons.mp h
  have hnext : c.next = q := by
    rw [Cells.get, hc] at hq
    exact some.inj hq
  refine ⟨c.next, ?_, ?_⟩
  · rw [Cells.get_free_of_ne (hout (a, v) mem_cons_self), Cells.get_of_set hset]
  · rw [hnext]
    refine hxs.frame fun x hx => ?_
    have hxa : x.1 ≠ a := fun heq => Slot.outside_of_nodup hnodup x hx (congrArg Slot.next heq.symm)
    rw [Cells.node_free_of_ne hxa]
    exact (Cells.relinked_of_set hset).node fun heq => hout.tail x hx heq.symm

/-! ## Walks along a list -/

theorem Cells.node_free_self (m : Cells V) (a : ℕ) : (m.free a).node a = none := by
  unfold Cells.node Cells.free
  rw [getElem?_set_self']
  cases m.nodes[a]? <;> rfl

theorem ChainAt.length_le (h : ChainAt m s xs) (hnodup : (xs.map Prod.fst).Nodup) :
    xs.length ≤ m.size := by
  have hsub : xs.map Prod.fst ⊆ range m.size := by
    intro a ha
    obtain ⟨x, hx, rfl⟩ := mem_map.mp ha
    exact mem_range.mpr (h.lt x hx)
  simpa using (hnodup.subperm hsub).length_le

structure Cells.Removed (p : V → Bool) (m m' : Cells V) (s : Slot) (xs : List (ℕ × V)) : Prop where
  chain : ChainAt m' s (xs.eraseP fun x => p x.2)
  size : m'.size = m.size
  get : ∀ t, t ≠ s → t.Outside xs → m'.get t = m.get t
  val : ∀ b, b ∉ xs.map Prod.fst → (m'.node b).map Link.val = (m.node b).map Link.val
  freed : ∀ x ∈ xs.find? fun x => p x.2, m'.node x.1 = none

theorem Cells.removeFirst_chain (p : V → Bool) {n : ℕ} (h : ChainAt m s xs) (hout : s.Outside xs)
    (hnodup : (xs.map Prod.fst).Nodup) (hfuel : xs.length < n) :
    ∃ m', m.removeFirst p n s = some (m', xs.find? fun x => p x.2) ∧ m.Removed p m' s xs := by
  induction n generalizing s xs with
  | zero => exact absurd hfuel (Nat.not_lt_zero _)
  | succ n ih =>
    rcases xs with _ | ⟨⟨a, w⟩, xs⟩
    · refine ⟨m, by simp [removeFirst, h.nil], h, rfl, fun _ _ _ => rfl, fun _ _ => rfl, ?_⟩
      exact nofun
    obtain ⟨hget, hw, htail⟩ := chainAt_cons.mp h
    obtain ⟨c, hc, rfl⟩ := map_eq_some_iff.mp hw
    obtain ⟨hnot, hnodup'⟩ := nodup_cons.mp hnodup
    by_cases hp : p c.val = true
    · obtain ⟨m₁, h₁⟩ := Cells.exists_set hget c.next
      have hr := Cells.relinked_of_set h₁
      have hfind : ((a, c.val) :: xs).find? (fun x => p x.2) = some (a, c.val) :=
        find?_cons_of_pos hp
      refine ⟨m₁.free a, ?_, ?_, ?_, ?_, ?_, ?_⟩
      · simp [removeFirst, hget, hc, hp, h₁]
      · rw [eraseP_cons_of_pos (a := (a, c.val)) hp]
        exact h.unlink hc h₁ hout hnodup
      · rw [Cells.size_free, hr.size]
      · intro t ht htout
        rw [Cells.get_free_of_ne (htout (a, c.val) mem_cons_self), hr.get t ht]
      · intro b hb
        have hba : b ≠ a := fun heq => hb (by simp [heq])
        rw [Cells.node_free_of_ne hba, hr.val]
      · intro x hx
        rw [hfind, mem_some_iff] at hx
        subst hx
        exact m₁.node_free_self a
    · obtain ⟨m', hm', hrem⟩ := ih htail
        (Slot.outside_of_nodup hnodup) hnodup' (by simpa using hfuel)
      have hfind : ((a, c.val) :: xs).find? (fun x => p x.2) = xs.find? fun x => p x.2 :=
        find?_cons_of_neg hp
      refine ⟨m', ?_, ?_, hrem.size, ?_, ?_, ?_⟩
      · simp [removeFirst, hget, hc, hp, hm']
      · rw [eraseP_cons_of_neg (a := (a, c.val)) hp]
        refine chainAt_cons.mpr ⟨?_, ?_, hrem.chain⟩
        · rw [hrem.get s (hout (a, c.val) (by simp)) hout.tail, hget]
        · rw [hrem.val a hnot, hw]
      · intro t ht htout
        exact hrem.get t (htout (a, c.val) (by simp)) htout.tail
      · intro b hb
        exact hrem.val b fun hx => hb (mem_cons_of_mem _ hx)
      · rw [hfind]
        exact hrem.freed

theorem Cells.freeAll_chain {n : ℕ} (h : Chain m p xs) (hnodup : (xs.map Prod.fst).Nodup)
    (hfuel : xs.length ≤ n) :
    ∃ m', m.freeAll n p = some (m', xs.map Prod.snd) ∧ m'.head = m.head ∧ m'.size = m.size := by
  induction xs generalizing m p n with
  | nil =>
    obtain rfl : p = none := h
    exact ⟨m, by cases n <;> rfl, rfl, rfl⟩
  | cons x xs ih =>
    obtain ⟨rfl, q, hq, htail⟩ := h
    obtain ⟨n, rfl⟩ : ∃ i, n = i + 1 := ⟨n - 1, by simp at hfuel; omega⟩
    obtain ⟨hnot, hnodup'⟩ := nodup_cons.mp hnodup
    have hframe : Chain (m.free x.1) q xs := by
      refine htail.frame fun y hy => Cells.node_free_of_ne ?_
      rintro heq
      exact hnot (heq ▸ mem_map_of_mem hy)
    obtain ⟨m', hm', hhead, hsize⟩ := ih hframe hnodup' (by simpa using hfuel)
    refine ⟨m', ?_, hhead, hsize.trans Cells.size_free⟩
    simp [freeAll, hq, hm']

/-- The slot at the end of the list that starts at `s`. -/
def Slot.last (s : Slot) (xs : List (ℕ × V)) : Slot := (xs.getLast?.map fun x => .next x.1).getD s

theorem Slot.last_cons (s : Slot) (x : ℕ × V) (xs : List (ℕ × V)) :
    s.last (x :: xs) = (Slot.next x.1).last xs := by
  cases xs with
  | nil => rfl
  | cons y ys =>
    rw [Slot.last, Slot.last, getLast?_cons_cons,
      getLast?_eq_some_getLast (cons_ne_nil y ys)]
    rfl

theorem Slot.last_mem (s : Slot) (xs : List (ℕ × V)) (hne : xs ≠ []) :
    ∃ x ∈ xs, s.last xs = .next x.1 :=
  ⟨xs.getLast hne, getLast_mem hne, by simp [Slot.last, getLast?_eq_some_getLast hne]⟩

theorem ChainAt.insert {pre : List (ℕ × V)} (h : ChainAt m s (pre ++ xs))
    (hout : s.Outside (pre ++ xs)) (hnodup : ((pre ++ xs).map Prod.fst).Nodup)
    (hb : ChainAt m (.next b) xs) (hv : (m.node b).map Link.val = some v) (hbs : s ≠ .next b)
    (hbx : b ∉ pre.map Prod.fst) (hset : m.set (s.last pre) (some b) = some m') :
    ChainAt m' s (pre ++ (b, v) :: xs) := by
  have hr := Cells.relinked_of_set hset
  induction pre generalizing s with
  | nil =>
    refine chainAt_cons.mpr ⟨Cells.get_of_set hset, (hr.val b).trans hv, ?_⟩
    exact hb.frame (hr.get _ hbs.symm) fun x hx => hr.node (hout x hx).symm
  | cons x pre ih =>
    obtain ⟨a, w⟩ := x
    obtain ⟨hget, hw, htail⟩ := chainAt_cons.mp h
    rw [map_cons, mem_cons, not_or] at hbx
    have hs : s ≠ s.last ((a, w) :: pre) := by
      obtain ⟨y, hy, hlast⟩ := s.last_mem ((a, w) :: pre) (cons_ne_nil _ _)
      rw [hlast]
      exact hout y (mem_append_left xs hy)
    rw [Slot.last_cons] at hset hr hs
    refine chainAt_cons.mpr ⟨?_, ?_, ?_⟩
    · rw [hr.get s hs, hget]
    · rw [hr.val a, hw]
    · refine ih htail (Slot.outside_of_nodup hnodup) (nodup_cons.mp hnodup).2 ?_ hbx.2 hset hr
      exact fun heq => hbx.1 (Slot.next.inj heq).symm

theorem ChainAt.concat (h : ChainAt m .head xs) (hnodup : (xs.map Prod.fst).Nodup)
    (hb : m.node b = some ⟨v, none⟩) (hbx : b ∉ xs.map Prod.fst)
    (hset : m.set (Slot.head.last xs) (some b) = some m') : ChainAt m' .head (xs ++ [(b, v)]) := by
  obtain ⟨hv, hn⟩ := Cells.node_eq_iff.mp hb
  rw [← append_nil xs] at h hnodup
  exact h.insert Slot.outside_head hnodup ⟨none, hn, rfl⟩ hv (by simp) hbx hset

theorem ChainAt.seek (p : V → Bool) {n : ℕ} (h : ChainAt m s xs) (hfuel : xs.length < n) :
    m.seek p n s = some (s.last (xs.takeWhile fun x => p x.2)) ∧
      ChainAt m (s.last (xs.takeWhile fun x => p x.2)) (xs.dropWhile fun x => p x.2) := by
  induction n generalizing s xs with
  | zero => exact absurd hfuel (Nat.not_lt_zero _)
  | succ n ih =>
    rcases xs with _ | ⟨⟨a, w⟩, xs⟩
    · exact ⟨by simp [Cells.seek, h.nil, Slot.last], h⟩
    obtain ⟨hget, hw, htail⟩ := chainAt_cons.mp h
    obtain ⟨c, hc, rfl⟩ := map_eq_some_iff.mp hw
    by_cases hp : p c.val = true
    · rw [takeWhile_cons_of_pos (by exact hp), dropWhile_cons_of_pos (by exact hp), Slot.last_cons]
      simpa [Cells.seek, hget, hc, hp] using ih htail (by simpa using hfuel)
    · rw [takeWhile_cons_of_neg (by exact hp), dropWhile_cons_of_neg (by exact hp)]
      exact ⟨by simp [Cells.seek, hget, hc, hp, Slot.last], h⟩

theorem Cells.set_eq_self (h : m.get s = some p) : m.set s p = some m := by
  cases s with
  | head =>
    cases h
    rfl
  | next a =>
    obtain ⟨l, hl, rfl⟩ := map_eq_some_iff.mp h
    obtain ⟨hlt, hnode⟩ := List.getElem?_eq_some_iff.mp (Cells.node_eq_some.mp hl)
    rw [Cells.set, hl, map_some, ← hnode, set_getElem_self]

theorem Slot.last_ne (hs : s ≠ .next b) (hb : b ∉ xs.map Prod.fst) : s.last xs ≠ .next b := by
  by_cases hne : xs = []
  · rwa [hne]
  · obtain ⟨x, hx, hlast⟩ := s.last_mem xs hne
    rw [hlast]
    exact fun heq => hb (mem_map.mpr ⟨x, hx, Slot.next.inj heq⟩)

theorem ChainAt.exists_last {pre ys : List (ℕ × V)} (h : ChainAt m s (pre ++ xs))
    (h' : ChainAt m' s ys)
    (hs : m'.get s = m.get s) (hget : ∀ x ∈ pre, m'.get (.next x.1) = m.get (.next x.1)) :
    ∃ zs, ChainAt m' (s.last pre) zs := by
  induction pre generalizing s ys with
  | nil => exact ⟨ys, h'⟩
  | cons x pre ih =>
    obtain ⟨hx, -, htail⟩ := chainAt_cons.mp h
    obtain ⟨zs, -, htail'⟩ := h'.exists_tail (hs.trans hx)
    rw [forall_mem_cons] at hget
    rw [Slot.last_cons]
    exact ih htail htail' hget.1 hget.2

/-- The list from the head on has the values `vs`, and no node twice. -/
def Cells.Holds (m : Cells V) (vs : List V) : Prop :=
  ∃ xs, ChainAt m .head xs ∧ (xs.map Prod.fst).Nodup ∧ xs.map Prod.snd = vs

theorem Cells.Holds.alloc_free {vs : List V} (h : m.Holds vs) (v : V) :
    ((m.alloc v).free m.size).Holds vs := by
  obtain ⟨xs, h, hnodup, hvs⟩ := h
  refine ⟨xs, (h.alloc v).frame rfl fun x hx => ?_, hnodup, hvs⟩
  exact Cells.node_free_of_ne (Nat.ne_of_lt (h.lt x hx))

theorem Cells.Holds.insertAt {vs : List V} (h : m.Holds vs) (p : V → Bool) (v : V) :
    ∃ m', (m.alloc v).insertAt p m.size = some m' ∧
      m'.Holds (vs.takeWhile p ++ v :: vs.dropWhile p) := by
  obtain ⟨xs, h, hnodup, rfl⟩ := h
  have hsplit : xs.takeWhile (fun x => p x.2) ++ xs.dropWhile (fun x => p x.2) = xs :=
    takeWhile_append_dropWhile
  obtain ⟨hseek, q, hq, hrest⟩ := (h.alloc v).seek p (Nat.lt_succ_of_le (h.length_le hnodup))
  obtain ⟨m₁, h₁⟩ := Cells.exists_set (m := m.alloc v) (s := .next m.size) (q := none)
    (by rw [Cells.get, m.node_alloc_size]; rfl) q
  have hr := Cells.relinked_of_set h₁
  have hnode : ∀ x ∈ xs, m₁.node x.1 = (m.alloc v).node x.1 := fun x hx =>
    hr.node fun heq => h.size_notMem (mem_map.mpr ⟨x, hx, Slot.next.inj heq⟩)
  have hpre : m.size ∉ (xs.takeWhile fun x => p x.2).map Prod.fst :=
    fun hmem => h.size_notMem (((List.takeWhile_prefix _).map _).subset hmem)
  obtain ⟨m₂, h₂⟩ := Cells.exists_set
    ((hr.get _ (Slot.last_ne (by simp) hpre)).trans hq) (some m.size)
  have hchain : ChainAt m₁ .head xs := (h.alloc v).frame (hr.get _ (by simp)) hnode
  have hbehind : ChainAt m₁ (.next m.size) (xs.dropWhile fun x => p x.2) :=
    ⟨q, Cells.get_of_set h₁, hrest.frame fun x hx => hnode x ((dropWhile_suffix _).subset hx)⟩
  have hval : (m₁.node m.size).map Link.val = some v := by
    rw [hr.val, m.node_alloc_size]
    rfl
  rw [← hsplit] at hchain
  refine ⟨m₂, by simp [Cells.insertAt, hseek, hq, h₁, h₂], _, hchain.insert Slot.outside_head
    (by rwa [hsplit]) hbehind hval (by simp) hpre h₂, ?_, ?_⟩
  · rw [(perm_middle.map Prod.fst).nodup_iff, map_cons, hsplit]
    exact nodup_cons.mpr ⟨h.size_notMem, hnodup⟩
  · rw [map_append, map_cons, takeWhile_map, dropWhile_map]
    rfl

end Maiccu.Lib
