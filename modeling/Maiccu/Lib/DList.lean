import Mathlib.Data.List.Nodup

/-!
# Intrusive doubly linked lists

Lists in the style of the BSD queues: a node has a `next` pointer and a `pprev` pointer to the place
that points at it, the head of the list or the `next` field of another node. `ListAt m l xs`: the
list which starts at the place `l` has the nodes `xs`, every node alive and every back link right.
`Mem.unlink` and `Mem.pushFront` end in `none` if they touch a node that is not alive.
-/

namespace Maiccu.Lib

open Option Function List

/-- The place of a pointer: the head of a list, or the `next` field of a node. -/
inductive Place (H A : Type*) where
  | head (h : H)
  | next (a : A)
  deriving DecidableEq

/-- The heads of some lists and the nodes at the addresses in use. -/
structure Mem (H A V : Type*) where
  head : H → Option A
  alive : A → Bool
  next : A → Option A
  pprev : A → Place H A
  val : A → V

variable {H A V : Type*} (m : Mem H A V)

def Mem.get : Place H A → Option A
  | .head h => m.head h
  | .next a => m.next a

def Mem.valid : Place H A → Bool
  | .head _ => true
  | .next a => m.alive a

def ListAt (m : Mem H A V) : Place H A → List A → Prop
  | l, [] => m.get l = none
  | l, a :: as => m.get l = some a ∧ m.alive a = true ∧ m.pprev a = l ∧ ListAt m (.next a) as

/-- The place that points at what follows `xs`. -/
def placeAfter : Place H A → List A → Place H A
  | l, [] => l
  | _, a :: as => placeAfter (.next a) as

theorem placeAfter_eq {xs : List A} : ∀ l : Place H A,
    placeAfter l xs = l ∨ ∃ x ∈ xs, placeAfter l xs = .next x := by
  induction xs with
  | nil => exact fun l => Or.inl rfl
  | cons a as ih =>
    intro l
    right
    rcases ih (.next a) with h | ⟨x, hx, h⟩
    · exact ⟨a, by simp, h⟩
    · exact ⟨x, mem_cons_of_mem _ hx, h⟩

/-- The nodes from `p` on, without their back links. -/
def Forward (m : Mem H A V) : Option A → List A → Prop
  | p, [] => p = none
  | p, a :: as => p = some a ∧ m.alive a = true ∧ Forward m (m.next a) as

section Forward

variable {m' : Mem H A V} {m} {l : Place H A} {p : Option A} {xs : List A}

theorem ListAt.forward (h : ListAt m l xs) : Forward m (m.get l) xs := by
  induction xs generalizing l with
  | nil => exact h
  | cons a as ih => exact ⟨h.1, h.2.1, ih h.2.2.2⟩

theorem Forward.alive (h : Forward m p xs) : ∀ x ∈ xs, m.alive x = true := by
  induction xs generalizing p with
  | nil => exact nofun
  | cons a as ih =>
    intro x hx
    rcases mem_cons.mp hx with rfl | hx
    · exact h.2.1
    · exact ih h.2.2 x hx

theorem Forward.frame (h : Forward m p xs) (hnext : ∀ x ∈ xs, m'.next x = m.next x)
    (halive : ∀ x ∈ xs, m'.alive x = m.alive x) : Forward m' p xs := by
  induction xs generalizing p with
  | nil => exact h
  | cons x xs ih =>
    rw [forall_mem_cons] at hnext halive
    refine ⟨h.1, halive.1.trans h.2.1, ?_⟩
    rw [hnext.1]
    exact ih h.2.2 hnext.2 halive.2

end Forward

section Read

variable {m' : Mem H A V} {m} {l : Place H A} {xs pre post : List A} {a b : A}

theorem ListAt.get_eq (h : ListAt m l xs) : m.get l = xs.head? := by
  cases xs with
  | nil => exact h
  | cons a as => exact h.1

theorem ListAt.alive (h : ListAt m l xs) : ∀ x ∈ xs, m.alive x = true := h.forward.alive

theorem ListAt.at (h : ListAt m l (pre ++ a :: post)) :
    m.get (placeAfter l pre) = some a ∧ m.pprev a = placeAfter l pre ∧ m.next a = post.head? := by
  induction pre generalizing l with
  | nil => exact ⟨h.1, h.2.2.1, h.2.2.2.get_eq⟩
  | cons x pre ih => exact ih h.2.2.2

section

variable (h : ListAt m l xs)
include h

theorem ListAt.pprev_get (ha : a ∈ xs) : m.get (m.pprev a) = some a := by
  obtain ⟨pre, post, rfl⟩ := append_of_mem ha
  rw [h.at.2.1, h.at.1]

theorem ListAt.next_pprev (ha : a ∈ xs) (hb : m.next a = some b) :
    b ∈ xs ∧ m.pprev b = .next a := by
  induction xs generalizing l with
  | nil => exact nomatch ha
  | cons x xs ih =>
    rcases mem_cons.mp ha with rfl | ha
    · have hget : m.get (.next a) = some b := hb
      cases xs with
      | nil => exact nomatch h.2.2.2.symm.trans hget
      | cons y ys =>
        obtain ⟨hy, _, hp, _⟩ := h.2.2.2
        have hyb : y = b := some.inj (hy.symm.trans hget)
        subst hyb
        exact ⟨by simp, hp⟩
    · obtain ⟨hm, hp⟩ := ih h.2.2.2 ha
      exact ⟨mem_cons_of_mem _ hm, hp⟩

theorem ListAt.valid_pprev (hl : m.valid l = true) (ha : a ∈ xs) : m.valid (m.pprev a) = true := by
  obtain ⟨pre, post, rfl⟩ := append_of_mem ha
  rw [h.at.2.1]
  rcases placeAfter_eq l with hk | ⟨x, hx, hk⟩
  · rw [hk]
    exact hl
  · rw [hk]
    exact h.alive x (mem_append_left _ hx)

theorem ListAt.frame (hget : m'.get l = m.get l)
    (hnext : ∀ x ∈ xs, m'.next x = m.next x) (hpprev : ∀ x ∈ xs, m'.pprev x = m.pprev x)
    (halive : ∀ x ∈ xs, m'.alive x = m.alive x) : ListAt m' l xs := by
  induction xs generalizing l with
  | nil => exact hget.trans h
  | cons x xs ih =>
    rw [forall_mem_cons] at hnext hpprev halive
    refine ⟨hget.trans h.1, halive.1.trans h.2.1, hpprev.1.trans h.2.2.1, ?_⟩
    exact ih h.2.2.2 hnext.1 hnext.2 hpprev.2 halive.2

end

theorem ListAt.moveTo [DecidableEq A] {l' : Place H A} (h : ListAt m l xs) (hnd : xs.Nodup)
    (hget : m'.get l' = m.get l) (hnext : ∀ x ∈ xs, m'.next x = m.next x)
    (hpprev : ∀ x ∈ xs, m'.pprev x = if xs.head? = some x then l' else m.pprev x)
    (halive : ∀ x ∈ xs, m'.alive x = m.alive x) : ListAt m' l' xs := by
  cases xs with
  | nil => exact hget.trans h
  | cons x xs =>
    have hx : x ∉ xs := (nodup_cons.mp hnd).1
    rw [forall_mem_cons] at hnext hpprev halive
    refine ⟨hget.trans h.1, halive.1.trans h.2.1, hpprev.1.trans (if_pos rfl), ?_⟩
    refine h.2.2.2.frame hnext.1 hnext.2 (fun y hy => ?_) halive.2
    rw [hpprev.2 y hy, if_neg]
    rintro ⟨⟩
    exact hx hy

end Read

/-! ## Taking out and putting in -/

section Change

variable [DecidableEq H] [DecidableEq A]
variable {m' : Mem H A V} {m} {l : Place H A} {xs pre post : List A} {a b : A}

/-- **Unlinking.** The place before `a` takes over the pointer of `a`, and the node after `a` the
back link of `a`. -/
theorem ListAt.unlink (h : ListAt m l (pre ++ a :: post)) (hnd : (pre ++ a :: post).Nodup)
    (hl : ∀ x ∈ pre ++ a :: post, l ≠ .next x)
    (hget : ∀ k, m'.get k = if k = placeAfter l pre then m.next a else m.get k)
    (hpprev : ∀ x, m'.pprev x = if post.head? = some x then placeAfter l pre else m.pprev x)
    (halive : ∀ x, m'.alive x = m.alive x) : ListAt m' l (pre ++ post) := by
  induction pre generalizing l with
  | nil =>
    have hpost : (a :: post).Nodup := hnd
    refine h.2.2.2.moveTo (nodup_cons.mp hpost).2 ?_ (fun x hx => ?_) (fun x _ => hpprev x)
      (fun x _ => halive x)
    · rw [hget]
      exact if_pos rfl
    · have := hget (.next x)
      rwa [if_neg (fun he => hl x (by simp [hx]) he.symm)] at this
  | cons x pre ih =>
    have hnd' : (pre ++ a :: post).Nodup := (nodup_cons.mp hnd).2
    have hx : x ∉ pre ++ a :: post := (nodup_cons.mp hnd).1
    have hne : l ≠ placeAfter (.next x) pre := by
      rcases placeAfter_eq (.next x : Place H A) with hk | ⟨y, hy, hk⟩
      · rw [hk]
        exact hl x (by simp)
      · rw [hk]
        exact hl y (by simp [hy])
    refine ⟨?_, (halive x).trans h.2.1, ?_, ih h.2.2.2 hnd' (fun y hy he => ?_) hget hpprev⟩
    · rw [hget]
      exact (if_neg hne).trans h.1
    · rw [hpprev, if_neg]
      · exact h.2.2.1
      · intro hp
        exact hx (mem_append_right _ (mem_cons_of_mem _ (mem_of_mem_head? hp)))
    · cases he
      exact hx hy

theorem ListAt.pushFront (h : ListAt m l xs) (ha : a ∉ xs) (hnd : xs.Nodup)
    (hl : ∀ x ∈ a :: xs, l ≠ .next x) (halive : m'.alive a = true)
    (hget : ∀ k, m'.get k = if k = l then some a else if k = .next a then m.get l else m.get k)
    (hpprev : ∀ x, m'.pprev x =
      if x = a then l else if xs.head? = some x then .next a else m.pprev x)
    (halive' : ∀ x ∈ xs, m'.alive x = m.alive x) : ListAt m' l (a :: xs) := by
  refine ⟨?_, halive, ?_, h.moveTo hnd ?_ (fun x hx => ?_) (fun x hx => ?_) halive'⟩
  · rw [hget, if_pos rfl]
  · rw [hpprev, if_pos rfl]
  · rw [hget, if_neg (fun he => hl a (by simp) he.symm), if_pos rfl]
  · have hxa : x ≠ a := fun he => ha (he ▸ hx)
    have := hget (.next x)
    rw [if_neg (fun he => hl x (by simp [hx]) he.symm), if_neg (by simpa using hxa)] at this
    exact this
  · have hxa : x ≠ a := fun he => ha (he ▸ hx)
    rw [hpprev, if_neg hxa]

/-- `*l = p`. -/
def Mem.set (m : Mem H A V) (l : Place H A) (p : Option A) : Option (Mem H A V) :=
  match l with
  | .head h => some { m with head := update m.head h p }
  | .next a => if m.alive a then some { m with next := update m.next a p } else none

/-- `a->pprev = l`. -/
def Mem.setPprev (m : Mem H A V) (a : A) (l : Place H A) : Option (Mem H A V) :=
  if m.alive a then some { m with pprev := update m.pprev a l } else none

/-- `if (p != NULL) p->pprev = l`. -/
def Mem.setPprev? (m : Mem H A V) (p : Option A) (l : Place H A) : Option (Mem H A V) :=
  match p with
  | none => some m
  | some a => m.setPprev a l

/-- Unlinks a node: `if (a->next != NULL) a->next->pprev = a->pprev; *(a->pprev) = a->next;`. -/
def Mem.unlink (m : Mem H A V) (a : A) : Option (Mem H A V) :=
  if m.alive a then (m.setPprev? (m.next a) (m.pprev a)).bind fun m' =>
    m'.set (m.pprev a) (m.next a)
  else none

/-- Inserts a node at the head of a list: `a->next = head; if (a->next != NULL)
a->next->pprev = &a->next; head = a; a->pprev = &head;`. -/
def Mem.pushFront (m : Mem H A V) (h : H) (a : A) : Option (Mem H A V) :=
  (m.set (.next a) (m.head h)).bind fun m₁ => (m₁.setPprev? (m.head h) (.next a)).bind fun m₂ =>
    (m₂.set (.head h) (some a)).bind fun m₃ => m₃.setPprev a (.head h)

variable {p : Option A}

theorem set_get (h : m.set l p = some m') (k : Place H A) :
    m'.get k = if k = l then p else m.get k := by
  cases l with
  | head i =>
    cases h
    cases k with
    | head j => simp [Mem.get, update_apply]
    | next x => simp [Mem.get]
  | next y =>
    unfold Mem.set at h
    by_cases hy : m.alive y
    · simp only [hy, if_true] at h
      cases h
      cases k with
      | head j => simp [Mem.get]
      | next x => simp [Mem.get, update_apply]
    · simp [hy] at h

structure Same (m m' : Mem H A V) : Prop where
  alive : m'.alive = m.alive
  val : m'.val = m.val

theorem set_same (h : m.set l p = some m') : Same m m' ∧ m'.pprev = m.pprev := by
  cases l with
  | head i =>
    cases h
    exact ⟨⟨rfl, rfl⟩, rfl⟩
  | next y =>
    unfold Mem.set at h
    by_cases hy : m.alive y
    · simp only [hy, if_true] at h
      cases h
      exact ⟨⟨rfl, rfl⟩, rfl⟩
    · simp [hy] at h

theorem set_isSome (p : Option A) (h : m.valid l = true) : ∃ m', m.set l p = some m' := by
  cases l with
  | head i => exact ⟨_, rfl⟩
  | next y =>
    unfold Mem.set
    have hy : m.alive y = true := h
    exact ⟨_, by simp only [hy, if_true]; rfl⟩

omit [DecidableEq H] in
theorem setPprev?_spec (hp : ∀ b, p = some b → m.alive b = true) :
    ∃ m', m.setPprev? p l = some m' ∧ Same m m' ∧ (∀ k, m'.get k = m.get k) ∧
      ∀ x, m'.pprev x = if p = some x then l else m.pprev x := by
  cases p with
  | none => exact ⟨m, rfl, ⟨rfl, rfl⟩, fun _ => rfl, fun x => by simp⟩
  | some b =>
    refine ⟨{ m with pprev := update m.pprev b l }, ?_, ⟨rfl, rfl⟩, fun k => ?_, fun x => ?_⟩
    · simp [Mem.setPprev?, Mem.setPprev, hp b rfl]
    · cases k <;> rfl
    · simp [update_apply, eq_comm]

theorem unlink_spec (h : ListAt m l (pre ++ a :: post)) (hv : m.valid l = true) :
    ∃ m', m.unlink a = some m' ∧ Same m m' ∧
      (∀ k, m'.get k = if k = placeAfter l pre then m.next a else m.get k) ∧
      ∀ x, m'.pprev x = if post.head? = some x then placeAfter l pre else m.pprev x := by
  have halive : ∀ b, m.next a = some b → m.alive b = true := by
    intro b hb
    exact h.alive b (h.next_pprev (by simp) hb).1
  obtain ⟨m₁, h₁, hs₁, hg₁, hp₁⟩ := setPprev?_spec halive
  have hvalid : m₁.valid (m.pprev a) = true := by
    have := h.valid_pprev hv (show a ∈ pre ++ a :: post by simp)
    cases hk : m.pprev a with
    | head i => rfl
    | next y =>
      rw [hk] at this
      show m₁.alive y = true
      rw [hs₁.alive]
      exact this
  obtain ⟨m₂, h₂⟩ := set_isSome (m.next a) hvalid
  obtain ⟨hs₂, hp₂⟩ := set_same h₂
  refine ⟨m₂, ?_, ⟨hs₂.alive.trans hs₁.alive, hs₂.val.trans hs₁.val⟩, fun k => ?_, fun x => ?_⟩
  · unfold Mem.unlink
    rw [if_pos (h.alive a (by simp)), h₁, bind_some, h₂]
  · rw [set_get h₂, hg₁, h.at.2.1]
  · rw [hp₂, hp₁, h.at.2.1, h.at.2.2]

theorem pushFront_spec {i : H} (h : ListAt m (.head i) xs) (ha : m.alive a = true) :
    ∃ m', m.pushFront i a = some m' ∧ Same m m' ∧
      (∀ k, m'.get k = if k = .head i then some a else
        if k = .next a then m.head i else m.get k) ∧
      ∀ x, m'.pprev x = if x = a then .head i else
        if xs.head? = some x then .next a else m.pprev x := by
  obtain ⟨m₁, h₁⟩ := set_isSome (l := .next a) (m.head i) ha
  obtain ⟨hs₁, hp₁⟩ := set_same h₁
  have halive : ∀ b, m.head i = some b → m₁.alive b = true := by
    intro b hb
    rw [hs₁.alive]
    have hx : xs.head? = some b := h.get_eq.symm.trans hb
    exact h.alive b (mem_of_mem_head? hx)
  obtain ⟨m₂, h₂, hs₂, hg₂, hp₂⟩ := setPprev?_spec halive
  obtain ⟨m₃, h₃⟩ := set_isSome (m := m₂) (l := .head i) (some a) rfl
  obtain ⟨hs₃, hp₃⟩ := set_same h₃
  have ha₃ : ∀ b, some a = some b → m₃.alive b = true := by
    intro b hb
    cases hb
    rw [hs₃.alive, hs₂.alive, hs₁.alive]
    exact ha
  obtain ⟨m₄, h₄, hs₄, hg₄, hp₄⟩ := setPprev?_spec ha₃
  refine ⟨m₄, ?_, ⟨?_, ?_⟩, fun k => ?_, fun x => ?_⟩
  · unfold Mem.pushFront
    rw [h₁, bind_some, h₂, bind_some, h₃, bind_some]
    exact h₄
  · rw [hs₄.alive, hs₃.alive, hs₂.alive, hs₁.alive]
  · rw [hs₄.val, hs₃.val, hs₂.val, hs₁.val]
  · rw [hg₄, set_get h₃, hg₂, set_get h₁]
  · have hhead : m.head i = xs.head? := h.get_eq
    rw [hp₄, hp₃, hp₂, hp₁, hhead]
    simp only [Option.some.injEq, eq_comm]

end Change

/-! ## Other values -/

section Map

variable {W : Type*} (g : V → W)

def Mem.mapVal (m : Mem H A V) : Mem H A W := ⟨m.head, m.alive, m.next, m.pprev, g ∘ m.val⟩

theorem map_bind_of_map {α β γ δ : Type*} {φ : α → β} {ψ : γ → δ} {f : α → Option γ}
    {f' : β → Option δ} (hf : ∀ a, f' (φ a) = (f a).map ψ) {x : Option α} :
    (x.map φ).bind f' = (x.bind f).map ψ := by
  cases x with
  | none => rfl
  | some a => exact hf a

variable [DecidableEq A]

theorem Mem.mapVal_update (a : A) (x : V) :
    ({ m with val := update m.val a x } : Mem H A V).mapVal g =
      { m.mapVal g with val := update (m.mapVal g).val a (g x) } := by
  unfold mapVal
  rw [comp_update]

theorem Mem.setPprev?_mapVal (p : Option A) (l : Place H A) :
    (m.mapVal g).setPprev? p l = (m.setPprev? p l).map (mapVal g) := by
  cases p with
  | none => rfl
  | some a =>
    show (if m.alive a then _ else _) = Option.map _ (if m.alive a then _ else _)
    split_ifs <;> rfl

variable [DecidableEq H]

theorem Mem.set_mapVal (l : Place H A) (p : Option A) :
    (m.mapVal g).set l p = (m.set l p).map (mapVal g) := by
  cases l with
  | head i => rfl
  | next a =>
    show (if m.alive a then _ else _) = Option.map _ (if m.alive a then _ else _)
    split_ifs <;> rfl

theorem Mem.unlink_mapVal (a : A) : (m.mapVal g).unlink a = (m.unlink a).map (mapVal g) := by
  show (if m.alive a then ((m.mapVal g).setPprev? (m.next a) (m.pprev a)).bind _ else none) =
    Option.map _ (if m.alive a then _ else none)
  split_ifs
  · rw [setPprev?_mapVal]
    exact map_bind_of_map (fun m' => m'.set_mapVal g _ _)
  · rfl

theorem Mem.pushFront_mapVal (h : H) (a : A) :
    (m.mapVal g).pushFront h a = (m.pushFront h a).map (mapVal g) := by
  show ((m.mapVal g).set (.next a) (m.head h)).bind _ = _
  rw [set_mapVal]
  refine map_bind_of_map (fun m₁ => ?_)
  show ((m₁.mapVal g).setPprev? (m.head h) (.next a)).bind _ = _
  rw [setPprev?_mapVal]
  refine map_bind_of_map (fun m₂ => ?_)
  rw [set_mapVal]
  exact map_bind_of_map (fun m₃ => m₃.setPprev?_mapVal g (some a) (.head h))

end Map

end Maiccu.Lib
