import Maiccu.Teredo.PeerList
import Maiccu.Teredo.PeerTable

/-!
# The peer list is a peer table

`Rep l t rs os gs`: the list `l` stands for the table `t`, its lists are `rs` and `os`, and `gs` are
the entries that wait to be released.
-/

namespace Maiccu.Teredo

open Maiccu.Lib List Function

section Inv

variable {K P A : Type*}

/-! ## The abstraction -/

inductive Pending (m : Mem Generation A (Item K P)) : List (Option A) → List A → Prop where
  | nil : Pending m [] []
  | cons {p : Option A} {g : List (Option A)} {ys xs : List A} :
      Forward m p ys → Pending m g xs → Pending m (p :: g) (ys ++ xs)

def entryAt (m : Mem Generation A (Item K P)) (a : A) : K × P := ((m.val a).key, (m.val a).peer)

theorem entryAt_congr {m m' : Mem Generation A (Item K P)} (h : m'.val = m.val) :
    entryAt m' = entryAt m := by
  funext x
  unfold entryAt
  rw [h]

structure Rep (l : PeerList K P A) (t : PeerTable K P) (rs os gs : List A) : Prop where
  recent : ListAt l.mem (.head .recent) rs
  old : ListAt l.mem (.head .old) os
  pending : Pending l.mem l.garbage gs
  nodup : (rs ++ os ++ gs).Nodup
  trecent : t.recent = rs.map (entryAt l.mem)
  told : t.old = os.map (entryAt l.mem)
  left : t.left = l.left
  index : l.root.Perm ((rs ++ os).map some)
  held : ∀ a, l.held = some a → rs.head? = some a
  ok : t.Ok l.max

variable {m : Mem Generation A (Item K P)} {g : List (Option A)} {xs : List A}

theorem Pending.alive (h : Pending m g xs) : ∀ x ∈ xs, m.alive x = true := by
  induction h with
  | nil => exact nofun
  | cons hf _ ih =>
    intro x hx
    rcases mem_append.mp hx with hx | hx
    · exact hf.alive x hx
    · exact ih x hx

theorem Pending.frame {m' : Mem Generation A (Item K P)} (h : Pending m g xs)
    (hnext : ∀ x ∈ xs, m'.next x = m.next x) (halive : ∀ x ∈ xs, m'.alive x = m.alive x) :
    Pending m' g xs := by
  induction h with
  | nil => exact .nil
  | cons hf _ ih =>
    refine .cons (hf.frame (fun x hx => hnext x (mem_append_left _ hx))
      (fun x hx => halive x (mem_append_left _ hx)))
      (ih (fun x hx => hnext x (mem_append_right _ hx))
        (fun x hx => halive x (mem_append_right _ hx)))

section Rep

variable {l : PeerList K P A} {t : PeerTable K P} {rs os gs : List A} {a : A} {addr : K}

theorem Rep.entries (h : Rep l t rs os gs) : t.entries = (rs ++ os).map (entryAt l.mem) := by
  rw [PeerTable.entries, h.trecent, h.told, map_append]

theorem Rep.keys (h : Rep l t rs os gs) :
    t.keys = (rs ++ os).map (fun a => (l.mem.val a).key) := by
  rw [PeerTable.keys, h.entries, map_map]
  rfl

theorem Rep.alive (h : Rep l t rs os gs) : ∀ x ∈ rs ++ os ++ gs, l.mem.alive x = true := by
  intro x hx
  rcases mem_append.mp hx with hx | hx
  · rcases mem_append.mp hx with hx | hx
    · exact h.recent.alive x hx
    · exact h.old.alive x hx
  · exact h.pending.alive x hx

variable {d : Option A}

theorem Rep.mem_root (h : Rep l t rs os gs) : d ∈ l.root ↔ ∃ a ∈ rs ++ os, d = some a := by
  rw [h.index.mem_iff, mem_map]
  exact exists_congr fun a => and_congr_right' eq_comm

theorem Rep.key_inj (h : Rep l t rs os gs) {b : A} (ha : a ∈ rs ++ os) (hb : b ∈ rs ++ os)
    (hk : (l.mem.val a).key = (l.mem.val b).key) : a = b := by
  have hnd := h.ok.nodup
  rw [h.keys] at hnd
  exact inj_on_of_nodup_map hnd ha hb hk

theorem treeOk_of_perm (hp : l.root.Perm (xs.map some)) (halive : ∀ x ∈ xs, l.mem.alive x = true) :
    l.treeOk = true := by
  unfold PeerList.treeOk
  rw [all_eq_true]
  intro d hd
  obtain ⟨a, ha, rfl⟩ := mem_map.mp (hp.mem_iff.mp hd)
  exact halive a ha

theorem Rep.treeOk (h : Rep l t rs os gs) : l.treeOk = true :=
  treeOk_of_perm h.index fun a ha => h.alive a (mem_append_left _ ha)

theorem Rep.setHeld (h : Rep l t rs os gs) {o : Option A}
    (ho : ∀ a, o = some a → rs.head? = some a) : Rep { l with held := o } t rs os gs :=
  ⟨h.recent, h.old, h.pending, h.nodup, h.trecent, h.told, h.left, h.index, ho, h.ok⟩

theorem Rep.tfind_some [DecidableEq K] (h : Rep l t rs os gs) (hd : l.tfind addr = some d) :
    ∃ a ∈ rs ++ os, d = some a ∧ (l.mem.val a).key = addr ∧
      t.find addr = some (l.mem.val a).peer := by
  obtain ⟨a, ha, rfl⟩ := h.mem_root.mp (mem_of_find?_eq_some hd)
  have hfound := find?_some hd
  have hk : (l.mem.val a).key = addr := of_decide_eq_true hfound
  refine ⟨a, ha, rfl, hk, (PeerTable.find_eq_some_iff h.ok.nodup).mpr ?_⟩
  rw [h.entries, ← hk]
  exact mem_map.mpr ⟨a, ha, rfl⟩

theorem Rep.tfind_none [DecidableEq K] (h : Rep l t rs os gs) (hd : l.tfind addr = none) :
    t.find addr = none := by
  rw [PeerTable.find_eq_none_iff, h.keys]
  intro hk
  obtain ⟨a, ha, rfl⟩ := mem_map.mp hk
  have := find?_eq_none.mp hd (some a) (h.mem_root.mpr ⟨a, ha, rfl⟩)
  exact this (by simp [PeerList.keyAt])

/-! ## Lookup of an entry in the list -/

variable [DecidableEq A]

theorem linked_of_listAt {k : Place Generation A} (h : ListAt m k xs) (ha : a ∈ xs) :
    PeerList.linked m a = true := by
  unfold PeerList.linked
  rw [h.pprev_get ha, decide_eq_true rfl, Bool.true_and]
  cases hn : m.next a with
  | none => rfl
  | some b => exact decide_eq_true (h.next_pprev ha hn).2

theorem unlink_lists (xs : Generation → List A) (hxs : ∀ g, ListAt m (.head g) (xs g))
    (hnd : (xs .recent ++ xs .old).Nodup) {g : Generation} (ha : a ∈ xs g) :
    ∃ m', m.unlink a = some m' ∧ Same m m' ∧ (∀ g, ListAt m' (.head g) ((xs g).erase a)) ∧
      (∀ x, x ∉ xs .recent ++ xs .old → m'.next x = m.next x) := by
  obtain ⟨pre, post, hsplit⟩ := append_of_mem ha
  have hg := hxs g
  rw [hsplit] at hg
  obtain ⟨m', hm', hsame, hget, hpprev⟩ := unlink_spec hg rfl
  have hndg : ∀ g, (xs g).Nodup := by
    intro g
    cases g with
    | recent => exact hnd.of_append_left
    | old => exact hnd.of_append_right
  have hdisj : ∀ g', g' ≠ g → ∀ x ∈ xs g', x ∉ xs g := by
    intro g' hne x hx hx'
    cases g <;> cases g'
    · exact hne rfl
    · exact disjoint_of_nodup_append hnd hx' hx
    · exact disjoint_of_nodup_append hnd hx hx'
    · exact hne rfl
  -- the place before `a` is the head of its list or a node of it
  have hplace : ∀ x, x ∉ xs g → (.next x : Place Generation A) ≠ placeAfter (.head g) pre := by
    intro x hx he
    rcases placeAfter_eq (.head g : Place Generation A) with hk | ⟨y, hy, hk⟩
    · rw [hk] at he
      cases he
    · rw [hk] at he
      cases he
      exact hx (by rw [hsplit]; simp [hy])
  have hnext : ∀ x, x ∉ xs g → m'.next x = m.next x := by
    intro x hx
    have := hget (.next x)
    rwa [if_neg (hplace x hx)] at this
  refine ⟨m', hm', hsame, fun g' => ?_, fun x hx => hnext x (fun hg => hx ?_)⟩
  · by_cases hgg : g' = g
    · subst hgg
      have hnd' := hndg g'
      rw [hsplit] at hnd'
      have herase : (pre ++ a :: post).erase a = pre ++ post := by
        rw [nodup_middle, nodup_cons] at hnd'
        rw [erase_append_right _ (fun h => hnd'.1 (mem_append_left _ h)), erase_cons_head]
      rw [hsplit, herase]
      exact hg.unlink hnd' (fun x _ => by simp) hget hpprev (fun x => congrFun hsame.alive x)
    · have hna : a ∉ xs g' := fun h => hdisj g' hgg a h ha
      rw [erase_of_not_mem hna]
      refine (hxs g').frame ?_ (fun x hx => hnext x (hdisj g' hgg x hx)) (fun x hx => ?_)
        (fun x _ => congrFun hsame.alive x)
      · rw [hget, if_neg]
        rcases placeAfter_eq (.head g : Place Generation A) with hk | ⟨y, _, hk⟩
        · rw [hk]
          intro he
          cases he
          exact hgg rfl
        · rw [hk]
          simp
      · rw [hpprev, if_neg]
        intro hp
        refine hdisj g' hgg x hx ?_
        rw [hsplit]
        exact mem_append_right _ (mem_cons_of_mem _ (mem_of_mem_head? hp))
  · cases g with
    | recent => exact mem_append_left _ hg
    | old => exact mem_append_right _ hg

theorem pushFront_lists (hr : ListAt m (.head .recent) rs)
    (ho : ListAt m (.head .old) os) (hnd : (rs ++ os).Nodup) (ha : a ∉ rs ++ os)
    (halive : m.alive a = true) :
    ∃ m', m.pushFront .recent a = some m' ∧ Same m m' ∧ ListAt m' (.head .recent) (a :: rs) ∧
      ListAt m' (.head .old) os ∧ ∀ x, x ≠ a → m'.next x = m.next x := by
  have har : a ∉ rs := fun h => ha (mem_append_left _ h)
  have hao : a ∉ os := fun h => ha (mem_append_right _ h)
  obtain ⟨m', hm', hsame, hget, hpprev⟩ := pushFront_spec hr halive
  have hnext : ∀ x, x ≠ a → m'.next x = m.next x := by
    intro x hx
    have := hget (.next x)
    rwa [if_neg (by simp), if_neg (by simpa using hx)] at this
  refine ⟨m', hm', hsame, ?_, ?_, hnext⟩
  · exact hr.pushFront har hnd.of_append_left (fun x _ => by simp)
      ((congrFun hsame.alive a).trans halive) hget hpprev (fun x _ => congrFun hsame.alive x)
  · refine ho.frame ?_ (fun x hx => hnext x (fun he => hao (he ▸ hx))) (fun x hx => ?_)
      (fun x _ => congrFun hsame.alive x)
    · rw [hget, if_neg (by simp), if_neg (by simp)]
    · have hxa : x ≠ a := fun he => hao (he ▸ hx)
      rw [hpprev, if_neg hxa, if_neg]
      intro hp
      exact disjoint_of_nodup_append hnd (mem_of_mem_head? hp) hx

variable [DecidableEq K]

theorem map_erase (hnd : xs.Nodup) (hkey : ∀ x ∈ xs, (m.val x).key = addr → x = a)
    (ha : (m.val a).key = addr) :
    (xs.erase a).map (entryAt m) =
      (xs.map (entryAt m)).filter (fun e => decide (e.1 ≠ addr)) := by
  rw [hnd.erase_eq_filter, filter_map]
  congr 1
  refine filter_congr fun x hx => ?_
  rw [Bool.eq_iff_iff, bne_iff_ne, comp_apply, decide_eq_true_eq]
  refine not_congr ⟨?_, hkey x hx⟩
  rintro rfl
  exact ha

theorem Rep.relink (h : Rep l t rs os gs) (ha : a ∈ rs ++ os) (hk : (l.mem.val a).key = addr) :
    ∃ l', l.relink a = some (.found a, l') ∧
      Rep l' (t.touch addr) (a :: rs.erase a) (os.erase a) gs := by
  have hndl : (rs ++ os).Nodup := h.nodup.of_append_left
  have hag : a ∉ gs := fun hg => disjoint_of_nodup_append h.nodup ha hg
  have hkey : ∀ x ∈ rs ++ os, (l.mem.val x).key = addr → x = a :=
    fun x hx hxk => h.key_inj hx ha (hxk.trans hk.symm)
  -- the table after the lookup, and the entries in their new order
  have hfind : t.find addr = some (l.mem.val a).peer := by
    rw [PeerTable.find_eq_some_iff h.ok.nodup, h.entries, ← hk]
    exact mem_map.mpr ⟨a, ha, rfl⟩
  have htouch : t.touch addr = ⟨(a :: rs.erase a).map (entryAt l.mem),
      (os.erase a).map (entryAt l.mem), t.left⟩ := by
    have hra := map_erase hndl.of_append_left
      (fun x hx => hkey x (mem_append_left _ hx)) hk
    have hoa := map_erase hndl.of_append_right
      (fun x hx => hkey x (mem_append_right _ hx)) hk
    unfold PeerTable.touch
    rw [hfind, map_cons, hra, hoa, h.trecent, h.told, entryAt, hk]
  have hperm : (a :: rs.erase a ++ os.erase a).Perm (rs ++ os) := by
    rw [cons_append]
    rcases mem_append.mp ha with hr | ho
    · have hao : a ∉ os := fun ho => disjoint_of_nodup_append hndl hr ho
      rw [erase_of_not_mem hao, ← cons_append]
      exact (perm_cons_erase hr).symm.append_right os
    · have har : a ∉ rs := fun hr => disjoint_of_nodup_append hndl hr ho
      rw [erase_of_not_mem har]
      exact perm_middle.symm.trans ((perm_cons_erase ho).symm.append_left rs)
  have hnd' : (a :: rs.erase a ++ os.erase a ++ gs).Nodup :=
    (hperm.append_right gs).nodup_iff.mpr h.nodup
  have hindex : l.root.Perm ((a :: rs.erase a ++ os.erase a).map some) :=
    h.index.trans (hperm.map some).symm
  have hok : (t.touch addr).Ok l.max := h.ok.touch addr
  -- a state with these lists and the same entries is what is asked for
  have hrep : ∀ m : Mem Generation A (Item K P), ListAt m (.head .recent) (a :: rs.erase a) →
      ListAt m (.head .old) (os.erase a) → Pending m l.garbage gs → m.val = l.mem.val →
      Rep { l with mem := m, held := some a } (t.touch addr) (a :: rs.erase a) (os.erase a) gs := by
    intro m hr ho hp hval
    have hentry := entryAt_congr hval
    refine ⟨hr, ho, hp, hnd', ?_, ?_, ?_, hindex, fun b hb => ?_, hok⟩
    · rw [htouch, hentry]
    · rw [htouch, hentry]
    · rw [htouch]
      exact h.left
    · cases hb
      rfl
  have hlinked : PeerList.linked l.mem a = true := by
    rcases mem_append.mp ha with hr | ho
    · exact linked_of_listAt h.recent hr
    · exact linked_of_listAt h.old ho
  unfold PeerList.relink
  rw [if_neg (by simp [hlinked])]
  by_cases hhead : l.mem.head .recent = some a
  · -- already in front: nothing moves
    obtain ⟨ys, rfl⟩ := head?_eq_some_iff.mp (h.recent.get_eq.symm.trans hhead)
    have hao : a ∉ os := fun ho => disjoint_of_nodup_append hndl (by simp) ho
    rw [if_pos hhead]
    refine ⟨_, rfl, hrep l.mem ?_ ?_ h.pending rfl⟩
    · rw [erase_cons_head]
      exact h.recent
    · rw [erase_of_not_mem hao]
      exact h.old
  · rw [if_neg hhead]
    obtain ⟨g, hg⟩ : ∃ g : Generation, a ∈ (match g with | .recent => rs | .old => os) := by
      rcases mem_append.mp ha with hr | ho
      · exact ⟨.recent, hr⟩
      · exact ⟨.old, ho⟩
    obtain ⟨m₁, hm₁, hs₁, hl₁, hn₁⟩ := unlink_lists
      (fun g => match g with | .recent => rs | .old => os)
      (fun g => by cases g; exacts [h.recent, h.old]) hndl hg
    obtain ⟨ha₁, hnd₁⟩ := nodup_cons.mp hnd'.of_append_left
    have halive : m₁.alive a = true := by
      rw [hs₁.alive]
      exact h.alive a (mem_append_left _ ha)
    obtain ⟨m₂, hm₂, hs₂, hr₂, ho₂, hn₂⟩ :=
      pushFront_lists (hl₁ .recent) (hl₁ .old) hnd₁ ha₁ halive
    rw [hm₁, Option.bind_some, hm₂, Option.bind_some, if_pos (linked_of_listAt hr₂ (by simp))]
    refine ⟨_, rfl, hrep m₂ hr₂ ho₂ (h.pending.frame (fun x hx => ?_) (fun x hx => ?_)) ?_⟩
    · have hxa : x ≠ a := fun he => hag (he ▸ hx)
      have hxl : x ∉ rs ++ os := fun hl => disjoint_of_nodup_append h.nodup hl hx
      rw [hn₂ x hxa, hn₁ x hxl]
    · rw [hs₂.alive, hs₁.alive]
    · rw [hs₂.val, hs₁.val]

/-! ## Creation -/

/-- `tsearch` stores the key of the caller, and a failed creation takes it out again. -/
theorem tdelete_caller (l : PeerList K P A) (addr : K) :
    PeerList.tdelete { l with root := none :: l.root } addr = l.root := by
  have hfind : PeerList.tfind { l with root := none :: l.root } addr = some none := by
    exact find?_cons_of_pos (by simp [PeerList.keyAt])
  unfold PeerList.tdelete
  rw [hfind]
  show (none :: l.root).erase none = l.root
  rw [erase_cons_head]

variable (init : P → P)

theorem Rep.create (h : Rep l t rs os gs) (hfind : t.find addr = none) (hleft : 0 < l.left)
    {junk : Item K P} (ha : l.mem.alive a = false) :
    ∃ l', PeerList.create init { l with root := none :: l.root } addr (some (a, junk)) =
        some (.created a, l') ∧
      Rep l' (t.insert addr (init junk.peer)) (a :: rs) os gs := by
  have hnew : ∀ x ∈ rs ++ os ++ gs, x ≠ a := by
    rintro x hx rfl
    exact absurd (h.alive x hx) (by simp [ha])
  have hnewl : ∀ x ∈ rs ++ os, x ≠ a := fun x hx => hnew x (mem_append_left _ hx)
  have hndl : (rs ++ os).Nodup := h.nodup.of_append_left
  set m := PeerList.alloc init l.mem a junk with hm
  have halive : ∀ x, x ≠ a → m.alive x = l.mem.alive x := by
    intro x hx
    exact update_of_ne hx _ _
  have hval : ∀ x, x ≠ a → m.val x = l.mem.val x := by
    intro x hx
    exact update_of_ne hx _ _
  have hr : ListAt m (.head .recent) rs := h.recent.frame rfl (fun _ _ => rfl) (fun _ _ => rfl)
    (fun x hx => halive x (hnewl x (mem_append_left _ hx)))
  have ho : ListAt m (.head .old) os := h.old.frame rfl (fun _ _ => rfl) (fun _ _ => rfl)
    (fun x hx => halive x (hnewl x (mem_append_right _ hx)))
  have ha' : a ∉ rs ++ os := fun hx => hnewl a hx rfl
  obtain ⟨m₁, hm₁, hs₁, hr₁, ho₁, hn₁⟩ := pushFront_lists hr ho hndl ha'
    (show m.alive a = true from update_self _ _ _)
  have hroot : (none :: l.root).map (fun d => if d = none then some a else d) =
      some a :: l.root := by
    rw [map_cons, if_pos rfl]
    congr 1
    have hid : ∀ d ∈ l.root, (if d = none then some a else d) = d := by
      intro d hd
      obtain ⟨b, _, rfl⟩ := h.mem_root.mp hd
      exact if_neg (by simp)
    exact (map_congr_left (g := id) hid).trans (map_id _)
  have hval₁ : ∀ x, x ≠ a → m₁.val x = l.mem.val x := fun x hx =>
    (congrFun hs₁.val x).trans (hval x hx)
  have hentry : ∀ x, x ≠ a → entryAt { m₁ with
      val := update m₁.val a ⟨addr, (m₁.val a).peer⟩ } x = entryAt l.mem x := by
    intro x hx
    unfold entryAt
    simp only [update_of_ne hx, hval₁ x hx]
  have hpeer : (m₁.val a).peer = init junk.peer := by
    rw [hs₁.val, hm]
    simp only [PeerList.alloc, update_self]
  unfold PeerList.create
  simp only [hleft, if_true]
  rw [← hm, hm₁, Option.bind_some, if_pos (linked_of_listAt hr₁ (by simp))]
  refine ⟨_, rfl, ⟨?_, ?_, ?_, ?_, ?_, ?_, ?_, ?_, ?_, ?_⟩⟩
  · exact hr₁.frame rfl (fun _ _ => rfl) (fun _ _ => rfl) (fun _ _ => rfl)
  · exact ho₁.frame rfl (fun _ _ => rfl) (fun _ _ => rfl) (fun _ _ => rfl)
  · refine h.pending.frame (fun x hx => hn₁ x (hnew x (mem_append_right _ hx))) (fun x hx => ?_)
    exact (congrFun hs₁.alive x).trans (halive x (hnew x (mem_append_right _ hx)))
  · exact nodup_cons.mpr ⟨fun hx => hnew a hx rfl, h.nodup⟩
  · show (addr, init junk.peer) :: t.recent = _
    rw [map_cons, h.trecent]
    congr 1
    · unfold entryAt
      simp only [update_self, hpeer]
    · exact map_congr_left fun x hx => (hentry x (hnewl x (mem_append_left _ hx))).symm
  · show t.old = _
    rw [h.told]
    exact map_congr_left fun x hx => (hentry x (hnewl x (mem_append_right _ hx))).symm
  · show t.left - 1 = l.left - 1
    rw [h.left]
  · exact (List.Perm.of_eq hroot).trans (h.index.cons (some a))
  · intro b hb
    cases hb
    rfl
  · exact h.ok.insert hfind (by rw [h.left]; exact hleft) _

/-! ## Collection -/

omit [DecidableEq A] in
theorem tfind_of_mem (hp : l.root.Perm (xs.map some)) (ha : a ∈ xs)
    (hinj : ∀ b ∈ xs, (l.mem.val b).key = (l.mem.val a).key → b = a) :
    l.tfind (l.mem.val a).key = some (some a) := by
  cases hf : l.tfind (l.mem.val a).key with
  | none =>
    have := find?_eq_none.mp hf (some a) (hp.mem_iff.mpr (mem_map.mpr ⟨a, ha, rfl⟩))
    exact absurd (by simp [PeerList.keyAt]) this
  | some d =>
    obtain ⟨b, hb, rfl⟩ := mem_map.mp (hp.mem_iff.mp (mem_of_find?_eq_some hf))
    have hfound := find?_some hf
    rw [hinj b hb (of_decide_eq_true hfound)]

theorem expire_spec {ys : List A} {n : ℕ} {p : Option A} (hn : xs.length ≤ n)
    (hf : Forward l.mem p xs) (hys : ∀ y ∈ ys, l.mem.alive y = true)
    (hinj : ∀ a ∈ xs ++ ys, ∀ b ∈ xs ++ ys, (l.mem.val b).key = (l.mem.val a).key → b = a)
    (hnd : (xs ++ ys).Nodup) (hp : l.root.Perm ((xs ++ ys).map some)) :
    ∃ root, PeerList.expire n l p = some { l with root := root, left := l.left + xs.length } ∧
      root.Perm (ys.map some) := by
  induction xs generalizing n l p with
  | nil =>
    have hnone : p = none := hf
    subst hnone
    refine ⟨l.root, ?_, hp⟩
    cases n <;> rfl
  | cons a xs ih =>
    obtain ⟨rfl, halive, hf'⟩ := hf
    cases n with
    | zero => exact nomatch hn
    | succ n =>
      have htree : l.treeOk = true := by
        refine treeOk_of_perm hp (forall_mem_cons.mpr ⟨halive, fun b hb => ?_⟩)
        rcases mem_append.mp hb with hb | hb
        · exact hf'.alive b hb
        · exact hys b hb
      have hfind : l.tfind (l.mem.val a).key = some (some a) :=
        tfind_of_mem hp (by simp) (fun b hb => hinj a (by simp) b hb)
      have hdel : (l.tdelete (l.mem.val a).key).Perm ((xs ++ ys).map some) := by
        unfold PeerList.tdelete
        rw [hfind]
        have := hp.erase (some a)
        rwa [cons_append, map_cons, erase_cons_head] at this
      obtain ⟨root, hrun, hroot⟩ := ih (n := n)
        (l := { l with root := l.tdelete (l.mem.val a).key, left := l.left + 1 })
        (p := l.mem.next a) (by simpa using hn) hf' hys
        (fun b hb c hc => hinj b (mem_cons_of_mem _ hb) c (mem_cons_of_mem _ hc))
        (nodup_cons.mp hnd).2 hdel
      refine ⟨root, ?_, hroot⟩
      rw [PeerList.expire, if_neg (by simp [halive, htree]), if_neg (by simp [hfind]), hrun]
      simp only [length_cons, Nat.add_assoc, Nat.add_comm 1]

theorem Rep.collect (h : Rep l t rs os gs) (hheld : l.held = none) :
    ∃ l', l.collect = some l' ∧ l'.max = l.max ∧ Rep l' t.collect [] rs (os ++ gs) := by
  have hndl : (rs ++ os).Nodup := h.nodup.of_append_left
  have hcomm : (os ++ rs).Perm (rs ++ os) := perm_append_comm
  have hlen : os.length ≤ l.root.length + 1 := by
    rw [h.index.length_eq, length_map, length_append]
    omega
  obtain ⟨root, hrun, hroot⟩ := expire_spec hlen h.old.forward
    (fun y hy => h.recent.alive y hy)
    (fun a ha b hb hk => h.key_inj (hcomm.mem_iff.mp hb) (hcomm.mem_iff.mp ha) hk)
    (hcomm.nodup_iff.mpr hndl) (h.index.trans (hcomm.map some).symm)
  -- the list of the recent entries moves to the other head
  set m₁ : Mem Generation A (Item K P) :=
    { l.mem with head := update l.mem.head .old (l.mem.head .recent) } with hm₁
  set m₂ : Mem Generation A (Item K P) :=
    { m₁ with head := update m₁.head .recent none } with hm₂
  have hold₂ : m₂.head .old = rs.head? := by
    exact h.recent.get_eq
  have halive : ∀ b, m₂.head .old = some b → m₂.alive b = true := by
    intro b hb
    rw [hold₂] at hb
    exact h.recent.alive b (mem_of_mem_head? hb)
  obtain ⟨m₃, hm₃, hs₃, hg₃, hp₃⟩ := setPprev?_spec halive
  have hnext : ∀ x, m₃.next x = l.mem.next x := fun x => hg₃ (.next x)
  have hcollect : l.collect = some { l with
      mem := m₃, root := root, left := l.left + os.length,
      garbage := l.mem.head .old :: l.garbage } := by
    unfold PeerList.collect
    rw [show l.mem.head .old = l.mem.get (.head .old) from rfl, hrun, Option.bind_some]
    show (Option.bind (some m₁) fun m => _) = _
    rw [Option.bind_some]
    show (Option.bind (some m₂) fun m => _) = _
    rw [Option.bind_some, hm₃]
    rfl
  refine ⟨_, hcollect, rfl, ⟨?_, ?_, ?_, ?_, rfl, ?_, ?_, ?_, ?_, h.ok.collect⟩⟩
  · show m₃.get (.head .recent) = none
    rw [hg₃]
    simp [hm₂, Mem.get]
  · refine h.recent.moveTo hndl.of_append_left ?_ (fun x _ => hnext x) (fun x _ => ?_)
      (fun x _ => congrFun hs₃.alive x)
    · rw [hg₃, h.recent.get_eq]
      exact hold₂
    · rw [hp₃, hold₂]
  · refine .cons (h.old.forward.frame (fun x _ => hnext x) (fun x _ => congrFun hs₃.alive x))
      (h.pending.frame (fun x _ => hnext x) (fun x _ => congrFun hs₃.alive x))
  · rw [nil_append, ← append_assoc]
    exact h.nodup
  · show t.recent = rs.map (entryAt m₃)
    rw [entryAt_congr hs₃.val]
    exact h.trecent
  · show t.left + t.old.length = l.left + os.length
    rw [h.left, h.told, length_map]
  · exact hroot
  · intro a ha
    cases hheld.symm.trans ha

/-! ## Release of memory -/

omit [DecidableEq K] in
theorem recdestroy_spec (h : Pending m g xs) (hnd : xs.Nodup) : ∀ i, ∃ m' g' xs',
      PeerList.recdestroy m g i = some (m', g') ∧ Pending m' g' xs' ∧ xs'.Sublist xs ∧
      (∀ k, m'.get k = m.get k) ∧ m'.pprev = m.pprev ∧ m'.val = m.val ∧
      ∀ x, x ∉ xs → m'.alive x = m.alive x := by
  induction h with
  | nil => exact fun i => ⟨m, [], [], rfl, .nil, .slnil, fun _ => rfl, rfl, rfl, fun _ _ => rfl⟩
  | @cons p g ys xs hf hp ih =>
    intro i
    cases i with
    | zero =>
      cases ys with
      | nil =>
        have hnone : p = none := hf
        subst hnone
        exact ⟨m, g, xs, rfl, hp, List.Sublist.refl _, fun _ => rfl, rfl, rfl, fun _ _ => rfl⟩
      | cons a ys =>
        obtain ⟨rfl, halive, hf'⟩ := hf
        have ha : a ∉ ys ++ xs := (nodup_cons.mp hnd).1
        have hne : ∀ x ∈ ys ++ xs, x ≠ a := fun x hx he => ha (he ▸ hx)
        refine ⟨{ m with alive := update m.alive a false }, m.next a :: g, ys ++ xs,
          by simp [PeerList.recdestroy, halive], ?_, sublist_cons_self _ _, fun k => ?_, rfl,
          rfl, fun x hx => ?_⟩
        · refine .cons (hf'.frame (fun _ _ => rfl) (fun x hx => ?_))
            (hp.frame (fun _ _ => rfl) (fun x hx => ?_))
          · exact update_of_ne (hne x (mem_append_left _ hx)) _ _
          · exact update_of_ne (hne x (mem_append_right _ hx)) _ _
        · cases k <;> rfl
        · exact update_of_ne (fun he => hx (by rw [he]; simp)) _ _
    | succ i =>
      have hndx : xs.Nodup := hnd.of_append_right
      obtain ⟨m', g', xs', hrun, hp', hsub, hget, hpprev, hval, halive⟩ := ih hndx i
      refine ⟨m', p :: g', ys ++ xs', ?_, .cons (hf.frame (fun x _ => hget (.next x)) ?_) hp',
        (List.Sublist.refl ys).append hsub, hget, hpprev, hval, fun x hx => ?_⟩
      · cases p <;> simp [PeerList.recdestroy, hrun]
      · intro x hx
        exact halive x fun hx' => (nodup_append.mp hnd).2.2 x hx x hx' rfl
      · exact halive x fun hx' => hx (mem_append_right _ hx')

omit [DecidableEq K] in
theorem Rep.free (h : Rep l t rs os gs) (i : ℕ) : ∃ m g gs',
    PeerList.recdestroy l.mem l.garbage i = some (m, g) ∧
      Rep { l with mem := m, garbage := g } t rs os gs' := by
  have hndg : gs.Nodup := h.nodup.of_append_right
  obtain ⟨m, g, gs', hrun, hp, hsub, hget, hpprev, hval, halive⟩ := recdestroy_spec h.pending hndg i
  have hlive : ∀ x ∈ rs ++ os, m.alive x = l.mem.alive x := fun x hx =>
    halive x fun hx' => (nodup_append.mp h.nodup).2.2 x hx x hx' rfl
  have hentry := entryAt_congr hval
  refine ⟨m, g, gs', hrun, ⟨?_, ?_, hp, ?_, ?_, ?_, h.left, h.index, h.held, h.ok⟩⟩
  · exact h.recent.frame (hget _) (fun x _ => hget (.next x)) (fun x _ => congrFun hpprev x)
      (fun x hx => hlive x (mem_append_left _ hx))
  · exact h.old.frame (hget _) (fun x _ => hget (.next x)) (fun x _ => congrFun hpprev x)
      (fun x hx => hlive x (mem_append_right _ hx))
  · exact ((List.Sublist.refl _).append hsub).nodup h.nodup
  · rw [hentry]
    exact h.trecent
  · rw [hentry]
    exact h.told

/-! ## The other operations -/

omit [DecidableEq K] [DecidableEq A] in
theorem Rep.reset (h : Rep l t rs os gs) (hheld : l.held = none) (max : ℕ) :
    Rep (l.reset max) (.empty max) [] [] (os ++ (rs ++ gs)) := by
  refine ⟨rfl, rfl, ?_, ?_, rfl, rfl, rfl, List.Perm.refl _, ?_, PeerTable.ok_empty⟩
  · exact .cons (h.old.forward.frame (fun _ _ => rfl) (fun _ _ => rfl))
      (.cons (h.recent.forward.frame (fun _ _ => rfl) (fun _ _ => rfl))
        (h.pending.frame (fun _ _ => rfl) (fun _ _ => rfl)))
  · have hperm : (os ++ (rs ++ gs)).Perm (rs ++ os ++ gs) := by
      rw [← append_assoc]
      exact perm_append_comm.append_right gs
    exact hperm.nodup_iff.mpr h.nodup
  · intro a ha
    cases hheld.symm.trans ha

omit [DecidableEq K] in
theorem Rep.write (h : Rep l t rs os gs) (ha : l.held = some a) (f : P → P) :
    Rep { l with mem := { l.mem with
      val := update l.mem.val a ⟨(l.mem.val a).key, f (l.mem.val a).peer⟩ } }
      (t.modify f) rs os gs := by
  obtain ⟨ys, rfl⟩ := head?_eq_some_iff.mp (h.held a ha)
  set m : Mem Generation A (Item K P) := { l.mem with
    val := update l.mem.val a ⟨(l.mem.val a).key, f (l.mem.val a).peer⟩ } with hm
  have hne : ∀ x ∈ ys ++ os, x ≠ a := by
    rintro x hx rfl
    exact (nodup_cons.mp h.nodup.of_append_left).1 hx
  have hentry : ∀ x, x ≠ a → entryAt m x = entryAt l.mem x := by
    intro x hx
    unfold entryAt
    simp only [hm, update_of_ne hx]
  have htable : t.modify f = ⟨(a :: ys).map (entryAt m), os.map (entryAt m), t.left⟩ := by
    have hys : ys.map (entryAt m) = ys.map (entryAt l.mem) :=
      map_congr_left fun x hx => hentry x (hne x (mem_append_left _ hx))
    have hos : os.map (entryAt m) = os.map (entryAt l.mem) :=
      map_congr_left fun x hx => hentry x (hne x (mem_append_right _ hx))
    have hrec := h.trecent
    rw [map_cons, entryAt] at hrec
    unfold PeerTable.modify
    rw [hrec, map_cons, hys, hos, h.told]
    simp only [hm, entryAt, update_self]
  refine ⟨h.recent.frame rfl (fun _ _ => rfl) (fun _ _ => rfl) (fun _ _ => rfl),
    h.old.frame rfl (fun _ _ => rfl) (fun _ _ => rfl) (fun _ _ => rfl),
    h.pending.frame (fun _ _ => rfl) (fun _ _ => rfl), h.nodup, ?_, ?_, ?_, h.index, h.held,
    h.ok.modify f⟩
  · rw [htable]
  · rw [htable]
  · rw [htable]
    exact h.left

end Rep

/-! ## Refinement -/

section Refinement

variable [DecidableEq K] [DecidableEq A] (init : P → P)

def tableStep (t : PeerTable K P) (e : PeerEvent K P A) : PeerTable K P :=
  match e.op, e.result with
  | .lookup addr _ _ _, .found _ => t.touch addr
  | .lookup addr _ _ (some (_, junk)), .created _ => t.insert addr (init junk.peer)
  | .write f, _ => t.modify f
  | .gc, _ => t.collect
  | .reset max, _ => .empty max
  | _, _ => t

def Tells (l : PeerList K P A) (t : PeerTable K P) (e : PeerEvent K P A) (l' : PeerList K P A) :
    Prop :=
  match e.op, e.result with
  | .lookup addr _ _ _, .found _ => t.find addr ≠ none
  | .lookup addr create? _ block, .created a =>
    t.find addr = none ∧ create? = true ∧ 0 < t.left ∧ ∃ junk, block = some (a, junk)
  | .lookup _ _ _ _, .null => l' = l
  | _, _ => True

variable {l l' : PeerList K P A} {t : PeerTable K P} {rs os gs : List A} {addr : K}
  {create? oom : Bool} {block : Option (A × Item K P)} {a : A} {r : PeerList.Found A}

theorem lookup_of_tfind (h : Rep l t rs os gs) (hf : l.tfind addr = some (some a)) :
    l.lookup init addr create? oom block = l.relink a := by
  unfold PeerList.lookup
  rw [if_neg (by simp [h.treeOk])]
  cases create?
  · rw [hf]
    rfl
  · simp only [PeerList.tsearch, hf, if_true]

theorem lookup_found (h : Rep l t rs os gs) (hfind : t.find addr ≠ none) :
    ∃ a l', l.lookup init addr create? oom block = some (.found a, l') := by
  cases hf : l.tfind addr with
  | none => exact absurd (h.tfind_none hf) hfind
  | some d =>
    obtain ⟨a, ha, rfl, hk, -⟩ := h.tfind_some hf
    obtain ⟨l', hl', -⟩ := h.relink ha hk
    exact ⟨a, l', (lookup_of_tfind init h hf).trans hl'⟩

theorem lookup_refines (h : Rep l t rs os gs)
    (he : (PeerOp.lookup addr create? oom block).Enabled l) :
    ∃ r l' rs' os' gs', l.lookup init addr create? oom block = some (r, l') ∧
      Rep l' (tableStep init t ⟨.lookup addr create? oom block, r⟩) rs' os' gs' ∧
      Tells l t ⟨.lookup addr create? oom block, r⟩ l' := by
  obtain ⟨hheld, hblock⟩ := he
  cases hf : l.tfind addr with
  | some d =>
    obtain ⟨a, ha, rfl, hk, hfind⟩ := h.tfind_some hf
    obtain ⟨l', hl', hrep⟩ := h.relink ha hk
    exact ⟨.found a, l', _, _, _, (lookup_of_tfind init h hf).trans hl', hrep,
      by simp [Tells, hfind]⟩
  | none =>
    have hfind := h.tfind_none hf
    unfold PeerList.lookup
    rw [if_neg (by simp [h.treeOk])]
    cases create? with
    | false => exact ⟨.null, l, _, _, _, by simp [hf], h, rfl⟩
    | true =>
      cases oom with
      | true =>
        refine ⟨.null, l, _, _, _, ?_, h, rfl⟩
        simp [PeerList.tsearch, hf]
      | false =>
        have hsearch : l.tsearch addr false = some (none, { l with root := none :: l.root }) := by
          simp [PeerList.tsearch, hf]
        simp only [hsearch, if_true]
        by_cases hnone : l.left = 0 ∨ block = none
        · refine ⟨.null, l, _, _, _, ?_, h, rfl⟩
          have hb : (if 0 < l.left then block else none) = none := by
            rcases hnone with h0 | hb
            · rw [if_neg (by omega)]
            · rw [hb, ite_self]
          unfold PeerList.create
          simp only [hb, tdelete_caller]
        · obtain ⟨hleft, hb⟩ := not_or.mp hnone
          obtain ⟨⟨a, junk⟩, rfl⟩ := Option.ne_none_iff_exists'.mp hb
          obtain ⟨l', hl', hrep⟩ := h.create init hfind (Nat.pos_of_ne_zero hleft)
            (hblock a junk rfl)
          refine ⟨.created a, l', _, _, _, hl', hrep, hfind, rfl, ?_, junk, rfl⟩
          rw [h.left]
          exact Nat.pos_of_ne_zero hleft

omit [DecidableEq K] in
theorem held_of_relink (h : l.relink a = some (r, l')) : r = .found a ∧ l'.held = some a := by
  unfold PeerList.relink at h
  split_ifs at h with _ hhead
  · cases h
    exact ⟨rfl, rfl⟩
  · obtain ⟨m, _, h⟩ := Option.bind_eq_some_iff.mp h
    obtain ⟨m', _, h⟩ := Option.bind_eq_some_iff.mp h
    split_ifs at h
    cases h
    exact ⟨rfl, rfl⟩

theorem held_of_lookup (h : l.lookup init addr create? oom block = some (r, l'))
    (hr : r = .found a ∨ r = .created a) :
    l'.held = some a := by
  have hrelink : ∀ {l : PeerList K P A} {b : A}, l.relink b = some (r, l') → l'.held = some a := by
    intro l b hb
    obtain ⟨rfl, hheld⟩ := held_of_relink hb
    rcases hr with hr | hr <;> cases hr
    exact hheld
  unfold PeerList.lookup at h
  split_ifs at h
  · split at h
    · cases h
      rcases hr with hr | hr <;> cases hr
    · exact hrelink h
    · unfold PeerList.create at h
      split at h
      · cases h
        rcases hr with hr | hr <;> cases hr
      · obtain ⟨m, _, h⟩ := Option.bind_eq_some_iff.mp h
        split_ifs at h
        cases h
        rcases hr with hr | hr <;> cases hr
        rfl
  · split at h
    · exact hrelink h
    · cases h
      rcases hr with hr | hr <;> cases hr

/-- **Refinement.** An operation on a list that stands for a table ends, and the list then stands
for the table after the operation. -/
theorem step_refines (h : Rep l t rs os gs) {op : PeerOp K P A} (he : op.Enabled l) :
    ∃ r l' rs' os' gs', step init l op = some (r, l') ∧
      Rep l' (tableStep init t ⟨op, r⟩) rs' os' gs' ∧ Tells l t ⟨op, r⟩ l' := by
  cases op with
  | lookup addr create? oom block => exact lookup_refines init h he
  | write f =>
    obtain ⟨a, ha⟩ := Option.ne_none_iff_exists'.mp he
    have halive : l.mem.alive a = true :=
      h.recent.alive a (mem_of_mem_head? (h.held a ha))
    exact ⟨.null, _, _, _, _, by simp only [step, ha, halive, if_true], h.write ha f, trivial⟩
  | release =>
    exact ⟨.null, _, rs, os, gs, rfl, h.setHeld nofun, trivial⟩
  | gc =>
    obtain ⟨l', hl', _, hrep⟩ := h.collect he
    exact ⟨.null, l', _, _, _, by simp [step, hl'], hrep, trivial⟩
  | reset max => exact ⟨.null, _, _, _, _, rfl, h.reset he max, trivial⟩
  | free i =>
    obtain ⟨m, g, gs', hrun, hrep⟩ := h.free i
    exact ⟨.null, _, _, _, _, by simp only [step, hrun, Option.map_some], hrep, trivial⟩

end Refinement

end Inv

end Maiccu.Teredo
