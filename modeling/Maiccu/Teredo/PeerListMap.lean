import Maiccu.Teredo.PeerList

/-!
# Peer lists with other peers

The operations of the peer list never look at the peers. So a list whose records carry more than a
`teredo_peer` behaves as the list without it.
-/

namespace Maiccu.Teredo

open Maiccu.Lib Option

variable {K P R A : Type*}

def Item.map (g : P → R) (x : Item K P) : Item K R := ⟨x.key, g x.peer⟩

def PeerList.mapPeers (g : P → R) (l : PeerList K P A) : PeerList K R A :=
  ⟨l.mem.mapVal (Item.map g), l.left, l.root, l.held, l.garbage, l.max⟩

namespace PeerList

variable [DecidableEq A] (g : P → R) (l : PeerList K P A)

def mapResult (r : Found A × PeerList K P A) : Found A × PeerList K R A := (r.1, r.2.mapPeers g)

theorem relink_mapPeers (a : A) : (l.mapPeers g).relink a = (l.relink a).map (mapResult g) := by
  unfold relink
  show (if ¬ linked l.mem a = true then none else if l.mem.head .recent = some a then _ else
    ((l.mem.mapVal (Item.map g)).unlink a).bind _) = _
  split_ifs
  · rfl
  · rw [Mem.unlink_mapVal]
    refine map_bind_of_map (fun m => ?_)
    rw [Mem.pushFront_mapVal]
    refine map_bind_of_map (fun m => ?_)
    show (if linked m a = true then _ else none) = _
    split_ifs <;> rfl
  · rfl

def mapBlock (b : Option (A × Item K P)) : Option (A × Item K R) := b.map fun x => (x.1, x.2.map g)

variable {init : P → P} {init' : R → R} (hinit : ∀ p, g (init p) = init' (g p))

include hinit

theorem alloc_mapVal (m : Mem Generation A (Item K P)) (a : A) (junk : Item K P) :
    alloc init' (m.mapVal (Item.map g)) a (junk.map g) = (alloc init m a junk).mapVal
      (Item.map g) := by
  have hjunk : (⟨junk.key, init' (g junk.peer)⟩ : Item K R) =
      Item.map g ⟨junk.key, init junk.peer⟩ := by
    rw [← hinit]
    rfl
  unfold alloc Mem.mapVal
  rw [Function.comp_update, ← hjunk]
  rfl

variable [DecidableEq K]

theorem create_mapPeers {addr : K} {block : Option (A × Item K P)} :
    (l.mapPeers g).create init' addr (mapBlock g block) =
      (l.create init addr block).map (mapResult g) := by
  unfold create
  by_cases hleft : 0 < l.left
  swap
  · have hleft' : ¬ 0 < (l.mapPeers g).left := hleft
    rw [if_neg hleft, if_neg hleft']
    rfl
  have hleft' : 0 < (l.mapPeers g).left := hleft
  rw [if_pos hleft, if_pos hleft']
  rcases block with _ | ⟨a, junk⟩
  · rfl
  · show ((alloc init' (l.mem.mapVal (Item.map g)) a (junk.map g)).pushFront .recent a).bind _ = _
    rw [alloc_mapVal g hinit, Mem.pushFront_mapVal]
    refine map_bind_of_map (fun m => ?_)
    have hval := m.mapVal_update (Item.map g) a ⟨addr, (m.val a).peer⟩
    show (if linked m a = true then _ else none) =
      Option.map _ (if linked m a = true then _ else none)
    split_ifs
    · unfold mapResult mapPeers
      rw [map_some]
      rw [hval]
      rfl
    · rfl

theorem lookup_mapPeers (addr : K) (create? oom : Bool) (block : Option (A × Item K P)) :
    (l.mapPeers g).lookup init' addr create? oom (mapBlock g block) =
      (l.lookup init addr create? oom block).map (mapResult g) := by
  unfold lookup tsearch
  have htree : (l.mapPeers g).treeOk = l.treeOk := rfl
  have hfind : (l.mapPeers g).tfind addr = l.tfind addr := rfl
  rw [htree, hfind]
  by_cases hok : l.treeOk = true
  swap
  · rw [if_pos hok, if_pos hok]
    rfl
  rw [if_neg (not_not.mpr hok), if_neg (not_not.mpr hok)]
  cases create? with
  | true =>
    cases l.tfind addr with
    | none =>
      cases oom with
      | true => rfl
      | false => exact create_mapPeers g { l with root := none :: l.root } hinit
    | some d =>
      cases d with
      | none => exact create_mapPeers g l hinit
      | some a => exact relink_mapPeers g l a
  | false =>
    cases l.tfind addr with
    | none => rfl
    | some d =>
      cases d with
      | none => rfl
      | some a => exact relink_mapPeers g l a

omit hinit in
theorem expire_mapPeers (n : ℕ) (p : Option A) :
    expire n (l.mapPeers g) p = (expire n l p).map (mapPeers g) := by
  induction n generalizing l p with
  | zero => cases p <;> rfl
  | succ n ih =>
    cases p with
    | none => rfl
    | some a =>
      show (if ¬ l.mem.alive a ∨ ¬ l.treeOk then none else
        if l.tfind (l.mem.val a).key = none then none else
        expire n (mapPeers g { l with root := l.tdelete (l.mem.val a).key, left := l.left + 1 })
          (l.mem.next a)) = Option.map _ (if ¬ l.mem.alive a ∨ ¬ l.treeOk then none else
        if l.tfind (l.mem.val a).key = none then none else _)
      split_ifs
      · rfl
      · rfl
      · exact ih _ _

omit hinit in
theorem collect_mapPeers : (l.mapPeers g).collect = l.collect.map (mapPeers g) := by
  show (expire (l.root.length + 1) (l.mapPeers g) (l.mem.head .old)).bind _ = _
  rw [expire_mapPeers]
  refine map_bind_of_map (fun l' => ?_)
  show ((l'.mem.mapVal (Item.map g)).set (.head .old) (l.mem.head .recent)).bind _ = _
  rw [Mem.set_mapVal]
  refine map_bind_of_map (fun m => ?_)
  rw [Mem.set_mapVal]
  refine map_bind_of_map (fun m => ?_)
  show ((m.mapVal (Item.map g)).setPprev? (m.head .old) (.head .old)).map _ = _
  rw [Mem.setPprev?_mapVal, map_map, map_map]
  rfl

variable (m : Mem Generation A (Item K P))

omit hinit [DecidableEq K] in
theorem recdestroy_succ (p : Option A) (gs : List (Option A))
    (i : ℕ) : recdestroy m (p :: gs) (i + 1) = (recdestroy m gs i).map fun r =>
    (r.1, p :: r.2) := by
  cases p <;> rfl

omit hinit [DecidableEq K] in
theorem recdestroy_mapVal (gs : List (Option A)) (i : ℕ) : recdestroy (m.mapVal (Item.map g)) gs i =
      (recdestroy m gs i).map fun r => (r.1.mapVal (Item.map g), r.2) := by
  induction gs generalizing i with
  | nil => rfl
  | cons p gs ih =>
    cases i with
    | zero =>
      cases p with
      | none => rfl
      | some a =>
        show (if m.alive a then _ else none) = Option.map _ (if m.alive a then _ else none)
        split_ifs <;> rfl
    | succ i =>
      rw [recdestroy_succ, recdestroy_succ, ih, map_map, map_map]
      rfl

omit hinit in
theorem step_gc_mapPeers : step init' (l.mapPeers g) .gc = (step init l .gc).map (mapResult g) := by
  show (l.mapPeers g).collect.map _ = (l.collect.map _).map _
  rw [collect_mapPeers, map_map, map_map]
  rfl

omit hinit in
theorem step_free_mapPeers (i : ℕ) :
    step init' (l.mapPeers g) (.free i) = (step init l (.free i)).map (mapResult g) := by
  show (recdestroy (l.mem.mapVal (Item.map g)) l.garbage i).map _ =
    ((recdestroy l.mem l.garbage i).map _).map _
  rw [recdestroy_mapVal, map_map, map_map]
  rfl

end PeerList

end Maiccu.Teredo
