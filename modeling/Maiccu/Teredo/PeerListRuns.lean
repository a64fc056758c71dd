import Maiccu.Teredo.PeerListRep

/-!
# Runs of the peer list

Two results on whole runs, by the refinement of each operation: `peerList_consistent`, what holds
between operations, and `gc_removes_iff`, which entries a collection removes.
-/

namespace Maiccu.Teredo

open Maiccu.Lib List

section Runs

variable {K P A : Type*} {max : ℕ} {mem : Mem Generation A (Item K P)}

theorem rep_new : Rep (PeerList.new mem max) (.empty max) [] [] [] :=
  ⟨rfl, rfl, .nil, nodup_nil, rfl, rfl, rfl, List.Perm.refl _, fun a ha => absurd ha (by
    simp [PeerList.new]), PeerTable.ok_empty⟩

structure Consistent (l : PeerList K P A) (rs os : List A) : Prop where
  recent : ListAt l.mem (.head .recent) rs
  old : ListAt l.mem (.head .old) os
  backLinks : ∀ a ∈ rs ++ os, l.mem.get (l.mem.pprev a) = some a
  index : l.root.Perm ((rs ++ os).map some)
  keys : ((rs ++ os).map fun a => (l.mem.val a).key).Nodup
  room : l.left + (rs ++ os).length = l.max

variable {l : PeerList K P A} {t : PeerTable K P} {rs os gs : List A} {es : List (PeerEvent K P A)}

theorem Rep.consistent (h : Rep l t rs os gs) : Consistent l rs os := by
  refine ⟨h.recent, h.old, fun a ha => ?_, h.index, ?_, ?_⟩
  · rcases mem_append.mp ha with hr | ho
    · exact h.recent.pprev_get hr
    · exact h.old.pprev_get ho
  · rw [← h.keys]
    exact h.ok.nodup
  · have hroom := h.ok.room
    rwa [h.left, h.entries, length_map] at hroom

/-- The keys looked up, with success, since the last collection (or reset). -/
def lookedUp (es : List (PeerEvent K P A)) : List K :=
  es.foldl (fun ks e => match e.op, e.result with
    | .lookup addr _ _ _, .found _ => addr :: ks
    | .lookup addr _ _ _, .created _ => addr :: ks
    | .gc, _ => []
    | .reset _, _ => []
    | _, _ => ks) []

/-- The table a list stands for, with the recent entries those looked up since the last
collection. -/
def Stands (es : List (PeerEvent K P A)) (l : PeerList K P A) : Prop :=
  ∃ t rs os gs, Rep l t rs os gs ∧ ∀ k, k ∈ t.recent.map Prod.fst ↔ k ∈ lookedUp es

variable [DecidableEq K] (init : P → P)

theorem mem_recent_tableStep {l' : PeerList K P A} {e : PeerEvent K P A} (htell : Tells l t e l')
    (h : ∀ k, k ∈ t.recent.map Prod.fst ↔ k ∈ lookedUp es) (k : K) :
    k ∈ (tableStep init t e).recent.map Prod.fst ↔ k ∈ lookedUp (es ++ [e]) := by
  obtain ⟨op, r⟩ := e
  unfold lookedUp at h ⊢
  rw [foldl_append]
  cases op with
  | lookup addr create? oom block =>
    cases r with
    | null =>
      cases block <;> exact h k
    | found a =>
      refine (PeerTable.mem_recent_touch htell).trans ?_
      rw [h k]
      exact mem_cons.symm
    | created a =>
      obtain ⟨_, _, _, junk, rfl⟩ := htell
      refine mem_cons.trans ?_
      rw [h k]
      exact mem_cons.symm
  | write f =>
    show k ∈ (t.modify f).recent.map Prod.fst ↔ _
    rw [PeerTable.mem_recent_modify]
    exact h k
  | release => exact h k
  | gc | reset max => exact Iff.rfl
  | free i => exact h k

def PeerList.entry (l : PeerList K P A) (k : K) : Option P :=
  match l.tfind k with
  | some (some a) => some (l.mem.val a).peer
  | _ => none

theorem Rep.entry (h : Rep l t rs os gs) (k : K) : l.entry k = t.find k := by
  unfold PeerList.entry
  cases hf : l.tfind k with
  | none => rw [h.tfind_none hf]
  | some d =>
    obtain ⟨a, _, rfl, _, hfind⟩ := h.tfind_some hf
    exact hfind.symm

variable [DecidableEq A]

theorem stands_of_run (hrun : Run (PeerStep init) (PeerList.new mem max) es l) : Stands es l := by
  refine hrun.induct ⟨_, _, _, _, rep_new, fun k => Iff.rfl⟩ ?_
  rintro es l e l' _ ⟨t, rs, os, gs, hrep, hrec⟩ ⟨he, hstep⟩
  obtain ⟨r, l'', rs', os', gs', hstep', hrep', htell⟩ := step_refines init hrep he
  rw [hstep] at hstep'
  cases hstep'
  exact ⟨_, rs', os', gs', hrep', fun k => mem_recent_tableStep init htell hrec k⟩

/-- **The peer list.** After any run the two lists are well linked, the tree holds just their
entries, no key appears twice, and the free count and the entries make up the size; every operation
that can start ends; and a lookup that fails changes nothing. -/
theorem peerList_consistent (mem : Mem Generation A (Item K P)) (max : ℕ)
    (hrun : Run (PeerStep init) (PeerList.new mem max) es l) :
    (∃ rs os, Consistent l rs os) ∧
      (∀ op : PeerOp K P A, op.Enabled l → ∃ r l', step init l op = some (r, l')) ∧
      ∀ addr create? oom block l',
        PeerStep init l ⟨.lookup addr create? oom block, .null⟩ l' → l' = l := by
  obtain ⟨t, rs, os, gs, hrep, _⟩ := stands_of_run init hrun
  refine ⟨⟨rs, os, hrep.consistent⟩, fun op he => ?_, ?_⟩
  · obtain ⟨r, l', _, _, _, hstep, _⟩ := step_refines init hrep he
    exact ⟨r, l', hstep⟩
  · rintro addr create? oom block l' ⟨he, hstep⟩
    obtain ⟨r, l'', _, _, _, hstep', _, htell⟩ := step_refines init hrep he
    rw [hstep] at hstep'
    cases hstep'
    exact htell

/-- **Ageing.** A collection removes an entry if and only if its key was not looked up since the
collection before, and it leaves the peers of the other entries as they are. -/
theorem gc_removes_iff (mem : Mem Generation A (Item K P)) (max : ℕ)
    (hrun : Run (PeerStep init) (PeerList.new mem max) es l) (hfree : l.held = none) :
    ∃ l', PeerStep init l ⟨.gc, .null⟩ l' ∧ ∀ k p, l.entry k = some p →
      (l'.entry k = none ↔ k ∉ lookedUp es) ∧ (k ∈ lookedUp es → l'.entry k = some p) := by
  obtain ⟨t, rs, os, gs, hrep, hrec⟩ := stands_of_run init hrun
  obtain ⟨l', hl', _, hrep'⟩ := hrep.collect hfree
  refine ⟨l', ⟨hfree, by simp [step, hl']⟩, fun k p hk => ?_⟩
  rw [hrep.entry] at hk
  have hcollect := PeerTable.find_collect hrep.ok.nodup hk
  rw [← hrep'.entry] at hcollect
  rw [hcollect, ← hrec k]
  constructor
  · split_ifs with h
    · exact iff_of_false (by simp) (not_not.mpr h)
    · exact iff_of_true rfl h
  · intro h
    rw [if_pos h]

end Runs

/-! ## A run -/

def noMem : Mem Generation ℕ (Item ℕ ℕ) :=
  ⟨fun _ => none, fun _ => false, fun _ => none, fun _ => .head .recent, fun _ => ⟨0, 0⟩⟩

def twoLookups : List (PeerEvent ℕ ℕ ℕ) :=
  [⟨.lookup 7 true false (some (3, ⟨0, 5⟩)), .created 3⟩, ⟨.release, .null⟩, ⟨.gc, .null⟩,
    ⟨.lookup 8 true false (some (4, ⟨0, 6⟩)), .created 4⟩, ⟨.release, .null⟩]

theorem run_twoLookups : ∃ l, Run (PeerStep id) (PeerList.new noMem 2) twoLookups l ∧
    l.held = none ∧ l.entry 7 = some 5 ∧ l.entry 8 = some 6 := by
  refine ⟨_, ((((Run.start.next ⟨⟨rfl, fun _ _ _ => rfl⟩, rfl⟩).next ⟨?_, rfl⟩).next
    ⟨?_, rfl⟩).next ⟨⟨rfl, ?_⟩, rfl⟩).next ⟨?_, rfl⟩, rfl, by decide, by decide⟩
  all_goals simp [PeerOp.Enabled]
  rfl

theorem peerList_consistent_two : ∃ l, Run (PeerStep id) (PeerList.new noMem 2) twoLookups l ∧
    ∃ rs os, Consistent l rs os := by
  obtain ⟨l, hrun, _⟩ := run_twoLookups
  exact ⟨l, hrun, (peerList_consistent id noMem 2 hrun).1⟩

theorem gc_removes_first : ∃ l l', Run (PeerStep id) (PeerList.new noMem 2) twoLookups l ∧
    PeerStep id l ⟨.gc, .null⟩ l' ∧ l'.entry 7 = none ∧ l'.entry 8 = some 6 := by
  obtain ⟨l, hrun, hfree, hold, hnew⟩ := run_twoLookups
  obtain ⟨l', hstep, hkeep⟩ := gc_removes_iff id noMem 2 hrun hfree
  exact ⟨l, l', hrun, hstep, (hkeep 7 5 hold).1.mpr (by decide), (hkeep 8 6 hnew).2 (by decide)⟩

end Maiccu.Teredo
