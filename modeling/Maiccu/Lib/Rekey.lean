import Mathlib.Data.List.AList

/-!
# New keys for the entries of a map

A map is walked along a list of its keys: each entry is changed, put under a key that is made of the
old key and the entry, and removed from the old one. Nothing is lost if the new keys are fresh
(`exists_rekeyed`).
-/

namespace Maiccu.Lib

open Function List

variable {α β : Type} [DecidableEq α]

abbrev Dict (α β : Type) := AList fun _ : α => β

/-- The walk. It fails where there is no entry, or where the change of one fails. -/
def rekey (change : α → β → Option β) (label : α → β → α) : List α → Dict α β → Option (Dict α β)
  | [], m => some m
  | k :: ks, m =>
    match (m.lookup k).bind (change k) with
    | none => none
    | some v => rekey change label ks ((m.insert (label k v) v).erase k)

/-- New keys are none of the old ones, and tell the old ones apart. -/
structure FreshLabels (label : α → β → α) (ks : List α) : Prop where
  notMem : ∀ k ∈ ks, ∀ v, label k v ∉ ks
  injective : ∀ k ∈ ks, ∀ k' ∈ ks, ∀ v v', label k v = label k' v' → k = k'

/-- The walk led from `m` to `m'`, with the entries `entry` under the new keys. -/
structure Rekeyed (change : α → β → Option β) (label : α → β → α) (ks : List α) (m m' : Dict α β)
    (entry : α → β) : Prop where
  changed : ∀ k ∈ ks, ∃ v, m.lookup k = some v ∧ change k v = some (entry k)
  lookup_label : ∀ k ∈ ks, m'.lookup (label k (entry k)) = some (entry k)
  lookup_old : ∀ k ∈ ks, m'.lookup k = none
  lookup_other : ∀ x ∉ ks, (∀ k ∈ ks, x ≠ label k (entry k)) → m'.lookup x = m.lookup x

variable {change : α → β → Option β} {label : α → β → α} {k : α} {ks : List α} {m m' : Dict α β}

omit [DecidableEq α] in
theorem FreshLabels.tail (h : FreshLabels label (k :: ks)) : FreshLabels label ks where
  notMem k' hk' v hmem := h.notMem k' (mem_cons_of_mem k hk') v (mem_cons_of_mem k hmem)
  injective k₁ h₁ k₂ h₂ := h.injective k₁ (mem_cons_of_mem k h₁) k₂ (mem_cons_of_mem k h₂)

theorem lookup_step_of_ne {x : α} {v : β} (hlabel : x ≠ label k v) (hk : x ≠ k) :
    ((m.insert (label k v) v).erase k).lookup x = m.lookup x := by
  rw [AList.lookup_erase_ne hk, AList.lookup_insert_ne hlabel]

theorem exists_rekeyed [Nonempty β] (hnodup : ks.Nodup) (hfresh : FreshLabels label ks)
    (h : rekey change label ks m = some m') : ∃ entry, Rekeyed change label ks m m' entry := by
  induction ks generalizing m with
  | nil =>
    obtain rfl : m = m' := Option.some.inj h
    exact ⟨fun _ => Classical.arbitrary β, by simp, by simp, by simp, fun _ _ _ => rfl⟩
  | cons k ks ih =>
    rw [nodup_cons] at hnodup
    unfold rekey at h
    cases hv : (m.lookup k).bind (change k) with
    | none => simp [hv] at h
    | some v =>
      simp only [hv] at h
      obtain ⟨entry, hentry⟩ := ih hnodup.2 hfresh.tail h
      -- the rest of the walk touches neither the new key nor the old one
      have hself : label k v ≠ k := fun heq =>
        hfresh.notMem k (by simp) v (by rw [heq]; exact mem_cons_self)
      have hks : label k v ∉ ks := fun hmem =>
        hfresh.notMem k (by simp) v (mem_cons_of_mem k hmem)
      have hold : ∀ k' ∈ ks, k ≠ label k' (entry k') := fun k' hk' heq =>
        hfresh.notMem k' (mem_cons_of_mem k hk') (entry k') (by rw [← heq]; simp)
      have hnew : ∀ k' ∈ ks, label k v ≠ label k' (entry k') := fun k' hk' heq =>
        hnodup.1 (by
          rw [hfresh.injective k (by simp) k' (mem_cons_of_mem k hk') _ _ heq]
          exact hk')
      have hne : ∀ k' ∈ ks, k' ≠ k := fun k' hk' heq => hnodup.1 (heq ▸ hk')
      have hupdate : ∀ k' ∈ ks, update entry k v k' = entry k' := fun k' hk' =>
        update_of_ne (hne k' hk') _ _
      refine ⟨update entry k v, ?_, ?_, ?_, ?_⟩
      · refine forall_mem_cons.mpr ⟨?_, fun k' hk' => ?_⟩
        · rw [update_self]
          exact Option.bind_eq_some_iff.mp hv
        · obtain ⟨w, hw, hc⟩ := hentry.changed k' hk'
          have hlabel : k' ≠ label k v := fun heq => hks (heq ▸ hk')
          rw [lookup_step_of_ne hlabel (hne k' hk')] at hw
          exact ⟨w, hw, by rw [hupdate k' hk', hc]⟩
      · refine forall_mem_cons.mpr ⟨?_, fun k' hk' => ?_⟩
        · rw [update_self, hentry.lookup_other _ hks hnew, AList.lookup_erase_ne hself,
            AList.lookup_insert]
        · rw [hupdate k' hk']
          exact hentry.lookup_label k' hk'
      · refine forall_mem_cons.mpr ⟨?_, hentry.lookup_old⟩
        rw [hentry.lookup_other k hnodup.1 hold, AList.lookup_erase]
      · intro x hx hlabel
        rw [mem_cons, not_or] at hx
        rw [forall_mem_cons, update_self] at hlabel
        rw [hentry.lookup_other x hx.2 fun k' hk' => hupdate k' hk' ▸ hlabel.2 k' hk',
          lookup_step_of_ne hlabel.1 hx.1]

theorem Rekeyed.keys_perm {entry : α → β} (h : Rekeyed change label ks m m' entry)
    (hfresh : FreshLabels label ks) (hks : ks.Perm m.keys) :
    m'.keys.Perm (ks.map fun k => label k (entry k)) := by
  have hnodup : ks.Nodup := hks.symm.nodup m.keys_nodup
  refine (perm_ext_iff_of_nodup m'.keys_nodup ?_).mpr fun x => ?_
  · exact hnodup.map_on fun k hk k' hk' heq => hfresh.injective k hk k' hk' _ _ heq
  rw [← AList.mem_keys, ← AList.lookup_isSome, mem_map]
  constructor
  · intro hx
    by_contra hno
    have hno' : ∀ k ∈ ks, x ≠ label k (entry k) := fun k hk heq => hno ⟨k, hk, heq.symm⟩
    by_cases hmem : x ∈ ks
    · simp [h.lookup_old x hmem] at hx
    · rw [h.lookup_other x hmem hno', AList.lookup_isSome] at hx
      exact hmem (hks.mem_iff.mpr hx)
  · rintro ⟨k, hk, rfl⟩
    rw [h.lookup_label k hk, Option.isSome_some]

end Maiccu.Lib
