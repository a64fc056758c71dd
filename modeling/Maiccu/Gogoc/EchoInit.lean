import Maiccu.Gogoc.EchoEngine

/-!
# Engines that cannot be set up

`IEE_init` and `IEE_destroy` (`icmp_echo_engine.c`), and `KA_init` and `KA_destroy` around them
(`net_ka.c`). A `Slot` is the address of a pointer: `.head` is the pointer of the caller, and `next`
of the block of a keepalive engine is its `p_echo_engine`. The socket is opened last and only if all
else went well.
-/

namespace Maiccu.Gogoc.Iee

open Maiccu.Lib Option

/-- What `IEE_init` meets. -/
structure InitEnv where
  dstNull : Bool
  starved : Bool
  /-- The family is known, and `pal_inet_pton` reads both addresses. -/
  addresses : Bool
  socket : Bool

variable (m : Cells Unit) (ppConfig : Slot)

/-- None if a freed block is touched. -/
def ieeInit (env : InitEnv) : Option (Cells Unit × Ret) := do
  let p ← m.get ppConfig
  if p ≠ none ∨ env.dstNull then some (m, .invalidParms)
  else if env.starved then (m.set ppConfig none).map (·, .resourceStarvation)
  else
    let m' ← (m.alloc ()).set ppConfig (some m.size)
    some (if !env.addresses then (m'.free m.size, .invalidParms)
      else if !env.socket then (m'.free m.size, .generalEchoError)
      else (m', .success))

/-- `IEE_destroy`, which reads the socket and the list of events in the block. -/
def ieeDestroy : Option (Cells Unit × Ret) := do
  match ← m.get ppConfig with
  | none => some (m, .invalidParms)
  | some a =>
    let _ ← m.node a
    ((m.free a).set ppConfig none).map (·, .success)

/-- `starved`: no memory for the block of the keepalive engine. The failure of `IEE_init` is cleaned
up through a copy of the caller's pointer. The value tells whether all went well. -/
def kaInit (starved : Bool) (env : InitEnv) : Option (Cells Unit × Bool) :=
  if m.head ≠ none then some (m, false)
  else if starved then some ({ m with head := none }, false)
  else do
    let (m', ret) ← ieeInit { m.alloc () with head := some m.size } (.next m.size) env
    if ret = .success then some (m', true) else
    let _ ← m'.node m.size
    some (m'.free m.size, false)

/-- `KA_destroy` -/
def kaDestroy : Option (Cells Unit × Bool) :=
  match m.head with
  | none => some (m, false)
  | some a => do
    let l ← m.node a
    if l.next = none then some (m, false) else
    let (m', ret) ← ieeDestroy m (.next a)
    if ret ≠ .success then some (m', false) else
    let _ ← m'.node a
    some ({ m'.free a with head := none }, true)

/-- If the call fails, the pointer is null, the blocks are those of before, and to destroy the
engine changes nothing. -/
def FailsClean {ρ : Type} (m : Cells Unit) (ok : ρ) (call : Option (Cells Unit × ρ))
    (destroy : Cells Unit → Option (Cells Unit × ρ)) : Prop :=
  ∃ m' ret, call = some (m', ret) ∧ (ret ≠ ok →
    m'.head = none ∧ (∀ a, m'.node a = m.node a) ∧ ∃ ret', destroy m' = some (m', ret'))

section Clean

variable {m' : Cells Unit} {m} {a : ℕ} {ρ : Type} {ok ret : ρ}
  {destroy : Cells Unit → Option (Cells Unit × ρ)}

theorem not_failsClean (hret : ret ≠ ok) (hhead : m'.head ≠ none) :
    ¬FailsClean m ok (some (m', ret)) destroy := by
  rintro ⟨m'', ret', heq, hclean⟩
  obtain ⟨rfl, rfl⟩ := Prod.mk.inj (some.inj heq)
  exact hhead (hclean hret).1

theorem failsClean_ok : FailsClean m ok (some (m', ok)) destroy :=
  ⟨m', ok, rfl, fun h => absurd rfl h⟩

theorem failsClean_null (hhead : m'.head = none) (hnode : ∀ a, m'.node a = m.node a)
    (hdestroy : ∃ ret', destroy m' = some (m', ret')) : FailsClean m ok (some (m', ret)) destroy :=
  ⟨m', ret, rfl, fun _ => ⟨hhead, hnode, hdestroy⟩⟩

variable {env : InitEnv}

theorem ieeInit_clean_iff : FailsClean m .success (ieeInit m .head env) (ieeDestroy · .head) ↔
      m.head = none ∧ (env.dstNull ∨ env.starved ∨ env.addresses ∧ env.socket) := by
  simp only [ieeInit, Cells.get, Cells.set, bind_eq_bind, bind_some, map_some]
  by_cases hhead : m.head = none
  · split_ifs with h₁ h₂ h₃ h₄
    · refine iff_of_true (failsClean_null hhead (fun _ => rfl) ?_) ?_
      · simp [ieeDestroy, Cells.get, hhead]
      · exact ⟨hhead, .inl (h₁.resolve_left (not_not.mpr hhead))⟩
    · refine iff_of_true (failsClean_null rfl (fun _ => rfl) ⟨_, rfl⟩) ?_
      simp [hhead, h₂]
    · refine iff_of_false (not_failsClean (by decide) (by simp [Cells.free])) ?_
      simp_all
    · refine iff_of_false (not_failsClean (by decide) (by simp [Cells.free])) ?_
      simp_all
    · refine iff_of_true failsClean_ok ?_
      simp_all
  · rw [if_pos (.inl hhead)]
    exact iff_of_false (not_failsClean (by decide) hhead) fun h => hhead h.1

theorem ieeInit_next (hnode : m.node a = some ⟨(), none⟩) (env : InitEnv) :
    ∃ m' ret, ieeInit m (.next a) env = some (m', ret) ∧ m'.head = m.head ∧ (m'.node a).isSome ∧
      (ret = .success ↔
        env.dstNull = false ∧ env.starved = false ∧ env.addresses ∧ env.socket) := by
  have hget : m.get (.next a) = some none := by rw [Cells.get, hnode]; rfl
  have ha : a < m.size := Cells.lt_size hnode
  have hget' : (m.alloc ()).get (.next a) = some none := by
    rw [Cells.get, Cells.node_alloc ha, hnode]
    rfl
  obtain ⟨m', hset⟩ := Cells.exists_set hget' (some m.size)
  have hr := Cells.relinked_of_set hset
  have hhead : m'.head = m.head := some.inj (hr.get .head (by simp))
  have hblock : (m'.node a).isSome := by
    rw [← isSome_map, hr.val a, Cells.node_alloc ha, hnode]
    rfl
  have hfree : ((m'.free m.size).node a).isSome := by rwa [Cells.node_free_of_ne ha.ne]
  simp only [ieeInit, hget, Cells.set_eq_self hget, hset, bind_eq_bind, bind_some, map_some]
  split_ifs with h₁ h₂ h₃ h₄
  · exact ⟨m, _, rfl, rfl, by simp [hnode], by simp_all⟩
  · exact ⟨m, _, rfl, rfl, by simp [hnode], by simp_all⟩
  · exact ⟨m'.free m.size, _, rfl, hhead, hfree, by simp_all⟩
  · exact ⟨m'.free m.size, _, rfl, hhead, hfree, by simp_all⟩
  · exact ⟨m', _, rfl, hhead, hblock, by simp_all⟩

theorem kaInit_clean_iff {starved : Bool} : FailsClean m true (kaInit m starved env) kaDestroy ↔
      m.head = none ∧ (starved ∨
        env.dstNull = false ∧ env.starved = false ∧ env.addresses ∧ env.socket) := by
  unfold kaInit
  split_ifs with h₁ h₂
  · exact iff_of_false (not_failsClean (by decide) h₁) fun h => h₁ h.1
  · refine iff_of_true (failsClean_null rfl (fun _ => rfl) ⟨_, rfl⟩) ?_
    exact ⟨not_not.mp h₁, .inl h₂⟩
  · obtain ⟨m', ret, hinit, hhead, hnode, hret⟩ := ieeInit_next (a := m.size)
      (m := { m.alloc () with head := some m.size }) (m.node_alloc_size ()) env
    obtain ⟨l, hl⟩ := isSome_iff_exists.mp hnode
    simp only [hinit, bind_eq_bind, bind_some, hl, ← hret]
    split_ifs with hok
    · exact iff_of_true failsClean_ok ⟨not_not.mp h₁, .inr hok⟩
    · refine iff_of_false (not_failsClean (by decide) ?_) fun h => hok (h.2.resolve_left h₂)
      show m'.head ≠ none
      simp [hhead]

/-- Both functions fail without a trace exactly if the pointer was null and nothing failed after the
first block was allocated. -/
theorem init_clean_iff (m : Cells Unit) (starved : Bool) (env : InitEnv) :
    (FailsClean m .success (ieeInit m .head env) (ieeDestroy · .head) ↔
      m.head = none ∧ (env.dstNull ∨ env.starved ∨ env.addresses ∧ env.socket)) ∧
    (FailsClean m true (kaInit m starved env) kaDestroy ↔ m.head = none ∧ (starved ∨
        env.dstNull = false ∧ env.starved = false ∧ env.addresses ∧ env.socket)) :=
  ⟨ieeInit_clean_iff, kaInit_clean_iff⟩

/-- Without the right to open a raw socket both calls leave the address of a freed block in the
pointer. -/
theorem no_socket_dangles :
    ((ieeInit ⟨none, []⟩ .head ⟨false, false, true, false⟩).any fun x =>
        x.2 ≠ .success ∧ x.1.head = some 0 ∧ (ieeDestroy x.1 .head).isNone) = true ∧
      ((kaInit ⟨none, []⟩ false ⟨false, false, true, false⟩).any fun x =>
        x.2 = false ∧ x.1.head = some 0 ∧ (kaDestroy x.1).isNone) = true := by
  decide

end Clean

end Maiccu.Gogoc.Iee
