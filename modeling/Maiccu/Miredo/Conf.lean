import Maiccu.Lib.CText
import Maiccu.Lib.Chain

/-!
# The settings of miredo

`conf.c` keeps the settings of a file in a linked list. A new setting goes to the end, and the one
that is asked for is taken out. The pointer to the last node is set by `miredo_conf_set` alone: when
`miredo_conf_get` has taken out the last node, it points to freed memory, and the next setting is
linked to that.
-/

namespace Maiccu.Miredo

open Maiccu.Lib Option List

/-- `struct setting` -/
structure Setting where
  name : List UInt8
  value : List UInt8
  line : ℕ
  deriving DecidableEq

/-- `struct miredo_conf` -/
structure Conf where
  cells : Cells Setting
  tail : Option ℕ

/-- `miredo_conf_create` -/
def miredoConfCreate : Conf := ⟨⟨none, []⟩, none⟩

variable (conf : Conf) (name : List UInt8)

/-- None if the assertion fails or the node at the tail was freed. -/
def miredoConfSet (value : List UInt8) (line : ℕ) (memory : Bool) :
    Option (Conf × Bool) :=
  if memory = false then some (conf, false)
  else
    let parm := conf.cells.size
    let m := conf.cells.alloc ⟨name, value, line⟩
    match m.head with
    | none => some (⟨{ m with head := some parm }, some parm⟩, true)
    | some _ =>
      match conf.tail with
      | none => none
      | some tail => (m.set (.next tail) (some parm)).map fun m => (⟨m, some parm⟩, true)

/-- `strcasecmp (p->name, name) == 0` -/
def Setting.isNamed (s : Setting) : Bool := decide (SameNoCase s.name name)

/-- `miredo_conf_get`, with the value and the line. The slot that the walk is at is `prev->next`, or
the head as long as there is no `prev`. -/
def miredoConfGet :
    Option (Conf × Option (List UInt8 × ℕ)) :=
  (conf.cells.removeFirst (Setting.isNamed name) (conf.cells.size + 1) .head).map fun x =>
    (⟨x.1, conf.tail⟩, x.2.map fun p => (p.2.value, p.2.line))

/-- What `miredo_conf_clear` reports: at most `n` of the settings that are left. -/
def superfluous (n : ℤ) : List Setting → List (List UInt8 × ℕ)
  | [] => []
  | s :: ss => if 0 < n then (s.name, s.line) :: superfluous (n - 1) ss else superfluous n ss

/-- `miredo_conf_clear` -/
def miredoConfClear (n : ℤ) : Option (Conf × List (List UInt8 × ℕ)) :=
  let ptr := conf.cells.head
  let m := { conf.cells with head := none }
  (m.freeAll m.size ptr).map fun x => (⟨x.1, conf.tail⟩, superfluous n x.2)

/-! ## Runs -/

/-- A call; whether there is memory for a new setting is part of it. -/
inductive ConfOp where
  | set (name value : List UInt8) (line : ℕ) (memory : Bool)
  | get (name : List UInt8)
  | clear (n : ℤ)

inductive ConfResult where
  | stored (ok : Bool)
  | found (setting : Option (List UInt8 × ℕ))
  | cleared (left : List (List UInt8 × ℕ))
  deriving DecidableEq

def confStep : ConfOp → Option (Conf × ConfResult)
  | .set name value line memory =>
    (miredoConfSet conf name value line memory).map (Prod.map id .stored)
  | .get name => (miredoConfGet conf name).map (Prod.map id .found)
  | .clear n => (miredoConfClear conf n).map (Prod.map id .cleared)

/-- The results of a sequence of calls; none if one of them goes wrong. -/
def confRun (conf : Conf) : List ConfOp → Option (List ConfResult)
  | [] => some []
  | op :: ops => (confStep conf op).bind fun x => (confRun x.1 ops).map (x.2 :: ·)

/-! ## The purpose -/

/-- A call on an ordered multimap: a list of settings, the oldest first. -/
def mapStep (ss : List Setting) : ConfOp → List Setting × ConfResult
  | .set name value line memory =>
    (if memory then ss ++ [⟨name, value, line⟩] else ss, .stored memory)
  | .get name =>
    (ss.eraseP (Setting.isNamed name),
      .found ((ss.find? (Setting.isNamed name)).map fun s => (s.value, s.line)))
  | .clear n => ([], .cleared (superfluous n ss))

def mapRun (ss : List Setting) : List ConfOp → List ConfResult
  | [] => []
  | op :: ops => (mapStep ss op).2 :: mapRun (mapStep ss op).1 ops

def ActsAsMultimap (ops : List ConfOp) : Prop :=
  confRun miredoConfCreate ops = some (mapRun [] ops)

/-- Whether the setting stored last was taken out, after a call with the settings `ss`. -/
def lastTaken (ss : List Setting) (taken : Bool) : ConfOp → Bool
  | .set _ _ _ memory => if memory then false else taken
  | .get name => taken || ss.findIdx (Setting.isNamed name) + 1 = ss.length
  | .clear _ => taken

/-- No setting is stored behind others when the one stored last was taken out. -/
def TailKept (ss : List Setting) (taken : Bool) : List ConfOp → Prop
  | [] => True
  | op :: ops =>
    (∀ name value line, op = .set name value line true → ss ≠ [] → taken = false) ∧
      TailKept (mapStep ss op).1 (lastTaken ss taken op) ops

/-! ## The list and its last node -/

section Lists

variable {α : Type*} {p : α → Bool} {xs : List α}

theorem getLast?_eraseP (h : xs.findIdx p + 1 ≠ xs.length) :
    (xs.eraseP p).getLast? = xs.getLast? := by
  induction xs with
  | nil => rfl
  | cons x xs ih =>
    rw [findIdx_cons] at h
    cases hx : p x with
    | true =>
      cases xs with
      | nil => simp [hx] at h
      | cons y ys => rw [eraseP_cons_of_pos hx, getLast?_cons_cons]
    | false =>
      rw [eraseP_cons_of_neg (by simp [hx]), getLast?_cons, getLast?_cons, ih]
      simpa [hx] using h

theorem find?_eq_getLast? (h : xs.findIdx p + 1 = xs.length) : xs.find? p = xs.getLast? := by
  rw [find?_eq_getElem?_findIdx, getLast?_eq_getElem?, ← h, Nat.add_sub_cancel]

end Lists

/-- The nodes `xs` are the list. The tail is the last of them, or freed if the setting stored last
was taken out. -/
structure Rep (conf : Conf) (xs : List (ℕ × Setting)) (taken : Bool) : Prop where
  chain : ChainAt conf.cells .head xs
  nodup : (xs.map Prod.fst).Nodup
  tail : ∀ x ∈ xs.getLast?, ∃ t, conf.tail = some t ∧ t < conf.cells.size ∧
    if taken then conf.cells.node t = none else t = x.1

def Conf.Holds (conf : Conf) (ss : List Setting) (taken : Bool) : Prop :=
  ∃ xs, Rep conf xs taken ∧ xs.map Prod.snd = ss

section Store

variable {conf} {xs : List (ℕ × Setting)} {ss : List Setting} {taken : Bool}

theorem holds_create : miredoConfCreate.Holds [] false :=
  ⟨[], ⟨⟨none, rfl, rfl⟩, nodup_nil, nofun⟩, rfl⟩

section

variable (h : Rep conf xs taken)
include h

theorem Rep.notMem_of_freed {a : ℕ} (ha : conf.cells.node a = none) : a ∉ xs.map Prod.fst := by
  intro hmem
  obtain ⟨x, hx, rfl⟩ := mem_map.mp hmem
  have hval := h.chain.val_of_mem x hx
  rw [ha] at hval
  cases hval

theorem Rep.linked {s : Setting} {m : Cells Setting}
    (hset : (conf.cells.alloc s).set (Slot.head.last xs) (some conf.cells.size) = some m) :
    Rep ⟨m, some conf.cells.size⟩ (xs ++ [(conf.cells.size, s)]) false := by
  have hsize : m.size = conf.cells.size + 1 := by
    rw [(Cells.relinked_of_set hset).size, Cells.size_alloc]
  refine ⟨?_, ?_, ?_⟩
  · exact (h.chain.alloc s).concat h.nodup (Cells.node_alloc_size _ s) h.chain.size_notMem hset
  · rw [map_append, map_singleton, (perm_append_singleton _ _).nodup_iff]
    exact nodup_cons.mpr ⟨h.chain.size_notMem, h.nodup⟩
  · intro x hx
    rw [getLast?_concat, mem_some_iff] at hx
    refine ⟨conf.cells.size, rfl, ?_, ?_⟩
    · show conf.cells.size < m.size
      omega
    · rw [← hx]
      rfl

end

theorem Conf.Holds.set (h : conf.Holds ss taken) (htail : ss ≠ [] → taken = false)
    (name value : List UInt8) (line : ℕ) :
    ∃ conf', miredoConfSet conf name value line true = some (conf', true) ∧
      conf'.Holds (ss ++ [⟨name, value, line⟩]) false := by
  obtain ⟨xs, h, rfl⟩ := h
  have hholds : ∀ m, (conf.cells.alloc ⟨name, value, line⟩).set (Slot.head.last xs)
      (some conf.cells.size) = some m →
      Conf.Holds ⟨m, some conf.cells.size⟩ (xs.map Prod.snd ++ [⟨name, value, line⟩]) false := by
    intro m hm
    exact ⟨_, h.linked hm, by rw [map_append, map_singleton]⟩
  have hhead := (h.chain.alloc ⟨name, value, line⟩).head_eq
  unfold miredoConfSet
  cases hlast : xs.getLast? with
  | none =>
    obtain rfl := getLast?_eq_none_iff.mp hlast
    dsimp only
    rw [hhead]
    exact ⟨_, rfl, hholds _ rfl⟩
  | some x =>
    have hne : xs ≠ [] := fun hnil => by simp [hnil] at hlast
    obtain ⟨t, ht, -, hx⟩ := h.tail x hlast
    rw [htail (by simpa using hne)] at hx
    obtain ⟨y, ys, rfl⟩ := exists_cons_of_ne_nil hne
    have hslot : Slot.head.last (y :: ys) = .next t := by
      rw [Slot.last, hlast, hx]
      rfl
    have halive : ∃ q, (conf.cells.alloc ⟨name, value, line⟩).get (.next t) = some q := by
      obtain ⟨c, hc, -⟩ := map_eq_some_iff.mp
        ((h.chain.alloc ⟨name, value, line⟩).val_of_mem x (mem_of_getLast? hlast))
      exact ⟨c.next, by rw [Cells.get, hx, hc]; rfl⟩
    obtain ⟨q, hq⟩ := halive
    obtain ⟨m, hm⟩ := Cells.exists_set hq (some conf.cells.size)
    refine ⟨⟨m, some conf.cells.size⟩, ?_, hholds m (by rw [hslot, hm])⟩
    dsimp only
    rw [hhead, ht]
    show Option.map _ _ = _
    rw [hm]
    rfl

theorem Conf.Holds.set_taken (h : conf.Holds ss true) (hne : ss ≠ []) (name value : List UInt8)
    (line : ℕ) : miredoConfSet conf name value line true = none := by
  obtain ⟨xs, h, rfl⟩ := h
  rw [ne_eq, map_eq_nil_iff] at hne
  obtain ⟨t, ht, hlt, hnode⟩ := h.tail _ (getLast?_eq_some_getLast hne)
  have hhead := (h.chain.alloc ⟨name, value, line⟩).head_eq
  obtain ⟨y, ys, rfl⟩ := exists_cons_of_ne_nil hne
  unfold miredoConfSet
  dsimp only
  rw [hhead, ht]
  show Option.map _ (Option.map _ _) = _
  rw [Cells.node_alloc hlt, hnode]
  rfl

theorem lastTaken_get (xs : List (ℕ × Setting)) (taken : Bool) (name : List UInt8) :
    lastTaken (xs.map Prod.snd) taken (.get name) =
      (taken || decide (xs.findIdx (fun x => x.2.isNamed name) + 1 = xs.length)) := by
  rw [lastTaken, findIdx_map, length_map]
  rfl

variable (h : conf.Holds ss taken)
include h

theorem Conf.Holds.get (name : List UInt8) : ∃ conf', miredoConfGet conf name =
        some (conf', (ss.find? (Setting.isNamed name)).map fun s => (s.value, s.line)) ∧
      conf'.Holds (ss.eraseP (Setting.isNamed name)) (lastTaken ss taken (.get name)) := by
  obtain ⟨xs, h, rfl⟩ := h
  obtain ⟨m, hm, hrem⟩ := Cells.removeFirst_chain (Setting.isNamed name)
    h.chain Slot.outside_head h.nodup (Nat.lt_succ_of_le (h.chain.length_le h.nodup))
  refine ⟨⟨m, conf.tail⟩, ?_, xs.eraseP fun x => x.2.isNamed name, ⟨hrem.chain, ?_, ?_⟩, ?_⟩
  · rw [miredoConfGet, hm, find?_map, Option.map_map]
    rfl
  · exact h.nodup.sublist ((eraseP_sublist ..).map _)
  · intro x hx
    have hne : xs ≠ [] := fun hnil => by simp [hnil] at hx
    obtain ⟨t, ht, hlt, hold⟩ := h.tail _ (getLast?_eq_some_getLast hne)
    refine ⟨t, ht, hrem.size ▸ hlt, ?_⟩
    rw [lastTaken_get]
    cases taken with
    | true =>
      -- a node that was freed before is not one of the list, and stays freed
      have hval := hrem.val t (h.notMem_of_freed hold)
      rw [hold] at hval
      exact map_eq_none_iff.mp hval
    | false =>
      by_cases hfirst : xs.findIdx (fun x => x.2.isNamed name) + 1 = xs.length
      · rw [decide_eq_true hfirst, hold]
        apply hrem.freed
        rw [find?_eq_getLast? hfirst]
        exact getLast?_eq_some_getLast hne
      · rw [decide_eq_false hfirst, if_neg (by decide), hold]
        rw [getLast?_eraseP hfirst, getLast?_eq_some_getLast hne, mem_some_iff] at hx
        rw [hx]
  · rw [eraseP_map]
    rfl

theorem Conf.Holds.clear (n : ℤ) :
    ∃ conf', miredoConfClear conf n = some (conf', superfluous n ss) ∧ conf'.Holds [] taken := by
  obtain ⟨xs, h, rfl⟩ := h
  obtain ⟨p, hp, hchain⟩ := h.chain
  have hframe : Chain { conf.cells with head := none } p xs := hchain.frame fun _ _ => rfl
  obtain rfl : conf.cells.head = p := some.inj hp
  obtain ⟨m, hm, hhead, -⟩ := Cells.freeAll_chain hframe h.nodup (h.chain.length_le h.nodup)
  refine ⟨⟨m, conf.tail⟩, ?_, [], ⟨⟨none, ?_, rfl⟩, nodup_nil, ?_⟩, rfl⟩
  · rw [miredoConfClear]
    rw [show Cells.size { conf.cells with head := none } = conf.cells.size from rfl, hm]
    rfl
  · rw [Cells.get, hhead]
  · exact fun x hx => by cases hx

/-! ## The store and the multimap -/

theorem Conf.Holds.step (op : ConfOp)
    (htail : ∀ name value line, op = .set name value line true → ss ≠ [] → taken = false) :
    ∃ conf', confStep conf op = some (conf', (mapStep ss op).2) ∧
      conf'.Holds (mapStep ss op).1 (lastTaken ss taken op) := by
  cases op with
  | set name value line memory =>
    cases memory with
    | false => exact ⟨conf, rfl, h⟩
    | true =>
      obtain ⟨conf', hset, hholds⟩ := h.set (htail name value line rfl) name value line
      exact ⟨conf', by rw [confStep, hset]; rfl, hholds⟩
  | get name =>
    obtain ⟨conf', hget, hholds⟩ := h.get name
    exact ⟨conf', by rw [confStep, hget]; rfl, hholds⟩
  | clear n =>
    obtain ⟨conf', hclear, hholds⟩ := h.clear n
    exact ⟨conf', by rw [confStep, hclear]; rfl, hholds⟩

theorem Conf.Holds.run_iff (ops : List ConfOp) :
    confRun conf ops = some (mapRun ss ops) ↔ TailKept ss taken ops := by
  induction ops generalizing conf ss taken with
  | nil => exact iff_of_true rfl trivial
  | cons op ops ih =>
    unfold confRun TailKept
    by_cases htail : ∀ name value line, op = .set name value line true → ss ≠ [] → taken = false
    · obtain ⟨conf', hstep, hholds⟩ := h.step op htail
      rw [hstep, bind_some, ← ih hholds, and_iff_right htail, map_eq_some_iff]
      constructor
      · rintro ⟨rs, hrs, heq⟩
        rw [hrs, (cons.inj heq).2]
      · exact fun hrs => ⟨_, hrs, rfl⟩
    · refine iff_of_false ?_ fun hkept => htail hkept.1
      push Not at htail
      obtain ⟨name, value, line, rfl, hne, htaken⟩ := htail
      rw [Bool.ne_false_iff] at htaken
      rw [htaken] at h
      rw [confStep, h.set_taken hne]
      intro hrun
      cases hrun

end Store

/-- The calls return what they do on an ordered multimap if and only if no setting is stored behind
others after the one stored last was taken out. -/
theorem multimap_iff (ops : List ConfOp) : ActsAsMultimap ops ↔ TailKept [] false ops :=
  holds_create.run_iff ops

theorem stored_behind_taken : ¬ ActsAsMultimap [.set (ascii "BindPort") (ascii "3545") 1 true,
      .set (ascii "RelayType") (ascii "client") 2 true, .get (ascii "relaytype"),
      .set (ascii "Prefix") (ascii "2001::") 3 true] := by
  intro h
  cases h

end Maiccu.Miredo
