import Maiccu.Teredo.PeerListRep

/-!
# Programs that use the peer list

A function that works on the records of a peer list is a program of a few operations: it looks an
address up, reads and writes the record found, gives the lock back, and calls other functions.
`PeerProg.run` runs a program on the pointers of `PeerList`.

`PeerProg.wp` is the rule for such programs, without the list: an invariant `Φ` holds of every
record, a lookup may return any record with the invariant, and it must hold again when the program
is done with the record. `run_of_wp` says that the rule is sound.
-/

namespace Maiccu.Teredo

open Maiccu.Lib Option List

inductive Lookup where
  | null
  | found
  | created
  deriving DecidableEq

/-- A program over records `P` with keys `K` and calls `C`. The result of a call is whether it
succeeds. -/
inductive PeerProg (K P C α : Type) where
  | ret (a : α)
  | lookup (addr : K) (create? : Bool) (next : Lookup → PeerProg K P C α)
  | read (next : P → PeerProg K P C α)
  | write (f : P → P) (next : PeerProg K P C α)
  | release (next : PeerProg K P C α)
  | call (c : C) (next : Bool → PeerProg K P C α)

/-- What can be seen of a run: the inputs, the records made and the calls. -/
inductive Ev (I K C : Type) where
  | input (i : I)
  | created (k : K)
  | called (c : C) (ok : Bool)
  deriving DecidableEq

/-- For each lookup, whether `tsearch` is out of memory and which block `malloc` returns, and for
each call its result. -/
structure Env (K P A : Type) where
  blocks : List (Bool × Option (A × Item K P))
  results : List Bool

namespace PeerProg

variable {K P C α β : Type}

def bind : PeerProg K P C α → (α → PeerProg K P C β) → PeerProg K P C β
  | .ret a, f => f a
  | .lookup addr create? next, f => .lookup addr create? fun r => (next r).bind f
  | .read next, f => .read fun p => (next p).bind f
  | .write g next, f => .write g (next.bind f)
  | .release next, f => .release (next.bind f)
  | .call c next, f => .call c fun b => (next b).bind f

instance : Monad (PeerProg K P C) where
  pure := .ret
  bind := bind

def teredoListLookup (addr : K) (create? : Bool) : PeerProg K P C Lookup :=
  .lookup addr create? .ret

def teredoListRelease : PeerProg K P C Unit := .release (.ret ())

def getPeer : PeerProg K P C P := .read .ret

def modifyPeer (f : P → P) : PeerProg K P C Unit := .write f (.ret ())

def withPeer (f : P → α × P) : PeerProg K P C α :=
  .read fun p => .write (fun _ => (f p).2) (.ret (f p).1)

def invoke (c : C) : PeerProg K P C Bool := .call c .ret

/-! ## Runs -/

section Run

variable {I A : Type} [DecidableEq K] [DecidableEq A] (init : P → P)

def fresh (l : PeerList K P A) : Option (A × Item K P) → Option (A × Item K P)
  | some (a, junk) => if l.mem.alive a then none else some (a, junk)
  | none => none

/-- A run of a program with the pointer `ptr` to the record it looked up last. The result is `none`
if the program takes the lock twice, or uses a record that it did not look up or that is freed. -/
def run : PeerProg K P C α → Option A → Env K P A → PeerList K P A →
    Option (α × List (Ev I K C) × PeerList K P A)
  | .ret a, _, _, l => some (a, [], l)
  | .lookup addr create? next, _, e, l =>
    if l.held ≠ none then none else
    let b := e.blocks.headD (false, none)
    let e' := { e with blocks := e.blocks.tail }
    match l.lookup init addr create? b.1 (fresh l b.2) with
    | none => none
    | some (.null, l') => (next .null).run none e' l'
    | some (.found a, l') => (next .found).run (some a) e' l'
    | some (.created a, l') =>
      ((next .created).run (some a) e' l').map fun r => (r.1, .created addr :: r.2.1, r.2.2)
  | .read next, ptr, e, l =>
    match ptr with
    | none => none
    | some a => if l.mem.alive a then (next (l.mem.val a).peer).run ptr e l else none
  | .write f next, ptr, e, l =>
    match ptr with
    | none => none
    | some a =>
      if l.mem.alive a then
        next.run ptr e { l with mem := { l.mem with
          val := Function.update l.mem.val a ⟨(l.mem.val a).key, f (l.mem.val a).peer⟩ } }
      else none
  | .release next, ptr, e, l =>
    if l.held = none then none else next.run ptr e { l with held := none }
  | .call c next, ptr, e, l =>
    let b := e.results.headD true
    ((next b).run ptr { e with results := e.results.tail } l).map fun r =>
      (r.1, .called c b :: r.2.1, r.2.2)

end Run

variable {f : α → PeerProg K P C β} {x : PeerProg K P C α}

/-! ## Calls -/

section Calls

variable {Ψ : C → Prop}

def Calls (Ψ : C → Prop) : PeerProg K P C α → Prop
  | .ret _ => True
  | .lookup _ _ next => ∀ r, (next r).Calls Ψ
  | .read next => ∀ p, (next p).Calls Ψ
  | .write _ next => next.Calls Ψ
  | .release next => next.Calls Ψ
  | .call c next => Ψ c ∧ ∀ b, (next b).Calls Ψ

variable {c : C}

theorem Calls.bind (hx : x.Calls Ψ) (hf : ∀ a, (f a).Calls Ψ) : (x >>= f).Calls Ψ := by
  show (x.bind f).Calls Ψ
  induction x with
  | ret a => exact hf a
  | lookup addr create? next ih => exact fun r => ih r (hx r)
  | read next ih => exact fun p => ih p (hx p)
  | write g next ih | release next ih => exact ih hx
  | call c next ih => exact ⟨hx.1, fun b => ih b (hx.2 b)⟩

/-- Other calls in the place of these. A call that has none is left out, with the result true. -/
def mapCalls {D : Type} (g : C → Option D) : PeerProg K P C α → PeerProg K P D α
  | .ret a => .ret a
  | .lookup addr create? next => .lookup addr create? fun r => (next r).mapCalls g
  | .read next => .read fun p => (next p).mapCalls g
  | .write f next => .write f (next.mapCalls g)
  | .release next => .release (next.mapCalls g)
  | .call c next =>
    match g c with
    | some d => .call d fun b => (next b).mapCalls g
    | none => (next true).mapCalls g

section MapCalls

variable {D : Type} {g : C → Option D}

theorem mapCalls_bind (x : PeerProg K P C α) (f : α → PeerProg K P C β) :
    (x >>= f).mapCalls g = x.mapCalls g >>= fun a => (f a).mapCalls g := by
  show (x.bind f).mapCalls g = (x.mapCalls g).bind fun a => (f a).mapCalls g
  induction x with
  | ret a => rfl
  | lookup addr create? next ih => exact congrArg (lookup addr create?) (funext ih)
  | read next ih => exact congrArg read (funext ih)
  | write h next ih => exact congrArg (write h) ih
  | release next ih => exact congrArg release ih
  | call c next ih =>
    rw [PeerProg.bind, mapCalls, mapCalls]
    cases g c with
    | none => exact ih true
    | some d => exact congrArg (call d) (funext ih)

theorem mapCalls_mapCalls {g' : D → Option C} (h : ∀ c, (g c).bind g' = some c)
    (x : PeerProg K P C α) : (x.mapCalls g).mapCalls g' = x := by
  induction x with
  | ret a => rfl
  | lookup addr create? next ih => exact congrArg (lookup addr create?) (funext ih)
  | read next ih => exact congrArg read (funext ih)
  | write h next ih => exact congrArg (write h) ih
  | release next ih => exact congrArg release ih
  | call c next ih =>
    obtain ⟨d, hd, hc⟩ := bind_eq_some_iff.mp (h c)
    simp only [mapCalls, hd, hc, ih]

theorem Calls.mapCalls {Φ : D → Prop} (hx : x.Calls Ψ)
    (h : ∀ c, Ψ c → ∀ d ∈ g c, Φ d) : (x.mapCalls g).Calls Φ := by
  induction x with
  | ret a => trivial
  | lookup addr create? next ih => exact fun r => ih r (hx r)
  | read next ih => exact fun p => ih p (hx p)
  | write f next ih | release next ih => exact ih hx
  | call c next ih =>
    have hc := h c hx.1
    rw [PeerProg.mapCalls]
    cases hg : g c with
    | none => exact ih true (hx.2 true)
    | some d => exact ⟨hc d hg, fun b => ih b (hx.2 b)⟩

end MapCalls

theorem calls_invoke (hc : Ψ c) : (invoke c : PeerProg K P C Bool).Calls Ψ :=
  ⟨hc, fun _ => trivial⟩

theorem Calls.ite {p : Prop} [Decidable p] {y : PeerProg K P C α} (hx : p → x.Calls Ψ)
    (hy : ¬p → y.Calls Ψ) : (if p then x else y).Calls Ψ := by
  split_ifs with h
  · exact hx h
  · exact hy h

theorem Calls.of_run {I A : Type} [DecidableEq K] [DecidableEq A] {init : P → P} (hx : x.Calls Ψ)
    {ptr : Option A} {e : Env K P A} {l l' : PeerList K P A} {a : α} {evs : List (Ev I K C)}
    (hrun : x.run init ptr e l = some (a, evs, l')) {ok : Bool} (hc : .called c ok ∈ evs) :
    Ψ c := by
  induction x generalizing ptr e l evs with
  | ret b =>
    cases hrun
    cases hc
  | lookup addr create? next ih =>
    simp only [run] at hrun
    split_ifs at hrun
    split at hrun
    · cases hrun
    · exact ih _ (hx _) hrun hc
    · exact ih _ (hx _) hrun hc
    · obtain ⟨⟨b, evs', l''⟩, hnext, heq⟩ := map_eq_some_iff.mp hrun
      cases heq
      exact ih _ (hx _) hnext (mem_of_ne_of_mem (by simp) hc)
  | read next ih =>
    cases ptr with
    | none => cases hrun
    | some b =>
      simp only [run] at hrun
      split_ifs at hrun
      exact ih _ (hx _) hrun hc
  | write g next ih =>
    cases ptr with
    | none => cases hrun
    | some b =>
      simp only [run] at hrun
      split_ifs at hrun
      exact ih hx hrun hc
  | release next ih =>
    simp only [run] at hrun
    split_ifs at hrun
    exact ih hx hrun hc
  | call c' next ih =>
    obtain ⟨⟨b, evs', l''⟩, hnext, heq⟩ := map_eq_some_iff.mp hrun
    cases heq
    rcases mem_cons.mp hc with heq | hc
    · cases heq
      exact hx.1
    · exact ih _ (hx.2 _) hnext hc

end Calls

/-! ## The rule -/

/-- The record a program is at, with its key. After the lock is given back the record is stale: in a
run without other threads it is still there. -/
inductive Cur (K P : Type) where
  | none
  | locked (k : K) (p : P)
  | stale (k : K) (p : P)

section Rule

variable {I : Type} (init : P → P) (Φ : List (Ev I K C) → K → P → Prop)
  (Ψ : List (Ev I K C) → C → Prop)

def Cur.Closed (h : List (Ev I K C)) : Cur K P → Prop
  | .none => True
  | .locked _ _ => False
  | .stale k p => Φ h k p

/-- The weakest precondition of a program for the postcondition `Q`, after the history `h`. -/
def wp : PeerProg K P C α → (α → Cur K P → List (Ev I K C) → Prop) → Cur K P →
    List (Ev I K C) → Prop
  | .ret a, Q, c, h => Q a c h
  | .lookup addr create? next, Q, c, h =>
    c.Closed Φ h ∧ (next .null).wp Q .none h ∧
      (∀ p, Φ h addr p → (next .found).wp Q (.locked addr p) h) ∧
      (create? = true → ∀ junk, (next .created).wp Q (.locked addr (init junk))
        (h ++ [.created addr]))
  | .read next, Q, c, h =>
    match c with
    | .none => False
    | .locked _ p | .stale _ p => (next p).wp Q c h
  | .write f next, Q, c, h =>
    match c with
    | .none => False
    | .locked k p => next.wp Q (.locked k (f p)) h
    | .stale k p => next.wp Q (.stale k (f p)) h
  | .release next, Q, c, h =>
    match c with
    | .locked k p => next.wp Q (.stale k p) h
    | _ => False
  | .call x next, Q, c, h => Ψ h x ∧ ∀ b, (next b).wp Q c (h ++ [.called x b])

variable {init Φ Ψ} {Q : α → Cur K P → List (Ev I K C) → Prop} {c : Cur K P} {h : List (Ev I K C)}

theorem wp_bind {R : β → Cur K P → List (Ev I K C) → Prop} :
    (x >>= f).wp init Φ Ψ R c h ↔ x.wp init Φ Ψ (fun a c h => (f a).wp init Φ Ψ R c h) c h := by
  show (x.bind f).wp init Φ Ψ R c h ↔ _
  induction x generalizing c h with
  | ret a => exact Iff.rfl
  | lookup addr create? next ih => simp only [bind, wp, ih]
  | read next ih | write g next ih | release next ih => cases c <;> simp only [bind, wp, ih]
  | call x next ih => simp only [bind, wp, ih]

@[simp] theorem wp_pure (a : α) : (pure a : PeerProg K P C α).wp init Φ Ψ Q c h ↔ Q a c h := Iff.rfl

@[simp] theorem wp_teredoListLookup {R : Lookup → Cur K P → List (Ev I K C) → Prop} (addr : K)
    (create? : Bool) :
    (teredoListLookup addr create?).wp init Φ Ψ R c h ↔
      c.Closed Φ h ∧ R .null .none h ∧ (∀ p, Φ h addr p → R .found (.locked addr p) h) ∧
        (create? = true → ∀ junk, R .created (.locked addr (init junk)) (h ++ [.created addr])) :=
  Iff.rfl

section Locked

variable {k : K} {p : P}

variable {R : Unit → Cur K P → List (Ev I K C) → Prop}

@[simp] theorem wp_teredoListRelease :
    teredoListRelease.wp init Φ Ψ R (.locked k p) h ↔ R () (.stale k p) h := Iff.rfl

@[simp] theorem wp_getPeer_locked {R : P → Cur K P → List (Ev I K C) → Prop} :
    getPeer.wp init Φ Ψ R (.locked k p) h ↔ R p (.locked k p) h := Iff.rfl

@[simp] theorem wp_getPeer_stale {R : P → Cur K P → List (Ev I K C) → Prop} :
    getPeer.wp init Φ Ψ R (.stale k p) h ↔ R p (.stale k p) h := Iff.rfl

@[simp] theorem wp_modifyPeer (f : P → P) :
    (modifyPeer f).wp init Φ Ψ R (.locked k p) h ↔ R () (.locked k (f p)) h := Iff.rfl

@[simp] theorem wp_withPeer (f : P → α × P) :
    (withPeer f).wp init Φ Ψ Q (.locked k p) h ↔ Q (f p).1 (.locked k (f p).2) h := Iff.rfl

end Locked

@[simp] theorem wp_invoke {R : Bool → Cur K P → List (Ev I K C) → Prop} (x : C) :
    (invoke x).wp init Φ Ψ R c h ↔ Ψ h x ∧ ∀ b, R b c (h ++ [.called x b]) := Iff.rfl

end Rule

/-! ## Soundness -/

section Sound

variable {I A : Type} {Φ : List (Ev I K C) → K → P → Prop} {Ψ : List (Ev I K C) → C → Prop}
  {h evs : List (Ev I K C)} {l : PeerList K P A} {ptr : Option A} {c : Cur K P} {k : K} {p : P}

/-- The invariant of a record outlives calls and the making of other records. -/
structure Stable (Φ : List (Ev I K C) → K → P → Prop) : Prop where
  created : ∀ {h k p} (j : K), Φ h k p → k ≠ j → Φ (h ++ [.created j]) k p
  called : ∀ {h k p} (x : C) (ok : Bool), Φ h k p → Φ (h ++ [.called x ok]) k p

def CallsOk (Ψ : List (Ev I K C) → C → Prop) (h evs : List (Ev I K C)) : Prop :=
  ∀ pre x ok post, evs = pre ++ .called x ok :: post → Ψ (h ++ pre) x

theorem callsOk_nil : CallsOk Ψ h [] := by
  intro pre x ok post heq
  cases pre <;> cases heq

variable {ev : Ev I K C} {Φ' : List (Ev I K C) → K → P → Prop} {h' : List (Ev I K C)} {a : A}

theorem CallsOk.cons (hev : ∀ x ok, ev = .called x ok → Ψ h x) (hevs : CallsOk Ψ (h ++ [ev]) evs) :
    CallsOk Ψ h (ev :: evs) := by
  intro pre x ok post heq
  cases pre with
  | nil =>
    cases heq
    rw [append_nil]
    exact hev x ok rfl
  | cons e pre =>
    obtain ⟨rfl, htail⟩ := List.cons.inj heq
    rw [append_cons]
    exact hevs pre x ok post htail

/-- The list stands for a table in which the record at the pointer has the key `k` and the value
`p`, and the other records keep the invariant. -/
def PointsTo (Φ : List (Ev I K C) → K → P → Prop) (h : List (Ev I K C)) (l : PeerList K P A)
    (ptr : Option A) (k : K) (p : P) : Prop :=
  ∃ a t rs os gs r, Rep l t rs os gs ∧ ptr = some a ∧ rs.head? = some a ∧ t.recent = (k, p) :: r ∧
    ∀ e ∈ r ++ t.old, Φ h e.1 e.2

def Holds (Φ : List (Ev I K C) → K → P → Prop) (h : List (Ev I K C)) (l : PeerList K P A)
    (ptr : Option A) : Cur K P → Prop
  | .none => l.held = none ∧ ∃ t rs os gs, Rep l t rs os gs ∧ ∀ e ∈ t.entries, Φ h e.1 e.2
  | .locked k p => l.held ≠ none ∧ PointsTo Φ h l ptr k p
  | .stale k p => l.held = none ∧ PointsTo Φ h l ptr k p

theorem Holds.close (hl : Holds Φ h l ptr c) (hc : c.Closed Φ h) : Holds Φ h l none .none := by
  cases c with
  | none => exact hl
  | locked k p => exact hc.elim
  | stale k p =>
    obtain ⟨hheld, a, t, rs, os, gs, r, hrep, -, -, hrec, hall⟩ := hl
    refine ⟨hheld, t, rs, os, gs, hrep, fun e he => ?_⟩
    rw [PeerTable.entries, hrec, cons_append, mem_cons] at he
    rcases he with rfl | he
    · exact hc
    · exact hall e he

theorem PointsTo.imp (hp : PointsTo Φ h l ptr k p) (himp : ∀ k p, Φ h k p → Φ' h' k p) :
    PointsTo Φ' h' l ptr k p := by
  obtain ⟨a, t, rs, os, gs, r, hrep, hptr, hhead, hrec, hall⟩ := hp
  exact ⟨a, t, rs, os, gs, r, hrep, hptr, hhead, hrec, fun e he => himp _ _ (hall e he)⟩

theorem Holds.imp (hl : Holds Φ h l ptr c) (himp : ∀ k p, Φ h k p → Φ' h' k p) :
    Holds Φ' h' l ptr c := by
  cases c with
  | none =>
    obtain ⟨hheld, t, rs, os, gs, hrep, hall⟩ := hl
    exact ⟨hheld, t, rs, os, gs, hrep, fun e he => himp _ _ (hall e he)⟩
  | locked k p | stale k p => exact ⟨hl.1, hl.2.imp himp⟩

theorem PointsTo.read (hp : PointsTo Φ h l ptr k p) :
    ∃ a, ptr = some a ∧ l.mem.alive a = true ∧ (l.mem.val a).peer = p := by
  obtain ⟨a, t, rs, os, gs, r, hrep, hptr, hhead, hrec, -⟩ := hp
  refine ⟨a, hptr, hrep.recent.alive a (mem_of_mem_head? hhead), ?_⟩
  obtain ⟨ys, rfl⟩ : ∃ ys, rs = a :: ys := List.head?_eq_some_iff.mp hhead
  have := hrep.trecent
  rw [hrec, map_cons] at this
  exact (congrArg Prod.snd (List.cons.inj this).1).symm

theorem PointsTo.release (hp : PointsTo Φ h l ptr k p) :
    PointsTo Φ h { l with held := none } ptr k p := by
  obtain ⟨a, t, rs, os, gs, r, hrep, hptr, hhead, hrec, hall⟩ := hp
  exact ⟨a, t, rs, os, gs, r, hrep.setHeld nofun, hptr, hhead, hrec, hall⟩

def written [DecidableEq A] (l : PeerList K P A) (a : A) (f : P → P) : PeerList K P A :=
  { l with mem := { l.mem with
    val := Function.update l.mem.val a ⟨(l.mem.val a).key, f (l.mem.val a).peer⟩ } }

theorem PointsTo.write [DecidableEq A] (hp : PointsTo Φ h l (some a) k p) (f : P → P) :
    PointsTo Φ h (written l a f) (some a) k (f p) := by
  obtain ⟨b, t, rs, os, gs, r, hrep, hptr, hhead, hrec, hall⟩ := hp
  cases hptr
  have hrep' : Rep { l with held := some a } t rs os gs := hrep.setHeld fun b hb =>
    by rw [← hb, hhead]
  have hwrite := (hrep'.write rfl f).setHeld hrep.held
  refine ⟨a, _, rs, os, gs, r, hwrite, rfl, hhead, ?_, ?_⟩
  · unfold PeerTable.modify
    rw [hrec]
  · unfold PeerTable.modify
    rw [hrec]
    exact hall

theorem alive_of_fresh {b : Option (A × Item K P)} {junk : Item K P}
    (hb : fresh l b = some (a, junk)) : l.mem.alive a = false := by
  rcases b with _ | ⟨a', junk'⟩
  · cases hb
  · by_cases halive : l.mem.alive a' = true
    · rw [fresh, if_pos halive] at hb
      cases hb
    · rw [fresh, if_neg halive] at hb
      cases hb
      exact eq_false_of_ne_true halive

theorem Holds.reset (hl : Holds Φ h l none .none) (max : ℕ) :
    Holds Φ' h' (l.reset max) none .none := by
  obtain ⟨hheld, t, rs, os, gs, hrep, -⟩ := hl
  exact ⟨hheld, _, _, _, _, hrep.reset hheld max, nofun⟩

variable [DecidableEq K] [DecidableEq A] (init : P → P)

theorem Holds.gc (hl : Holds Φ h l none .none) :
    ∃ l', step init l .gc = some (.null, l') ∧ Holds Φ h l' none .none := by
  obtain ⟨hheld, t, rs, os, gs, hrep, hall⟩ := hl
  obtain ⟨l', hl', -, hrep'⟩ := hrep.collect hheld
  refine ⟨l', by simp [step, hl'], ?_, _, _, _, _, hrep',
    fun e he => hall e (subset_append_left t.recent t.old he)⟩
  rw [Option.eq_none_iff_forall_ne_some]
  intro a ha
  cases hrep'.held a ha

theorem Holds.free (hl : Holds Φ h l none .none) (i : ℕ) :
    ∃ l', step init l (.free i) = some (.null, l') ∧ Holds Φ h l' none .none := by
  obtain ⟨hheld, t, rs, os, gs, hrep, hall⟩ := hl
  obtain ⟨m, g, gs', hrun, hrep'⟩ := hrep.free i
  exact ⟨{ l with mem := m, garbage := g }, by simp only [step, hrun, Option.map_some], hheld, t,
    rs, os, gs', hrep', hall⟩

theorem Holds.lookup (hs : Stable Φ) (hl : Holds Φ h l ptr .none) (addr : K) (create? oom : Bool)
    (b : Option (A × Item K P)) :
    ∃ r l', l.lookup init addr create? oom (fresh l b) = some (r, l') ∧
      match r with
      | .null => Holds Φ h l' none .none
      | .found a => ∃ p, Φ h addr p ∧ Holds Φ h l' (some a) (.locked addr p)
      | .created a =>
        create? = true ∧ ∃ junk, Holds Φ (h ++ [.created addr]) l' (some a)
          (.locked addr (init junk)) := by
  obtain ⟨hheld, t, rs, os, gs, hrep, hall⟩ := hl
  have henabled : (PeerOp.lookup addr create? oom (fresh l b)).Enabled l :=
    ⟨hheld, fun a junk hb => alive_of_fresh hb⟩
  obtain ⟨r, l', rs', os', gs', hlook, hrep', htell⟩ := lookup_refines init hrep henabled
  refine ⟨r, l', hlook, ?_⟩
  cases r with
  | null =>
    obtain rfl : l' = l := htell
    exact ⟨hheld, t, rs, os, gs, hrep, hall⟩
  | found a =>
    have hheld' := held_of_lookup init hlook (Or.inl rfl)
    obtain ⟨p, hp⟩ := ne_none_iff_exists'.mp (show t.find addr ≠ none from htell)
    have htouch : tableStep init t ⟨.lookup addr create? oom (fresh l b), .found a⟩ =
        ⟨(addr, p) :: t.recent.filter (fun e => decide (e.1 ≠ addr)),
          t.old.filter (fun e => decide (e.1 ≠ addr)), t.left⟩ := by
      show t.touch addr = _
      unfold PeerTable.touch
      rw [hp]
    refine ⟨p, hall _ (PeerTable.mem_of_find hp), by rw [hheld']; simp, a, _, rs', os', gs', _,
      hrep', rfl, hrep'.held a hheld', by rw [htouch], fun e he => hall e ?_⟩
    rw [htouch, ← filter_append] at he
    exact (mem_filter.mp he).1
  | created a =>
    have hheld' := held_of_lookup init hlook (Or.inr rfl)
    obtain ⟨hnone, hcreate, -, junk, hb⟩ := htell
    have hins : tableStep init t ⟨.lookup addr create? oom (fresh l b), .created a⟩ =
        t.insert addr (init junk.peer) := by
      rw [hb]
      rfl
    refine ⟨hcreate, junk.peer, by rw [hheld']; simp, a, _, rs', os', gs', t.recent, hrep', rfl,
      hrep'.held a hheld', by rw [hins]; rfl, ?_⟩
    rw [hins]
    intro e he
    refine hs.created addr (hall e he) ?_
    rintro rfl
    exact PeerTable.find_eq_none_iff.mp hnone (mem_map.mpr ⟨e, he, rfl⟩)

/-- The program `x` runs to its end, and then the postcondition holds and the calls were allowed. -/
def Ends (Φ : List (Ev I K C) → K → P → Prop) (Ψ : List (Ev I K C) → C → Prop)
    (Q : α → Cur K P → List (Ev I K C) → Prop) (h : List (Ev I K C)) (x : PeerProg K P C α)
    (ptr : Option A) (e : Env K P A) (l : PeerList K P A) : Prop :=
  ∃ a evs l' ptr' c', x.run init ptr e l = some (a, evs, l') ∧ Q a c' (h ++ evs) ∧
    Holds Φ (h ++ evs) l' ptr' c' ∧ CallsOk Ψ h evs

variable {Q : α → Cur K P → List (Ev I K C) → Prop} {e : Env K P A}

theorem Ends.event {x' : PeerProg K P C α} {ptr' : Option A} {e' : Env K P A}
    {l' : PeerList K P A} (hev : ∀ y ok, ev = .called y ok → Ψ h y)
    (hrun : x.run init ptr e l = (x'.run init ptr' e' l').map fun r => (r.1, ev :: r.2.1, r.2.2))
    (hx : Ends init Φ Ψ Q (h ++ [ev]) x' ptr' e' l') : Ends init Φ Ψ Q h x ptr e l := by
  obtain ⟨a, evs, l'', ptr'', c', hrun', hq, hlast, hcalls⟩ := hx
  refine ⟨a, ev :: evs, l'', ptr'', c', ?_, ?_, ?_, hcalls.cons hev⟩
  · rw [hrun, hrun', map_some]
  · rw [append_cons]
    exact hq
  · rw [append_cons]
    exact hlast

theorem Ends.read {next : P → PeerProg K P C α} (hp : PointsTo Φ h l ptr k p)
    (hnext : Ends init Φ Ψ Q h (next p) ptr e l) : Ends init Φ Ψ Q h (.read next) ptr e l := by
  obtain ⟨a, rfl, halive, rfl⟩ := hp.read
  have hrun : (PeerProg.read next).run (I := I) init (some a) e l = _ := if_pos halive
  unfold Ends
  rw [hrun]
  exact hnext

theorem Ends.write {f : P → P} {next : PeerProg K P C α} (hp : PointsTo Φ h l ptr k p)
    (hnext : ∀ a, PointsTo Φ h (written l a f) ptr k (f p) →
      Ends init Φ Ψ Q h next ptr e (written l a f)) :
    Ends init Φ Ψ Q h (.write f next) ptr e l := by
  obtain ⟨a, rfl, halive, -⟩ := hp.read
  have hrun : (PeerProg.write f next).run (I := I) init (some a) e l = _ := if_pos halive
  unfold Ends
  rw [hrun]
  exact hnext a (hp.write f)

/-- **The rule is sound.** A program whose precondition holds runs to its end, makes only calls that
are allowed, and leaves the list as its postcondition says. -/
theorem run_of_wp (hs : Stable Φ) (x : PeerProg K P C α) (hx : x.wp init Φ Ψ Q c h) (e : Env K P A)
    (hl : Holds Φ h l ptr c) : Ends init Φ Ψ Q h x ptr e l := by
  induction x generalizing c h e l ptr with
  | ret a =>
    refine ⟨a, [], l, ptr, c, rfl, ?_, ?_, callsOk_nil⟩
    · rw [append_nil]
      exact hx
    · rw [append_nil]
      exact hl
  | lookup addr create? next ih =>
    obtain ⟨hclosed, hnull, hfound, hcreated⟩ := hx
    have hnone := hl.close hclosed
    obtain ⟨r, l', hlook, hcase⟩ := hnone.lookup init hs addr create?
      (e.blocks.headD (false, none)).1 (e.blocks.headD (false, none)).2
    have hrun : (PeerProg.lookup addr create? next).run (I := I) init ptr e l = _ :=
      if_neg (not_not.mpr hnone.1)
    simp only [hlook] at hrun
    cases r with
    | null =>
      unfold Ends
      rw [hrun]
      exact ih .null hnull _ hcase
    | found a =>
      obtain ⟨p, hp, hl'⟩ := hcase
      unfold Ends
      rw [hrun]
      exact ih .found (hfound p hp) _ hl'
    | created a =>
      obtain ⟨hcreate, junk, hl'⟩ := hcase
      exact Ends.event init (fun _ _ he => by cases he) hrun
        (ih .created (hcreated hcreate junk) _ hl')
  | read next ih =>
    cases c with
    | none => exact hx.elim
    | locked k p | stale k p => exact Ends.read init hl.2 (ih p hx e hl)
  | write f next ih =>
    cases c with
    | none => exact hx.elim
    | locked k p | stale k p => exact Ends.write init hl.2 fun a hp => ih hx e ⟨hl.1, hp⟩
  | release next ih =>
    cases c with
    | none | stale k p => exact hx.elim
    | locked k p =>
      have hrun : (PeerProg.release next).run (I := I) init ptr e l = _ := if_neg hl.1
      unfold Ends
      rw [hrun]
      exact ih hx e ⟨rfl, hl.2.release⟩
  | call x next ih =>
    refine Ends.event init (fun y ok he => ?_) rfl
      (ih _ (hx.2 (e.results.headD true)) _ (hl.imp fun _ _ => hs.called x _))
    cases he
    exact hx.1

end Sound

end PeerProg

end Maiccu.Teredo
