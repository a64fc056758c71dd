import Maiccu.Teredo.PeerProg

/-!
# Paths of programs that use the peer list

A path through a program is what it does to the lock and to the record it looked up, for some
results of its lookups and calls. While the lock is held the record changes only as the program
writes it; afterwards the program may read any value. `PeerProg.lockWp` is a rule for all paths: the
lock must be free at each lookup and held at each release, and a flag tells whether every access was
made with the lock.
-/

namespace Maiccu.Teredo.PeerProg

open Maiccu.Lib Option

variable {K P C α β : Type}

/-- What a lookup returns: the null pointer, the record found, or a new one on the block that
`malloc` returned. -/
inductive Looked (P : Type) where
  | null
  | found (p : P)
  | created (junk : P)

inductive ListOp where
  | lookup (ok : Bool)
  /-- A field of the record is read or written. -/
  | access
  | release
  | call
  deriving DecidableEq

/-- The paths of a program, with the results of its lookups. The second argument is the record while
the lock is held. -/
inductive Path (init : P → P) : PeerProg K P C α → Option P → List (Looked P) → List ListOp →
    Prop where
  | ret (a : α) (c : Option P) : Path init (.ret a) c [] []
  | null {addr create? next c fs ops} :
      Path init (next .null) none fs ops →
      Path init (.lookup addr create? next) c (.null :: fs) (.lookup false :: ops)
  | found {addr create? next c fs ops} (p : P) :
      Path init (next .found) (some p) fs ops →
      Path init (.lookup addr create? next) c (.found p :: fs) (.lookup true :: ops)
  | created {addr next c fs ops} (junk : P) :
      Path init (next .created) (some (init junk)) fs ops →
      Path init (.lookup addr true next) c (.created junk :: fs) (.lookup true :: ops)
  | read {next p fs ops} :
      Path init (next p) (some p) fs ops → Path init (.read next) (some p) fs (.access :: ops)
  | readStale {next fs ops} (p : P) :
      Path init (next p) none fs ops → Path init (.read next) none fs (.access :: ops)
  | write {f next p fs ops} :
      Path init next (some (f p)) fs ops → Path init (.write f next) (some p) fs (.access :: ops)
  | writeStale {f next fs ops} :
      Path init next none fs ops → Path init (.write f next) none fs (.access :: ops)
  | release {next c fs ops} :
      Path init next none fs ops → Path init (.release next) c fs (.release :: ops)
  | call {x next c fs ops} (b : Bool) :
      Path init (next b) c fs ops → Path init (.call x next) c fs (.call :: ops)

/-- Whether the lock is held after the operations: `none` if it is taken twice, or given back
without being held. A lookup that succeeds takes it. -/
def locks : Bool → List ListOp → Option Bool
  | held, [] => some held
  | false, .lookup ok :: ops => locks ok ops
  | true, .lookup _ :: _ => none
  | true, .release :: ops => locks false ops
  | false, .release :: _ => none
  | held, .access :: ops => locks held ops
  | held, .call :: ops => locks held ops

def guarded : Bool → List ListOp → Bool
  | _, [] => true
  | _, .lookup ok :: ops => guarded ok ops
  | _, .release :: ops => guarded false ops
  | held, .access :: ops => held && guarded held ops
  | held, .call :: ops => guarded held ops

/-! ## The rule -/

/-- The program keeps the discipline of the lock on all its paths, and at the end `Q` holds of its
result, the record if the lock is still held, whether all accesses were made with the lock, and the
results of the lookups. -/
def lockWp (init : P → P) : PeerProg K P C α → (α → Option P → Bool → List (Looked P) → Prop) →
    Option P → Bool → List (Looked P) → Prop
  | .ret a, Q, c, g, fs => Q a c g fs
  | .lookup _ create? next, Q, c, g, fs =>
    c = none ∧ (next .null).lockWp init Q none g (fs ++ [.null]) ∧
      (∀ p, (next .found).lockWp init Q (some p) g (fs ++ [.found p])) ∧
      (create? = true → ∀ junk,
        (next .created).lockWp init Q (some (init junk)) g (fs ++ [.created junk]))
  | .read next, Q, c, g, fs =>
    match c with
    | some p => (next p).lockWp init Q (some p) g fs
    | none => ∀ p, (next p).lockWp init Q none false fs
  | .write f next, Q, c, g, fs =>
    match c with
    | some p => next.lockWp init Q (some (f p)) g fs
    | none => next.lockWp init Q none false fs
  | .release next, Q, c, g, fs => c.isSome = true ∧ next.lockWp init Q none g fs
  | .call _ next, Q, c, g, fs => ∀ b, (next b).lockWp init Q c g fs

variable {x : PeerProg K P C α}

section Rule

variable {init : P → P} {Q : α → Option P → Bool → List (Looked P) → Prop} {c : Option P} {g : Bool}
  {fs pre : List (Looked P)} {ops : List ListOp}

theorem lockWp_bind {R : β → Option P → Bool → List (Looked P) → Prop} (x : PeerProg K P C α)
    (f : α → PeerProg K P C β) :
    (x >>= f).lockWp init R c g fs ↔
      x.lockWp init (fun a c g fs => (f a).lockWp init R c g fs) c g fs := by
  show (x.bind f).lockWp init R c g fs ↔ _
  induction x generalizing c g fs with
  | ret a => exact Iff.rfl
  | lookup addr create? next ih => simp only [bind, lockWp, ih]
  | read next ih | write h next ih => cases c <;> simp only [bind, lockWp, ih]
  | release next ih | call x next ih => simp only [bind, lockWp, ih]

theorem Path.of_lockWp (hpath : Path init x c fs ops) (hx : x.lockWp init Q c g pre) :
    ∃ a c', locks c.isSome ops = some c'.isSome ∧ Q a c' (g && guarded c.isSome ops)
      (pre ++ fs) := by
  induction hpath generalizing g pre with
  | ret a c => exact ⟨a, c, rfl, by simpa [guarded, lockWp] using hx⟩
  | null _ ih =>
    obtain ⟨rfl, hnull, -, -⟩ := hx
    obtain ⟨a, c', hlocks, hQ⟩ := ih hnull
    exact ⟨a, c', hlocks, by rwa [List.append_cons]⟩
  | found p _ ih =>
    obtain ⟨rfl, -, hfound, -⟩ := hx
    obtain ⟨a, c', hlocks, hQ⟩ := ih (hfound p)
    exact ⟨a, c', hlocks, by rwa [List.append_cons]⟩
  | created junk _ ih =>
    obtain ⟨rfl, -, -, hcreated⟩ := hx
    obtain ⟨a, c', hlocks, hQ⟩ := ih (hcreated rfl junk)
    exact ⟨a, c', hlocks, by rwa [List.append_cons]⟩
  | read _ ih => exact ih hx
  | readStale p _ ih =>
    obtain ⟨a, c', hlocks, hQ⟩ := ih (hx p)
    exact ⟨a, c', hlocks, by simpa [guarded] using hQ⟩
  | write _ ih => exact ih hx
  | writeStale _ ih =>
    obtain ⟨a, c', hlocks, hQ⟩ := ih hx
    exact ⟨a, c', hlocks, by simpa [guarded] using hQ⟩
  | @release next c _ _ _ ih =>
    obtain ⟨hc, hnext⟩ := hx
    obtain ⟨a, c', hlocks, hQ⟩ := ih hnext
    obtain ⟨p, rfl⟩ := isSome_iff_exists.mp hc
    exact ⟨a, c', hlocks, hQ⟩
  | @call _ _ c _ _ b _ ih =>
    obtain ⟨a, c', hlocks, hQ⟩ := ih (hx b)
    refine ⟨a, c', ?_, ?_⟩
    · rwa [locks.eq_def]
    · rwa [guarded]

@[simp] theorem lockWp_teredoListLookup {R : Lookup → Option P → Bool → List (Looked P) → Prop}
    (addr : K) (create? : Bool) :
    (teredoListLookup addr create? : PeerProg K P C Lookup).lockWp init R c g fs ↔
      c = none ∧ R .null none g (fs ++ [.null]) ∧ (∀ p, R .found (some p) g (fs ++ [.found p])) ∧
        (create? = true → ∀ junk, R .created (some (init junk)) g (fs ++ [.created junk])) :=
  Iff.rfl

variable {R : Unit → Option P → Bool → List (Looked P) → Prop} {p : P}

@[simp] theorem lockWp_teredoListRelease :
    (teredoListRelease : PeerProg K P C Unit).lockWp init R c g fs ↔
      c.isSome = true ∧ R () none g fs := Iff.rfl

@[simp] theorem lockWp_getPeer_some {R : P → Option P → Bool → List (Looked P) → Prop} :
    (getPeer : PeerProg K P C P).lockWp init R (some p) g fs ↔ R p (some p) g fs := Iff.rfl

@[simp] theorem lockWp_getPeer_none {R : P → Option P → Bool → List (Looked P) → Prop} :
    (getPeer : PeerProg K P C P).lockWp init R none g fs ↔ ∀ p, R p none false fs := Iff.rfl

@[simp] theorem lockWp_modifyPeer (f : P → P) :
    (modifyPeer f : PeerProg K P C Unit).lockWp init R (some p) g fs ↔ R () (some (f p)) g fs :=
  Iff.rfl

@[simp] theorem lockWp_withPeer_some (f : P → α × P) :
    (withPeer f : PeerProg K P C α).lockWp init Q (some p) g fs ↔ Q (f p).1 (some (f p).2) g fs :=
  Iff.rfl

@[simp] theorem lockWp_withPeer_none (f : P → α × P) :
    (withPeer f : PeerProg K P C α).lockWp init Q none g fs ↔ ∀ p, Q (f p).1 none false fs :=
      Iff.rfl

@[simp] theorem lockWp_invoke {R : Bool → Option P → Bool → List (Looked P) → Prop} (x : C) :
    (invoke x : PeerProg K P C Bool).lockWp init R c g fs ↔ ∀ b, R b c g fs := Iff.rfl

end Rule

end Maiccu.Teredo.PeerProg
