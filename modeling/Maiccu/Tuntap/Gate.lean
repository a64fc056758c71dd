import Mathlib.Algebra.Group.Nat.Defs

/-!
# The gate of the tunnel devices

Each call of a device enters the gate (`lock.cc`) and leaves it at its end.
`tuntap_manager::shutdown` holds the gate locked but for its sleeps, and sleeps until the ticket
number is what it was before. -/

namespace Maiccu.Tuntap

/-- The counters of `tt_gate`. -/
structure Gate where
  ticketNumber : UInt32
  population : UInt32
  deriving DecidableEq

inductive Pass where
  | enter (call : ℕ)
  | exit (call : ℕ)
  deriving DecidableEq

namespace Gate

variable (g : Gate)

def enter : Gate := ⟨g.ticketNumber + 1, g.population + 1⟩

def exit : Gate := ⟨g.ticketNumber - 1, g.population - 1⟩

def isAnyoneIn : Bool := g.population != 0

def getTicketNumber : UInt32 := g.ticketNumber

def pass : Pass → Gate
  | .enter _ => g.enter
  | .exit _ => g.exit

/-- The loop at the end of `shutdown`, for what passes the gate in each of its sleeps: the gate, and
the last sleep. -/
def wait (g : Gate) : List (List Pass) → Option (Gate × List Pass)
  | [] => none
  | sleep :: sleeps =>
    let g' := sleep.foldl pass g
    if g'.getTicketNumber = g.getTicketNumber then some (g', sleep) else wait g' sleeps

end Gate

/-- An interface of the table is its `idle()`. -/
structure Manager where
  gate : Gate
  tuntaps : Option (List (Option Bool))
  deriving DecidableEq

/-- `shutdown` refuses, or ends after its last sleep. -/
def Manager.shutdown (m : Manager) (sleeps : List (List Pass)) :
    Option (Manager × Bool × List Pass) :=
  if m.gate.isAnyoneIn || m.tuntaps.any (some false ∈ ·) then some (m, false, [])
  else (m.gate.wait sleeps).map fun x =>
    (⟨x.1, m.tuntaps.map fun ts => ts.map fun _ => none⟩, true, x.2)

/-- A call that leaves is one that is in. -/
def Interleaving (inside : List ℕ) : List Pass → Bool
  | [] => true
  | .enter c :: ps => c ∉ inside && Interleaving (c :: inside) ps
  | .exit c :: ps => c ∈ inside && Interleaving (inside.erase c) ps

variable (ps : List Pass)

def entries : ℕ := ps.countP fun | .enter _ => true | .exit _ => false

def exits : ℕ := ps.countP fun | .enter _ => false | .exit _ => true

/-- As many calls enter as leave, for a counter of 32 bits. -/
def Balanced : Prop := entries ps % 2 ^ 32 = exits ps % 2 ^ 32

instance (ps : List Pass) : Decidable (Balanced ps) := inferInstanceAs (Decidable (_ = _))

theorem ticketNumber_foldl (g : Gate) (ps : List Pass) : (ps.foldl Gate.pass g).ticketNumber =
      g.ticketNumber + UInt32.ofNat (entries ps) - UInt32.ofNat (exits ps) := by
  induction ps generalizing g with
  | nil => simp [entries, exits]
  | cons p ps ih =>
    rw [List.foldl_cons, ih]
    cases p with
    | enter c =>
      simp only [Gate.pass, Gate.enter, entries, exits, List.countP_cons, if_true,
        Bool.false_eq_true, if_false, UInt32.ofNat_add]
      grind only
    | exit c =>
      simp only [Gate.pass, Gate.exit, entries, exits, List.countP_cons, if_true,
        Bool.false_eq_true, if_false, UInt32.ofNat_add]
      grind only

theorem ticketNumber_eq_iff (g : Gate) (ps : List Pass) :
    (ps.foldl Gate.pass g).getTicketNumber = g.getTicketNumber ↔ Balanced ps := by
  unfold Gate.getTicketNumber
  rw [ticketNumber_foldl]
  have hnat : UInt32.ofNat (entries ps) = UInt32.ofNat (exits ps) ↔ Balanced ps := by
    rw [← UInt32.toNat_inj, UInt32.toNat_ofNat', UInt32.toNat_ofNat']
    rfl
  rw [← hnat]
  grind

theorem wait_last (g : Gate) (sleeps : List (List Pass)) :
    (g.wait sleeps).map Prod.snd = sleeps.find? fun ps => decide (Balanced ps) := by
  induction sleeps generalizing g with
  | nil => rfl
  | cons ps sleeps ih =>
    unfold Gate.wait
    by_cases hps : Balanced ps
    · simp [ticketNumber_eq_iff, hps]
    · simp [ticketNumber_eq_iff, hps, ih]

theorem shutdown_quiet_iff (m : Manager) (sleeps : List (List Pass)) :
    (∀ m' last, m.shutdown sleeps = some (m', true, last) → last = []) ↔
      (m.gate.isAnyoneIn || m.tuntaps.any (some false ∈ ·)) = true ∨
        ∀ ps ∈ sleeps.find? fun ps => decide (Balanced ps), ps = [] := by
  rw [← wait_last m.gate]
  unfold Manager.shutdown
  cases m.gate.isAnyoneIn || m.tuntaps.any (some false ∈ ·) with
  | false => cases m.gate.wait sleeps <;> simp
  | true => simp

theorem call_inside_after_shutdown :
    let sleeps := [[Pass.enter 1], [.exit 1, .enter 2]]
    Interleaving [] sleeps.flatten ∧ Manager.shutdown ⟨⟨0, 0⟩, some []⟩ sleeps =
      some (⟨⟨1, 1⟩, some []⟩, true, [.exit 1, .enter 2]) := by
  decide

end Maiccu.Tuntap
