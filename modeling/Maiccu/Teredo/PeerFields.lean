import Maiccu.Teredo.Peer

/-!
# The fields of a peer that were written

`teredo_list_lookup` makes a record of which only the queue is initialised. A `Tracked` record knows
which of its other fields were written since. The functions on a record are here as they read one
field after the other, and they report each field that they use and that was not written.
-/

namespace Maiccu.Teredo

open List

/-- The fields that `teredo_peer_init` leaves as they are. -/
inductive Field where
  | lastRx
  | lastTx
  | lastPing
  | mappedAddr
  | mappedPort
  | trusted
  | isLocal
  | bubbles
  | pings
  deriving DecidableEq

abbrev Field.Val : Field → Type
  | .lastRx | .lastTx | .lastPing => UInt64
  | .mappedAddr => Ipv4
  | .mappedPort => Port
  | .trusted | .isLocal => Bool
  | .bubbles | .pings => Fin 8

namespace Peer

def get (p : Peer) : (f : Field) → f.Val
  | .lastRx => p.lastRx
  | .lastTx => p.lastTx
  | .lastPing => p.lastPing
  | .mappedAddr => p.mappedAddr
  | .mappedPort => p.mappedPort
  | .trusted => p.trusted
  | .isLocal => p.isLocal
  | .bubbles => p.bubbles
  | .pings => p.pings

def set (p : Peer) : (f : Field) → f.Val → Peer
  | .lastRx, v => { p with lastRx := v }
  | .lastTx, v => { p with lastTx := v }
  | .lastPing, v => { p with lastPing := v }
  | .mappedAddr, v => { p with mappedAddr := v }
  | .mappedPort, v => { p with mappedPort := v }
  | .trusted, v => { p with trusted := v }
  | .isLocal, v => { p with isLocal := v }
  | .bubbles, v => { p with bubbles := v }
  | .pings, v => { p with pings := v }

end Peer

/-! ## Uses of fields -/

/-- A value, with the fields it was computed from that were not written. -/
structure Uses (α : Type) where
  unwritten : List Field
  val : α

instance : Monad Uses where
  pure a := ⟨[], a⟩
  bind x f := ⟨x.unwritten ++ (f x.val).unwritten, (f x.val).val⟩

section Uses

variable {α β : Type}

@[simp] theorem Uses.unwritten_pure (a : α) : (pure a : Uses α).unwritten = [] := rfl

@[simp] theorem Uses.val_pure (a : α) : (pure a : Uses α).val = a := rfl

@[simp] theorem Uses.unwritten_bind (x : Uses α) (f : α → Uses β) :
    (x >>= f).unwritten = x.unwritten ++ (f x.val).unwritten := rfl

@[simp] theorem Uses.val_bind (x : Uses α) (f : α → Uses β) : (x >>= f).val = (f x.val).val := rfl

theorem Uses.val_ite (c : Prop) [Decidable c] (x y : Uses α) :
    (if c then x else y).val = if c then x.val else y.val := apply_ite Uses.val c x y

end Uses

/-- A record, and the fields that were written since it was made. -/
structure Tracked where
  peer : Peer
  written : Field → Bool

namespace Tracked

variable (t : Tracked)

/-- `teredo_peer_init`. -/
def init : Tracked := ⟨t.peer.init, fun _ => false⟩

def use (f : Field) : Uses f.Val := ⟨if t.written f then [] else [f], t.peer.get f⟩

def store (f : Field) (v : f.Val) : Tracked := ⟨t.peer.set f v, Function.update t.written f true⟩

def stores (vs : List ((f : Field) × f.Val)) : Tracked := vs.foldl (fun t v => t.store v.1 v.2) t

def onQueue (g : Peer → Peer) : Tracked := { t with peer := g t.peer }

def mapping (ip : Ipv4) (port : Port) : List ((f : Field) × f.Val) :=
  [⟨.mappedAddr, ip⟩, ⟨.mappedPort, port⟩]

/-! ## The functions -/

variable (now : UInt64)

def isValid : Uses Bool := do
  let lastRx ← t.use .lastRx
  let isLocal ← t.use .isLocal
  return decide (now - lastRx ≤ if isLocal then 600 else 30)

/-- `CountPing`: the result. -/
def pingResult : Uses Count := do
  let pings ← t.use .pings
  if pings = 0 then return .send
  else if 4 ≤ pings then return .tooMany
  else
    let lastPing ← t.use .lastPing
    return if now - lastPing ≤ 2 then .later else .send

def countPing : Uses (Count × Tracked) := do
  let res ← t.pingResult now
  if res = .send then
    let pings ← t.use .pings
    return (res, t.stores [⟨.lastPing, now⟩, ⟨.pings, pings + 1⟩])
  else return (res, t)

def bubbleResult : Uses (Count × Fin 8) := do
  let bubbles ← t.use .bubbles
  if 0 < bubbles then
    let lastTx ← t.use .lastTx
    if 4 ≤ bubbles then
      return if now - lastTx ≤ 300 then (.tooMany, bubbles) else (.send, 0)
    else return if now - lastTx ≤ 2 then (.later, bubbles) else (.send, bubbles)
  else return (.send, bubbles)

def countBubble : Uses (Count × Tracked) := do
  let r ← t.bubbleResult now
  return (r.1, if r.1 = .send then t.stores [⟨.lastTx, now⟩, ⟨.bubbles, r.2 + 1⟩] else t)

def mapped : Uses (Ipv4 × Port) := do
  let ip ← t.use .mappedAddr
  let port ← t.use .mappedPort
  return (ip, port)

/-- A flag, and only if it is set the condition that follows it. -/
def andThen (f : Uses Bool) (g : Uses Bool) : Uses Bool := do
  if ← f then g else return false

def fromMapping (ip : Ipv4) (port : Port) : Uses Bool :=
  andThen (return decide (ip = (← t.use .mappedAddr)))
    (return decide (port = (← t.use .mappedPort)))

/-! ## The values -/

section Values

variable {t} {now}

@[simp] theorem val_use (f : Field) : (t.use f).val = t.peer.get f := rfl

@[simp] theorem peer_store (f : Field) (v : f.Val) : (t.store f v).peer = t.peer.set f v := rfl

theorem val_andThen (f g : Uses Bool) : (andThen f g).val = (f.val && g.val) := by
  unfold andThen
  rw [Uses.val_bind]
  cases f.val <;> rfl

theorem val_fromMapping (ip : Ipv4) (port : Port) : (t.fromMapping ip port).val =
    (decide (ip = t.peer.mappedAddr) && decide (port = t.peer.mappedPort)) := by
  unfold fromMapping
  rw [val_andThen]
  rfl

theorem val_pingResult : (t.pingResult now).val = t.peer.pingResult now := by
  rw [pingResult, Uses.val_bind, Uses.val_ite, Uses.val_ite]
  rfl

theorem val_countPing : (t.countPing now).val.1 = (t.peer.countPing now).1 ∧
    (t.countPing now).val.2.peer = (t.peer.countPing now).2 := by
  unfold countPing Peer.countPing
  simp only [Uses.val_bind, val_pingResult]
  split_ifs
  · exact ⟨rfl, rfl⟩
  · exact ⟨rfl, rfl⟩

theorem val_bubbleResult : (t.bubbleResult now).val = t.peer.bubbleResult now := by
  rw [bubbleResult, Uses.val_bind, Uses.val_ite, Uses.val_bind, Uses.val_ite]
  rfl

theorem val_countBubble : (t.countBubble now).val.1 = (t.peer.countBubble now).1 ∧
    (t.countBubble now).val.2.peer = (t.peer.countBubble now).2 := by
  unfold countBubble Peer.countBubble
  simp only [Uses.val_bind, Uses.val_pure, val_bubbleResult]
  split_ifs
  · exact ⟨rfl, rfl⟩
  · exact ⟨rfl, rfl⟩

end Values

/-! ## Uses of what was written -/

section Clean

variable {t} {now}

theorem unwritten_use {f : Field} (h : t.written f = true) : (t.use f).unwritten = [] := if_pos h

theorem unwritten_isValid (hrx : t.written .lastRx = true) (hlocal : t.written .isLocal = true) :
    (t.isValid now).unwritten = [] := by
  simp [isValid, unwritten_use, hrx, hlocal]

theorem unwritten_mapped (haddr : t.written .mappedAddr = true)
    (hport : t.written .mappedPort = true) : t.mapped.unwritten = [] := by
  simp [mapped, unwritten_use, haddr, hport]

theorem unwritten_andThen {f g : Uses Bool} (hf : f.unwritten = [])
    (hg : f.val = true → g.unwritten = []) : (andThen f g).unwritten = [] := by
  unfold andThen
  rw [Uses.unwritten_bind, hf, nil_append]
  cases h : f.val with
  | false => rfl
  | true => exact hg h

theorem unwritten_fromMapping (haddr : t.written .mappedAddr = true)
    (hport : t.written .mappedPort = true) {ip : Ipv4} {port : Port} :
    (t.fromMapping ip port).unwritten = [] :=
  unwritten_andThen (by simp [unwritten_use haddr]) fun _ => by simp [unwritten_use hport]

theorem unwritten_countPing (hpings : t.written .pings = true)
    (hlast : t.peer.pings ≠ 0 → t.written .lastPing = true) : (t.countPing now).unwritten = [] := by
  have hres : (t.pingResult now).unwritten = [] := by
    unfold pingResult
    rw [Uses.unwritten_bind, unwritten_use hpings, nil_append]
    show Uses.unwritten (if t.peer.pings = 0 then _ else _) = []
    split_ifs with h₀
    · rfl
    · rfl
    · simp [unwritten_use (hlast h₀)]
  unfold countPing
  rw [Uses.unwritten_bind, hres, nil_append]
  split_ifs
  · simp [unwritten_use hpings]
  · rfl

theorem unwritten_countBubble (hbubbles : t.written .bubbles = true)
    (hlast : t.peer.bubbles ≠ 0 → t.written .lastTx = true) :
    (t.countBubble now).unwritten = [] := by
  have hres : (t.bubbleResult now).unwritten = [] := by
    unfold bubbleResult
    rw [Uses.unwritten_bind, unwritten_use hbubbles, nil_append]
    show Uses.unwritten (if 0 < t.peer.bubbles then _ else _) = []
    split_ifs with h₀
    · simp [unwritten_use (hlast (Fin.pos_iff_ne_zero.mp h₀))]
    · simp [unwritten_use (hlast (Fin.pos_iff_ne_zero.mp h₀))]
    · rfl
  unfold countBubble
  rw [Uses.unwritten_bind, hres]
  rfl

end Clean

end Tracked

end Maiccu.Teredo
