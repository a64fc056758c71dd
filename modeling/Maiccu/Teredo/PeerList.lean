import Maiccu.Lib.DList
import Maiccu.Lib.Run

/-!
# The peer list

`peerlist.c` as it is built without the Judy library: a search tree over the keys of the entries,
and the entries in two intrusive doubly linked lists. `init` is `teredo_peer_init` on what `malloc`
returned.

The search tree is the list of its data pointers: an entry, or (`none`) the key of the caller, which
`tsearch` stores when it makes a new node. A search in a tree with a dangling pointer is undefined.

`step` is one operation under the lock: `none` is a failed assertion or an access to freed memory.
The entries that a collection or a reset unlinks are released after the lock is given back, one at a
time (`PeerOp.free`), so other operations may come in between.
-/

namespace Maiccu.Teredo

open Maiccu.Lib

/-- The two lists. -/
inductive Generation where
  | recent
  | old
  deriving DecidableEq

structure Item (K P : Type*) where
  key : K
  peer : P

/-- A `teredo_peerlist`. -/
structure PeerList (K P A : Type*) where
  mem : Mem Generation A (Item K P)
  left : ℕ
  root : List (Option A)
  /-- The entry that the holder of the lock has looked up. -/
  held : Option A
  /-- The pointers of the threads that are inside `listitem_recdestroy`. -/
  garbage : List (Option A)
  /-- The size given to `teredo_list_create` or to the last `teredo_list_reset`. -/
  max : ℕ

section Model

variable {K P A : Type*} [DecidableEq K] [DecidableEq A] (init : P → P)

namespace PeerList

variable (l : PeerList K P A)

/-! ## The search tree -/

variable (addr : K)

/-- The key behind a data pointer, in a call for the key `addr`. -/
def keyAt : Option A → K
  | none => addr
  | some a => (l.mem.val a).key

def treeOk : Bool := l.root.all fun d => match d with
  | none => true
  | some a => l.mem.alive a

/-- The data pointer of the node with the key `addr`. -/
def tfind : Option (Option A) := l.root.find? fun d => decide (l.keyAt addr d = addr)

/-- The tree after `tdelete`. -/
def tdelete : List (Option A) :=
  match l.tfind addr with
  | none => l.root
  | some d => l.root.erase d

/-- The outcome of `tsearch`: out of memory, or the data pointer found or stored. -/
def tsearch (oom : Bool) : Option (Option A × PeerList K P A) :=
  match l.tfind addr with
  | some d => some (d, l)
  | none => if oom then none else some (none, { l with root := none :: l.root })

/-! ## Lookup -/

variable (m : Mem Generation A (Item K P)) (a : A)

def linked : Bool :=
  decide (m.get (m.pprev a) = some a) && match m.next a with
    | none => true
    | some b => decide (m.pprev b = .next a)

/-- What a lookup returns. -/
inductive Found (A : Type*) where
  | null
  | found (a : A)
  | created (a : A)

/-- The part of `teredo_list_lookup` for an entry that is in the list. -/
def relink : Option (Found A × PeerList K P A) :=
  if ¬ linked l.mem a then none else
  if l.mem.head .recent = some a then some (.found a, { l with held := some a }) else
  (l.mem.unlink a).bind fun m => (m.pushFront .recent a).bind fun m =>
    if linked m a then some (.found a, { l with mem := m, held := some a }) else none

/-- A block that `malloc` returned, with the bytes that happen to be in it. -/
def alloc (junk : Item K P) :
    Mem Generation A (Item K P) :=
  { m with
    alive := Function.update m.alive a true
    val := Function.update m.val a ⟨junk.key, init junk.peer⟩ }

/-- The part of `teredo_list_lookup` that makes an entry; `tsearch` has stored the key of the
caller, and `block` is what `malloc` returns. -/
def create (block : Option (A × Item K P)) : Option (Found A × PeerList K P A) :=
  match (if 0 < l.left then block else none) with
  | none => some (.null, { l with root := l.tdelete addr })
  | some (a, junk) =>
    ((alloc init l.mem a junk).pushFront .recent a).bind fun m =>
      if linked m a then
        some (.created a, { l with
            mem := { m with val := Function.update m.val a ⟨addr, (m.val a).peer⟩ }
            left := l.left - 1
            root := l.root.map fun d => if d = none then some a else d
            held := some a })
      else none

/-- `teredo_list_lookup`. -/
def lookup (create? oom : Bool) (block : Option (A × Item K P)) :
    Option (Found A × PeerList K P A) :=
  if ¬ l.treeOk then none else
  if create? then
    match l.tsearch addr oom with
    | none => some (.null, l)
    | some (some a, l') => l'.relink a
    | some (none, l') => l'.create init addr block
  else
    match l.tfind addr with
    | some (some a) => l.relink a
    | _ => some (.null, l)

/-! ## Collection and reset -/

/-- The loop of the collector over the old entries. Each turn takes a key out of the tree (it is an
assertion that the key is there), so it has no more turns than the tree has nodes. -/
def expire : ℕ → PeerList K P A → Option A → Option (PeerList K P A)
  | _, l, none => some l
  | 0, _, some _ => none
  | n + 1, l, some a =>
    if ¬ l.mem.alive a ∨ ¬ l.treeOk then none else
    if l.tfind (l.mem.val a).key = none then none else
    expire n { l with root := l.tdelete (l.mem.val a).key, left := l.left + 1 } (l.mem.next a)

/-- The critical section of the garbage collector. -/
def collect : Option (PeerList K P A) :=
  (expire (l.root.length + 1) l (l.mem.head .old)).bind fun l' =>
    (l'.mem.set (.head .old) (l.mem.head .recent)).bind fun m =>
      (m.set (.head .recent) none).bind fun m =>
        (m.setPprev? (m.head .old) (.head .old)).map fun m =>
          { l' with mem := m, garbage := l.mem.head .old :: l.garbage }

/-- The critical section of `teredo_list_reset`. -/
def reset (max : ℕ) : PeerList K P A :=
  { l with
    mem := { l.mem with head := fun _ => none }
    left := max
    root := []
    garbage := l.mem.head .old :: l.mem.head .recent :: l.garbage
    max := max }

/-- One turn of the loop of `listitem_recdestroy` in the `i`-th thread. -/
def recdestroy (m : Mem Generation A (Item K P)) :
    List (Option A) → ℕ → Option (Mem Generation A (Item K P) × List (Option A))
  | [], _ => some (m, [])
  | none :: g, 0 => some (m, g)
  | some a :: g, 0 =>
    if m.alive a then some ({ m with alive := Function.update m.alive a false }, m.next a :: g)
    else none
  | p :: g, i + 1 => (recdestroy m g i).map fun r => (r.1, p :: r.2)

end PeerList

/-! ## Steps -/

inductive PeerOp (K P A : Type*) where
  | lookup (addr : K) (create? oom : Bool) (block : Option (A × Item K P))
  /-- The holder of the lock changes the peer it looked up. -/
  | write (f : P → P)
  | release
  | gc
  | reset (max : ℕ)
  | free (i : ℕ)

variable (l : PeerList K P A)

/-- Operations that take the lock wait until it is free, only its holder writes or releases, and
`malloc` returns a block that is not in use. -/
def PeerOp.Enabled : PeerOp K P A → Prop
  | .lookup _ _ _ block => l.held = none ∧ ∀ a junk, block = some (a, junk) → l.mem.alive a = false
  | .write _ => l.held ≠ none
  | .release => l.held ≠ none
  | .gc => l.held = none
  | .reset _ => l.held = none
  | .free _ => True

def step : PeerOp K P A → Option (PeerList.Found A × PeerList K P A)
  | .lookup addr create? oom block => l.lookup init addr create? oom block
  | .write f =>
    match l.held with
    | none => none
    | some a =>
      if l.mem.alive a then
        some (.null, { l with mem := { l.mem with
          val := Function.update l.mem.val a ⟨(l.mem.val a).key, f (l.mem.val a).peer⟩ } })
      else none
  | .release => some (.null, { l with held := none })
  | .gc => l.collect.map fun l' => (.null, l')
  | .reset max => some (.null, l.reset max)
  | .free i =>
    (PeerList.recdestroy l.mem l.garbage i).map fun r =>
      (.null, { l with mem := r.1, garbage := r.2 })

structure PeerEvent (K P A : Type*) where
  op : PeerOp K P A
  result : PeerList.Found A

def PeerStep (e : PeerEvent K P A) (l' : PeerList K P A) : Prop :=
  e.op.Enabled l ∧ step init l e.op = some (e.result, l')

/-- A list that `teredo_list_create` has just made, in a memory with other blocks in use. -/
def PeerList.new (mem : Mem Generation A (Item K P)) (max : ℕ) : PeerList K P A :=
  ⟨{ mem with head := fun _ => none }, max, [], none, [], max⟩

end Model

end Maiccu.Teredo
