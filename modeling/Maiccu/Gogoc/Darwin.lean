import Maiccu.Gogoc.Session

/-!
# The system calls on Darwin

`TunMainLoop` (`platform/darwin/tsp_tun.c`) hands on packets between the tunnel and the socket, and
`execCmd` (`platform/darwin/tsp_setup.c`) runs a command with its output in a pipe. What the system
calls return comes from outside.
-/

namespace Maiccu.Gogoc.Darwin

open List

/-! ## The main loop -/

/-- A call of `read` or `recvfrom` and the call of `send` or `write` that follows: the packet and
the number of bytes taken, none for the value `-1`. -/
structure Transfer where
  got : Option (List UInt8)
  taken : Option ℕ

/-- The length that the second call is given: `count` as a `size_t`. -/
def count : Option (List UInt8) → ℕ
  | some packet => packet.length
  | none => 2 ^ 64 - 1

/-- What was handed on: the packet got, the length asked for and the bytes taken. -/
structure Forwarded where
  got : Option (List UInt8)
  asked : ℕ
  moved : List UInt8

/-- The memory from the start of the buffer on, and what is handed on. -/
def Transfer.forward (t : Transfer) (buf : ℕ → UInt8) : (ℕ → UInt8) × Forwarded :=
  let buf := fun i => (t.got.getD []).getD i (buf i)
  (buf, ⟨t.got, count t.got, (range (t.taken.getD 0)).map buf⟩)

def forwardAny (t : Option Transfer) (buf : ℕ → UInt8) : (ℕ → UInt8) × List Forwarded :=
  match t with
  | none => (buf, [])
  | some t => ((t.forward buf).1, [(t.forward buf).2])

/-- `ka_status_t`. -/
inductive KaStatus where
  | invalid
  | ongoing
  | finSuccess
  | finTimeout
  | finError

/-- Whether the client is to stop, the status of the keepalive engine, and what is done with the
readable descriptors. -/
structure Turn where
  stop : Bool
  kaStatus : KaStatus
  tun : Option Transfer
  socket : Option Transfer

def Turn.status (keepalive : Bool) (t : Turn) : Status :=
  if keepalive then
    match t.kaStatus with
    | .ongoing | .finSuccess => .success
    | .finTimeout => .keepaliveTimeout
    | .invalid | .finError => .keepaliveError
  else .success

def Turn.goesOn (keepalive : Bool) (t : Turn) : Bool := t.status keepalive = .success && !t.stop

/-- The loop with its two buffers. The status is none as long as it goes on. -/
def dataLoop (keepalive : Bool) : List Turn → (ℕ → UInt8) → (ℕ → UInt8) →
    List Forwarded × Option Status
  | [], _, _ => ([], none)
  | t :: ts, bufout, bufin =>
    if t.goesOn keepalive then
      let sent := forwardAny t.tun bufout
      let written := forwardAny t.socket bufin
      let rest := dataLoop keepalive ts sent.1 written.1
      (sent.2 ++ (written.2 ++ rest.1), rest.2)
    else ([], some (t.status keepalive))

/-- `kaStarts` tells whether `KA_init` and `KA_start` succeed. -/
def tunMainLoop (keepaliveInterval : ℤ) (kaStarts : Bool) (ts : List Turn)
    (bufout bufin : ℕ → UInt8) : List Forwarded × Option Status :=
  if keepaliveInterval ≠ 0 ∧ !kaStarts then ([], some .keepaliveError)
  else dataLoop (keepaliveInterval ≠ 0) ts bufout bufin

def turns (keepaliveInterval : ℤ) (kaStarts : Bool) (ts : List Turn) : List Turn :=
  if keepaliveInterval ≠ 0 ∧ !kaStarts then []
  else ts.takeWhile (·.goesOn (keepaliveInterval ≠ 0))

/-- The packet is asked to be handed on and is handed on, as it is; nothing if there was none. After
a `read` that fails more is asked for, which counts even if nothing is taken. -/
def Forwarded.Faithful (f : Forwarded) : Prop :=
  f.asked = (f.got.getD []).length ∧ f.moved = f.got.getD []

/-- The packet came, and all of it was taken. -/
def Transfer.Whole (t : Transfer) : Prop :=
  ∃ packet, t.got = some packet ∧ t.taken.getD 0 = packet.length

theorem faithful_forward_iff (t : Transfer) (buf : ℕ → UInt8) :
    (t.forward buf).2.Faithful ↔ t.Whole := by
  unfold Transfer.forward Forwarded.Faithful Transfer.Whole
  cases t.got with
  | none => simp [count]
  | some packet =>
    simp only [count, Option.getD_some, true_and, Option.some.injEq, exists_eq_left']
    constructor
    · intro hmoved
      simpa using congrArg length hmoved
    · intro htaken
      rw [htaken]
      refine ext_getElem (by simp) fun i hi hi' => ?_
      rw [getElem_map, getElem_range, getD_eq_getElem _ _ hi']

theorem faithful_forwardAny_iff (t : Option Transfer) (buf : ℕ → UInt8) :
    (∀ f ∈ (forwardAny t buf).2, f.Faithful) ↔ ∀ x ∈ t, x.Whole := by
  cases t with
  | none => simp [forwardAny]
  | some t => simp [forwardAny, faithful_forward_iff]

theorem faithful_dataLoop_iff {keepalive : Bool} {ts : List Turn} {bufout bufin : ℕ → UInt8} :
    (∀ f ∈ (dataLoop keepalive ts bufout bufin).1, f.Faithful) ↔
      ∀ t ∈ ts.takeWhile (·.goesOn keepalive),
        (∀ x ∈ t.tun, x.Whole) ∧ ∀ x ∈ t.socket, x.Whole := by
  induction ts generalizing bufout bufin with
  | nil => simp [dataLoop]
  | cons t ts ih =>
    rw [dataLoop]
    by_cases hon : t.goesOn keepalive = true
    · rw [if_pos hon, takeWhile_cons_of_pos hon, forall_mem_append, forall_mem_append,
        forall_mem_cons, faithful_forwardAny_iff, faithful_forwardAny_iff, ih, and_assoc]
    · rw [if_neg hon, takeWhile_cons_of_neg hon]
      simp

/-- **The main loop.** Every packet is handed on as it came and nothing else is, if and only if no
`read` and no `recvfrom` fails and every `send` and `write` takes the whole packet. -/
theorem packets_forwarded_iff (keepaliveInterval : ℤ) (kaStarts : Bool) (ts : List Turn)
    (bufout bufin : ℕ → UInt8) :
    (∀ f ∈ (tunMainLoop keepaliveInterval kaStarts ts bufout bufin).1, f.Faithful) ↔
      ∀ t ∈ turns keepaliveInterval kaStarts ts,
        (∀ x ∈ t.tun, x.Whole) ∧ ∀ x ∈ t.socket, x.Whole := by
  unfold tunMainLoop turns
  split_ifs
  · simp
  · exact faithful_dataLoop_iff

/-- After a packet a `read` fails. `send` is asked for all the memory, and sends the old packet
again. -/
theorem failed_read_sent :
    ((tunMainLoop 0 true [⟨false, .ongoing, some ⟨some [1, 2, 3], some 3⟩, none⟩,
      ⟨false, .ongoing, some ⟨none, some 4⟩, none⟩] (fun _ => 0) (fun _ => 0)).1.map
        fun f => (f.got, f.asked, f.moved)) =
      [(some [1, 2, 3], 3, [1, 2, 3]), (none, 2 ^ 64 - 1, [1, 2, 3, 0])] := by
  decide

/-! ## Commands -/

/-- The ends of the pipe, `in[0]` and `in[1]`. -/
inductive PipeEnd where
  | reading
  | writing
  deriving DecidableEq

/-- The results of `pipe`, `posix_spawn_file_actions_init` and `posix_spawnp`, the exit status of a
command that has exited, and whether `fdopen` opens the stream. -/
structure Outcome where
  pipe : ℤ
  init : ℤ
  spawnp : ℤ
  exitStatus : Option ℕ
  fdopen : Bool

variable (o : Outcome)

/-- The value returned, and the ends of the pipe in the order they are closed. -/
def execCmd : ℤ × List PipeEnd :=
  if o.pipe ≠ 0 then (o.pipe, [])
  else if o.init ≠ 0 then (o.init, [.writing, .reading])
  else if o.spawnp ≠ 0 then (o.spawnp, [.writing, .reading])
  -- `fclose` closes the descriptor under the stream.
  else if o.fdopen then (o.spawnp, [.writing, .reading, .reading])
  else (o.spawnp, [.writing, .reading])

def Outcome.Spawned : Prop := o.pipe = 0 ∧ o.init = 0 ∧ o.spawnp = 0

/-- The ends of a pipe that was made are closed once, and zero stands for a command that has exited
with the status zero. -/
def Outcome.Accounted : Prop :=
  (∀ e, (execCmd o).2.count e = if o.pipe = 0 then 1 else 0) ∧
    ((execCmd o).1 = 0 → o.Spawned ∧ o.exitStatus = some 0)

/-- **Commands.** The ends are closed once and zero means success, if and only if a command that is
spawned exits with the status zero and its output cannot be opened. -/
theorem execCmd_accounted_iff (o : Outcome) :
    o.Accounted ↔ (o.Spawned → o.exitStatus = some 0 ∧ o.fdopen = false) := by
  have hends (p : PipeEnd → Prop) : (∀ e, p e) ↔ p .reading ∧ p .writing :=
    ⟨fun h => ⟨h _, h _⟩, fun h e => by cases e <;> simp [h]⟩
  unfold Outcome.Accounted Outcome.Spawned execCmd
  rw [hends]
  by_cases hpipe : o.pipe = 0
  swap
  · simp [hpipe]
  by_cases hinit : o.init = 0
  swap
  · simp [hpipe, hinit]
  by_cases hspawnp : o.spawnp = 0
  swap
  · simp [hpipe, hinit, hspawnp]
  cases hstream : o.fdopen <;> simp [hpipe, hinit, hspawnp]

/-- A command that fails: the reading end is closed twice and the value is zero. -/
theorem failed_command_zero :
    execCmd ⟨0, 0, 0, some 1, true⟩ = (0, [.writing, .reading, .reading]) ∧
      ¬Outcome.Accounted ⟨0, 0, 0, some 1, true⟩ :=
  ⟨rfl, fun h => nomatch h.1 .reading⟩

end Maiccu.Gogoc.Darwin
