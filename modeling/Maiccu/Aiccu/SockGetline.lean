import Maiccu.Lib.Lines
import Maiccu.Lib.Word

/-!
# Reading lines from the TIC socket

`sock_getline` of `common.c` searches a line in the first `filled` bytes of `rbuf`, and calls `recv`
until one is found. The buffer outlives the call. An access outside the arrays is `Outcome.fault`.
`filled` is an `unsigned int`, so the `-1` of a failed `recv` is `2 ^ 32 - 1`: it passes the test `i
<= 0` and is added to the fill count.
-/

namespace Maiccu.Tic

open Maiccu.Lib

/-- `'\n'`. -/
def lf : UInt8 := 10

/-- `'\r'`. -/
def cr : UInt8 := 13

/-- What the connection has ready for one `recv`: a chunk of the stream (an empty one is the end
of the file) or an error. -/
inductive RecvEvent where
  | data (bs : List UInt8)
  | error
  deriving DecidableEq, Repr

/-- The receive buffer of a reader: `tic_buf` with `tic_filled`. The bytes of `rbuf` past `filled`
are what earlier calls left there. -/
structure RecvBuf where
  rbuf : List UInt8
  filled : ℕ
  deriving DecidableEq, Repr

/-- `tic_buf` and `tic_filled` as the program starts. -/
def ticBuf : RecvBuf := ⟨List.replicate 2048 0, 0⟩

theorem ticBuf_length : ticBuf.rbuf.length = 2048 := List.length_replicate

inductive Outcome where
  | line (ret : ℕ) (text : List UInt8)
  /-- The value `-1`. -/
  | fail
  /-- An access outside `rbuf` or `ubuf`. -/
  | fault
  deriving DecidableEq, Repr

/-! ## The search -/

inductive Seek where
  | found (i : ℕ)
  | missing
  | fault
  deriving DecidableEq, Repr

def Seek.next : Seek → Seek
  | .found i => .found (i + 1)
  | s => s

/-- The walk `for (i=0; (i < (*filled-1)) && (rbuf[i] != '\n'); i++)` with the test `rbuf[i] ==
'\n'` after it. The second argument is `*filled - i`, which is positive. -/
def seek : List UInt8 → ℕ → Seek
  | [], _ => .fault
  | b :: bs, n => if b = lf then .found 0 else if n ≤ 1 then .missing else (seek bs (n - 1)).next

variable (ubuflen : ℕ) (b : RecvBuf)

/-- A newline was found at `i`: the line is copied to `ubuf` and the rest moved to the front. -/
def copyLine (i : ℕ) : Outcome × RecvBuf :=
  -- for `i = 0` the index of `rbuf[i-1]` is `2 ^ 32 - 1`
  if i = 0 then (.fault, b) else
  let j := if b.rbuf.getD (i - 1) 0 = cr then i - 1 else i
  if ubuflen < j then (.fault, b) else
  let n := (if b.rbuf.getD j 0 = cr then j + 1 else j) + 1
  let left := usub b.filled n
  if b.rbuf.length < n + left then (.fault, b) else
  (.line n (b.rbuf.take j), ⟨(b.rbuf.drop n).take left ++ b.rbuf.drop left, left⟩)

/-- The first half of the loop: what is still in the buffer. -/
def scan : Option (Outcome × RecvBuf) :=
  if 0 < b.filled then
    match seek b.rbuf b.filled with
    | .found i => some (copyLine ubuflen b i)
    | .missing => none
    | .fault => some (.fault, b)
  else none

/-! ## Receiving -/

def overfull : Prop :=
  usub b.rbuf.length 10 ≤ b.filled ∨ usub ubuflen 10 ≤ b.filled

instance (ubuflen : ℕ) (b : RecvBuf) : Decidable (overfull ubuflen b) :=
  inferInstanceAs (Decidable (_ ∨ _))

/-- `recv` stores `got` at `rbuf[*filled]`. -/
def RecvBuf.store (got : List UInt8) : RecvBuf :=
  ⟨b.rbuf.take b.filled ++ got ++ b.rbuf.drop (b.filled + got.length), uadd b.filled got.length⟩

inductive Fill where
  | stop (o : Outcome) (b : RecvBuf) (unread : List RecvEvent)
  | again (b : RecvBuf)

/-- What the socket keeps of a chunk of which `room` bytes were read. -/
def unread (room : ℕ) (bs : List UInt8) : List RecvEvent :=
  if bs.drop room = [] then [] else [.data (bs.drop room)]

theorem unread_nil (room : ℕ) : unread room [] = [] := by
  unfold unread
  rw [List.drop_nil, if_pos rfl]

/-- `recv` into the rest of the buffer. A chunk longer than the room is cut; the fill count is then
`rbuflen - 10`, so the loop ends there (`fill_data_full`). -/
def fill : RecvEvent → Fill
  | .error =>
    let b' : RecvBuf := ⟨b.rbuf, uadd b.filled (word - 1)⟩
    if overfull ubuflen b' then .stop .fail b' [] else .again b'
  | .data bs =>
    let room := usub (usub b.rbuf.length b.filled) 10
    let got := bs.take room
    if got = [] then .stop .fail b (unread room bs) else
    if b.rbuf.length < b.filled + got.length then .stop .fault b (unread room bs) else
    if overfull ubuflen (b.store got) then .stop .fail (b.store got) (unread room bs)
    else .again (b.store got)

/-- The loop of `sock_getline`. A connection with no event left is at the end of the file. -/
def getlineLoop (ubuflen : ℕ) : List RecvEvent → RecvBuf → Outcome × RecvBuf × List RecvEvent
  | [], b =>
    match scan ubuflen b with
    | some (o, b') => (o, b', [])
    | none => (.fail, b, [])
  | ev :: evs, b =>
    match scan ubuflen b with
    | some (o, b') => (o, b', ev :: evs)
    | none =>
      match fill ubuflen b ev with
      | .stop o b' rest => (o, b', rest ++ evs)
      | .again b' => getlineLoop ubuflen evs b'

/-- A `TLSSOCKET`: its descriptor is `-1` or connected. -/
inductive TlsSocket where
  | closed
  | conn (evs : List RecvEvent)
  deriving DecidableEq, Repr

def sockGetline (sock : Option TlsSocket) (b : RecvBuf) :
    Outcome × RecvBuf × Option TlsSocket :=
  match sock with
  | none => (.fail, b, none)
  | some .closed => (.fail, ⟨List.replicate b.rbuf.length 0, 0⟩, some .closed)
  | some (.conn evs) =>
    let r := getlineLoop ubuflen evs b
    (r.1, r.2.1, some (.conn r.2.2))

end Maiccu.Tic
