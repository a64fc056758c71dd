import Maiccu.Aiccu.CheckTime
import Maiccu.Lib.CBuffer

/-!
# One exchange of payloads

`tspSendRecv` of `tsp_net.c` sends a request and receives the reply to the buffer of the caller. The
reply has a line with its length in front, and what the first call of the transport did not bring is
read behind it. The memory behind the buffer is part of the model, for the functions of C on texts
look for a zero.
-/

namespace Maiccu.Gogoc

open Maiccu.Lib List
open Maiccu.Tic (isSpace isDigit decimal strtol)

/-! ## The transport and the memory -/

/-- `netsendrecv` brings the bytes `answer`, or returns `error` if there are none, and the calls of
`netrecv` bring the bytes of `later`. A call that brings none has failed. -/
structure Exchange where
  error : ℤ
  error_nonpos : error ≤ 0
  answer : List UInt8
  later : List (List UInt8)

/-- The receive buffer of the caller, and what stands behind it in memory up to a zero. -/
structure RecvBuffer where
  cap : ℕ
  behind : List UInt8

variable (x : Exchange) (buf : RecvBuffer)

def Exchange.chunk : List UInt8 := x.answer.take buf.cap

def Exchange.mem : List UInt8 :=
  x.chunk buf ++ (replicate (buf.cap - (x.chunk buf).length) 0 ++ buf.behind)

def store (mem : List UInt8) (p : ℕ) (bs : List UInt8) : List UInt8 :=
  mem.take p ++ bs ++ mem.drop (p + bs.length)

/-- Whether the receive loop read all that was left, the memory, the addresses and lengths of its
stores, and the bytes that it read. -/
structure Receiving where
  complete : Bool
  mem : List UInt8
  stores : List (ℕ × ℕ)
  bytes : List UInt8

/-- The receive loop; `p` is the address of `ptr_c + size`. -/
def recvLeft (mem : List UInt8) (p left : ℕ) : List (List UInt8) → Receiving
  | [] => ⟨left = 0, mem, [], []⟩
  | c :: cs =>
    if left = 0 then ⟨true, mem, [], []⟩
    else if c = [] then ⟨false, mem, [], []⟩
    else
      let r := recvLeft (store mem p (c.take left)) (p + (c.take left).length)
        (left - (c.take left).length) cs
      { r with
        stores := (p, (c.take left).length) :: r.stores
        bytes := c.take left ++ r.bytes }

/-! ## `tspSendRecv` -/

/-- A negative number as a `size_t`. -/
def toSize (n : ℤ) : ℕ := (n % 2 ^ 64).toNat

/-- The bytes sent, the value returned, `plout`, all bytes received, and the stores to the receive
buffer. -/
structure Outcome where
  sent : List UInt8
  ret : ℤ
  size : ℕ
  payload : List UInt8
  received : List UInt8
  stores : List (ℕ × ℕ)

def afterLine (mem : List UInt8) : ℕ := (mem.takeWhile (· ≠ 10)).length + 1

def Exchange.number : ℕ := toSize (strtol ((x.mem buf).drop 15))

def Exchange.text : List UInt8 :=
  cString ((x.mem buf).drop (afterLine (x.mem buf)))

def contentLength : List UInt8 := ascii "Content-length:"

theorem length_contentLength : contentLength.length = 15 := by decide

def tspSendRecv (plin : List UInt8) (buf : RecvBuffer) (x : Exchange) : Outcome :=
  let sent := snprintf 4096 (ascii "Content-length: " ++ showInt plin.length ++ [13, 10]) ++ plin
  let chunk := x.chunk buf
  let mem := x.mem buf
  let stores := [(0, chunk.length)]
  if chunk = [] then ⟨sent, x.error, buf.cap, mem, chunk, stores⟩
  else if mem.take 15 ≠ contentLength then ⟨sent, -1, buf.cap, mem, chunk, stores⟩
  else if 10 ∉ cString mem then ⟨sent, -1, buf.cap, mem, chunk, stores⟩
  else
    let c := afterLine mem
    let size := (x.text buf).length
    let n := x.number buf
    if n = 0 ∨ n < size then ⟨sent, -1, n, mem, chunk, stores⟩
    else
      let r := recvLeft mem (c + size) (n - size) x.later
      -- `PROTOCOL_ERROR` is one
      if r.complete = false then ⟨sent, 1, n, r.mem, chunk ++ r.bytes, stores ++ r.stores⟩
      else
        ⟨sent, chunk.length, n, (r.mem.drop c).take n ++ [0], chunk ++ r.bytes, stores ++ r.stores⟩

/-! ## The receive loop -/

/-- The bytes that come until nothing is left to read or a call fails. -/
def arrived (left : ℕ) : List (List UInt8) → List UInt8
  | [] => []
  | c :: cs =>
    if left = 0 ∨ c = [] then [] else c.take left ++ arrived (left - (c.take left).length) cs

variable {mem bs : List UInt8} {p : ℕ}

theorem length_store (hp : p ≤ mem.length) : p + bs.length ≤ (store mem p bs).length := by
  simp only [store, length_append, length_take, length_drop]
  omega

theorem length_take_append (hp : p ≤ mem.length) : (mem.take p ++ bs).length = p + bs.length := by
  rw [length_append, length_take_of_le hp]

theorem take_store (bs : List UInt8) (hp : p ≤ mem.length) :
    (store mem p bs).take (p + bs.length) = mem.take p ++ bs := by
  rw [store, ← length_take_append hp, take_left]

theorem drop_store (bs : List UInt8) (hp : p ≤ mem.length) :
    (store mem p bs).drop (p + bs.length) = mem.drop (p + bs.length) := by
  unfold store
  nth_rewrite 1 [← length_take_append hp]
  rw [drop_left]

theorem store_store (as bs : List UInt8) (hp : p ≤ mem.length) :
    store (store mem p as) (p + as.length) bs = store mem p (as ++ bs) := by
  have hdrop : (store mem p as).drop (p + as.length + bs.length) =
      mem.drop (p + as.length + bs.length) := by
    rw [← drop_drop, drop_store as hp, drop_drop]
  rw [store, take_store as hp, hdrop, store, length_append, ← Nat.add_assoc,
    append_assoc (mem.take p)]

theorem store_nil : store mem p [] = mem := by
  rw [store, append_nil, length_nil, Nat.add_zero, take_append_drop]

theorem arrived_length_le (left : ℕ) (cs : List (List UInt8)) :
    (arrived left cs).length ≤ left := by
  induction cs generalizing left with
  | nil => exact Nat.zero_le _
  | cons c cs ih =>
    unfold arrived
    split_ifs
    · exact Nat.zero_le _
    · have hrest := ih (left - (c.take left).length)
      have hc := length_take_le left c
      rw [length_append]
      omega

theorem recvLeft_eq (hp : p ≤ mem.length) (left : ℕ) (cs : List (List UInt8)) :
    (recvLeft mem p left cs).complete = decide ((arrived left cs).length = left) ∧
    (recvLeft mem p left cs).mem = store mem p (arrived left cs) ∧
    (recvLeft mem p left cs).bytes = arrived left cs ∧
    ∀ cap, (∀ st ∈ (recvLeft mem p left cs).stores, st.1 + st.2 ≤ cap) ↔
      (arrived left cs = [] ∨ p + (arrived left cs).length ≤ cap) := by
  have hnone (cap : ℕ) : (∀ st ∈ ([] : List (ℕ × ℕ)), st.1 + st.2 ≤ cap) ↔
      (([] : List UInt8) = [] ∨ p + 0 ≤ cap) := iff_of_true nofun (.inl rfl)
  induction cs generalizing mem p left with
  | nil =>
    refine ⟨?_, store_nil.symm, rfl, hnone⟩
    exact decide_eq_decide.mpr eq_comm
  | cons c cs ih =>
    by_cases hleft : left = 0
    · unfold recvLeft arrived
      rw [if_pos hleft, if_pos (.inl hleft), hleft]
      exact ⟨rfl, store_nil.symm, rfl, hnone⟩
    by_cases hc : c = []
    · unfold recvLeft arrived
      rw [if_neg hleft, if_pos hc, if_pos (.inr hc)]
      exact ⟨(decide_eq_false fun h => hleft h.symm).symm, store_nil.symm, rfl, hnone⟩
    · obtain ⟨hcomplete, hmem, hbytes, hstores⟩ := ih (length_store hp)
        (left - (c.take left).length) fun _ => iff_of_true nofun (.inl rfl)
      have hread : c.take left ≠ [] := fun h => (take_eq_nil_iff.mp h).elim hleft hc
      have hlength := length_take_le left c
      unfold recvLeft arrived
      rw [if_neg hleft, if_neg hc, if_neg (not_or.mpr ⟨hleft, hc⟩)]
      refine ⟨?_, hmem.trans (store_store _ _ hp), congrArg _ hbytes, fun cap => ?_⟩
      · refine hcomplete.trans (decide_eq_decide.mpr ?_)
        rw [length_append]
        omega
      · rw [forall_mem_cons, hstores, length_append]
        constructor
        · rintro ⟨hfirst, hnil | hrest⟩
          · exact .inr (by rw [hnil]; exact hfirst)
          · exact .inr (by omega)
        · rintro (hnil | hall)
          · exact absurd (append_eq_nil_iff.mp hnil).1 hread
          · exact ⟨by omega, .inr (by omega)⟩

variable {s : List UInt8}

/-! ## The line with the length -/

theorem decimal_append {t : List UInt8} : decimal (s ++ 10 :: t) = decimal s := by
  unfold decimal
  rw [takeWhile_append_cons (by decide)]

theorem strtol_append (hs : strtol s ≠ 0) (t : List UInt8) : strtol (s ++ 10 :: t) = strtol s := by
  cases hdigits : s.dropWhile isSpace with
  | nil =>
    unfold strtol at hs
    rw [hdigits] at hs
    exact absurd rfl hs
  | cons d ds =>
    have hdrop : (s ++ 10 :: t).dropWhile isSpace = d :: (ds ++ 10 :: t) := by
      rw [dropWhile_append, hdigits]
      rfl
    unfold strtol
    rw [hdrop, hdigits]
    by_cases hminus : d = 45
    · rw [hminus]
      exact congrArg (fun k : ℕ => max (-9223372036854775808) (-(k : ℤ))) decimal_append
    by_cases hplus : d = 43
    · rw [hplus]
      exact congrArg (fun k : ℕ => min 9223372036854775807 (k : ℤ)) decimal_append
    · split
      · exact absurd (cons.inj ‹_›).1 hminus
      · exact absurd (cons.inj ‹_›).1 hplus
      · split
        · exact absurd (cons.inj ‹_›).1 hminus
        · exact absurd (cons.inj ‹_›).1 hplus
        · rw [← cons_append, decimal_append]

/-! ## What is returned -/

/-- A reply has come and it passes the tests before the receive loop. -/
structure Exchange.Accepted (x : Exchange) (buf : RecvBuffer) : Prop where
  got : x.chunk buf ≠ []
  header : (x.mem buf).take 15 = contentLength
  feed : 10 ∈ cString (x.mem buf)
  number : x.number buf ≠ 0
  size : (x.text buf).length ≤ x.number buf

/-- The bytes of the payload that the later calls bring. -/
def Exchange.more (x : Exchange) (buf : RecvBuffer) : List UInt8 :=
  arrived (x.number buf - (x.text buf).length) x.later

section Returns

variable {buf} {x}

theorem length_chunk_le : (x.chunk buf).length ≤ buf.cap :=
  length_take_le _ _

theorem tspSendRecv_of_not_accepted {plin : List UInt8} (h : ¬x.Accepted buf) :
    (tspSendRecv plin buf x).ret ≤ 0 ∧
      (tspSendRecv plin buf x).stores = [(0, (x.chunk buf).length)] := by
  have hminus : (-1 : ℤ) ≤ 0 := by decide
  unfold tspSendRecv
  by_cases hnil : x.chunk buf = []
  · rw [if_pos hnil]
    exact ⟨x.error_nonpos, rfl⟩
  by_cases hline : (x.mem buf).take 15 ≠ contentLength
  · rw [if_neg hnil, if_pos hline]
    exact ⟨hminus, rfl⟩
  by_cases hfeed : 10 ∉ cString (x.mem buf)
  · rw [if_neg hnil, if_neg hline, if_pos hfeed]
    exact ⟨hminus, rfl⟩
  by_cases hnumber : x.number buf = 0 ∨ x.number buf < (x.text buf).length
  · rw [if_neg hnil, if_neg hline, if_neg hfeed, if_pos hnumber]
    exact ⟨hminus, rfl⟩
  · obtain ⟨hzero, hsize⟩ := not_or.mp hnumber
    exact absurd ⟨hnil, not_not.mp hline, not_not.mp hfeed, hzero, not_lt.mp hsize⟩ h

/-- What comes of a reply that passes the tests. -/
structure Exchange.Returns (x : Exchange) (buf : RecvBuffer) (o : Outcome) : Prop where
  received : o.received = x.chunk buf ++ x.more buf
  size : o.size = x.number buf
  ret : 0 < o.ret
  stores : (∀ st ∈ o.stores, st.1 + st.2 ≤ buf.cap) ↔ x.more buf = [] ∨
    afterLine (x.mem buf) + (x.text buf).length + (x.more buf).length ≤ buf.cap
  complete : (x.text buf).length + (x.more buf).length = x.number buf →
    o.payload.take o.size = x.text buf ++ x.more buf
  broken : (x.text buf).length + (x.more buf).length ≠ x.number buf →
    o.payload = store (x.mem buf) (afterLine (x.mem buf) + (x.text buf).length) (x.more buf)

variable {line rest : List UInt8}

theorem afterLine_eq (hline : 10 ∉ line) : afterLine (line ++ 10 :: rest) = line.length + 1 := by
  rw [afterLine, takeWhile_append_cons (by decide), takeWhile_ne_of_notMem hline]

theorem afterLine_le (hfeed : 10 ∈ mem) : afterLine mem ≤ mem.length := by
  obtain ⟨line, rest, rfl, hline⟩ := eq_append_cons_of_mem hfeed
  rw [afterLine_eq hline, length_append, length_cons]
  omega

theorem text_isPrefix (x : Exchange) (buf : RecvBuffer) :
    x.text buf <+: (x.mem buf).drop (afterLine (x.mem buf)) :=
  takeWhile_prefix _

theorem drop_take_store {text : List UInt8} {c : ℕ} (htext : text <+: mem.drop c)
    (hc : c ≤ mem.length) (more : List UInt8) :
    ((store mem (c + text.length) more).drop c).take (text.length + more.length) =
      text ++ more := by
  have htake : mem.take (c + text.length) = mem.take c ++ text := by
    rw [take_add, ← prefix_iff_eq_take.mp htext]
  have hlength : (mem.take c).length = c := length_take_of_le hc
  have hdrop : (store mem (c + text.length) more).drop c =
      text ++ more ++ mem.drop (c + text.length + more.length) := by
    unfold store
    rw [htake, append_assoc, append_assoc]
    nth_rewrite 1 [← hlength]
    rw [drop_left, append_assoc]
  rw [hdrop, ← length_append, take_left]

theorem tspSendRecv_of_accepted (plin : List UInt8) (h : x.Accepted buf) :
    x.Returns buf (tspSendRecv plin buf x) := by
  have hfeed : 10 ∈ x.mem buf := (List.takeWhile_prefix _).subset h.feed
  have hc := afterLine_le hfeed
  have hend : afterLine (x.mem buf) + (x.text buf).length ≤ (x.mem buf).length := by
    have hle := (text_isPrefix x buf).length_le
    rw [length_drop] at hle
    omega
  have hleft := h.size
  obtain ⟨hcomplete, hmem, hbytes, hstores⟩ :=
    recvLeft_eq hend (x.number buf - (x.text buf).length) x.later
  have hall : ∀ sts : List (ℕ × ℕ),
      ((∀ st ∈ [(0, (x.chunk buf).length)] ++ sts, st.1 + st.2 ≤ buf.cap) ↔
        ∀ st ∈ sts, st.1 + st.2 ≤ buf.cap) := by
    intro sts
    rw [singleton_append, forall_mem_cons, Nat.zero_add]
    exact and_iff_right length_chunk_le
  unfold tspSendRecv
  rw [if_neg h.got, if_neg (not_not.mpr h.header), if_neg (not_not.mpr h.feed),
    if_neg (not_or.mpr ⟨h.number, not_lt.mpr h.size⟩)]
  have hbroken : (recvLeft (x.mem buf) (afterLine (x.mem buf) + (x.text buf).length)
      (x.number buf - (x.text buf).length) x.later).complete = false ↔
        (x.text buf).length + (x.more buf).length ≠ x.number buf := by
    rw [hcomplete, decide_eq_false_iff_not, Exchange.more]
    omega
  by_cases hmore : (x.text buf).length + (x.more buf).length = x.number buf
  · rw [if_neg fun h => hbroken.mp h hmore]
    refine ⟨congrArg _ hbytes, rfl, ?_, (hall _).trans (hstores _), fun _ => ?_, absurd hmore⟩
    · exact Int.natCast_pos.mpr (length_pos_iff.mpr h.got)
    · have htake := drop_take_store (text_isPrefix x buf) hc (x.more buf)
      rw [hmore] at htake
      have hlength : (x.text buf ++ x.more buf).length = x.number buf := by
        rw [length_append, hmore]
      rw [hmem]
      change (take _ (drop _ (store _ _ (x.more buf))) ++ _).take _ = _
      rw [htake, ← hlength, take_left]
  · rw [if_pos (hbroken.mpr hmore)]
    exact ⟨congrArg _ hbytes, rfl, Int.one_pos, (hall _).trans (hstores _), fun h' =>
      absurd h' hmore, fun _ => hmem⟩

end Returns

/-! ## When the payload is the announced one -/

/-- The payload in `plout` has the length that the line with the length announces, and it is what
follows that line. -/
def Outcome.Carries (o : Outcome) : Prop :=
  ∃ number rest, o.received = contentLength ++ number ++ 10 :: rest ∧ 10 ∉ number ∧
    strtol number = o.size ∧ o.size ≤ rest.length ∧ o.payload.take o.size = rest.take o.size

/-- A positive value is returned only with that payload, and every store is inside the buffer. -/
def Outcome.Exact (o : Outcome) (buf : RecvBuffer) : Prop :=
  (0 < o.ret → o.Carries) ∧ ∀ st ∈ o.stores, st.1 + st.2 ≤ buf.cap

/-- The first call brings the whole line with the length and `rest` behind it, and the later calls
bring `more`. -/
structure Exchange.Framed (x : Exchange) (buf : RecvBuffer) (number rest more : List UInt8) :
    Prop where
  line : x.chunk buf = contentLength ++ number ++ 10 :: rest
  feed : 10 ∉ number
  positive : 0 < strtol number
  /-- There is a zero behind the text, in the buffer or right behind it. -/
  ended : 0 ∈ rest ∨ (x.chunk buf).length < buf.cap ∨ cString buf.behind = []
  more_eq : more = arrived ((strtol number).toNat - (cString rest).length) x.later
  /-- No call fails. -/
  arrives : (cString rest).length + more.length = (strtol number).toNat
  fits : more = [] ∨ contentLength.length + number.length + 1 + (strtol number).toNat ≤ buf.cap
  /-- The bytes that `more` is written over, from a zero in the first call on, begin as it does. -/
  kept : more <+: rest.dropWhile (· ≠ 0) ++ more

theorem strtol_le : strtol s ≤ 9223372036854775807 := by
  unfold strtol
  split
  · omega
  · exact min_le_left _ _
  · exact min_le_left _ _

theorem toSize_of_pos {n : ℤ} (hpos : 0 < n) (hle : n ≤ 9223372036854775807) :
    toSize n = n.toNat := by
  rw [toSize, Int.emod_eq_of_lt hpos.le (by omega)]

section Frame

variable {buf} {x} {line rest : List UInt8}

/-- What is in the buffer behind the first chunk, and then in memory. -/
def Exchange.pad (x : Exchange) (buf : RecvBuffer) : List UInt8 :=
  replicate (buf.cap - (x.chunk buf).length) 0 ++ buf.behind

theorem mem_of_line (hchunk : x.chunk buf = line ++ 10 :: rest) :
    x.mem buf = line ++ 10 :: (rest ++ x.pad buf) := by
  unfold Exchange.mem
  nth_rewrite 1 [hchunk]
  rw [append_assoc, cons_append]
  rfl

theorem text_of_line (hchunk : x.chunk buf = line ++ 10 :: rest) (hline : 10 ∉ line) :
    x.text buf = cString (rest ++ x.pad buf) := by
  unfold Exchange.text
  rw [mem_of_line hchunk, afterLine_eq hline, ← drop_drop, drop_left]
  rfl

theorem ended_iff : (0 ∈ rest ∨ (x.chunk buf).length < buf.cap ∨ cString buf.behind = []) ↔
    (cString (rest ++ x.pad buf)).length ≤ rest.length := by
  by_cases hzero : 0 ∈ rest
  · rw [cString_append_of_mem hzero]
    exact iff_of_true (.inl hzero) (List.takeWhile_prefix _).length_le
  rw [cString_append_of_notMem hzero, length_append, or_iff_right hzero]
  unfold Exchange.pad
  by_cases hfull : (x.chunk buf).length < buf.cap
  · obtain ⟨k, hk⟩ := Nat.exists_eq_succ_of_ne_zero (Nat.sub_ne_zero_of_lt hfull)
    rw [hk]
    exact iff_of_true (.inl hfull) (Nat.le_refl _)
  · rw [Nat.sub_eq_zero_of_le (not_lt.mp hfull), or_iff_right hfull, replicate_zero,
      nil_append, ← length_eq_zero_iff]
    omega

theorem cString_pad (hle : (cString (rest ++ x.pad buf)).length ≤ rest.length) :
    cString (rest ++ x.pad buf) = cString rest := by
  by_cases hzero : 0 ∈ rest
  · exact cString_append_of_mem hzero _
  rw [cString_append_of_notMem hzero, length_append] at hle
  have hnil : cString (x.pad buf) = [] := eq_nil_of_length_eq_zero (by omega)
  rw [cString_append_of_notMem hzero, cString_of_notMem hzero, hnil, append_nil]

variable {number more plin : List UInt8}

theorem number_of_line (hchunk : x.chunk buf = contentLength ++ number ++ 10 :: rest)
    (hpos : 0 < strtol number) :
    x.number buf = (strtol number).toNat := by
  have hdrop : (x.mem buf).drop 15 = number ++ 10 :: (rest ++ x.pad buf) := by
    rw [mem_of_line hchunk, append_assoc, ← length_contentLength, drop_left]
  unfold Exchange.number
  rw [hdrop, strtol_append hpos.ne', toSize_of_pos hpos strtol_le]

theorem framed_returns (h : x.Framed buf number rest more) :
    afterLine (x.mem buf) = contentLength.length + number.length + 1 ∧
    x.text buf = cString rest ∧ x.number buf = (strtol number).toNat ∧ x.more buf = more := by
  have hline : 10 ∉ contentLength ++ number := fun hmem =>
    (mem_append.mp hmem).elim (by decide) h.feed
  have htext : x.text buf = cString rest := by
    rw [text_of_line h.line hline, cString_pad (ended_iff.mp h.ended)]
  have hnumber := number_of_line h.line h.positive
  refine ⟨?_, htext, hnumber, ?_⟩
  · rw [mem_of_line h.line, afterLine_eq hline, length_append]
  · rw [Exchange.more, htext, hnumber, h.more_eq]

theorem take_cut :
    (rest ++ more).take ((cString rest).length + more.length) = cString rest ++ more ↔
      more <+: rest.dropWhile (· ≠ 0) ++ more := by
  have hsplit : rest ++ more = cString rest ++ (rest.dropWhile (· ≠ 0) ++ more) := by
    rw [← append_assoc]
    exact congrArg (· ++ more) (takeWhile_append_dropWhile).symm
  rw [hsplit, take_length_add_append, append_cancel_left_eq, prefix_iff_eq_take]
  exact eq_comm

theorem exact_of_framed (haccepted : x.Accepted buf) (h : x.Framed buf number rest more) :
    (tspSendRecv plin buf x).Exact buf := by
  obtain ⟨hafter, htext, hnumber, hmore⟩ := framed_returns h
  have hreturns := tspSendRecv_of_accepted plin haccepted
  have hsize : (cString rest).length + more.length = (tspSendRecv plin buf x).size := by
    rw [hreturns.size, hnumber, h.arrives]
  refine ⟨fun _ => ⟨number, rest ++ more, ?_, h.feed, ?_, ?_, ?_⟩, hreturns.stores.mpr ?_⟩
  · rw [hreturns.received, h.line, hmore, append_assoc _ (10 :: rest), cons_append]
  · rw [hreturns.size, hnumber, Int.toNat_of_nonneg h.positive.le]
  · have hcut : (cString rest).length ≤ rest.length := (List.takeWhile_prefix _).length_le
    rw [← hsize, length_append]
    omega
  · rw [hreturns.complete (by rw [htext, hmore, hnumber, h.arrives]), htext, hmore, ← hsize,
      take_cut.mpr h.kept]
  · rw [hafter, htext, hmore, Nat.add_assoc, h.arrives]
    exact h.fits

theorem feed_mem_chunk {chunk line' rest' : List UInt8}
    (hreceived : chunk ++ more = line' ++ 10 :: rest') (hle : more.length ≤ rest'.length) :
    10 ∈ chunk := by
  obtain ⟨a, -, hmore⟩ | ⟨c, hchunk, hrest⟩ := append_eq_append_iff.mp hreceived
  · rw [hmore, length_append, length_cons] at hle
    omega
  · cases c with
    | nil =>
      rw [nil_append] at hrest
      rw [← hrest, length_cons] at hle
      omega
    | cons d c =>
      rw [hchunk, (cons.inj hrest).1]
      exact mem_append_right _ mem_cons_self

theorem zero_notMem_take (hfeed : 10 ∈ cString (x.mem buf)) (hline : 10 ∉ line)
    (hchunk : x.chunk buf = line ++ 10 :: rest) {k : ℕ}
    (hk : k ≤ line.length + 1 + (x.text buf).length) : 0 ∉ (x.mem buf).take k := by
  have hmem := mem_of_line hchunk
  have hclean : 0 ∉ line := by
    intro hzero
    rw [hmem, cString_append_of_mem hzero] at hfeed
    exact hline ((List.takeWhile_prefix _).subset hfeed)
  have htext : x.text buf <+: rest ++ x.pad buf := by
    rw [text_of_line hchunk hline]
    exact takeWhile_prefix _
  have hbegin : line ++ 10 :: x.text buf <+: x.mem buf := by
    rw [hmem, prefix_append_right_inj, prefix_cons_inj]
    exact htext
  intro hzero
  have htake : (x.mem buf).take k <+: line ++ 10 :: x.text buf := by
    refine prefix_of_prefix_length_le (List.take_prefix _ _) hbegin ?_
    have hle := length_take_le k (x.mem buf)
    rw [length_append, length_cons]
    omega
  rcases mem_append.mp (htake.subset hzero) with hmem | hmem
  · exact hclean hmem
  · rcases mem_cons.mp hmem with heq | hmem
    · exact nomatch heq
    · exact zero_notMem_cString _ hmem

theorem zero_mem_take (hs : 0 ∈ s) : 0 ∈ s.take ((cString s).length + 1) := by
  obtain ⟨a, b, rfl, ha⟩ := eq_append_cons_of_mem hs
  have hcut : cString (a ++ 0 :: b) = a := (cString_append_of_notMem ha _).trans (append_nil a)
  rw [hcut, take_length_add_append]
  exact mem_append_right _ mem_cons_self

/-- After a failed read the payload is the whole buffer: at the place where the text ends there
would be a zero. -/
theorem not_carried_of_broken (hfeed : 10 ∈ cString (x.mem buf)) (hline : 10 ∉ line)
    (hchunk : x.chunk buf = line ++ 10 :: rest) {n : ℕ}
    (hbroken : (x.text buf).length + (x.more buf).length < n)
    (hle : n ≤ (rest ++ x.more buf).length) :
    (store (x.mem buf) (line.length + 1 + (x.text buf).length) (x.more buf)).take n ≠
      (rest ++ x.more buf).take n := by
  intro hpayload
  rw [length_append] at hle
  have htext := text_of_line hchunk hline
  have hshort : (x.text buf).length < rest.length := by omega
  have hzero : 0 ∈ rest := by
    by_contra hzero
    rw [htext, cString_append_of_notMem hzero, length_append] at hshort
    omega
  have hcut : x.text buf = cString rest := htext.trans (cString_append_of_mem hzero _)
  have hmem : line.length + 1 + (x.text buf).length ≤ (x.mem buf).length := by
    rw [mem_of_line hchunk, length_append, length_cons, length_append]
    omega
  have hfirst := congrArg (take ((x.text buf).length + 1)) hpayload
  rw [take_take, take_take, Nat.min_eq_left (by omega), take_append_of_le_length hshort, store,
    append_assoc, take_append_of_le_length (by rw [length_take]; omega), take_take,
    Nat.min_eq_left (by omega)] at hfirst
  refine zero_notMem_take hfeed hline hchunk (k := (x.text buf).length + 1) (by omega) ?_
  rw [hfirst, hcut]
  exact zero_mem_take hzero

theorem framed_of_exact (haccepted : x.Accepted buf) (h : (tspSendRecv plin buf x).Exact buf) :
    ∃ number rest more, x.Framed buf number rest more := by
  have hreturns := tspSendRecv_of_accepted plin haccepted
  obtain ⟨hcarries, hstores⟩ := h
  obtain ⟨number, rest', hreceived, hfeed, hstrtol, hle, hpayload⟩ := hcarries hreturns.ret
  have hmore := arrived_length_le (x.number buf - (x.text buf).length) x.later
  change (x.more buf).length ≤ _ at hmore
  rw [hreturns.received] at hreceived
  rw [hreturns.size] at hstrtol hle hpayload
  have hline : 10 ∉ contentLength ++ number := fun hmem =>
    (mem_append.mp hmem).elim (by decide) hfeed
  obtain ⟨line, rest, hchunk, hline'⟩ :=
    eq_append_cons_of_mem (feed_mem_chunk hreceived (by omega))
  rw [hchunk, append_assoc, cons_append] at hreceived
  obtain rfl := eq_of_append_cons hline' hline hreceived
  obtain rfl : rest ++ x.more buf = rest' := (cons.inj (append_cancel_left hreceived)).2
  have htext := text_of_line hchunk hline
  have hcomplete : (x.text buf).length + (x.more buf).length = x.number buf := by
    by_contra hbroken
    rw [hreturns.broken hbroken, mem_of_line hchunk, afterLine_eq hline, ← mem_of_line hchunk]
      at hpayload
    have hsize := haccepted.size
    exact not_carried_of_broken haccepted.feed hline hchunk (by omega) hle hpayload
  have hended : (x.text buf).length ≤ rest.length := by
    rw [length_append] at hle
    omega
  rw [htext] at hended
  have hcut := htext.trans (cString_pad hended)
  have hnumber : (strtol number).toNat = x.number buf := by
    rw [hstrtol]
    exact Int.toNat_natCast _
  refine ⟨number, rest, x.more buf, hchunk, hfeed, ?_, ended_iff.mpr hended, ?_, ?_, ?_, ?_⟩
  · rw [hstrtol]
    exact Int.natCast_pos.mpr (Nat.pos_of_ne_zero haccepted.number)
  · rw [hnumber, ← hcut]
    rfl
  · rw [hnumber, ← hcut, hcomplete]
  · have hfits := hreturns.stores.mp hstores
    rw [mem_of_line hchunk, afterLine_eq hline, length_append, Nat.add_assoc, hcomplete]
      at hfits
    rw [hnumber]
    exact hfits
  · have hwhole := hreturns.complete hcomplete
    rw [hreturns.size, hpayload, ← hcomplete, hcut] at hwhole
    exact take_cut.mp hwhole

end Frame

/-- `tspSendRecv` returns a positive value only with the announced payload and stores nothing
outside the buffer just if the reply is refused or framed. -/
theorem sendRecv_exact_iff (plin : List UInt8) (buf : RecvBuffer) (x : Exchange) :
    (tspSendRecv plin buf x).Exact buf ↔
      (x.Accepted buf → ∃ number rest more, x.Framed buf number rest more) := by
  constructor
  · intro h haccepted
    exact framed_of_exact haccepted h
  · intro h
    by_cases haccepted : x.Accepted buf
    · obtain ⟨number, rest, more, hframed⟩ := h haccepted
      exact exact_of_framed haccepted hframed
    · obtain ⟨hret, hstores⟩ := tspSendRecv_of_not_accepted haccepted
      refine ⟨fun hpos => absurd hpos (not_lt.mpr hret), ?_⟩
      rw [hstores]
      intro st hst
      rw [mem_singleton.mp hst, Nat.zero_add]
      exact length_chunk_le

/-! ## Two replies that are not framed -/

def negotiationBuffer : RecvBuffer := ⟨4096, []⟩

def inTwoParts (length payload : List UInt8) : Exchange where
  error := 0
  error_nonpos := Int.le_refl 0
  answer := contentLength ++ length ++ [13, 10]
  later := [payload]

/-- A length of as many bytes as the buffer has is received to a place behind the line, so past the
end of the buffer. If the connection ends after the line, one is returned and the payload is the
line itself. -/
theorem sendRecv_overruns_buffer : ¬(tspSendRecv [] negotiationBuffer
      (inTwoParts (ascii " 4096") (replicate 4096 32))).Exact negotiationBuffer ∧
    ¬(tspSendRecv [] negotiationBuffer (inTwoParts (ascii " 5") [])).Exact negotiationBuffer := by
  have hstores : (tspSendRecv [] negotiationBuffer
      (inTwoParts (ascii " 4096") (replicate 4096 32))).stores = [(0, 22), (22, 4096)] := by
    decide +kernel
  have hret : (tspSendRecv [] negotiationBuffer (inTwoParts (ascii " 5") [])).ret = 1 ∧
      (tspSendRecv [] negotiationBuffer (inTwoParts (ascii " 5") [])).size = 5 ∧
      (tspSendRecv [] negotiationBuffer (inTwoParts (ascii " 5") [])).received =
        contentLength ++ ascii " 5" ++ [13, 10] := by
    decide +kernel
  constructor
  · rintro ⟨-, hinside⟩
    rw [hstores] at hinside
    exact nomatch hinside (22, 4096) (by decide)
  · rintro ⟨hcarries, -⟩
    obtain ⟨number, rest, hreceived, hfeed, -, hle, -⟩ := hcarries (by rw [hret.1]; decide)
    have hparts : contentLength ++ ascii " 5" ++ [13] ++ [10] =
        contentLength ++ number ++ 10 :: rest := by
      rw [← hreceived, append_assoc _ [13]]
      rfl
    exact nomatch feed_mem_chunk hparts (by rw [length_singleton]; omega)

end Maiccu.Gogoc
