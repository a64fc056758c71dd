import Mathlib.Data.List.Sort
import Mathlib.Data.List.TakeWhile
import Maiccu.Lib.CBuffer
import Maiccu.Lib.Chain

/-!
# Broker lists

`tsp_redirect.c`: the list of brokers made from a redirection or read from a file, what is logged of
it, and the file with the last server. A list is the list of its nodes; the null list has none.
Memory is not exhausted here.
-/

namespace Maiccu.Gogoc

open Maiccu.Lib List

/-- `tBrokerAddressType`. -/
inductive BrokerType where
  | none
  | fqdn
  | ipv4
  | ipv6
  deriving DecidableEq

/-- `tBrokerList`, without the pointer to the next one. -/
structure Broker where
  address : List UInt8
  addressType : BrokerType
  distance : ℕ
  deriving DecidableEq

/-- The nodes of `broker_list`, and how many lists were made so far. A pointer to a node of an
earlier list dangles. -/
structure BrokerList where
  made : ℕ
  nodes : List Broker

def BrokerList.free (l : BrokerList) : BrokerList := { l with nodes := [] }

def BrokerList.renew (l : BrokerList) (nodes : List Broker) : BrokerList := ⟨l.made + 1, nodes⟩

/-- The results of this file that its callers tell apart. -/
inductive RedirectStatus where
  | cantOpenFile
  | noLastServer
  | cantAddBrokerToList
  | tooManyBrokers
  | cantExtractPayload
  | cantSortList
  | emptyBrokerList
  deriving DecidableEq

/-- `MAX_REDIRECT_ADDRESS_LENGTH`, also the size of the buffer for a line of a file. -/
def maxRedirectAddressLength : ℕ := 255

def maxRedirectBrokersInList : ℕ := 50

def tspAddBrokerToList (brokers : List Broker) (address : List UInt8) (addressType : BrokerType)
    (distance : ℕ) : Option (List Broker) :=
  if address.length < maxRedirectAddressLength then
    some (brokers ++ [⟨address, addressType, distance⟩])
  else none

/-! ## Redirections -/

structure Redirection where
  ipv4 : List (List UInt8)
  ipv6 : List (List UInt8)
  dn : List (List UInt8)

/-- One of the three loops of `tspCreateBrokerList`. -/
def addBrokers (addressType : BrokerType) :
    List (List UInt8) → List Broker → Except RedirectStatus (List Broker)
  | [], brokers => .ok brokers
  | address :: addresses, brokers =>
    if brokers.length < maxRedirectBrokersInList then
      match tspAddBrokerToList brokers address addressType 0 with
      | none => .error .cantAddBrokerToList
      | some brokers' => addBrokers addressType addresses brokers'
    else .error .tooManyBrokers

def tspCreateBrokerList (r : Redirection) : Except RedirectStatus (List Broker) :=
  match addBrokers .ipv4 r.ipv4 [] with
  | .error e => .error e
  | .ok l₄ =>
    match addBrokers .ipv6 r.ipv6 l₄ with
    | .error e => .error e
    | .ok l₆ => addBrokers .fqdn r.dn l₆

def tspInsertInBrokerList (b : Broker) : List Broker → List Broker
  | [] => [b]
  | c :: brokers =>
    if c.distance < b.distance then c :: tspInsertInBrokerList b brokers else b :: c :: brokers

variable (distances : ℕ → ℕ)

/-- `distances` are what `tspGetBrokerDistances` has measured. -/
def tspSortBrokerList (brokers : List Broker) : List Broker :=
  (brokers.mapIdx fun i b => { b with distance := distances i }).foldl
    (fun sorted b => tspInsertInBrokerList b sorted) []

/-- A reply with a status over 1000, as `tspHandleRedirect` meets it. -/
structure RedirectReply where
  /-- Nothing if `tspExtractPayload` fails. -/
  payload : Option Redirection
  /-- Nothing if `tspGetBrokerDistances` fails. -/
  distances : Option (ℕ → ℕ)

/-- The error, if there is one, and the list that is left; the logging is modelled below. -/
def tspHandleRedirect (reply : RedirectReply) (brokers : BrokerList) :
    Option RedirectStatus × BrokerList :=
  match reply.payload with
  | none => (some .cantExtractPayload, brokers)
  | some r =>
    match tspCreateBrokerList r with
    | .error e => (some e, brokers.renew [])
    | .ok nodes =>
      if 1 < nodes.length then
        match reply.distances with
        | none => (some .cantSortList, brokers.renew nodes)
        | some distances => (none, (brokers.renew nodes).renew (tspSortBrokerList distances nodes))
      else if nodes.length = 0 then (some .emptyBrokerList, brokers.renew nodes)
      else (none, brokers.renew nodes)

variable {b : Broker} {brokers : List Broker}

theorem tspInsertInBrokerList_eq : tspInsertInBrokerList b brokers =
    brokers.orderedInsert (fun x y => x.distance ≤ y.distance) b := by
  induction brokers with
  | nil => rfl
  | cons c brokers ih =>
    simp only [tspInsertInBrokerList, orderedInsert_cons, ih, ← not_lt, ite_not]

theorem tspInsertInBrokerList_perm : (tspInsertInBrokerList b brokers).Perm (b :: brokers) := by
  rw [tspInsertInBrokerList_eq]
  exact perm_orderedInsert _ _ _

theorem foldl_insert_perm (l sorted : List Broker) :
    (l.foldl (fun sorted b => tspInsertInBrokerList b sorted) sorted).Perm (l ++ sorted) := by
  induction l generalizing sorted with
  | nil => rfl
  | cons b l ih =>
    calc Perm _ (l ++ tspInsertInBrokerList b sorted) := ih _
      Perm _ (l ++ b :: sorted) := tspInsertInBrokerList_perm.append_left l
      Perm _ (b :: (l ++ sorted)) := perm_middle

theorem tspSortBrokerList_length (brokers : List Broker) :
    (tspSortBrokerList distances brokers).length = brokers.length := by
  unfold tspSortBrokerList
  rw [(foldl_insert_perm _ []).length_eq, append_nil, length_mapIdx]

theorem tspHandleRedirect_ne_nil {reply : RedirectReply} {brokers left : BrokerList}
    (h : tspHandleRedirect reply brokers = (none, left)) : left.nodes ≠ [] := by
  unfold tspHandleRedirect at h
  split at h
  · cases h
  split at h
  · cases h
  split_ifs at h with hmany hnone
  · split at h
    · cases h
    · cases h
      rw [← length_pos_iff]
      dsimp only [BrokerList.renew]
      rw [tspSortBrokerList_length]
      omega
  · cases h
  · cases h
    exact fun hnil => hnone (length_eq_zero_iff.mpr hnil)

/-! ## The list in memory

The head is the pointer that the functions are given the address of. -/

namespace InMemory

/-- The arguments are the fields of `b`. False if its address is too long: the new node is freed. -/
def tspAddBrokerToList (m : Cells Broker) (b : Broker) : Option (Cells Broker × Bool) :=
  if b.address.length < maxRedirectAddressLength then
    ((m.alloc b).insertAt (fun _ => true) m.size).map (·, true)
  else some ((m.alloc b).free m.size, false)

/-- The new node has been made for `b`. Its null pointer is stored again if the list is empty. -/
def tspInsertInBrokerList (m : Cells Broker) (b : Broker) : Option (Cells Broker) :=
  (m.alloc b).insertAt (fun c => c.distance < b.distance) m.size

end InMemory

section

variable {m : Cells Broker} (h : m.Holds brokers)
include h

theorem tspInsertInBrokerList_refines (b : Broker) :
    ∃ m', InMemory.tspInsertInBrokerList m b = some m' ∧
      m'.Holds (tspInsertInBrokerList b brokers) := by
  simp only [tspInsertInBrokerList_eq, orderedInsert_eq_take_drop, not_le]
  exact h.insertAt _ b

theorem tspAddBrokerToList_refines (b : Broker) :
    ∃ m' added, added = tspAddBrokerToList brokers b.address b.addressType b.distance ∧
      InMemory.tspAddBrokerToList m b = some (m', added.isSome) ∧
      m'.Holds (added.getD brokers) := by
  unfold InMemory.tspAddBrokerToList tspAddBrokerToList
  split_ifs
  · obtain ⟨m', hm', hholds⟩ := h.insertAt (fun _ => true) b
    rw [takeWhile_eq_self_iff.mpr (by simp), dropWhile_eq_nil_iff.mpr (by simp)] at hholds
    exact ⟨m', _, rfl, by rw [hm']; rfl, hholds⟩
  · exact ⟨_, _, rfl, rfl, h.alloc_free b⟩

/-- The loop of `tspSortBrokerList`, over the brokers of the old list. -/
theorem foldl_insert_refines (l : List Broker) :
    ∃ m', l.foldlM InMemory.tspInsertInBrokerList m = some m' ∧
      m'.Holds (l.foldl (fun sorted b => tspInsertInBrokerList b sorted) brokers) := by
  induction l generalizing m brokers with
  | nil => exact ⟨m, rfl, h⟩
  | cons b l ih =>
    obtain ⟨m₁, hm₁, h₁⟩ := tspInsertInBrokerList_refines h b
    rw [foldlM_cons, hm₁]
    exact ih h₁

end

/-! ## What is logged -/

def maxBrokerListStringLength : ℕ := 4096

/-- `space_left` of `tspLogRedirectionList`, from which nothing is taken for what was written. -/
def spaceLeft : ℕ := maxBrokerListStringLength - 1 -
  ((ascii "[ ").length + (ascii ", ").length + (ascii "...").length + (ascii " ]").length)

/-- The loop of `tspLogRedirectionList`: `text` stands before `index`, and only the first broker has
no separator. -/
def logBrokers (separator : List UInt8) :
    List Broker → List UInt8 → Except Fault (List UInt8)
  | [], text => .ok text
  | b :: brokers, text =>
    if separator.length + b.address.length ≤ spaceLeft then do
      let text ← strcpy maxBrokerListStringLength (text ++ (separator ++ b.address))
      logBrokers (ascii ", ") brokers text
    else strcpy maxBrokerListStringLength (text ++ (separator ++ ascii "..."))

def tspLogRedirectionList (brokers : List Broker) : Except Fault (List UInt8) := do
  let text ← strcpy maxBrokerListStringLength (ascii "[ ")
  let text ← logBrokers [] brokers text
  strcpy maxBrokerListStringLength (text ++ ascii " ]")

/-- The status line; `MAX_REDIRECT_STATUS_LENGTH` is 1024. -/
def tspLogReceivedRedirection (payload : List UInt8) : Except Fault (List UInt8) :=
  strcpy 1024 ((cString payload).takeWhile (· ≠ 10))

def brokersText (brokers : List Broker) : List UInt8 :=
  ascii "[ " ++ (ascii ", ").intercalate (brokers.map Broker.address) ++ ascii " ]"

def LoggedInside (payload : List UInt8) (brokers : List Broker) : Prop :=
  (∃ status, tspLogReceivedRedirection payload = .ok status) ∧
    ∃ text, tspLogRedirectionList brokers = .ok text ∧
      (text = brokersText brokers ∨ ascii "... ]" <:+ text)

variable {separator : List UInt8}

section

variable (haddr : ∀ a ∈ b :: brokers, a.address.length < maxRedirectAddressLength)
include haddr

theorem entry_fits (hsep : separator.length ≤ 2) :
    separator.length + b.address.length ≤ spaceLeft := by
  have hb : b.address.length < 255 := haddr b mem_cons_self
  exact (Nat.add_le_add hsep hb.le).trans (by decide)

theorem logBrokers_cons (text : List UInt8) (hsep : separator.length ≤ 2) :
    logBrokers separator (b :: brokers) text = strcpy maxBrokerListStringLength
      (text ++ (separator ++ (ascii ", ").intercalate ((b :: brokers).map Broker.address))) := by
  induction brokers generalizing b separator text with
  | nil =>
    rw [logBrokers, if_pos (entry_fits haddr hsep), map_singleton, intercalate_singleton]
    exact bind_pure (m := Except Fault) _
  | cons c brokers ih =>
    have htail := fun text => ih (forall_mem_cons.mp haddr).2 text (le_refl (ascii ", ").length)
    rw [logBrokers, if_pos (entry_fits haddr hsep), strcpy_bind, htail]
    · simp only [map_cons, intercalate_cons_cons, append_assoc]
    · intro hlong
      rw [htail, strcpy_of_le (by rw [length_append]; omega)]

end

theorem tspLogRedirectionList_eq
    (haddr : ∀ b ∈ brokers, b.address.length < maxRedirectAddressLength) :
    tspLogRedirectionList brokers = strcpy maxBrokerListStringLength (brokersText brokers) := by
  cases brokers with
  | nil => rfl
  | cons b brokers =>
    calc tspLogRedirectionList (b :: brokers)
      _ = logBrokers [] (b :: brokers) (ascii "[ ") >>= fun text => strcpy _ (text ++ _) := rfl
      _ = _ := by
        rw [logBrokers_cons haddr _ (by decide), strcpy_bind]
        · rfl
        · exact fun hlong => strcpy_of_le (by rw [length_append]; omega)

/-- **The log.** For every reply and every list of nodes: the texts stay inside their buffers and
the list is complete or has the marks, if and only if the status line and the whole list fit. -/
theorem redirection_logged_iff (payload : List UInt8) (brokers : List Broker)
    (haddr : ∀ b ∈ brokers, b.address.length < maxRedirectAddressLength) :
    LoggedInside payload brokers ↔ ((cString payload).takeWhile (· ≠ 10)).length < 1024 ∧
      (brokersText brokers).length < maxBrokerListStringLength := by
  unfold LoggedInside tspLogReceivedRedirection
  rw [tspLogRedirectionList_eq haddr, exists_strcpy_iff]
  refine and_congr_right fun _ => ⟨fun ⟨text, h, _⟩ => exists_strcpy_iff.mp ⟨text, h⟩, fun h => ?_⟩
  exact ⟨_, strcpy_of_lt h, .inl rfl⟩

theorem redirection_logged_one : LoggedInside (ascii "1200 Redirection\r\n")
    [⟨ascii "a", .fqdn, 0⟩] :=
  (redirection_logged_iff _ _ (by decide)).mpr (by decide)

/-- A status line of 1024 bytes, or sixteen addresses of 254 bytes. -/
theorem sixteen_brokers_overflow :
    tspLogReceivedRedirection (replicate 1024 49) = .error .overflow ∧
      tspLogRedirectionList (replicate 16 ⟨replicate 254 97, .fqdn, 0⟩) =
        .error .overflow := by decide +kernel

/-! ## Files -/

/-- A line that `fgets` has read, without the ends of line. -/
def fileLine (line : List UInt8) : List UInt8 := chomp (chomp (cString line))

def readBrokers : List (List UInt8) → List Broker → Option RedirectStatus × List Broker
  | [], brokers => (none, brokers)
  | line :: lines, brokers =>
    if fileLine line = [] then readBrokers lines brokers
    else if brokers.length < maxRedirectBrokersInList then
      match tspAddBrokerToList brokers (fileLine line) .none 0 with
      | none => (some .cantAddBrokerToList, brokers)
      | some brokers' => readBrokers lines brokers'
    else (some .tooManyBrokers, brokers)

variable (file : Option (List UInt8))

/-- The error, if there is one, and the list that is left. -/
def tspReadBrokerListFromFile : Option RedirectStatus × List Broker :=
  match file with
  | none => (some .cantOpenFile, [])
  | some content => readBrokers (fgetsLines maxRedirectAddressLength [] content) []

def skipsLine (line : List UInt8) : Bool :=
  line.head? = some 35 ∨ line.head? = some 13 ∨ line.head? = some 10

def tspReadLastServerFromFile : Except RedirectStatus (List UInt8) :=
  match file with
  | none => .error .cantOpenFile
  | some content =>
    match (fgetsLines maxRedirectAddressLength [] content).find? (fun line => !skipsLine line) with
    | none => .error .noLastServer
    | some line => .ok (fileLine line)

/-! ## The server -/

/-- The server that `FormatBrokerListAddr` (`tsp_client.c`) leaves; `starved` says that `malloc`
returns null. Only brackets need memory of their own. -/
def formatBrokerListAddr (starved : Bool) (b : Broker) : Option (List UInt8) :=
  if b.addressType = .ipv6 then
    if starved then none else some (ascii "[" ++ b.address ++ ascii "]")
  else some b.address

variable {starved : Bool}

theorem starved_of_format (h : formatBrokerListAddr starved b = none) : starved = true := by
  unfold formatBrokerListAddr at h
  split_ifs at h with _ hstarved
  exact hstarved

theorem format_of_some {addr : List UInt8} (h : formatBrokerListAddr starved b = some addr) :
    formatBrokerListAddr false b = some addr := by
  cases starved with
  | false => exact h
  | true =>
    unfold formatBrokerListAddr at h ⊢
    by_cases htype : b.addressType = .ipv6
    · rw [if_pos htype] at h
      cases h
    · rw [if_neg htype] at h ⊢
      exact h

end Maiccu.Gogoc
