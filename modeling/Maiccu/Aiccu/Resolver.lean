import Maiccu.Aiccu.ParseLineExact

/-!
# Records of a DNS answer

`getrrs` walks through the answer of the resolver. The walk is a list of rounds, one for each record
it comes to, and a round is a list of accesses: bytes read, calls of the functions for compressed
names, and records handed on. Before a record is read the code makes sure that there is more than
its type, class and time to live; nothing is compared with the length of the data.
-/

namespace Maiccu.Aiccu

open Maiccu.Lib List

/-! ## The library -/

/-- `dn_skipname` and `dn_expand` for one answer of the length `eom`: the bytes that a name at a
position takes, and its text. A name ends inside the answer. -/
structure Names (eom : ℕ) where
  skipname : ℕ → Option ℕ
  expand : ℕ → Option (ℕ × List UInt8)
  expand_le : ∀ p n s, expand p = some (n, s) → p + n ≤ eom

/-- `unsigned char answer[8192]`. -/
def answerSize : ℕ := 8192

/-- What the walk does. -/
inductive Access where
  /-- Bytes of the answer are read. -/
  | read (pos len : ℕ)
  /-- `dn_skipname` or `dn_expand` is called, which may look at the answer up to its end. -/
  | names
  /-- `gotrec` is called. The text comes from the bytes `data`, or from none if the name could not
  be expanded, and the data of the record are the bytes `rdata`. -/
  | gotrec (num type : ℕ) (text : List UInt8) (data : Option (ℕ × ℕ)) (rdata : ℕ × ℕ)

def typeA : ℕ := 1

def typeNS : ℕ := 2

def typeMX : ℕ := 15

def typeTXT : ℕ := 16

def typeAAAA : ℕ := 28

def typeANY : ℕ := 255

/-! ## The walk -/

section Walk

variable {eom : ℕ} (inet : Inet) (lib : Names eom) (answer : List UInt8) (rrtype : ℕ)

/-- `NS_GET16`. -/
def get16 (p : ℕ) : ℕ := 256 * (answer.getD p 0).toNat + (answer.getD (p + 1) 0).toNat

/-- The loop over the questions: how many names were skipped, and where the answers start. -/
def questions : ℕ → ℕ → ℕ × Option ℕ
  | 0, p => (0, some p)
  | count + 1, p =>
    match lib.skipname p with
    | none => (1, none)
    | some n => ((questions count (p + n + 4)).1 + 1, (questions count (p + n + 4)).2)

/-- A record that the walk comes to: its number, where its data start, its type and length. -/
structure Rr where
  num : ℕ
  pos : ℕ
  type : ℕ
  rdlength : ℕ

/-- Where the strings of a record of texts start in the data, and their length. The first argument
bounds their number. -/
def txtStrings (eom : ℕ) (r : Rr) : ℕ → ℕ → List (ℕ × ℕ)
  | 0, _ => []
  | fuel + 1, j =>
    if j < r.rdlength ∧ r.pos + j < eom then
      (j, (answer.getD (r.pos + j) 0).toNat) ::
        txtStrings eom r fuel (j + (answer.getD (r.pos + j) 0).toNat + 1)
    else []

variable (r : Rr)

def Rr.gotrec (text : List UInt8) (data : Option (ℕ × ℕ)) : List Access :=
  if rrtype = r.type ∨ rrtype = typeANY then
    [.gotrec r.num r.type text data (r.pos, r.rdlength)]
  else []

/-- A name in the data, at `p`. -/
def Rr.name (p : ℕ) : List Access :=
  .names :: match lib.expand p with
    | none => r.gotrec rrtype [] none
    | some (n, s) => r.gotrec rrtype s (some (p, n))

def Rr.accesses : List Access :=
  if r.type = typeTXT then
    (txtStrings answer eom r r.rdlength 0).flatMap fun x =>
      .read (r.pos + x.1) 1 :: .read (r.pos + x.1 + 1) x.2 ::
        r.gotrec rrtype (cString (slice answer (r.pos + x.1 + 1) x.2)) (some (r.pos + x.1 + 1, x.2))
  else if r.type = typeA then
    .read r.pos 4 :: r.gotrec rrtype (inetNtop (field answer r.pos 4)) (some (r.pos, 4))
  else if r.type = typeAAAA then
    .read r.pos 16 :: r.gotrec rrtype (inet.ntop6 (field answer r.pos 16)) (some (r.pos, 16))
  else if r.type = typeMX then .read r.pos 2 :: r.name lib rrtype (r.pos + 2)
  else if r.type = typeNS then r.name lib rrtype r.pos
  else []

/-- Where the walk goes on. A name that could not be expanded takes it one byte back. -/
def Rr.next : ℕ :=
  let behind (p : ℕ) := match lib.expand p with
    | none => p - 1
    | some (n, _) => p + n
  if r.type = typeMX then behind (r.pos + 2)
  else if r.type = typeNS then behind r.pos
  else r.pos + r.rdlength

/-- A round of the walk. -/
inductive Round where
  | stop
  | record (r : Rr)

def rounds : ℕ → ℕ → ℕ → List Round
  | 0, _, _ => []
  | count + 1, num, p =>
    if p < eom then
      match lib.expand p with
      | none => [.stop]
      | some (n, _) =>
        if eom ≤ p + n + 8 then [.stop] else
        let r : Rr := ⟨num + 1, p + n + 10, get16 answer (p + n), get16 answer (p + n + 8)⟩
        .record r :: rounds count (num + 1) (r.next lib)
    else []

/-- The accesses of a round: the name of the record, the fields in front of the data, the data. -/
def Round.accesses : Round → List Access
  | .stop => [.names]
  | .record r =>
    .names :: .read (r.pos - 10) 8 :: .read (r.pos - 2) 2 :: r.accesses inet lib answer rrtype

/-- `getrrs` for an answer: the returned value, and all accesses. -/
def getrrs : ℤ × List Access :=
  let qdcount := get16 answer 4
  let ancount := get16 answer 6
  let skipped := replicate (questions lib qdcount 12).1 Access.names
  match (questions lib qdcount 12).2 with
  | none => (-1, .read 4 2 :: skipped)
  | some p =>
    (0, .read 4 2 :: (skipped ++ .read 6 2 :: (rounds lib answer ancount 0 p).flatMap
      (Round.accesses inet lib answer rrtype)))

end Walk

/-! ## Accesses inside the answer -/

/-- The bytes are in the answer and in the buffer, and a record that is handed on is a whole one:
its text comes from bytes of the answer that belong to its data. -/
def Access.Inside (eom : ℕ) : Access → Prop
  | .read pos len => pos + len ≤ eom ∧ pos + len ≤ answerSize
  | .names => eom ≤ answerSize
  | .gotrec _ _ _ data rdata =>
    ∃ p n, data = some (p, n) ∧ rdata.1 ≤ p ∧ p + n ≤ rdata.1 + rdata.2 ∧ p + n ≤ eom

section Inside

variable {eom : ℕ} {inet : Inet} {lib : Names eom} {answer : List UInt8} {rrtype : ℕ} {r : Rr}

def Rr.Asked (rrtype : ℕ) (r : Rr) : Prop := rrtype = r.type ∨ rrtype = typeANY

instance (rrtype : ℕ) (r : Rr) : Decidable (r.Asked rrtype) := inferInstanceAs (Decidable (_ ∨ _))

/-- The length is in the answer, and so is what the code reads of the data; and what it hands on is
no more than the length says. -/
def Rr.Whole (lib : Names eom) (answer : List UInt8) (rrtype : ℕ) (r : Rr) : Prop :=
  r.pos ≤ eom ∧
    if r.type = typeTXT then
      ∀ x ∈ txtStrings answer eom r r.rdlength 0, r.pos + x.1 + 1 + x.2 ≤ eom ∧
        (r.Asked rrtype → x.1 + 1 + x.2 ≤ r.rdlength)
    else if r.type = typeA then r.pos + 4 ≤ eom ∧ (r.Asked rrtype → 4 ≤ r.rdlength)
    else if r.type = typeAAAA then r.pos + 16 ≤ eom ∧ (r.Asked rrtype → 16 ≤ r.rdlength)
    else if r.type = typeMX then r.pos + 2 ≤ eom ∧
      (r.Asked rrtype → ∃ n s, lib.expand (r.pos + 2) = some (n, s) ∧ 2 + n ≤ r.rdlength)
    else if r.type = typeNS then
      r.Asked rrtype → ∃ n s, lib.expand r.pos = some (n, s) ∧ n ≤ r.rdlength
    else True

theorem inside_read_iff (h : eom ≤ answerSize) (pos len : ℕ) :
    (Access.read pos len).Inside eom ↔ pos + len ≤ eom :=
  ⟨fun hin => hin.1, fun hle => ⟨hle, hle.trans h⟩⟩

theorem forall_gotrec_iff (text : List UInt8) (data : Option (ℕ × ℕ)) :
    (∀ a ∈ r.gotrec rrtype text data, a.Inside eom) ↔ (r.Asked rrtype →
      ∃ p n, data = some (p, n) ∧ r.pos ≤ p ∧ p + n ≤ r.pos + r.rdlength ∧ p + n ≤ eom) := by
  unfold Rr.gotrec Rr.Asked
  split_ifs with h
  · rw [forall_prop_of_true h]
    simp only [mem_singleton, forall_eq]
    exact Iff.rfl
  · exact iff_of_true (by simp) fun h' => absurd h' h

theorem forall_gotrec_some_iff {text : List UInt8} {p n : ℕ} (hp : r.pos ≤ p) (hin : p + n ≤ eom) :
    (∀ a ∈ r.gotrec rrtype text (some (p, n)), a.Inside eom) ↔
      (r.Asked rrtype → p + n ≤ r.pos + r.rdlength) := by
  rw [forall_gotrec_iff]
  refine imp_congr_right fun _ => ⟨?_, fun h => ⟨p, n, rfl, hp, h, hin⟩⟩
  rintro ⟨p', n', heq, -, hle, -⟩
  cases heq
  exact hle

theorem forall_name_iff (h : eom ≤ answerSize) {p : ℕ} (hp : r.pos ≤ p) :
    (∀ a ∈ r.name lib rrtype p, a.Inside eom) ↔ (r.Asked rrtype →
      ∃ n s, lib.expand p = some (n, s) ∧ p + n ≤ r.pos + r.rdlength) := by
  unfold Rr.name
  rw [forall_mem_cons, and_iff_right (show Access.names.Inside eom from h)]
  cases hexpand : lib.expand p with
  | none =>
    rw [forall_gotrec_iff]
    refine imp_congr_right fun _ => iff_of_false ?_ ?_
    · rintro ⟨p, n, heq, -⟩
      cases heq
    · rintro ⟨n, s, heq, -⟩
      cases heq
  | some x =>
    obtain ⟨n, s⟩ := x
    rw [forall_gotrec_some_iff hp (lib.expand_le p n s hexpand)]
    refine imp_congr_right fun _ => ⟨fun hle => ⟨n, s, rfl, hle⟩, ?_⟩
    rintro ⟨n', s', heq, hle⟩
    cases heq
    exact hle

theorem lt_of_mem_txtStrings {x : ℕ × ℕ} {fuel j : ℕ} (hx : x ∈ txtStrings answer eom r fuel j) :
    r.pos + x.1 < eom := by
  induction fuel generalizing j with
  | zero => cases hx
  | succ fuel ih =>
    rw [txtStrings] at hx
    split_ifs at hx with hj
    · rcases mem_cons.mp hx with rfl | hx
      · exact hj.2
      · exact ih hx
    · cases hx

theorem forall_accesses_iff (h : eom ≤ answerSize) (hpos : r.pos ≤ eom) :
    (∀ a ∈ r.accesses inet lib answer rrtype, a.Inside eom) ↔ r.Whole lib answer rrtype := by
  unfold Rr.accesses Rr.Whole
  rw [and_iff_right hpos]
  split_ifs with htxt ha haaaa hmx hns
  · simp only [mem_flatMap, forall_exists_index, and_imp]
    rw [forall_comm]
    refine forall_congr' fun x => ?_
    rw [forall_comm]
    refine forall_congr' fun hx => ?_
    have hlt := lt_of_mem_txtStrings hx
    rw [forall_mem_cons, forall_mem_cons, inside_read_iff h, inside_read_iff h,
      and_iff_right (by omega)]
    refine and_congr_right fun hin => ?_
    rw [forall_gotrec_some_iff (by omega) hin]
    refine imp_congr_right fun _ => ?_
    omega
  · rw [forall_mem_cons, inside_read_iff h]
    refine and_congr_right fun hin => ?_
    rw [forall_gotrec_some_iff le_rfl hin, Nat.add_le_add_iff_left]
  · rw [forall_mem_cons, inside_read_iff h]
    refine and_congr_right fun hin => ?_
    rw [forall_gotrec_some_iff le_rfl hin, Nat.add_le_add_iff_left]
  · rw [forall_mem_cons, inside_read_iff h, forall_name_iff h (Nat.le_add_right _ 2)]
    simp only [Nat.add_assoc, Nat.add_le_add_iff_left]
  · rw [forall_name_iff h le_rfl]
    simp only [Nat.add_le_add_iff_left]
  · simp

end Inside

/-! ## The whole walk -/

section Rounds

variable {eom : ℕ} {inet : Inet} {lib : Names eom} {answer : List UInt8} {rrtype : ℕ} {r : Rr}

theorem pos_of_mem_rounds {count num p : ℕ} (h : .record r ∈ rounds lib answer count num p) :
    10 ≤ r.pos ∧ r.pos - 2 < eom := by
  induction count generalizing num p with
  | zero => cases h
  | succ count ih =>
    rw [rounds] at h
    split_ifs at h with hp
    · cases hexpand : lib.expand p with
      | none =>
        rw [hexpand] at h
        simp at h
      | some x =>
        rw [hexpand] at h
        dsimp only at h
        split_ifs at h with hend
        · simp at h
        · rcases mem_cons.mp h with heq | h
          · cases heq
            dsimp only
            omega
          · exact ih h
    · cases h

theorem forall_record_iff (h : eom ≤ answerSize) (hlow : 10 ≤ r.pos) (hhigh : r.pos - 2 < eom) :
    (∀ a ∈ (Round.record r).accesses inet lib answer rrtype, a.Inside eom) ↔
      r.Whole lib answer rrtype := by
  show (∀ a ∈ Access.names :: .read (r.pos - 10) 8 :: .read (r.pos - 2) 2 ::
    r.accesses inet lib answer rrtype, a.Inside eom) ↔ _
  rw [forall_mem_cons, forall_mem_cons, forall_mem_cons, inside_read_iff h,
    inside_read_iff h, and_iff_right (show Access.names.Inside eom from h),
      and_iff_right (by omega)]
  constructor
  · rintro ⟨hin, haccesses⟩
    exact (forall_accesses_iff h (by omega)).mp haccesses
  · intro hwhole
    have hin := hwhole.1
    exact ⟨by omega, (forall_accesses_iff h hin).mpr hwhole⟩

theorem txtStrings_of_le (r : Rr) {fuel fuel' j : ℕ} (hfuel : r.rdlength - j ≤ fuel)
    (hfuel' : r.rdlength - j ≤ fuel') :
    txtStrings answer eom r fuel j = txtStrings answer eom r fuel' j := by
  induction fuel generalizing fuel' j with
  | zero =>
    cases fuel' with
    | zero => rfl
    | succ fuel' => rw [txtStrings, txtStrings, if_neg (by omega)]
  | succ fuel ih =>
    cases fuel' with
    | zero => rw [txtStrings, txtStrings, if_neg (by omega)]
    | succ fuel' =>
      rw [txtStrings, txtStrings]
      split_ifs with hj
      · refine congrArg _ (ih ?_ ?_)
        · omega
        · omega
      · rfl

def reached (lib : Names eom) (answer : List UInt8) : List Round :=
  match (questions lib (get16 answer 4) 12).2 with
  | none => []
  | some p => rounds lib answer (get16 answer 6) 0 p

theorem length_rounds_le (count num p : ℕ) : (rounds lib answer count num p).length ≤ count := by
  induction count generalizing num p with
  | zero => exact le_rfl
  | succ count ih =>
    rw [rounds]
    split
    · cases lib.expand p with
      | none => simp
      | some x =>
        dsimp only
        split_ifs
        · simp
        · exact Nat.succ_le_succ (ih _ _)
    · exact Nat.zero_le _

theorem length_reached_le : (reached lib answer).length ≤ get16 answer 6 := by
  unfold reached
  cases (questions lib (get16 answer 4) 12).2 with
  | none => exact Nat.zero_le _
  | some p => exact length_rounds_le _ _ _

theorem pos_of_mem_reached (h : .record r ∈ reached lib answer) : 10 ≤ r.pos ∧ r.pos - 2 < eom := by
  unfold reached at h
  cases hq : (questions lib (get16 answer 4) 12).2 with
  | none =>
    rw [hq] at h
    cases h
  | some p =>
    rw [hq] at h
    exact pos_of_mem_rounds h

theorem forall_getrrs_iff (h : 12 ≤ eom) : (∀ a ∈ (getrrs inet lib answer rrtype).2, a.Inside eom) ↔
      ((questions lib (get16 answer 4) 12).1 ≠ 0 → eom ≤ answerSize) ∧
        ∀ round ∈ reached lib answer, ∀ a ∈ round.accesses inet lib answer rrtype,
          a.Inside eom := by
  have hheader : ∀ p ≤ 6, (Access.read p 2).Inside eom := fun p hp => by
    refine ⟨by omega, ?_⟩
    unfold answerSize
    omega
  have hskipped : (∀ a ∈ replicate (questions lib (get16 answer 4) 12).1 Access.names,
      a.Inside eom) ↔ ((questions lib (get16 answer 4) 12).1 ≠ 0 → eom ≤ answerSize) := by
    constructor
    · intro hall hne
      exact hall _ (mem_replicate.mpr ⟨hne, rfl⟩)
    · intro hle a ha
      obtain ⟨hne, rfl⟩ := mem_replicate.mp ha
      exact hle hne
  unfold getrrs reached
  cases hq : (questions lib (get16 answer 4) 12).2 with
  | none =>
    simp only [hq]
    rw [forall_mem_cons, and_iff_right (hheader 4 (by omega)), hskipped]
    simp
  | some p =>
    simp only [hq]
    rw [forall_mem_cons, and_iff_right (hheader 4 (by omega)), forall_mem_append, hskipped,
      forall_mem_cons, and_iff_right (hheader 6 le_rfl)]
    simp only [mem_flatMap, forall_exists_index, and_imp]
    refine and_congr_right fun _ => ?_
    exact ⟨fun hall round hround a ha => hall a round hround ha,
      fun hall a round hround ha => hall round hround a ha⟩

theorem names_mem_accesses {round : Round} :
    Access.names ∈ round.accesses inet lib answer rrtype := by
  cases round <;> exact mem_cons_self

theorem calls_of_counts (h : 12 < eom) (hcounts : get16 answer 4 ≠ 0 ∨ get16 answer 6 ≠ 0) :
    (questions lib (get16 answer 4) 12).1 ≠ 0 ∨ reached lib answer ≠ [] := by
  cases hqd : get16 answer 4 with
  | succ n =>
    left
    rw [questions]
    cases lib.skipname 12 with
    | none => exact Nat.one_ne_zero
    | some m => exact Nat.succ_ne_zero _
  | zero =>
    right
    obtain ⟨n, hn⟩ := Nat.exists_eq_succ_of_ne_zero (hcounts.resolve_left (not_not.mpr hqd))
    unfold reached
    rw [hqd]
    show rounds lib answer (get16 answer 6) 0 12 ≠ []
    rw [hn, rounds, if_pos h]
    cases lib.expand 12 with
    | none => exact cons_ne_nil _ _
    | some x =>
      dsimp only
      split_ifs
      · exact cons_ne_nil _ _
      · exact cons_ne_nil _ _

end Rounds

/-- **Records of an answer.** The walk makes at most as many rounds as the answer has records, the
strings of a record end without the bound of the model, and all accesses are inside, with whole
records handed on, if and only if the answer fits the buffer or has neither questions nor records,
and the data of each record that the walk comes to are all there. -/
theorem getrrs_inside_iff {eom : ℕ} (inet : Inet) (lib : Names eom) (answer : List UInt8)
    (rrtype : ℕ) (h : 12 ≤ eom) :
    (reached lib answer).length ≤ get16 answer 6 ∧
    (∀ r fuel, r.rdlength ≤ fuel →
      txtStrings answer eom r fuel 0 = txtStrings answer eom r r.rdlength 0) ∧
    ((∀ a ∈ (getrrs inet lib answer rrtype).2, a.Inside eom) ↔
      (eom ≤ answerSize ∨ get16 answer 4 = 0 ∧ get16 answer 6 = 0) ∧
        ∀ r, .record r ∈ reached lib answer → r.Whole lib answer rrtype) := by
  refine ⟨length_reached_le, fun r fuel hfuel => txtStrings_of_le r hfuel le_rfl, ?_⟩
  rw [forall_getrrs_iff h]
  by_cases hsize : eom ≤ answerSize
  · rw [and_iff_right (Or.inl hsize), and_iff_right fun _ => hsize]
    constructor
    · intro hall r hr
      obtain ⟨hlow, hhigh⟩ := pos_of_mem_reached hr
      exact (forall_record_iff hsize hlow hhigh).mp (hall _ hr)
    · intro hall round hround
      cases round with
      | stop =>
        intro a ha
        rw [mem_singleton.mp ha]
        exact hsize
      | record r =>
        obtain ⟨hlow, hhigh⟩ := pos_of_mem_reached hround
        exact (forall_record_iff hsize hlow hhigh).mpr (hall r hround)
  · rw [or_iff_right hsize]
    have heom : 12 < eom := by
      unfold answerSize at hsize
      omega
    by_cases hcounts : get16 answer 4 = 0 ∧ get16 answer 6 = 0
    · have hnone : reached lib answer = [] :=
        length_eq_zero_iff.mp (Nat.le_zero.mp (hcounts.2 ▸ length_reached_le))
      have hskip : (questions lib (get16 answer 4) 12).1 = 0 := by
        rw [hcounts.1]
        rfl
      rw [hnone]
      exact iff_of_true ⟨fun hne => absurd hskip hne, by simp⟩ ⟨hcounts, by simp⟩
    · refine iff_of_false ?_ fun hright => hcounts hright.1
      rintro ⟨hskip, hall⟩
      rcases calls_of_counts heom (not_and_or.mp hcounts) with hcall | hcall
      · exact hsize (hskip hcall)
      · obtain ⟨round, rest, hround⟩ := exists_cons_of_ne_nil hcall
        exact hsize (hall round (by rw [hround]; exact mem_cons_self) _ names_mem_accesses)

def rootName (eom : ℕ) (h : 13 ≤ eom) : Names eom where
  skipname _ := none
  expand p := if p = 12 then some (1, []) else none
  expand_le p n s hexpand := by
    split_ifs at hexpand with hp
    cases hexpand
    omega

def addressAnswer : List UInt8 :=
  [0, 0, 0, 0, 0, 0, 0, 1, 0, 0, 0, 0, 0, 0, 1, 0, 1, 0, 0, 0, 0, 0, 4, 192, 0, 2, 1]

theorem addressAnswer_inside : 12 ≤ 27 ∧
    ∀ a ∈ (getrrs noInet (rootName 27 (by omega)) addressAnswer typeA).2, a.Inside 27 := by
  have hreached : reached (rootName 27 (by omega)) addressAnswer =
      [.record ⟨1, 23, 1, 4⟩] := rfl
  refine ⟨by omega, (getrrs_inside_iff noInet (rootName 27 (by omega)) addressAnswer typeA
    (by omega)).2.2.mpr ⟨Or.inl (by decide), ?_⟩⟩
  intro r hr
  rw [hreached, mem_singleton] at hr
  cases hr
  exact ⟨by decide, by decide, fun _ => by decide⟩

theorem cut_answer_read_past_end :
    .read 21 2 ∈ (getrrs noInet (rootName 22 (by omega)) (addressAnswer.take 22) typeA).2 ∧
      ¬ (Access.read 21 2).Inside 22 := by
  refine ⟨?_, fun h => nomatch h.1⟩
  have haccesses : (getrrs noInet (rootName 22 (by omega)) (addressAnswer.take 22) typeA).2 =
      .read 4 2 :: .read 6 2 :: .names :: .read 13 8 :: .read 21 2 :: _ := rfl
  rw [haccesses]
  simp

end Maiccu.Aiccu
