import Maiccu.Aiccu.CheckTime
import Maiccu.Lib.Heap

/-!
# The XML parser

`XMLParse` of `xmlparse.c` works on a copy of its string: it writes zeros into the copy, leaves
pointers into it in the static node table, and hands the contents of the elements to the processing
functions of the table, which call the parser again. A computation without a result is one with
undefined behaviour: a pointer that is null or into a freed block is used, a byte behind the copy is
read, or `endToken` is too small.
-/

namespace Maiccu.Gogoc.Xml

open Maiccu.Lib Option List
open Maiccu.Tic (isDigit)

/-! ## States and node tables -/

/-- The memory, the values of the attributes in the tables of the program, which allocations will
succeed, and the other variables. A value is found by the table, the node and the attribute. -/
structure State (ι σ : Type) where
  heap : Heap
  values : ι → ℕ → ℕ → Option Ptr
  memory : ℕ → Bool
  info : σ

/-- `processNode`: from the attributes of the node and the content to the result. -/
abbrev Proc (ι σ : Type) := (ℕ → Option Ptr) → Ptr → State ι σ → Option (ℤ × State ι σ)

/-- `tNode`, without the values of the attributes. -/
structure Node (ι σ : Type) where
  name : List UInt8
  p : Option (Proc ι σ)
  attributes : List (List UInt8)

structure Table (ι σ : Type) where
  id : ι
  nodes : List (Node ι σ)

variable {ι σ : Type} (x : State ι σ) (s : List UInt8)

def State.malloc : Option ℕ × State ι σ :=
  if x.memory 0 = true then
    (some x.heap.size, { x with heap := x.heap.alloc s, memory := fun n => x.memory (n + 1) })
  else (none, { x with memory := fun n => x.memory (n + 1) })

def State.free (b : ℕ) : State ι σ := { x with heap := x.heap.free b }

def State.write (b : ℕ) (s : List UInt8) : State ι σ :=
  { x with heap := x.heap.write b s }

/-! ## Start tags -/

variable (c : UInt8)

def isAlpha : Bool := (65 ≤ c && c ≤ 90) || (97 ≤ c && c ≤ 122)

def isBlank : Bool := c = 32 || c = 9 || c = 13 || c = 10

def isNameChar : Bool := isAlpha c || isDigit c || c = 95

def isValueChar : Bool := c ≠ 0 && c ≠ 10 && c ≠ 13 && c ≠ 62 && c ≠ 34

/-- `string[pos]`. The parser stops at the zero that ends the string. -/
def byte (pos : ℕ) : UInt8 := s.getD pos 0

def skipWhile (p : UInt8 → Bool) (s : List UInt8) (pos : ℕ) : ℕ :=
  pos + ((s.drop pos).takeWhile p).length

def skipBlanks (pos : ℕ) : ℕ := skipWhile isBlank s pos

/-- A start tag that is read, up to `pos`, and the string with the zeros that were written. -/
structure Tag where
  name : List UInt8
  bytes : List UInt8
  pos : ℕ
  /-- The element ends with its start tag. -/
  simple : Bool
  deriving DecidableEq

/-- The start of a tag at `pos`, or the position of an error. The name is not empty, for it begins
with a letter. -/
def readTag (pos : ℕ) : Except ℕ Tag :=
  let stop := skipWhile isNameChar s (pos + 1)
  let name := (s.drop (pos + 1)).takeWhile isNameChar
  if byte s pos ≠ 60 then .error pos
  else if isAlpha (byte s (pos + 1)) = false then .error (pos + 1)
  else if byte s stop = 0 then .error stop
  else if byte s stop = 47 then
    if byte s (stop + 1) ≠ 62 then .error (stop + 1)
    else .ok ⟨name, (s.set stop 0).set (stop + 1) 0, stop + 1, true⟩
  else if byte s stop = 32 then .ok ⟨name, s.set stop 0, stop + 1, false⟩
  -- The position stays, to tell that the tag ends here.
  else if byte s stop = 62 then .ok ⟨name, s.set stop 0, stop, false⟩
  else .error stop

def findNode (name : List UInt8) (nodes : List (Node ι σ)) : Option (ℕ × Node ι σ) :=
  (nodes.findIdx? fun n => n.name = name).bind fun k => nodes[k]?.map fun n => (k, n)

def findAttribute (name : List UInt8) (attributes : List (List UInt8)) : Option ℕ :=
  attributes.findIdx? fun a => a = name

/-- The values of the attributes, and the string and the position after them or the position of an
error. A value is a pointer into the block `b`. -/
def readAttributes (attributes : List (List UInt8)) (b : ℕ) :
    ℕ → (ℕ → Option Ptr) → List UInt8 → ℕ → (ℕ → Option Ptr) × Except ℕ (List UInt8 × ℕ)
  | 0, values, s, pos => (values, .ok (s, pos))
  | fuel + 1, values, s, pos =>
    if isAlpha (byte s pos) = false then (values, .ok (s, pos))
    else
      let equals := skipWhile isNameChar s pos
      let stop := skipWhile isValueChar s (equals + 2)
      if byte s equals ≠ 61 then (values, .error equals)
      else if byte s (equals + 1) ≠ 34 then (values, .error (equals + 1))
      else if byte s stop ≠ 34 then (values, .error stop)
      else
        let values' :=
          match findAttribute ((s.drop pos).takeWhile isNameChar) attributes with
          | none => values
          | some i => Function.update values i (some ⟨b, equals + 2⟩)
        readAttributes attributes b fuel values' ((s.set equals 0).set stop 0)
          (skipBlanks s (stop + 1))

def closeTag (tag : Tag) (s : List UInt8) (pos : ℕ) : Except ℕ Tag :=
  if byte s pos = 47 then
    if byte s (pos + 1) = 62 then .ok ⟨tag.name, s, pos + 2, true⟩ else .error (pos + 1)
  else if byte s pos = 62 then .ok ⟨tag.name, s, pos + 1, tag.simple⟩
  else .error pos

def readRest (attributes : List (List UInt8)) (b : ℕ) (values : ℕ → Option Ptr) (tag : Tag) :
    (ℕ → Option Ptr) × Except ℕ Tag :=
  if byte tag.bytes tag.pos = 0 then (values, .ok { tag with pos := tag.pos + 1 })
  else
    match readAttributes attributes b tag.bytes.length values tag.bytes
      (skipBlanks tag.bytes tag.pos) with
    | (values', .error e) => (values', .error e)
    | (values', .ok (s, pos)) => (values', closeTag tag s pos)

/-- The end of the tag of an element that is not in the table. -/
def restEnd (tag : Tag) : ℕ :=
  let stop := skipWhile (fun c => c ≠ 0 && c ≠ 62) tag.bytes tag.pos
  if byte tag.bytes tag.pos = 0 then tag.pos + 1
  else if byte tag.bytes stop = 62 then stop + 1 else stop

def skipRest (tag : Tag) : Option (Except ℕ Tag) :=
  if tag.bytes.length ≤ restEnd tag then none
  else if byte tag.bytes (restEnd tag) = 0 ∧ tag.simple = false then some (.error (restEnd tag))
  else some (.ok { tag with pos := restEnd tag })

/-! ## Elements -/

inductive Round where
  | ret (code : ℤ)
  | next (pos : ℕ)

/-- The processing function is called, if there is one; `next` is where the element ends. -/
def callNode (id : ι) (found : Option (ℕ × Node ι σ)) (content : Ptr) (next : ℕ)
    (x : State ι σ) : Option (Round × State ι σ) :=
  match found.bind fun kn => kn.2.p.map fun p => (kn.1, p) with
  | none => some (.next next, x)
  | some (k, p) =>
    (p (x.values id k) content x).map fun r =>
      if r.1 = 0 then (.next next, r.2)
      else (.ret (if 0 < r.1 then r.1 + content.pos else r.1), r.2)

def endToken (name : List UInt8) : List UInt8 := 60 :: 47 :: (name ++ [62])

def readContent (id : ι) (found : Option (ℕ × Node ι σ)) (b : ℕ) (tag : Tag) (x : State ι σ) :
    Option (Round × State ι σ) :=
  if tag.simple = true then callNode id found ⟨b, tag.pos⟩ tag.pos x
  else if 100 < (endToken tag.name).length + 1 then none
  else
    (x.heap.bytes b).bind fun s =>
      if s.length ≤ tag.pos then none
      else
        match strstr (endToken tag.name) (cString (s.drop tag.pos)) with
        | none => some (.ret tag.pos, x)
        | some i =>
          callNode id found ⟨b, tag.pos⟩ (tag.pos + i + (endToken tag.name).length)
            (x.write b (s.set (tag.pos + i) 0))

variable [DecidableEq ι]

def State.setValues (x : State ι σ) (id : ι) (k : ℕ) (values : ℕ → Option Ptr) : State ι σ :=
  { x with values := Function.update x.values id (Function.update (x.values id) k values) }

def readElement (t : Table ι σ) (b pos : ℕ) (x : State ι σ) : Option (Round × State ι σ) :=
  (x.heap.bytes b).bind fun s =>
    if byte s (skipBlanks s pos) = 0 then some (.ret 0, x)
    else
      match readTag s (skipBlanks s pos) with
      | .error e => some (.ret e, x)
      | .ok tag =>
        match findNode tag.name t.nodes with
        | some (k, n) =>
          match readRest n.attributes b (x.values t.id k) tag with
          | (values, .error e) => some (.ret e, x.setValues t.id k values)
          | (values, .ok tag') =>
            readContent t.id (some (k, n)) b tag' ((x.setValues t.id k values).write b tag'.bytes)
        | none =>
          (skipRest tag).bind fun rest =>
            match rest with
            | .error e => some (.ret e, x)
            | .ok tag' => readContent t.id none b tag' (x.write b tag'.bytes)

/-- The loop. There is enough fuel if it is more than what is left of the string. -/
def parseLoop (t : Table ι σ) (b : ℕ) : ℕ → ℕ → State ι σ → Option (ℤ × State ι σ)
  | 0, _, _ => none
  | fuel + 1, pos, x =>
    (x.heap.bytes b).bind fun s =>
      if byte s pos = 0 then some (0, x)
      else
        (readElement t b pos x).bind fun r =>
          match r with
          | (.ret code, x') => some (code, x')
          | (.next pos', x') => parseLoop t b fuel pos' x'

def xmlParse (t : Table ι σ) (str : List UInt8) (x : State ι σ) : Option (ℤ × State ι σ) :=
  match x.malloc (str ++ [0]) with
  | (none, x') => some (-1, x')
  | (some b, x') => (parseLoop t b (str.length + 2) 0 x').map fun r => (r.1, r.2.free b)

variable {b : ℕ} {tag : Tag}

/-! ## How far the parser goes -/

section Progress

omit [DecidableEq ι]

variable {s' : List UInt8} {s} {pos pos' : ℕ} {tag' : Tag}

theorem le_skipWhile (p : UInt8 → Bool) (s : List UInt8) (pos : ℕ) : pos ≤ skipWhile p s pos :=
  Nat.le_add_right _ _

theorem lt_skipWhile {p : UInt8 → Bool} {n : ℕ} (hzero : p 0 = false)
    (hp : p (byte s n) = true) : n < skipWhile p s n := by
  have hlt : n < s.length := by
    by_contra hle
    rw [byte, getD_eq_default _ _ (not_lt.mp hle), hzero] at hp
    cases hp
  rw [byte, getD_eq_getElem _ _ hlt] at hp
  unfold skipWhile
  rw [drop_eq_getElem_cons hlt, takeWhile_cons_of_pos hp]
  exact Nat.lt_add_of_pos_right (Nat.succ_pos _)

theorem isNameChar_of_isAlpha {c : UInt8} (h : isAlpha c = true) : isNameChar c = true := by
  unfold isNameChar
  rw [h]
  rfl

theorem readTag_ok (h : readTag s pos = .ok tag) :
    tag.bytes.length = s.length ∧ pos + 2 ≤ tag.pos := by
  unfold readTag at h
  dsimp only at h
  split_ifs at h with hopen halpha hend hslash hclose hblank hgreater
  all_goals
    have hstop := lt_skipWhile (s := s) (n := pos + 1) (p := isNameChar) rfl
      (isNameChar_of_isAlpha (Bool.not_eq_false _ ▸ halpha))
    cases h
    simp only [length_set]
    refine ⟨trivial, ?_⟩
    omega

variable {attributes : List (List UInt8)} {values values' : ℕ → Option Ptr}

theorem readAttributes_ok {fuel : ℕ}
    (h : readAttributes attributes b fuel values s pos = (values', .ok (s', pos'))) :
    s'.length = s.length ∧ pos ≤ pos' := by
  induction fuel generalizing values s pos with
  | zero =>
    cases h
    exact ⟨rfl, le_rfl⟩
  | succ fuel ih =>
    unfold readAttributes at h
    dsimp only at h
    split_ifs at h with halpha hequals hquote hend
    · cases h
      exact ⟨rfl, le_rfl⟩
    · cases h
    · cases h
    · cases h
    · obtain ⟨hlength, hle⟩ := ih h
      simp only [length_set] at hlength
      have hequals := le_skipWhile isNameChar s pos
      have hstop := le_skipWhile isValueChar s (skipWhile isNameChar s pos + 2)
      have hnext := (le_skipWhile isBlank s _).trans hle
      exact ⟨hlength, by omega⟩

theorem closeTag_ok (h : closeTag tag s pos = .ok tag') : tag'.bytes = s ∧ pos < tag'.pos := by
  unfold closeTag at h
  split_ifs at h
  · cases h
    exact ⟨rfl, Nat.lt_add_of_pos_right Nat.two_pos⟩
  · cases h
    exact ⟨rfl, Nat.lt_succ_self _⟩

theorem readRest_ok (h : readRest attributes b values tag = (values', .ok tag')) :
    tag'.bytes.length = tag.bytes.length ∧ tag.pos < tag'.pos := by
  unfold readRest at h
  split_ifs at h with hend
  · cases h
    exact ⟨rfl, Nat.lt_succ_self _⟩
  · split at h
    · cases h
    · rename_i hattributes
      obtain ⟨hlength, hle⟩ := readAttributes_ok hattributes
      obtain ⟨hbytes, hlt⟩ := closeTag_ok (Prod.mk.inj h).2
      rw [hbytes]
      exact ⟨hlength, (le_skipWhile _ _ _).trans_lt (hle.trans_lt hlt)⟩

theorem le_restEnd : tag.pos ≤ restEnd tag := by
  unfold restEnd
  have hstop := le_skipWhile (fun c => c ≠ 0 && c ≠ 62) tag.bytes tag.pos
  dsimp only
  split_ifs
  · exact Nat.le_succ _
  · exact hstop.trans (Nat.le_succ _)
  · exact hstop

theorem skipRest_ok (h : skipRest tag = some (.ok tag')) :
    tag'.bytes = tag.bytes ∧ tag.pos ≤ tag'.pos := by
  unfold skipRest at h
  split_ifs at h with hlong hend
  · cases h
  · cases h
    exact ⟨rfl, le_restEnd⟩

end Progress

variable {s}

/-! ## What the parser does to the memory -/

omit [DecidableEq ι] in
theorem malloc_some {x x' : State ι σ} (h : x.malloc s = (some b, x')) :
    b = x.heap.size ∧ x'.heap = x.heap.alloc s ∧ x'.info = x.info := by
  unfold State.malloc at h
  split_ifs at h
  · cases h
    exact ⟨rfl, rfl, rfl⟩
  · cases h

omit [DecidableEq ι] in
theorem malloc_none {x x' : State ι σ} (h : x.malloc s = (none, x')) :
    x'.heap = x.heap ∧ x'.info = x.info := by
  unfold State.malloc at h
  split_ifs at h
  · cases h
  · cases h
    exact ⟨rfl, rfl⟩

variable {content : Ptr} {next : ℕ}

section Keeps

-- `owned` are the blocks that the other variables own.
variable {owned : σ → List ℕ} {x' x'' : State ι σ} {x}

/-- All blocks that are live stay live with their size, and what is owned later was owned before or
is new; the new blocks are live, and each is owned only once. -/
structure Keeps (owned : σ → List ℕ) (x x' : State ι σ) : Prop where
  grows : x.heap.Grows x'.heap
  owned : ∃ new : List ℕ, new.Nodup ∧ (∀ c ∈ new, x.heap.size ≤ c ∧ x'.heap.Live c) ∧
    ∀ c, (owned x'.info).count c ≤ new.count c + (owned x.info).count c

omit [DecidableEq ι] in
theorem keeps_of_grows (hgrows : x.heap.Grows x'.heap) (hinfo : owned x'.info = owned x.info) :
    Keeps owned x x' := by
  refine ⟨hgrows, [], nodup_nil, nofun, fun c => ?_⟩
  rw [hinfo, count_nil, Nat.zero_add]

omit [DecidableEq ι] in
theorem Keeps.refl (x : State ι σ) : Keeps owned x x := keeps_of_grows (.refl _) rfl

omit [DecidableEq ι] in
theorem Keeps.trans (h₁ : Keeps owned x x') (h₂ : Keeps owned x' x'') : Keeps owned x x'' := by
  obtain ⟨new₁, hnodup₁, hlive₁, hcount₁⟩ := h₁.owned
  obtain ⟨new₂, hnodup₂, hlive₂, hcount₂⟩ := h₂.owned
  refine ⟨h₁.grows.trans h₂.grows, new₂ ++ new₁, ?_, ?_, fun c => ?_⟩
  · -- A block that is new in the second part was not there in the first one.
    refine hnodup₂.append hnodup₁ fun c hc₂ hc₁ => ?_
    exact absurd (hlive₁ c hc₁).2.lt_size (hlive₂ c hc₂).1.not_gt
  · intro c hc
    rcases mem_append.mp hc with hc | hc
    · exact ⟨h₁.grows.size_le.trans (hlive₂ c hc).1, (hlive₂ c hc).2⟩
    · exact ⟨(hlive₁ c hc).1, h₂.grows.live (hlive₁ c hc).2⟩
  · have h₁ := hcount₁ c
    have h₂ := hcount₂ c
    rw [count_append]
    omega

omit [DecidableEq ι] in
theorem keeps_write {t : List UInt8} (hb : x.heap.bytes b = some s)
    (hlength : t.length = s.length) : Keeps owned x (x.write b t) :=
  keeps_of_grows (Heap.grows_write hb hlength) rfl

theorem keeps_setValues (x : State ι σ) (id : ι) (k : ℕ) (values : ℕ → Option Ptr) :
    Keeps owned x (x.setValues id k values) := keeps_of_grows (.refl _) rfl

def Proc.Keeps (owned : σ → List ℕ) (p : Proc ι σ) : Prop :=
  ∀ values content x code x', p values content x = some (code, x') → Xml.Keeps owned x x'

def Table.Keeps (owned : σ → List ℕ) (t : Table ι σ) : Prop :=
  ∀ n ∈ t.nodes, ∀ p, n.p = some p → Proc.Keeps owned p

variable {id : ι} {found : Option (ℕ × Node ι σ)} {r : Round} {t : Table ι σ} {code : ℤ}

omit [DecidableEq ι] in
theorem callNode_keeps (hp : ∀ k n p, found = some (k, n) → n.p = some p → Proc.Keeps owned p)
    (h : callNode id found content next x = some (r, x')) : Keeps owned x x' := by
  unfold callNode at h
  split at h
  · cases h
    exact .refl x
  · rename_i k p hfound
    obtain ⟨⟨k', n⟩, hnode, hn⟩ := bind_eq_some_iff.mp hfound
    obtain ⟨p', hp', heq⟩ := map_eq_some_iff.mp hn
    cases heq
    obtain ⟨⟨code, x₁⟩, hcall, hr⟩ := map_eq_some_iff.mp h
    have hkeeps := hp _ _ _ hnode hp' _ _ _ _ _ hcall
    split_ifs at hr
    all_goals
      cases hr
      exact hkeeps

omit [DecidableEq ι] in
theorem readContent_keeps (hp : ∀ k n p, found = some (k, n) → n.p = some p → Proc.Keeps owned p)
    (h : readContent id found b tag x = some (r, x')) : Keeps owned x x' := by
  unfold readContent at h
  split_ifs at h with hsimple hlong
  · exact callNode_keeps hp h
  · obtain ⟨s, hs, h⟩ := bind_eq_some_iff.mp h
    split_ifs at h with hpos
    split at h
    · cases h
      exact .refl x
    · exact (keeps_write hs (length_set ..)).trans (callNode_keeps hp h)

theorem readElement_keeps {pos : ℕ} (ht : t.Keeps owned)
    (h : readElement t b pos x = some (r, x')) : Keeps owned x x' := by
  obtain ⟨s, hs, h⟩ := bind_eq_some_iff.mp h
  split_ifs at h with hend
  · cases h
    exact .refl x
  · split at h
    · cases h
      exact .refl x
    · rename_i tag htag
      split at h
      · rename_i k n hfound
        have hn : n ∈ t.nodes := by
          obtain ⟨i, -, hi⟩ := bind_eq_some_iff.mp hfound
          obtain ⟨n', hn', heq⟩ := map_eq_some_iff.mp hi
          cases heq
          exact mem_of_getElem? hn'
        split at h
        · cases h
          exact keeps_setValues x _ _ _
        · rename_i values tag' hrest
          have hlength := (readRest_ok hrest).1.trans (readTag_ok htag).1
          refine (keeps_setValues x t.id k values).trans ?_
          refine (keeps_write (x := x.setValues t.id k values) hs hlength).trans
            (readContent_keeps ?_ h)
          intro k' n' p hkn
          cases hkn
          exact ht n hn p
      · obtain ⟨rest, hrest, h⟩ := bind_eq_some_iff.mp h
        split at h
        · cases h
          exact .refl x
        · rename_i tag'
          have hlength := congrArg length (skipRest_ok hrest).1
          refine (keeps_write (t := tag'.bytes) hs (hlength.trans (readTag_ok htag).1)).trans ?_
          refine readContent_keeps ?_ h
          intro k n p hnone
          cases hnone

theorem parseLoop_keeps (ht : t.Keeps owned) (fuel : ℕ) {pos : ℕ}
    (h : parseLoop t b fuel pos x = some (code, x')) : Keeps owned x x' := by
  induction fuel generalizing pos x with
  | zero => cases h
  | succ fuel ih =>
    obtain ⟨s, -, h⟩ := bind_eq_some_iff.mp h
    split_ifs at h with hend
    · cases h
      exact .refl _
    · obtain ⟨r, hr, h⟩ := bind_eq_some_iff.mp h
      split at h
      · cases h
        exact readElement_keeps ht hr
      · exact (readElement_keeps ht hr).trans (ih h)

theorem xmlParse_keeps {str : List UInt8} (ht : t.Keeps owned)
    (h : xmlParse t str x = some (code, x')) : Keeps owned x x' := by
  unfold xmlParse at h
  split at h
  · rename_i x₁ hmalloc
    cases h
    obtain ⟨hheap, hinfo⟩ := malloc_none hmalloc
    exact keeps_of_grows (hheap ▸ .refl _) (congrArg owned hinfo)
  · rename_i b x₁ hmalloc
    obtain ⟨rfl, hheap, hinfo⟩ := malloc_some hmalloc
    obtain ⟨⟨code', x₂⟩, hloop, heq⟩ := map_eq_some_iff.mp h
    cases heq
    obtain ⟨hgrows, new, hnodup, hlive, hcount⟩ := parseLoop_keeps ht _ hloop
    rw [hheap] at hgrows hlive
    rw [hinfo] at hcount
    refine ⟨hgrows.free_alloc, new, hnodup, fun c hc => ?_, hcount⟩
    obtain ⟨hle, hlive⟩ := hlive c hc
    rw [Heap.size_alloc] at hle
    exact ⟨by omega, hlive.free_of_ne (by omega)⟩

end Keeps

/-! ## More fuel changes nothing -/

section Fuel

variable {x' : State ι σ} {x} {pos pos' : ℕ}

variable {id : ι} {found : Option (ℕ × Node ι σ)} {t : Table ι σ}

omit [DecidableEq ι] in
theorem callNode_next
    (h : callNode id found content next x = some (.next pos', x')) : pos' = next := by
  unfold callNode at h
  split at h
  · cases h
    rfl
  · obtain ⟨r, -, hr⟩ := map_eq_some_iff.mp h
    by_cases hzero : r.1 = 0
    · rw [if_pos hzero] at hr
      cases hr
      rfl
    · rw [if_neg hzero] at hr
      cases hr

omit [DecidableEq ι] in
theorem readContent_next (h : readContent id found b tag x = some (.next pos', x')) :
    tag.pos ≤ pos' := by
  unfold readContent at h
  split_ifs at h with hsimple hlong
  · exact (callNode_next h).ge
  · obtain ⟨s, -, h⟩ := bind_eq_some_iff.mp h
    split_ifs at h with hpos
    split at h
    · cases h
    · rw [callNode_next h]
      omega

theorem readElement_next (h : readElement t b pos x = some (.next pos', x')) : pos < pos' := by
  obtain ⟨s, -, h⟩ := bind_eq_some_iff.mp h
  have hblanks := le_skipWhile isBlank s pos
  split_ifs at h with hend
  · cases h
  · split at h
    · cases h
    · rename_i tag htag
      have htag := (readTag_ok htag).2
      unfold skipBlanks at htag
      split at h
      · split at h
        · cases h
        · rename_i hrest
          have hrest := (readRest_ok hrest).2
          have hnext := readContent_next h
          omega
      · obtain ⟨rest, hrest, h⟩ := bind_eq_some_iff.mp h
        split at h
        · cases h
        · have hrest := (skipRest_ok hrest).2
          have hnext := readContent_next h
          omega

theorem parseLoop_of_le (hs : x.heap.bytes b = some s) (hle : s.length ≤ pos)
    (n : ℕ) : parseLoop t b (n + 1) pos x = some (0, x) := by
  unfold parseLoop
  rw [hs]
  exact if_pos (getD_eq_default _ _ hle)

/-- With more fuel than the string has left, the loop does not end for want of fuel. -/
theorem parseLoop_fuel {owned : σ → List ℕ} (ht : t.Keeps owned) (n m : ℕ)
    (hs : x.heap.bytes b = some s) (hn : s.length ≤ pos + n) (hm : n ≤ m) :
    parseLoop t b (m + 1) pos x = parseLoop t b (n + 1) pos x := by
  induction n generalizing m pos x s with
  | zero =>
    have hle : s.length ≤ pos := hn
    rw [parseLoop_of_le hs hle, parseLoop_of_le hs hle]
  | succ n ih =>
    obtain ⟨m, rfl⟩ := Nat.exists_eq_add_of_lt hm
    unfold parseLoop
    rw [hs]
    dsimp only [bind_some]
    by_cases hend : byte s pos = 0
    · rw [if_pos hend, if_pos hend]
    rw [if_neg hend, if_neg hend]
    refine bind_congr fun r hr => ?_
    match r, hr with
    | (.ret code, x₁), _ => rfl
    | (.next pos', x₁), hr =>
      -- The rest of the string is shorter, and the string keeps its length.
      obtain ⟨s', hs', hlength⟩ := (readElement_keeps ht hr).grows.bytes b s hs
      have hlt := readElement_next hr
      exact ih _ hs' (by omega) (by omega)

end Fuel

end Maiccu.Gogoc.Xml
