import Maiccu.Gogoc.XmlParse

/-!
# What the result of the parser says

`XMLParse` returns 0 for success and the position of an error otherwise. Here a call goes through
its string along a chain of elements (`Element`), each with a complete start tag, its end tag, and a
processing function that returned 0. A call `Completes` if the chain comes to the end of the string.
-/

namespace Maiccu.Gogoc.Xml

open Maiccu.Lib Relation Option List

variable {ι σ : Type} [DecidableEq ι]

/-! ## Elements -/

/-- From `pos` on there is a start tag up to its end, with the node of the table, if there is one
for the name, and the state in which the values of the attributes are stored. -/
inductive StartTag (t : Table ι σ) (b pos : ℕ) (x : State ι σ) :
    Option (ℕ × Node ι σ) → Tag → State ι σ → Prop where
  | known {s : List UInt8} {tag tag' : Tag} {k : ℕ} {n : Node ι σ} {values : ℕ → Option Ptr} :
      x.heap.bytes b = some s → byte s (skipBlanks s pos) ≠ 0 →
      readTag s (skipBlanks s pos) = .ok tag → findNode tag.name t.nodes = some (k, n) →
      readRest n.attributes b (x.values t.id k) tag = (values, .ok tag') →
      StartTag t b pos x (some (k, n)) tag' ((x.setValues t.id k values).write b tag'.bytes)
  | unknown {s : List UInt8} {tag tag' : Tag} :
      x.heap.bytes b = some s → byte s (skipBlanks s pos) ≠ 0 →
      readTag s (skipBlanks s pos) = .ok tag → findNode tag.name t.nodes = none →
      skipRest tag = some (.ok tag') → StartTag t b pos x none tag' (x.write b tag'.bytes)

/-- The element ends: with its start tag, or with an end tag, which is overwritten with a zero. -/
inductive Matched (b : ℕ) (tag : Tag) (y : State ι σ) : ℕ → State ι σ → Prop where
  | simple : tag.simple = true → Matched b tag y tag.pos y
  | ended {s : List UInt8} {i : ℕ} :
      tag.simple = false → tag.name.length ≤ 96 → y.heap.bytes b = some s → tag.pos < s.length →
      strstr (endToken tag.name) (cString (s.drop tag.pos)) = some i →
      Matched b tag y (tag.pos + i + (endToken tag.name).length) (y.write b (s.set (tag.pos + i) 0))

def handler (found : Option (ℕ × Node ι σ)) : Option (ℕ × Proc ι σ) :=
  found.bind fun kn => kn.2.p.map fun p => (kn.1, p)

/-- An element in full, and what its processing function made of the state. -/
inductive Element (t : Table ι σ) (b : ℕ) : ℕ × State ι σ → ℕ × State ι σ → Prop where
  | plain {pos next : ℕ} {x y z : State ι σ} {found : Option (ℕ × Node ι σ)} {tag : Tag} :
      StartTag t b pos x found tag y → Matched b tag y next z → handler found = none →
      Element t b (pos, x) (next, z)
  | handled {pos next k : ℕ} {x y z z' : State ι σ} {found : Option (ℕ × Node ι σ)} {tag : Tag}
      {p : Proc ι σ} :
      StartTag t b pos x found tag y → Matched b tag y next z → handler found = some (k, p) →
      p (z.values t.id k) ⟨b, tag.pos⟩ z = some (0, z') → Element t b (pos, x) (next, z')

def AtEnd (b pos : ℕ) (x : State ι σ) : Prop :=
  ∃ s, x.heap.bytes b = some s ∧ byte s (skipBlanks s pos) = 0

/-- A tag with which the parser leaves its memory: the name does not fit into `endToken`, or the
string ends right behind the blank after the name. -/
inductive TagFault (t : Table ι σ) (b pos : ℕ) (x : State ι σ) : Prop where
  | long {found : Option (ℕ × Node ι σ)} {tag : Tag} {y : State ι σ} :
      StartTag t b pos x found tag y → tag.simple = false → 96 < tag.name.length →
      TagFault t b pos x
  | cut {found : Option (ℕ × Node ι σ)} {tag : Tag} {y : State ι σ} :
      StartTag t b pos x found tag y → tag.simple = false → tag.bytes.length ≤ tag.pos →
      TagFault t b pos x
  | cutUnknown {s : List UInt8} {tag : Tag} :
      x.heap.bytes b = some s → byte s (skipBlanks s pos) ≠ 0 →
      readTag s (skipBlanks s pos) = .ok tag → findNode tag.name t.nodes = none →
      tag.bytes.length ≤ restEnd tag → TagFault t b pos x

inductive CallAt (t : Table ι σ) (b pos : ℕ) (x : State ι σ) :
    ℕ → Proc ι σ → Ptr → State ι σ → Prop where
  | mk {found : Option (ℕ × Node ι σ)} {tag : Tag} {next k : ℕ} {p : Proc ι σ} {y z : State ι σ} :
      StartTag t b pos x found tag y → Matched b tag y next z → handler found = some (k, p) →
      CallAt t b pos x k p ⟨b, tag.pos⟩ z

/-! ## One round -/

variable {t : Table ι σ} {b pos next : ℕ} {x y z : State ι σ}

variable {found : Option (ℕ × Node ι σ)} {content : Ptr} {k e : ℕ} {p : Proc ι σ} {tag : Tag}
  {s : List UInt8} {attributes : List (List UInt8)} {values values' : ℕ → Option Ptr}

omit [DecidableEq ι] in
theorem callNode_of_none (h : handler found = none) :
    callNode t.id found content next z = some (.next next, z) := by
  unfold callNode
  rw [show found.bind _ = none from h]

omit [DecidableEq ι] in
theorem callNode_of_some (h : handler found = some (k, p)) :
    callNode t.id found content next z = (p (z.values t.id k) content z).map fun r =>
      if r.1 = 0 then (.next next, r.2)
      else (.ret (if 0 < r.1 then r.1 + content.pos else r.1), r.2) := by
  unfold callNode
  rw [show found.bind _ = some (k, p) from h]

theorem readElement_of_startTag (h : StartTag t b pos x found tag y) :
    readElement t b pos x = readContent t.id found b tag y := by
  unfold readElement
  cases h with
  | known hs hend htag hfound hrest | unknown hs hend htag hfound hrest =>
    simp only [hs, bind_some, if_neg hend, htag, hfound, hrest]

theorem length_endToken (name : List UInt8) : (endToken name).length = name.length + 3 := by
  simp [endToken]

omit [DecidableEq ι] in
theorem readContent_of_matched (h : Matched b tag y next z) :
    readContent t.id found b tag y = callNode t.id found ⟨b, tag.pos⟩ next z := by
  unfold readContent
  cases h with
  | simple hsimple => rw [if_pos hsimple]
  | ended hsimple hname hs hpos hi =>
    have hlong : ¬100 < (endToken tag.name).length + 1 := by
      rw [length_endToken]
      omega
    rw [if_neg (by simp [hsimple]), if_neg hlong, hs]
    simp only [bind_some, if_neg (not_le.mpr hpos), hi]

theorem Element.readElement_eq {v w : ℕ × State ι σ} (h : Element t b v w) :
    readElement t b v.1 v.2 = some (.next w.1, w.2) := by
  cases h with
  | plain htag hmatched hhandler =>
    rw [readElement_of_startTag htag, readContent_of_matched hmatched, callNode_of_none hhandler]
  | handled htag hmatched hhandler hp =>
    rw [readElement_of_startTag htag, readContent_of_matched hmatched,
      callNode_of_some hhandler, hp]
    rfl

theorem AtEnd.readElement_eq (h : AtEnd b pos x) : readElement t b pos x = some (.ret 0, x) := by
  obtain ⟨s, hs, hend⟩ := h
  unfold readElement
  rw [hs]
  exact if_pos hend

theorem element_rightUnique : Relator.RightUnique (Element t b) := by
  intro u v w hv hw
  have heq := some.inj (hv.readElement_eq.symm.trans hw.readElement_eq)
  obtain ⟨hpos, hstate⟩ := Prod.mk.inj heq
  exact Prod.ext (Round.next.inj hpos) hstate

theorem CallAt.readElement_eq (h : CallAt t b pos x k p content z) :
    ∃ next, readElement t b pos x = (p (z.values t.id k) content z).map fun r =>
      if r.1 = 0 then (.next next, r.2)
      else (.ret (if 0 < r.1 then r.1 + content.pos else r.1), r.2) := by
  cases h with
  | @mk found tag next k p y z htag hmatched hhandler =>
    refine ⟨next, ?_⟩
    rw [readElement_of_startTag htag, readContent_of_matched hmatched, callNode_of_some hhandler]

theorem StartTag.bytes_eq (h : StartTag t b pos x found tag y) :
    y.heap.bytes b = some tag.bytes := by
  cases h with
  | known hs | unknown hs => exact Heap.bytes_write (isSome_of_mem hs)

theorem TagFault.readElement_eq (h : TagFault t b pos x) : readElement t b pos x = none := by
  cases h with
  | long htag hsimple hname =>
    rw [readElement_of_startTag htag]
    unfold readContent
    rw [if_neg (by simp [hsimple]), if_pos (by rw [length_endToken]; omega)]
  | cut htag hsimple hlength =>
    rw [readElement_of_startTag htag]
    unfold readContent
    rw [if_neg (by simp [hsimple]), htag.bytes_eq]
    split_ifs
    · rfl
    · exact if_pos hlength
  | cutUnknown hs hend htag hfound hlength =>
    unfold readElement
    simp only [hs, bind_some, if_neg hend, htag, hfound, skipRest, if_pos hlength, bind_none]

/-- What a round can come to. An error has the position 0 only if the text begins there. -/
inductive Outcome (t : Table ι σ) (b pos : ℕ) (x : State ι σ) :
    Option (Round × State ι σ) → Prop where
  | atEnd : AtEnd b pos x → Outcome t b pos x (some (.ret 0, x))
  | element {next : ℕ} {z : State ι σ} :
      Element t b (pos, x) (next, z) → Outcome t b pos x (some (.next next, z))
  | text {s : List UInt8} : x.heap.bytes b = some s → byte s (skipBlanks s pos) ≠ 0 →
      byte s (skipBlanks s pos) ≠ 60 → Outcome t b pos x (some (.ret (skipBlanks s pos), x))
  | error {code : ℤ} {z : State ι σ} : code ≠ 0 → Outcome t b pos x (some (.ret code, z))
  | fault : TagFault t b pos x → Outcome t b pos x none
  | undefined {k : ℕ} {p : Proc ι σ} {content : Ptr} {z : State ι σ} :
      CallAt t b pos x k p content z → p (z.values t.id k) content z = none →
      Outcome t b pos x none

theorem readTag_error (h : readTag s pos = .error e) : pos < e ∨ byte s pos ≠ 60 ∧ e = pos := by
  unfold readTag at h
  dsimp only at h
  have hstop := le_skipWhile isNameChar s (pos + 1)
  split_ifs at h with hopen
  · cases h
    exact .inr ⟨hopen, rfl⟩
  all_goals
    cases h
    exact .inl (by omega)

theorem readAttributes_error (fuel : ℕ)
    (h : readAttributes attributes b fuel values s pos = (values', .error e)) : pos ≤ e := by
  induction fuel generalizing values s pos with
  | zero => cases h
  | succ fuel ih =>
    unfold readAttributes at h
    dsimp only at h
    have hequals := le_skipWhile isNameChar s pos
    have hstop := le_skipWhile isValueChar s (skipWhile isNameChar s pos + 2)
    split_ifs at h with halpha hsign hquote hend
    · cases h
    · cases h
      exact hequals
    · cases h
      omega
    · cases h
      omega
    · have hnext := (le_skipWhile isBlank s _).trans (ih h)
      omega

theorem readRest_error (h : readRest attributes b values tag = (values', .error e)) :
    tag.pos ≤ e := by
  have hblanks := le_skipWhile isBlank tag.bytes tag.pos
  unfold readRest at h
  split_ifs at h with hend
  · cases h
  · split at h
    · rename_i hattributes
      cases h
      exact hblanks.trans (readAttributes_error _ hattributes)
    · rename_i s pos' hattributes
      have hle := hblanks.trans (readAttributes_ok hattributes).2
      have hclose := (Prod.mk.inj h).2
      unfold closeTag at hclose
      split_ifs at hclose
      all_goals
        cases hclose
        omega

theorem skipRest_error (h : skipRest tag = some (.error e)) : tag.pos ≤ e := by
  unfold skipRest at h
  split_ifs at h with hlong hend
  · cases h
    exact le_restEnd
  · cases h

theorem outcome_of_startTag (h : StartTag t b pos x found tag y) (hpos : 0 < tag.pos) :
    Outcome t b pos x (readContent t.id found b tag y) := by
  have hcall {next : ℕ} {z : State ι σ} (hmatched : Matched b tag y next z) :
      Outcome t b pos x (callNode t.id found ⟨b, tag.pos⟩ next z) := by
    cases hhandler : handler found with
    | none =>
      rw [callNode_of_none hhandler]
      exact .element (.plain h hmatched hhandler)
    | some kp =>
      obtain ⟨k, p⟩ := kp
      rw [callNode_of_some hhandler]
      cases hp : p (z.values t.id k) ⟨b, tag.pos⟩ z with
      | none => exact .undefined (.mk h hmatched hhandler) hp
      | some r =>
        obtain ⟨code, z'⟩ := r
        rw [map_some]
        split_ifs with hzero hsign
        · subst hzero
          exact .element (.handled h hmatched hhandler hp)
        · exact .error (by omega)
        · exact .error hzero
  unfold readContent
  split_ifs with hsimple hlong
  · exact hcall (.simple hsimple)
  · rw [length_endToken] at hlong
    exact .fault (.long h (Bool.eq_false_iff.mpr hsimple) (by omega))
  · rw [h.bytes_eq, bind_some]
    rw [length_endToken] at hlong
    split_ifs with hcut
    · exact .fault (.cut h (Bool.eq_false_iff.mpr hsimple) hcut)
    · split
      · exact .error (by omega)
      · rename_i i hi
        exact hcall (.ended (Bool.eq_false_iff.mpr hsimple) (by omega) h.bytes_eq
          (not_le.mp hcut) hi)

theorem readElement_outcome (hs : x.heap.bytes b = some s) :
    Outcome t b pos x (readElement t b pos x) := by
  have heq := hs
  unfold readElement
  rw [heq, bind_some]
  split_ifs with hend
  · exact .atEnd ⟨s, hs, hend⟩
  · split
    · rename_i e htag
      rcases readTag_error htag with hlt | ⟨htext, rfl⟩
      · exact .error (by omega)
      · exact .text hs hend htext
    · rename_i tag htag
      have hpos := (readTag_ok htag).2
      split
      · rename_i k n hfound
        split
        · rename_i hrest
          have hle := readRest_error hrest
          exact .error (by omega)
        · rename_i hrest
          have hlt := (readRest_ok hrest).2
          exact outcome_of_startTag (.known hs hend htag hfound hrest) (by omega)
      · rename_i hfound
        cases hrest : skipRest tag with
        | none =>
          refine .fault (.cutUnknown hs hend htag hfound ?_)
          unfold skipRest at hrest
          split_ifs at hrest with hcut
          exact hcut
        | some rest =>
          cases rest with
          | error e =>
            have hle := skipRest_error hrest
            exact .error (by omega)
          | ok tag' =>
            have hle := (skipRest_ok hrest).2
            exact outcome_of_startTag (.unknown hs hend htag hfound hrest) (by omega)

/-! ## The whole string -/

variable {owned : σ → List ℕ} {str : List UInt8} {code : ℤ} {v w : ℕ × State ι σ}

theorem bytes_of_reach (ht : t.Keeps owned) (h : ReflTransGen (Element t b) v w)
    (hs : v.2.heap.bytes b = some s) : ∃ s', w.2.heap.bytes b = some s' ∧ s'.length = s.length := by
  induction h with
  | refl => exact ⟨s, hs, rfl⟩
  | tail _ hstep ih =>
    obtain ⟨s₁, hs₁, hlength₁⟩ := ih
    obtain ⟨s₂, hs₂, hlength₂⟩ := (readElement_keeps ht hstep.readElement_eq).grows.bytes b s₁ hs₁
    exact ⟨s₂, hs₂, hlength₂.trans hlength₁⟩

theorem le_of_reach (h : ReflTransGen (Element t b) v w) : v = w ∨ v.1 < w.1 := by
  induction h with
  | refl => exact .inl rfl
  | tail _ hstep ih =>
    have hlt := readElement_next hstep.readElement_eq
    rcases ih with rfl | ih
    · exact .inr hlt
    · exact .inr (ih.trans hlt)

/-- Where the loop ends. -/
inductive Ends (t : Table ι σ) (b : ℕ) (v : ℕ × State ι σ) : Option (ℤ × State ι σ) → Prop where
  | finished {pos : ℕ} {y : State ι σ} :
      ReflTransGen (Element t b) v (pos, y) → AtEnd b pos y → Ends t b v (some (0, y))
  | stopped {pos : ℕ} {code : ℤ} {y z : State ι σ} :
      ReflTransGen (Element t b) v (pos, y) → ¬AtEnd b pos y →
      readElement t b pos y = some (.ret code, z) → Ends t b v (some (code, z))
  | undefined {pos : ℕ} {y : State ι σ} :
      ReflTransGen (Element t b) v (pos, y) → readElement t b pos y = none → Ends t b v none

theorem Ends.head {r : Option (ℤ × State ι σ)} (hstep : Element t b v w) (h : Ends t b w r) :
    Ends t b v r := by
  cases h with
  | finished hreach hend => exact .finished (.head hstep hreach) hend
  | stopped hreach hend hr => exact .stopped (.head hstep hreach) hend hr
  | undefined hreach hr => exact .undefined (.head hstep hreach) hr

omit [DecidableEq ι] in
theorem atEnd_of_byte (hs : x.heap.bytes b = some s) (h : byte s pos = 0) : AtEnd b pos x := by
  refine ⟨s, hs, ?_⟩
  have hstay : skipBlanks s pos = pos := by
    unfold skipBlanks skipWhile
    rw [Nat.add_eq_left, length_eq_zero_iff]
    rcases hdrop : s.drop pos with _ | ⟨c, rest⟩
    · rfl
    · have hc : c = 0 := by
        rw [← h, byte, getD_eq_getElem?_getD, ← head?_drop, hdrop]
        rfl
      rw [hc]
      exact takeWhile_cons_of_neg (by decide)
  rw [hstay, h]

theorem parseLoop_ends (ht : t.Keeps owned) {fuel : ℕ} (hs : x.heap.bytes b = some s)
    (hfuel : s.length ≤ pos + fuel) :
    Ends t b (pos, x) (parseLoop t b (fuel + 1) pos x) := by
  induction fuel generalizing pos x s with
  | zero =>
    have hle : s.length ≤ pos := hfuel
    rw [parseLoop_of_le hs hle]
    exact .finished .refl (atEnd_of_byte hs (getD_eq_default _ _ hle))
  | succ fuel ih =>
    have heq := hs
    unfold parseLoop
    rw [heq, bind_some]
    split_ifs with hend
    · exact .finished .refl (atEnd_of_byte hs hend)
    have hround : Outcome t b pos x (readElement t b pos x) := readElement_outcome hs
    generalize hr : readElement t b pos x = r at hround
    cases hround with
    | atEnd hatEnd => exact .finished .refl hatEnd
    | @element next z hstep =>
      obtain ⟨s', hs', hlength⟩ := (readElement_keeps ht hr).grows.bytes b s hs
      have hlt := readElement_next hr
      exact .head hstep (ih hs' (by omega))
    | text hs' hend' htext =>
      refine .stopped .refl ?_ hr
      rintro ⟨s'', hs'', hend''⟩
      cases hs'.symm.trans hs''
      exact hend' hend''
    | error hcode =>
      refine .stopped .refl (fun hatEnd => ?_) hr
      have heq := some.inj (hatEnd.readElement_eq.symm.trans hr)
      exact hcode (Round.ret.inj (Prod.mk.inj heq).1).symm
    | fault hfault | undefined hcall hp => exact .undefined .refl hr

/-- A call of the parser comes to a round at `pos` in the state `y`. -/
def Reaches (t : Table ι σ) (str : List UInt8) (x : State ι σ) (b pos : ℕ) (y : State ι σ) : Prop :=
  ∃ x₁, x.malloc (str ++ [0]) = (some b, x₁) ∧ ReflTransGen (Element t b) (0, x₁) (pos, y)

/-- All the string is elements, each with its end and a processing function that returned 0. -/
def Completes (t : Table ι σ) (str : List UInt8) (x : State ι σ) : Prop :=
  ∃ b pos y, Reaches t str x b pos y ∧ AtEnd b pos y

def Faulty (t : Table ι σ) (str : List UInt8) (x : State ι σ) : Prop :=
  ∃ b pos y, Reaches t str x b pos y ∧ TagFault t b pos y

def Calls (t : Table ι σ) (str : List UInt8) (x : State ι σ) (k : ℕ) (p : Proc ι σ) (content : Ptr)
    (z : State ι σ) : Prop :=
  ∃ b pos y, Reaches t str x b pos y ∧ CallAt t b pos y k p content z

/-- The first character is not blank and does not open a tag, and there is memory for the copy. -/
def BeginsWithText (str : List UInt8) (x : State ι σ) : Prop :=
  x.memory 0 = true ∧ isBlank (byte str 0) = false ∧ byte str 0 ≠ 60 ∧ byte str 0 ≠ 0

theorem byte_copy (str : List UInt8) : byte (str ++ [0]) 0 = byte str 0 := by
  cases str with
  | nil | cons c str => rfl

theorem skipBlanks_eq_zero (h : skipBlanks s pos = 0) : pos = 0 ∧ isBlank (byte s 0) = false := by
  have hle := le_skipWhile isBlank s pos
  have hzero : skipWhile isBlank s pos = 0 := h
  obtain rfl : pos = 0 := by omega
  refine ⟨rfl, Bool.eq_false_iff.mpr fun hblank => ?_⟩
  have hlt : 0 < skipWhile isBlank s 0 := lt_skipWhile rfl hblank
  omega

theorem skipBlanks_zero (h : isBlank (byte s 0) = false) : skipBlanks s 0 = 0 := by
  unfold skipBlanks skipWhile
  rw [drop_zero, Nat.zero_add, length_eq_zero_iff]
  cases s with
  | nil => rfl
  | cons c s => exact takeWhile_cons_of_neg (Bool.eq_false_iff.mp h)

omit [DecidableEq ι] in
theorem bytes_of_malloc (h : x.malloc s = (some b, y)) : y.heap.bytes b = some s := by
  obtain ⟨rfl, hheap, -⟩ := malloc_some h
  rw [hheap]
  exact Heap.bytes_alloc_size _ _

theorem Reaches.bytes (ht : t.Keeps owned) (h : Reaches t str x b pos y) :
    ∃ s, y.heap.bytes b = some s := by
  obtain ⟨x₁, hmalloc, hreach⟩ := h
  obtain ⟨s, hs, -⟩ := bytes_of_reach ht hreach (bytes_of_malloc hmalloc)
  exact ⟨s, hs⟩

theorem Reaches.unique {b' pos' : ℕ} {y' : State ι σ} (h : Reaches t str x b pos y)
    (h' : Reaches t str x b' pos' y') (hstop : ∀ w, ¬Element t b (pos, y) w)
    (hstop' : ∀ w, ¬Element t b' (pos', y') w) : b' = b ∧ pos' = pos ∧ y' = y := by
  obtain ⟨x₁, hmalloc, hreach⟩ := h
  obtain ⟨x₂, hmalloc', hreach'⟩ := h'
  obtain ⟨hb, rfl⟩ := Prod.mk.inj (hmalloc'.symm.trans hmalloc)
  cases hb
  have heq : (pos', y') = (pos, y) := by
    rcases ReflTransGen.total_of_right_unique element_rightUnique hreach' hreach with h | h
    · rcases h.cases_head with heq | ⟨w, hw, -⟩
      · exact heq
      · exact absurd hw (hstop' w)
    · rcases h.cases_head with heq | ⟨w, hw, -⟩
      · exact heq.symm
      · exact absurd hw (hstop w)
  exact ⟨rfl, Prod.mk.inj heq⟩

theorem not_element_of_ret (h : readElement t b pos x = some (.ret code, z)) (w : ℕ × State ι σ) :
    ¬Element t b (pos, x) w := by
  intro hw
  cases hw.readElement_eq.symm.trans h

theorem not_element_of_none (h : readElement t b pos x = none) (w : ℕ × State ι σ) :
    ¬Element t b (pos, x) w := by
  intro hw
  cases hw.readElement_eq.symm.trans h

omit [DecidableEq ι] in
theorem malloc_of_memory (h : x.memory 0 = true) :
    ∃ x₁, x.malloc s = (some x.heap.size, x₁) := ⟨_, if_pos h⟩

omit [DecidableEq ι] in
theorem memory_of_malloc (h : x.malloc s = (some b, y)) : x.memory 0 = true := by
  by_contra hmemory
  unfold State.malloc at h
  rw [if_neg hmemory] at h
  cases h

theorem Reaches.memory (h : Reaches t str x b pos y) : x.memory 0 = true := by
  obtain ⟨x₁, hmalloc, -⟩ := h
  exact memory_of_malloc hmalloc

theorem xmlParse_last (ht : t.Keeps owned) :
    (x.memory 0 = false ∧ ∃ z, xmlParse t str x = some (-1, z)) ∨
    ∃ b pos y, Reaches t str x b pos y ∧
      ((∃ code y' z, readElement t b pos y = some (.ret code, y') ∧
          xmlParse t str x = some (code, z)) ∨
        (readElement t b pos y = none ∧ xmlParse t str x = none)) := by
  unfold xmlParse
  cases hmemory : x.memory 0 with
  | false =>
    refine .inl ⟨rfl, { x with memory := fun n => x.memory (n + 1) }, ?_⟩
    unfold State.malloc
    rw [if_neg (by simp [hmemory])]
  | true =>
    right
    obtain ⟨x₁, hmalloc⟩ := malloc_of_memory (s := str ++ [0]) hmemory
    rw [hmalloc]
    have hends : Ends t x.heap.size (0, x₁) (parseLoop t x.heap.size (str.length + 2) 0 x₁) :=
      parseLoop_ends ht (bytes_of_malloc hmalloc) (by simp)
    dsimp only
    generalize parseLoop t x.heap.size (str.length + 2) 0 x₁ = r at hends ⊢
    cases hends with
    | finished hreach hend =>
      exact ⟨_, _, _, ⟨x₁, hmalloc, hreach⟩, .inl ⟨0, _, _, hend.readElement_eq, rfl⟩⟩
    | stopped hreach hend hr =>
      exact ⟨_, _, _, ⟨x₁, hmalloc, hreach⟩, .inl ⟨_, _, _, hr, rfl⟩⟩
    | undefined hreach hr => exact ⟨_, _, _, ⟨x₁, hmalloc, hreach⟩, .inr ⟨hr, rfl⟩⟩

section

variable (ht : t.Keeps owned)
include ht

section

variable (h : Reaches t str x b pos y)
include h

theorem Reaches.last (hstop : ∀ w, ¬Element t b (pos, y) w) :
    (∃ code y' z, readElement t b pos y = some (.ret code, y') ∧
      xmlParse t str x = some (code, z)) ∨
      (readElement t b pos y = none ∧ xmlParse t str x = none) := by
  rcases xmlParse_last ht with ⟨hmemory, -⟩ | ⟨b', pos', y', h', hend⟩
  · rw [h.memory] at hmemory
    cases hmemory
  have hstop' : ∀ w, ¬Element t b' (pos', y') w := by
    rcases hend with ⟨code, z, -, hr, -⟩ | ⟨hr, -⟩
    · exact not_element_of_ret hr
    · exact not_element_of_none hr
  obtain ⟨rfl, rfl, rfl⟩ := h.unique h' hstop hstop'
  exact hend

theorem xmlParse_of_none (hr : readElement t b pos y = none) : xmlParse t str x = none := by
  rcases h.last ht (not_element_of_none hr) with ⟨code, z, -, hr', -⟩ | ⟨-, hnone⟩
  · cases hr.symm.trans hr'
  · exact hnone

theorem xmlParse_of_ret (hr : readElement t b pos y = some (.ret code, z)) :
    ∃ z', xmlParse t str x = some (code, z') := by
  rcases h.last ht (not_element_of_ret hr) with ⟨code', y', z', hr', hparse⟩ | ⟨hr', -⟩
  · cases hr.symm.trans hr'
    exact ⟨z', hparse⟩
  · cases hr.symm.trans hr'

end

theorem xmlParse_eq_none_iff : xmlParse t str x = none ↔ Faulty t str x ∨
      ∃ k p content z, Calls t str x k p content z ∧ p (z.values t.id k) content z = none := by
  constructor
  · intro hnone
    rcases xmlParse_last ht with ⟨-, z, hz⟩ | ⟨b, pos, y, h, hend⟩
    · rw [hnone] at hz
      cases hz
    rcases hend with ⟨code, -, z, -, hz⟩ | ⟨hr, -⟩
    · rw [hnone] at hz
      cases hz
    · obtain ⟨s, hs⟩ := h.bytes ht
      have hround : Outcome t b pos y (readElement t b pos y) := readElement_outcome hs
      rw [hr] at hround
      cases hround with
      | fault hfault => exact .inl ⟨b, pos, y, h, hfault⟩
      | undefined hcall hp => exact .inr ⟨_, _, _, _, ⟨b, pos, y, h, hcall⟩, hp⟩
  · rintro (⟨b, pos, y, h, hfault⟩ | ⟨k, p, content, z, ⟨b, pos, y, h, hcall⟩, hp⟩)
    · exact xmlParse_of_none ht h hfault.readElement_eq
    · obtain ⟨next, hr⟩ := hcall.readElement_eq
      rw [hp, map_none] at hr
      exact xmlParse_of_none ht h hr

end

theorem BeginsWithText.reaches (h : BeginsWithText str x) (t : Table ι σ) :
    ∃ b y, Reaches t str x b 0 y ∧ ¬AtEnd b 0 y ∧ readElement t b 0 y = some (.ret 0, y) := by
  obtain ⟨hmemory, hblank, htext, hend⟩ := h
  obtain ⟨x₁, hmalloc⟩ := malloc_of_memory (s := str ++ [0]) hmemory
  have hs := bytes_of_malloc hmalloc
  have hskip : skipBlanks (str ++ [0]) 0 = 0 := skipBlanks_zero (by rw [byte_copy, hblank])
  have hbyte : byte (str ++ [0]) (skipBlanks (str ++ [0]) 0) = byte str 0 := by
    rw [hskip, byte_copy]
  refine ⟨_, x₁, ⟨x₁, hmalloc, .refl⟩, ?_, ?_⟩
  · rintro ⟨s, hs', hend'⟩
    cases hs.symm.trans hs'
    rw [hbyte] at hend'
    exact hend hend'
  · have htag : readTag (str ++ [0]) (skipBlanks (str ++ [0]) 0) = .error 0 := by
      unfold readTag
      rw [hbyte, if_pos htext, hskip]
    unfold readElement
    rw [hs, bind_some, hbyte, if_neg hend, htag]
    rfl

theorem Completes.not_text (h : Completes t str x) : ¬BeginsWithText str x := by
  intro htext
  obtain ⟨b, pos, y, hreach, hend⟩ := h
  obtain ⟨b', y', hreach', hend', hr⟩ := htext.reaches t
  obtain ⟨rfl, rfl, rfl⟩ := hreach.unique hreach' (not_element_of_ret hend.readElement_eq)
    (not_element_of_ret hr)
  exact hend' hend

theorem xmlParse_eq_zero_iff (ht : t.Keeps owned) (h : xmlParse t str x = some (code, z)) :
    code = 0 ↔ Completes t str x ∨ BeginsWithText str x := by
  constructor
  · rintro rfl
    rcases xmlParse_last ht with ⟨-, z', hz⟩ | ⟨b, pos, y, hreach, hend⟩
    · rw [h] at hz
      cases hz
    rcases hend with ⟨code, y', z', hr, hz⟩ | ⟨-, hz⟩
    · rw [h] at hz
      cases hz
      obtain ⟨s, hs⟩ := hreach.bytes ht
      have hround : Outcome t b pos y (readElement t b pos y) := readElement_outcome hs
      generalize hr' : readElement t b pos y = r at hround
      rw [hr] at hr'
      subst hr'
      generalize hcode : (0 : ℤ) = code at hround
      cases hround with
      | atEnd hatEnd => exact .inl ⟨b, pos, y, hreach, hatEnd⟩
      | error hne => exact absurd hcode.symm hne
      | text hs' hne htext =>
        right
        -- Only the first round can stop at 0, and there the copy is still the string.
        have hmemory := hreach.memory
        obtain ⟨rfl, hblank⟩ := skipBlanks_eq_zero (Int.natCast_eq_zero.mp hcode.symm)
        rw [skipBlanks_zero hblank] at hne htext
        obtain ⟨x₁, hmalloc, hsteps⟩ := hreach
        rcases le_of_reach hsteps with heq | hlt
        · cases heq
          obtain rfl := some.inj ((bytes_of_malloc hmalloc).symm.trans hs')
          rw [byte_copy] at hblank hne htext
          exact ⟨hmemory, hblank, htext, hne⟩
        · exact absurd hlt (Nat.lt_irrefl 0)
    · rw [h] at hz
      cases hz
  · rintro (⟨b, pos, y, hreach, hend⟩ | htext)
    · obtain ⟨z', hz⟩ := xmlParse_of_ret ht hreach hend.readElement_eq
      rw [h] at hz
      cases hz
      rfl
    · obtain ⟨b, y, hreach, -, hr⟩ := htext.reaches t
      obtain ⟨z', hz⟩ := xmlParse_of_ret ht hreach hr
      rw [h] at hz
      cases hz
      rfl

theorem Calls.result_eq_zero {r : ℤ × State ι σ} (ht : t.Keeps owned)
    (h : Calls t str x k p content z) {x' : State ι σ} (hparse : xmlParse t str x = some (0, x'))
    (hp : p (z.values t.id k) content z = some r) :
    r.1 = 0 := by
  obtain ⟨b, pos, y, hreach, hcall⟩ := h
  obtain ⟨next, hr⟩ := hcall.readElement_eq
  rw [hp, map_some] at hr
  by_contra hne
  rw [if_neg hne] at hr
  obtain ⟨z', hz⟩ := xmlParse_of_ret ht hreach hr
  rw [hparse] at hz
  have hcode := congrArg Prod.fst (some.inj hz)
  split_ifs at hcode with hpos
  · omega
  · exact hne hcode.symm

theorem Calls.node (h : Calls t str x k p content z) :
    ∃ n, t.nodes[k]? = some n ∧ n.p = some p := by
  obtain ⟨b, pos, y, -, hcall⟩ := h
  cases hcall with
  | mk htag hmatched hhandler =>
    cases htag with
    | unknown => cases hhandler
    | known hs hend htag hfound hrest =>
      obtain ⟨i, -, hi⟩ := bind_eq_some_iff.mp hfound
      obtain ⟨n, hn, heq⟩ := map_eq_some_iff.mp hi
      cases heq
      obtain ⟨p', hp', heq'⟩ := map_eq_some_iff.mp hhandler
      cases heq'
      exact ⟨_, hn, hp'⟩

/-- A call returns, with 0 if and only if it completes: this is so if and only if the string does
not begin with text, the parser does not leave its memory and all processing functions return. -/
theorem xmlParse_exact_iff (ht : t.Keeps owned) :
    (∃ code x', xmlParse t str x = some (code, x') ∧ (code = 0 ↔ Completes t str x)) ↔
      ¬BeginsWithText str x ∧ ¬Faulty t str x ∧
        ∀ k p content z, Calls t str x k p content z → p (z.values t.id k) content z ≠ none := by
  constructor
  · rintro ⟨code, x', hparse, hcode⟩
    have hsome : ¬xmlParse t str x = none := by
      rw [hparse]
      exact some_ne_none _
    rw [xmlParse_eq_none_iff ht, not_or] at hsome
    refine ⟨fun htext => ?_, hsome.1, fun k p content z hcall hp => ?_⟩
    · have hzero := (xmlParse_eq_zero_iff ht hparse).mpr (.inr htext)
      exact (hcode.mp hzero).not_text htext
    · exact hsome.2 ⟨k, p, content, z, hcall, hp⟩
  · rintro ⟨htext, hfault, hcalls⟩
    cases hparse : xmlParse t str x with
    | none =>
      rcases (xmlParse_eq_none_iff ht).mp hparse with h | ⟨k, p, content, z, hcall, hp⟩
      · exact absurd h hfault
      · exact absurd hp (hcalls k p content z hcall)
    | some r =>
      refine ⟨r.1, r.2, rfl, (xmlParse_eq_zero_iff ht hparse).trans ?_⟩
      exact or_iff_left htext

/-! ## The end tag -/

/-- A call of the parser comes to an element with this name and builds its end tag in `endToken`. -/
def BuildsEndTag (t : Table ι σ) (str : List UInt8) (x : State ι σ) (name : List UInt8) : Prop :=
  ∃ b pos y found tag z, Reaches t str x b pos y ∧ StartTag t b pos y found tag z ∧
    tag.simple = false ∧ tag.name = name

/-- The end tags with their zeros are at most 100 bytes long if and only if the parser comes only to
names of at most 96 characters. A longer name is the end of the call, for it leaves its memory. -/
theorem endTag_fits_iff (t : Table ι σ) (str : List UInt8) (x : State ι σ) :
    ((∀ name, BuildsEndTag t str x name → (endToken name).length + 1 ≤ 100) ↔
      ∀ name, BuildsEndTag t str x name → name.length ≤ 96) ∧
    ∀ owned, t.Keeps owned → ∀ name, BuildsEndTag t str x name → 96 < name.length →
      xmlParse t str x = none := by
  constructor
  · refine forall_congr' fun name => imp_congr_right fun _ => ?_
    rw [length_endToken]
    omega
  · rintro owned ht name ⟨b, pos, y, found, tag, z, hreach, htag, hsimple, rfl⟩ hlong
    have hfault : TagFault t b pos y := .long htag hsimple hlong
    exact xmlParse_of_none ht hreach hfault.readElement_eq

/-- An element that is not in the table, with a name of 97 letters. -/
theorem long_name_overflows :
    let t : Table Unit Unit := ⟨(), []⟩
    let x : State Unit Unit := ⟨⟨[]⟩, fun _ _ _ => none, fun _ => true, ()⟩
    let name := replicate 97 97
    BuildsEndTag t (60 :: name ++ 62 :: endToken name) x name ∧ (endToken name).length + 1 = 101 ∧
      xmlParse t (60 :: name ++ 62 :: endToken name) x = none := by
  intro t x name
  let s := 60 :: name ++ 62 :: endToken name ++ [0]
  have htag : readTag s 0 = .ok ⟨name, s.set 98 0, 98, false⟩ := by decide +kernel
  refine ⟨⟨0, 0, _, none, ⟨name, s.set 98 0, 99, false⟩, _, ⟨_, rfl, .refl⟩,
    .unknown (s := s) rfl ?_ htag rfl ?_, rfl, rfl⟩, ?_, ?_⟩
  all_goals decide +kernel

end Maiccu.Gogoc.Xml
