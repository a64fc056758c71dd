import Maiccu.Gogoc.TunnelResult

/-!
# The attributes that a processing function sees

The values of the attributes are in the tables of `xml_tun.c`, which are static. A start tag stores
the attributes that it carries and leaves the others as an earlier tag or document has left them.
Here the values that a processing function sees are compared with those in its start tag.
-/

namespace Maiccu.Gogoc.Xml

open Maiccu.Lib Relation List Option Function

/-! ## What is written in a tag -/

/-- An attribute as it is written: its name, and where its value begins. -/
structure Written where
  name : List UInt8
  pos : ℕ
  text : List UInt8

/-- The attributes from `pos` on, up to the first place that is not an attribute. -/
def writtenFrom (s : List UInt8) : ℕ → ℕ → List Written
  | 0, _ => []
  | fuel + 1, pos =>
    let equals := skipWhile isNameChar s pos
    let stop := skipWhile isValueChar s (equals + 2)
    if isAlpha (byte s pos) = true ∧ byte s equals = 61 ∧ byte s (equals + 1) = 34 ∧
        byte s stop = 34 then
      ⟨(s.drop pos).takeWhile isNameChar, equals + 2,
          (s.drop (equals + 2)).takeWhile isValueChar⟩ ::
        writtenFrom s fuel (skipBlanks s (stop + 1))
    else []

def written (tag : Tag) : List Written :=
  if byte tag.bytes tag.pos = 0 then []
  else writtenFrom tag.bytes tag.bytes.length (skipBlanks tag.bytes tag.pos)

/-- The attribute of the tag for the entry `i` of a node, the last one if there are several. -/
def ownAttribute (attributes : List (List UInt8)) (ws : List Written) (i : ℕ) : Option Written :=
  ws.reverse.find? fun a => findAttribute a.name attributes = some i

variable {a : Written}

section Written

variable {s s₀ s' : List UInt8} {pos pos' n b : ℕ} {attributes : List (List UInt8)}
  {values values' : ℕ → Option Ptr}

/-- The text at a place of a string, with the zero behind it. -/
def TextAt (s : List UInt8) (pos : ℕ) (text : List UInt8) : Prop :=
  (s.drop pos).take (text.length + 1) = text ++ [0]

variable {text : List UInt8}

theorem TextAt.of_take (h : TextAt s pos text)
    (hend : pos + text.length < n) (htake : s'.take n = s.take n) : TextAt s' pos text := by
  unfold TextAt at h ⊢
  have hshort (l : List UInt8) : l.take (pos + (text.length + 1)) =
      (l.take n).take (pos + (text.length + 1)) := by
    rw [take_take, Nat.min_eq_left (by omega)]
  rw [take_drop, hshort s', htake, ← hshort s, ← take_drop, h]

theorem drop_eq_of_le (h : s.drop pos = s₀.drop pos) (hle : pos ≤ n) : s.drop n = s₀.drop n := by
  obtain ⟨m, rfl⟩ := Nat.exists_eq_add_of_le hle
  rw [← drop_drop, h, drop_drop]

theorem byte_eq_of_drop (h : s.drop pos = s₀.drop pos) : byte s pos = byte s₀ pos := by
  unfold byte
  rw [getD_eq_getElem?_getD, getD_eq_getElem?_getD, ← head?_drop, ← head?_drop, h]

variable {p : UInt8 → Bool}

theorem skipWhile_eq_of_drop (h : s.drop pos = s₀.drop pos) :
    skipWhile p s pos = skipWhile p s₀ pos := by
  unfold skipWhile
  rw [h]

theorem textAt_set (hstop : byte s (skipWhile p s pos) ≠ 0) :
    TextAt (s.set (skipWhile p s pos) 0) pos ((s.drop pos).takeWhile p) := by
  have hsplit : (s.drop pos).takeWhile p ++ (s.drop pos).dropWhile p = s.drop pos :=
    takeWhile_append_dropWhile
  have hstop : byte s (pos + ((s.drop pos).takeWhile p).length) ≠ 0 := hstop
  unfold skipWhile
  generalize (s.drop pos).takeWhile p = w at hsplit hstop ⊢
  cases hrest : (s.drop pos).dropWhile p with
  | nil =>
    refine absurd ?_ hstop
    rw [hrest, append_nil] at hsplit
    unfold byte
    rw [getD_eq_getElem?_getD, ← getElem?_drop, ← hsplit, getElem?_eq_none le_rfl]
    rfl
  | cons c rest =>
    rw [hrest] at hsplit
    unfold TextAt
    rw [drop_set, if_neg (by omega), Nat.add_sub_cancel_left, ← hsplit,
      set_append_right _ _ le_rfl, Nat.sub_self, take_length_add_append]
    rfl

def store (attributes : List (List UInt8)) (b : ℕ) (values : ℕ → Option Ptr) (a : Written) :
    ℕ → Option Ptr :=
  match findAttribute a.name attributes with
  | none => values
  | some i => update values i (some ⟨b, a.pos⟩)

theorem store_apply (a : Written) (i : ℕ) : store attributes b values a i =
    if findAttribute a.name attributes = some i then some ⟨b, a.pos⟩ else values i := by
  unfold store
  split_ifs with hi
  · rw [hi]
    exact update_self ..
  · cases hfind : findAttribute a.name attributes with
    | none => rfl
    | some j =>
      rw [hfind] at hi
      exact update_of_ne (fun heq => hi (congrArg some heq.symm)) ..

theorem foldl_store (ws : List Written) (i : ℕ) : ws.foldl (store attributes b) values i =
      ((ownAttribute attributes ws i).elim (values i) fun a => some ⟨b, a.pos⟩) := by
  induction ws generalizing values with
  | nil => rfl
  | cons a ws ih =>
    have hown : ownAttribute attributes (a :: ws) i = (ownAttribute attributes ws i).or
        (if findAttribute a.name attributes = some i then some a else none) := by
      unfold ownAttribute
      rw [reverse_cons, find?_append, find?_singleton]
      simp only [decide_eq_true_eq]
    rw [foldl_cons, ih, hown, store_apply]
    cases ownAttribute attributes ws i with
    | some a' => rfl
    | none =>
      split_ifs
      · rfl
      · rfl

theorem textAt_value {equals : ℕ} (hend : byte s (skipWhile isValueChar s (equals + 2)) = 34) :
    TextAt ((s.set equals 0).set (skipWhile isValueChar s (equals + 2)) 0) (equals + 2)
      ((s.drop (equals + 2)).takeWhile isValueChar) := by
  have hset : (s.set equals 0).drop (equals + 2) = s.drop (equals + 2) :=
    drop_set_of_lt (by omega)
  have hle := le_skipWhile isValueChar s (equals + 2)
  rw [← hset, ← skipWhile_eq_of_drop hset]
  refine textAt_set ?_
  rw [skipWhile_eq_of_drop hset, byte_eq_of_drop (drop_eq_of_le hset hle), hend]
  decide

theorem readAttributes_written (fuel : ℕ)
    (h : readAttributes attributes b fuel values s pos = (values', .ok (s', pos')))
    (hdrop : s.drop pos = s₀.drop pos) :
    values' = (writtenFrom s₀ fuel pos).foldl (store attributes b) values ∧
      s'.take pos = s.take pos ∧
      ∀ a ∈ writtenFrom s₀ fuel pos, TextAt s' a.pos a.text ∧ a.pos + a.text.length < pos' := by
  induction fuel generalizing values s pos with
  | zero =>
    cases h
    exact ⟨rfl, rfl, fun a ha => absurd ha not_mem_nil⟩
  | succ fuel ih =>
    unfold readAttributes at h
    dsimp only at h
    unfold writtenFrom
    dsimp only
    have hequals : skipWhile isNameChar s pos = skipWhile isNameChar s₀ pos :=
      skipWhile_eq_of_drop hdrop
    have hle := le_skipWhile isNameChar s pos
    rw [← hequals, ← byte_eq_of_drop hdrop, ← hdrop]
    generalize skipWhile isNameChar s pos = equals at h hle ⊢
    have hdrop₁ : s.drop (equals + 2) = s₀.drop (equals + 2) := drop_eq_of_le hdrop (by omega)
    have hstop : skipWhile isValueChar s (equals + 2) = skipWhile isValueChar s₀ (equals + 2) :=
      skipWhile_eq_of_drop hdrop₁
    have hlestop := le_skipWhile isValueChar s (equals + 2)
    rw [← byte_eq_of_drop (drop_eq_of_le hdrop hle),
      ← byte_eq_of_drop (drop_eq_of_le hdrop (hle.trans (Nat.le_succ _))), ← hstop,
      ← byte_eq_of_drop (drop_eq_of_le hdrop₁ hlestop), ← hdrop₁]
    split_ifs at h with halpha hsign hquote hend
    · cases h
      rw [if_neg (by simp [halpha])]
      exact ⟨rfl, rfl, fun a ha => absurd ha not_mem_nil⟩
    · cases h
    · cases h
    · cases h
    rw [if_pos ⟨Bool.not_eq_false _ ▸ halpha, not_not.mp hsign, not_not.mp hquote, not_not.mp hend⟩]
    have htext := textAt_value (not_not.mp hend)
    have hlength : equals + 2 + ((s.drop (equals + 2)).takeWhile isValueChar).length =
      skipWhile isValueChar s (equals + 2) := rfl
    have hnext : skipWhile isValueChar s (equals + 2) + 1 ≤
      skipBlanks s (skipWhile isValueChar s (equals + 2) + 1) := le_skipWhile isBlank s _
    have hblanks : skipBlanks s (skipWhile isValueChar s (equals + 2) + 1) =
        skipBlanks s₀ (skipWhile isValueChar s (equals + 2) + 1) :=
      skipWhile_eq_of_drop (drop_eq_of_le hdrop (by omega))
    rw [← hblanks]
    generalize skipWhile isValueChar s (equals + 2) = stop at *
    generalize skipBlanks s (stop + 1) = next at *
    -- Behind the closing quote the string is as it was.
    have hdrop₂ : ((s.set equals 0).set stop 0).drop next = s₀.drop next := by
      rw [drop_set_of_lt (by omega), drop_set_of_lt (by omega)]
      exact drop_eq_of_le hdrop (by omega)
    obtain ⟨hvalues, htake, htexts⟩ := ih h hdrop₂
    have hle' := (readAttributes_ok h).2
    refine ⟨hvalues, ?_, ?_⟩
    · have hpos : pos = min pos next := (Nat.min_eq_left (by omega)).symm
      rw [hpos, ← take_take, htake, take_take, ← hpos, take_set_of_le (by omega),
        take_set_of_le hle]
    · intro a ha
      rcases mem_cons.mp ha with rfl | ha
      · exact ⟨htext.of_take (by omega) htake, by dsimp only; omega⟩
      · exact htexts a ha

theorem zero_notMem_written (fuel : ℕ) (ha : a ∈ writtenFrom s fuel pos) : 0 ∉ a.text := by
  induction fuel generalizing pos with
  | zero => cases ha
  | succ fuel ih =>
    unfold writtenFrom at ha
    dsimp only at ha
    split_ifs at ha
    · rcases mem_cons.mp ha with rfl | ha
      · intro hzero
        cases mem_takeWhile_imp hzero
      · exact ih ha
    · cases ha

theorem readRest_written {tag tag' : Tag}
    (h : readRest attributes b values tag = (values', .ok tag')) :
    values' = (written tag).foldl (store attributes b) values ∧
      ∀ a ∈ written tag, TextAt tag'.bytes a.pos a.text ∧ a.pos + a.text.length < tag'.pos := by
  unfold readRest at h
  unfold written
  split_ifs at h ⊢ with hend
  · cases h
    exact ⟨rfl, nofun⟩
  · split at h
    · cases h
    · rename_i values₁ s₁ pos₁ hattributes
      obtain ⟨rfl, hclose⟩ := Prod.mk.inj h
      obtain ⟨hbytes, hlt⟩ := closeTag_ok hclose
      obtain ⟨hvalues, -, htexts⟩ := readAttributes_written _ hattributes rfl
      refine ⟨hvalues, fun a ha => ?_⟩
      rw [hbytes]
      exact ⟨(htexts a ha).1, (htexts a ha).2.trans hlt⟩

theorem TextAt.text_eq {heap : Heap} (h : TextAt s pos text)
    (hs : heap.bytes b = some s) (hzero : 0 ∉ text) : heap.text ⟨b, pos⟩ = some text := by
  have hsplit : s.drop pos = text ++ (0 :: (s.drop pos).drop (text.length + 1)) := by
    conv_lhs => rw [← take_append_drop (text.length + 1) (s.drop pos), h]
    rw [append_assoc]
    rfl
  unfold Heap.text
  rw [hs, bind_some, if_pos]
  · rw [hsplit, cString_append_of_notMem hzero]
    show some (text ++ []) = some text
    rw [append_nil]
  · rw [hsplit]
    exact mem_append_right _ mem_cons_self

end Written

/-! ## What a processing function sees -/

/-- The processing function of the node `n` with the number `k` runs in the state `z`, with a start
tag in the block `b` that was read when the values of the node were `prior`. -/
inductive Runs (c : Call) : ℕ → Node TableId Vars → ℕ → (ℕ → Option Ptr) → Tag → TunState → Prop
    where
  | mk {b pos next k : ℕ} {s : List UInt8} {y z : TunState} {tag tag' : Tag}
      {n : Node TableId Vars} {p : Proc TableId Vars} {values : ℕ → Option Ptr} :
      Reaches c.table c.str c.state b pos y → y.heap.bytes b = some s →
      byte s (skipBlanks s pos) ≠ 0 → readTag s (skipBlanks s pos) = .ok tag →
      findNode tag.name c.table.nodes = some (k, n) → n.p = some p →
      readRest n.attributes b (y.values c.table.id k) tag = (values, .ok tag') →
      Matched b tag' ((y.setValues c.table.id k values).write b tag'.bytes) next z →
      Runs c k n b (y.values c.table.id k) tag z

theorem calls_iff_runs {c : Call} {k : ℕ} {z : TunState} :
    (∃ p content, c.Calls k p content z) ↔ ∃ n b prior tag, Runs c k n b prior tag z := by
  constructor
  · rintro ⟨p, content, b, pos, y, hreach, hcall⟩
    cases hcall with
    | mk htag hmatched hhandler =>
      cases htag with
      | unknown => cases hhandler
      | known hs hend htag hfound hrest =>
        obtain ⟨p', hp', heq⟩ := map_eq_some_iff.mp hhandler
        cases heq
        exact ⟨_, _, _, _, .mk hreach hs hend htag hfound hp' hrest hmatched⟩
  · rintro ⟨n, b, prior, tag, hruns⟩
    cases hruns with
    | @mk b pos next k s y z tag tag' n p values hreach hs hend htag hfound hp hrest hmatched =>
      have hhandler : handler (some (k, n)) = some (k, p) := by
        unfold handler
        rw [bind_some, hp]
        rfl
      exact ⟨p, _, b, pos, y, hreach, .mk (.known hs hend htag hfound hrest) hmatched hhandler⟩

/-- The values are those of the own start tag, null if the tag does not carry the attribute. -/
structure SeesOwn (c : Call) (k : ℕ) (n : Node TableId Vars) (b : ℕ) (tag : Tag) (z : TunState) :
    Prop where
  own : ∀ i < n.attributes.length, ∀ a, ownAttribute n.attributes (written tag) i = some a →
    z.values c.table.id k i = some ⟨b, a.pos⟩ ∧ z.heap.text ⟨b, a.pos⟩ = some a.text
  null : ∀ i < n.attributes.length, ownAttribute n.attributes (written tag) i = none →
    z.values c.table.id k i = none

def Compares (n : Node TableId Vars) (z : TunState) : Prop :=
  n.name = ascii "address" ∧ addressDests z.info ≠ none

variable {y : TunState}

section Runs

variable {c : Call} {k b : ℕ} {n : Node TableId Vars} {prior : ℕ → Option Ptr} {tag : Tag}
  {z : TunState}

variable {next : ℕ}

theorem Matched.values_eq (h : Matched b tag y next z) : z.values = y.values := by
  cases h with
  | simple | ended => rfl

theorem Matched.bytes_take (h : Matched b tag y next z) (hs : y.heap.bytes b = some tag.bytes) :
    ∃ s, z.heap.bytes b = some s ∧ s.take tag.pos = tag.bytes.take tag.pos := by
  cases h with
  | simple => exact ⟨_, hs, rfl⟩
  | ended _ _ hs' =>
    cases hs.symm.trans hs'
    refine ⟨_, Heap.bytes_write (isSome_of_mem hs), ?_⟩
    exact take_set_of_le (Nat.le_add_right _ _)

theorem values_setValues (x : TunState) (id : TableId) (k : ℕ) (values : ℕ → Option Ptr) :
    (x.setValues id k values).values id k = values := by
  show update x.values id (update (x.values id) k values) id k = values
  rw [update_self, update_self]

section

variable (h : Runs c k n b prior tag z)
include h

theorem Runs.values_apply (i : ℕ) :
    z.values c.table.id k i = ((ownAttribute n.attributes (written tag) i).elim (prior i) fun a =>
      some ⟨b, a.pos⟩) := by
  cases h with
  | mk hreach hs hend htag hfound hp hrest hmatched =>
    rw [hmatched.values_eq, ← foldl_store, ← (readRest_written hrest).1]
    exact congrFun (values_setValues ..) i

theorem Runs.text_eq (ha : a ∈ written tag) : z.heap.text ⟨b, a.pos⟩ = some a.text := by
  cases h with
  | mk hreach hs hend htag hfound hp hrest hmatched =>
    obtain ⟨htext, hlt⟩ := (readRest_written hrest).2 a ha
    obtain ⟨s, hs', htake⟩ := hmatched.bytes_take (Heap.bytes_write (isSome_of_mem hs))
    refine (htext.of_take hlt htake).text_eq hs' ?_
    unfold written at ha
    split_ifs at ha
    · cases ha
    · exact zero_notMem_written _ ha

theorem Runs.node : n ∈ c.table.nodes := by
  cases h with
  | mk hreach hs hend htag hfound hp hrest hmatched =>
    obtain ⟨i, -, hi⟩ := bind_eq_some_iff.mp hfound
    obtain ⟨n', hn, heq⟩ := map_eq_some_iff.mp hi
    cases heq
    exact mem_of_getElem? hn

end

theorem IsTable.attributes_address {t : TunTable} (ht : IsTable t) (hn : n ∈ t.nodes)
    (hname : n.name = ascii "address") : 0 < n.attributes.length := by
  have hall : ∀ n ∈ t.nodes, n.name = ascii "address" → n.attributes ≠ [] := by
    cases ht with
    | root | tunnel | server | client | router | dnsServer | broker | keepalive => decide +kernel
  exact length_pos_iff.mpr (hall n hn hname)

/-- The processing function sees only what is its own and compares no null value, if and only if the
attributes that its tag does not carry were null before, and it carries what is compared. -/
theorem Runs.own_iff (ht : IsTable c.table) (h : Runs c k n b prior tag z) :
    (SeesOwn c k n b tag z ∧ (Compares n z → z.values c.table.id k 0 ≠ none)) ↔
      (∀ i < n.attributes.length, ownAttribute n.attributes (written tag) i = none →
        prior i = none) ∧
      (Compares n z → ownAttribute n.attributes (written tag) 0 ≠ none) := by
  constructor
  · rintro ⟨hsees, hcompares⟩
    refine ⟨fun i hi hnone => ?_, fun hcompare hnone => ?_⟩
    · have hvalue := h.values_apply i
      rw [hnone, hsees.null i hi hnone] at hvalue
      exact hvalue.symm
    · exact hcompares hcompare
        (hsees.null 0 (ht.attributes_address h.node hcompare.1) hnone)
  · rintro ⟨hprior, hcompares⟩
    refine ⟨⟨fun i hi a ha => ?_, fun i hi hnone => ?_⟩, fun hcompare => ?_⟩
    · refine ⟨?_, h.text_eq (mem_reverse.mp (mem_of_find?_eq_some ha))⟩
      rw [h.values_apply, ha]
      rfl
    · rw [h.values_apply, hnone]
      exact hprior i hi hnone
    · obtain ⟨a, ha⟩ := ne_none_iff_exists'.mp (hcompares hcompare)
      rw [h.values_apply, ha]
      exact some_ne_none _

end Runs

/-! ## Documents one after the other -/

/-- The state before the next document of a process that has parsed `docs`. At the start of the
process all values are null, and nothing but the parser stores values. -/
inductive After : List (List UInt8) → TunState → Prop where
  | start {x : TunState} : (∀ id k i, x.values id k i = none) → After [] x
  | next {docs : List (List UInt8)} {data : List UInt8} {code : ℤ} {x y y' : TunState} :
      After docs x → tspXMLParse data x = some (code, y) → y'.values = y.values →
      After (docs ++ [data]) y'

/-- A call of the parser while a process parses `docs`. -/
def During (docs : List (List UInt8)) (c : Call) : Prop :=
  ∃ before data x, before ++ [data] <+: docs ∧ After before x ∧
    ReflTransGen Call.Inside (tspCall data x) c

/-- Each processing function sees the values of its own start tag and compares no null value, if and
only if each start tag carries all attributes that were stored for its node before, and each address
that is compared carries its type. -/
theorem attributes_own_iff (docs : List (List UInt8)) :
    (∀ c, During docs c → ∀ k n b prior tag z, Runs c k n b prior tag z →
      SeesOwn c k n b tag z ∧ (Compares n z → z.values c.table.id k 0 ≠ none)) ↔
    ∀ c, During docs c → ∀ k n b prior tag z, Runs c k n b prior tag z →
      (∀ i < n.attributes.length, ownAttribute n.attributes (written tag) i = none →
        prior i = none) ∧
      (Compares n z → ownAttribute n.attributes (written tag) 0 ≠ none) := by
  refine forall₂_congr fun c hduring => ?_
  obtain ⟨before, data, x, -, -, hinside⟩ := hduring
  have ht : IsTable c.table := Call.table_of_inside (c := tspCall data x) .root hinside
  constructor
  · intro h k n b prior tag z hruns
    exact (hruns.own_iff ht).mp (h k n b prior tag z hruns)
  · intro h k n b prior tag z hruns
    exact (hruns.own_iff ht).mpr (h k n b prior tag z hruns)

variable {x : TunState}

theorem values_malloc {s : List UInt8} {b : ℕ} (h : x.malloc s = (some b, y)) :
    y.values = x.values := by
  unfold State.malloc at h
  split_ifs at h
  · cases h
    rfl
  · cases h

def firstDocument : List UInt8 := ascii "<tunnel action=\"info\"></tunnel>"

def secondDocument : List UInt8 := ascii "<tunnel></tunnel>"

def secondTag : Tag := ⟨ascii "tunnel", (secondDocument ++ [0]).set 7 0, 7, false⟩

theorem secondDocument_runs (hmemory : x.memory 0 = true) :
    ∃ n b z, Runs ⟨rootTable, secondDocument, x⟩ 0 n b (x.values .root 0) secondTag z ∧
      0 < n.attributes.length := by
  obtain ⟨x₁, hmalloc⟩ := malloc_of_memory (s := secondDocument ++ [0]) hmemory
  have htag : readTag (secondDocument ++ [0]) (skipBlanks (secondDocument ++ [0]) 0) =
      .ok secondTag := by decide +kernel
  have hend : byte secondTag.bytes secondTag.pos = 0 := by decide +kernel
  have hrest (attributes : List (List UInt8)) (values : ℕ → Option Ptr) :
      readRest attributes x.heap.size values secondTag =
        (values, .ok { secondTag with pos := 8 }) := by
    unfold readRest
    rfl
  have hbytes : (x₁.heap.write x.heap.size secondTag.bytes).bytes x.heap.size =
      some secondTag.bytes :=
    Heap.bytes_write (isSome_of_mem (bytes_of_malloc hmalloc))
  rw [← values_malloc hmalloc]
  refine ⟨_, x.heap.size, _, .mk ⟨x₁, hmalloc, .refl⟩ (bytes_of_malloc hmalloc)
    (by decide +kernel) htag rfl rfl (hrest _ _) (.ended (s := secondTag.bytes) (i := 0) rfl
      (by decide) hbytes (by decide +kernel) (by decide +kernel)), by decide⟩

def afterFirst : TunState := ((tspXMLParse firstDocument started).map Prod.snd).getD started

theorem stale_action_seen : ∃ c k n b prior tag z, During [firstDocument, secondDocument] c ∧
    Runs c k n b prior tag z ∧ ¬SeesOwn c k n b tag z := by
  obtain ⟨code, hparse⟩ : ∃ code, tspXMLParse firstDocument started = some (code, afterFirst) := by
    have hsome : (tspXMLParse firstDocument started).isSome = true := by decide +kernel
    obtain ⟨⟨code, y⟩, hy⟩ := isSome_iff_exists.mp hsome
    refine ⟨code, ?_⟩
    unfold afterFirst
    rw [hy]
    rfl
  have hafter : After [firstDocument] afterFirst := .next (.start fun _ _ _ => rfl) hparse rfl
  have hstale : (tspCall secondDocument afterFirst).state.values .root 0 0 ≠ none := by
    decide +kernel
  obtain ⟨n, b, z, hruns, hlength⟩ :=
    secondDocument_runs (x := (tspCall secondDocument afterFirst).state) (by decide +kernel)
  refine ⟨_, 0, n, b, _, secondTag, z, ⟨[firstDocument], secondDocument, afterFirst,
    prefix_refl _, hafter, .refl⟩, hruns, fun hsees => hstale ?_⟩
  have hnone : ownAttribute n.attributes (written secondTag) 0 = none := by
    have hwritten : written secondTag = [] := if_pos (by decide +kernel)
    rfl
  have hvalue := hruns.values_apply 0
  exact hvalue.symm.trans (hsees.null 0 hlength hnone)

end Maiccu.Gogoc.Xml
