import Maiccu.Lib.CText
import Maiccu.Lib.Run

/-!
# The key file

`PASSDSS-3DES-1` pins the DSA key of a server: `add_dsakey_to_keyfile` of `tsp_auth_passdss.c` looks
it up in a file with a line for each server, and appends a line if there is none. Keys are accepted
automatically here. The line buffer is not zero-terminated, so what stands behind a line in it is
part of the model.
-/

namespace Maiccu.Gogoc.Auth

open Maiccu.Lib List Option

/-- `CFG_SERVER_CHRS`. -/
def serverChrs : List UInt8 :=
  ascii "ABCDEFGHIJKLMNOPQRSTUVWXYZabcdefghijklmnopqrstuvwxyz0123456789-.:[]"

/-- A server name that `Validate_Server` accepts. The empty one is allowed too. -/
@[ext]
structure Host where
  text : List UInt8
  length_le : text.length ≤ 1025
  chars : ∀ c ∈ text, c ∈ serverChrs
  deriving DecidableEq

def base64Chars : List UInt8 :=
  ascii "ABCDEFGHIJKLMNOPQRSTUVWXYZabcdefghijklmnopqrstuvwxyz0123456789+/="

/-- A key as text: the numbers in an SSH buffer in base64. The decoder stops at the line feed. -/
structure KeyCodec (K : Type*) where
  encode : K → List UInt8
  decode : List UInt8 → Option K
  encode_chars : ∀ k, ∀ c ∈ encode k, c ∈ base64Chars
  encode_ne : ∀ k, encode k ≠ []
  decode_encode : ∀ k rest, decode (encode k ++ 10 :: rest) = some k

/-- The server and its key, whether the file can be opened for reading, whether there is memory for
the line buffer and for the key of a line, whether the file can be appended to, and what stands in
the line buffer behind each line. -/
structure Visit (K : Type*) where
  host : Host
  key : K
  opens : Bool
  lineBuffer : Bool
  keyObjects : Bool
  appends : Bool
  junk : ℕ → List UInt8

/-- The values that `is_dsakey_in_keyfile` returns. -/
inductive Lookup where
  | error
  | missing
  | matching
  | differing
  deriving DecidableEq

/-! ## Reading the file -/

/-- The lines until `EOF`; `line` was read already. The byte 255 is taken for `EOF`, and so is a
line that does not end within the first `max` characters. -/
def freadlines (max : ℕ) (line : List UInt8) : List UInt8 → List (List UInt8)
  | [] => []
  | c :: rest =>
    if c = 255 ∨ max ≤ line.length then []
    else if c = 10 then line :: freadlines max [] rest
    else freadlines max (line ++ [c]) rest

/-- A token goes up to a blank or the end of the string. -/
def inToken (c : UInt8) : Bool := c ≠ 32 ∧ c ≠ 0

/-- `strtok` with a blank as the separator: the token and what the next call looks at. -/
def strtok (s : List UInt8) : Option (List UInt8 × List UInt8) :=
  let t := s.dropWhile (· = 32)
  if t.takeWhile inToken = [] then none
  else
    match t.dropWhile inToken with
    | 32 :: rest => some (t.takeWhile inToken, rest)
    | _ => some (t.takeWhile inToken, [])

section Code

variable {K : Type*} [DecidableEq K] (codec : KeyCodec K) (v : Visit K)

/-- From the line number `n` on; `none` is a null pointer given to `strcmp` or `strlen`. The two
line feeds are those that `freadline` puts at the end of a line. -/
def scanKeyfile (n : ℕ) (ret : Lookup) : List (List UInt8) → Option Lookup
  | [] => some ret
  | line :: lines => do
    let (name, rest) ← strtok (line ++ 10 :: 10 :: v.junk n)
    if name ≠ v.host.text then scanKeyfile (n + 1) ret lines
    else
      let (kind, rest) ← strtok rest
      if kind ≠ ascii "ssh-dss" then scanKeyfile (n + 1) ret lines
      else
        let (text, _) ← strtok rest
        if v.keyObjects = false then return .error
        else
          match codec.decode text with
          | none => return .error
          | some k => scanKeyfile (n + 1) (if k = v.key then .matching else .differing) lines

variable (file : Option (List UInt8))

def isDsakeyInKeyfile : Option Lookup :=
  match file with
  | none => some .missing
  | some bytes =>
    if v.opens = false then some .missing
    else if v.lineBuffer = false then some .error
    else scanKeyfile codec v 0 .missing (freadlines 4095 [] bytes)

def keyLine (host : Host) (key : K) : List UInt8 :=
  host.text ++ 32 :: (ascii "ssh-dss" ++ 32 :: codec.encode key)

/-- With automatic acceptance: whether the key is accepted, whether it is stored, and the file
afterwards. -/
def addDsakeyToKeyfile :
    Option (Bool × Bool × Option (List UInt8)) :=
  match isDsakeyInKeyfile codec v file with
  | none => none
  | some .error => some (false, false, file)
  | some .missing =>
    if v.appends = false then some (false, false, file)
    else some (true, true, some (file.getD [] ++ (keyLine codec v.host v.key ++ [10])))
  | some .matching => some (true, false, file)
  | some .differing => some (false, false, file)

end Code

/-! ## Reading a line -/

section Tokens

variable {token rest : List UInt8}

theorem inToken_of_notMem (hblank : 32 ∉ token) (hzero : 0 ∉ token) :
    ∀ c ∈ token, inToken c = true := fun _ hc =>
  decide_eq_true ⟨fun h => hblank (h ▸ hc), fun h => hzero (h ▸ hc)⟩

theorem strtok_of_inToken (hne : token ≠ []) (htoken : ∀ c ∈ token, inToken c = true) :
    strtok (token ++ rest) =
      match rest.dropWhile inToken with
      | 32 :: rest' => some (token ++ rest.takeWhile inToken, rest')
      | _ => some (token ++ rest.takeWhile inToken, []) := by
  obtain ⟨c, cs, rfl⟩ := exists_cons_of_ne_nil hne
  have hc : c ≠ 32 := (of_decide_eq_true (htoken c mem_cons_self)).1
  have hdrop : (c :: cs ++ rest).dropWhile (· = 32) = c :: cs ++ rest := by
    rw [cons_append, dropWhile_cons_of_neg (by rw [decide_eq_true_eq]; exact hc)]
  have htake : (c :: cs ++ rest).takeWhile inToken = c :: cs ++ rest.takeWhile inToken :=
    takeWhile_append_of_pos htoken
  have hrest : (c :: cs ++ rest).dropWhile inToken = rest.dropWhile inToken :=
    dropWhile_append_of_pos htoken
  unfold strtok
  rw [hdrop]
  dsimp only
  rw [htake, hrest]
  exact if_neg fun h => hne (append_eq_nil_iff.mp h).1

theorem strtok_append (hne : token ≠ []) (hblank : 32 ∉ token) (hzero : 0 ∉ token) :
    strtok (token ++ 32 :: rest) = some (token, rest) := by
  have hstop : ¬inToken 32 = true := by decide
  rw [strtok_of_inToken hne (inToken_of_notMem hblank hzero), dropWhile_cons_of_neg hstop,
    takeWhile_cons_of_neg hstop, append_nil]
  rfl

theorem strtok_cons_blank (s : List UInt8) : strtok (32 :: s) = strtok s := by
  unfold strtok
  rw [dropWhile_cons_of_pos (by decide)]

theorem strtok_last (hne : token ≠ []) (hblank : 32 ∉ token) (hzero : 0 ∉ token) :
    ∃ junk rest', strtok (token ++ 10 :: rest) = some (token ++ 10 :: junk, rest') := by
  have hgo : inToken 10 = true := by decide
  rw [strtok_of_inToken hne (inToken_of_notMem hblank hzero), takeWhile_cons_of_pos hgo]
  split
  · exact ⟨_, _, rfl⟩
  · exact ⟨_, _, rfl⟩

end Tokens

/-! ## The lines of the file -/

/-- A line of the file. -/
structure Line (K : Type*) where
  host : Host
  key : K
  deriving DecidableEq

section Lines

variable {K : Type*} (codec : KeyCodec K)

def Line.text (l : Line K) : List UInt8 := keyLine codec l.host l.key

def Line.short (l : Line K) : Bool := (l.text codec).length < 4095

def fileText (ls : List (Line K)) : List UInt8 := (ls.map fun l => l.text codec ++ [10]).flatten

def keyfile (ls : List (Line K)) : Option (List UInt8) :=
  if ls = [] then none else some (fileText codec ls)

variable {c : UInt8} {l : Line K} {ls : List (Line K)}

theorem host_chars {h : Host} (hc : c ∈ h.text) : c ≠ 0 ∧ c ≠ 10 ∧ c ≠ 32 ∧ c ≠ 255 := by
  have hall : ∀ c ∈ serverChrs, c ≠ 0 ∧ c ≠ 10 ∧ c ≠ 32 ∧ c ≠ 255 := by decide +kernel
  exact hall c (h.chars c hc)

theorem encode_chars {k : K} (hc : c ∈ codec.encode k) : c ≠ 0 ∧ c ≠ 10 ∧ c ≠ 32 ∧ c ≠ 255 := by
  have hall : ∀ c ∈ base64Chars, c ≠ 0 ∧ c ≠ 10 ∧ c ≠ 32 ∧ c ≠ 255 := by decide +kernel
  exact hall c (codec.encode_chars k c hc)

theorem line_chars (hc : c ∈ l.text codec) : c ≠ 10 ∧ c ≠ 255 := by
  have hkind : ∀ c ∈ ascii "ssh-dss", c ≠ 10 ∧ c ≠ 255 := by decide +kernel
  have hblank : (32 : UInt8) ≠ 10 ∧ (32 : UInt8) ≠ 255 := by decide
  simp only [Line.text, keyLine, mem_append, mem_cons] at hc
  rcases hc with hc | rfl | hc | rfl | hc
  · exact ⟨(host_chars hc).2.1, (host_chars hc).2.2.2⟩
  · exact hblank
  · exact hkind c hc
  · exact hblank
  · exact ⟨(encode_chars codec hc).2.1, (encode_chars codec hc).2.2.2⟩

theorem freadlines_line (max : ℕ) {line : List UInt8} (hline : ∀ c ∈ line, c ≠ 10 ∧ c ≠ 255)
    (acc rest : List UInt8) :
    freadlines max acc (line ++ 10 :: rest) =
      if (acc ++ line).length < max then (acc ++ line) :: freadlines max [] rest else [] := by
  induction line generalizing acc with
  | nil =>
    rw [nil_append, append_nil, freadlines]
    by_cases hlt : acc.length < max
    · have hgo : ¬((10 : UInt8) = 255 ∨ max ≤ acc.length) :=
        not_or.mpr ⟨by decide, not_le.mpr hlt⟩
      rw [if_neg hgo, if_pos rfl, if_pos hlt]
    · rw [if_pos (.inr (not_lt.mp hlt)), if_neg hlt]
  | cons c line ih =>
    obtain ⟨hfeed, heof⟩ := hline c mem_cons_self
    have hrest := ih (fun d hd => hline d (mem_cons_of_mem _ hd)) (acc ++ [c])
    rw [append_assoc, singleton_append] at hrest
    rw [cons_append, freadlines]
    by_cases hfull : max ≤ acc.length
    · have hlong : ¬(acc ++ c :: line).length < max := by
        rw [length_append]
        omega
      rw [if_pos (.inr hfull), if_neg hlong]
    · rw [if_neg (not_or.mpr ⟨heof, hfull⟩), if_neg hfeed, hrest]

def readable (ls : List (Line K)) : List (Line K) := ls.takeWhile (Line.short codec)

theorem freadlines_fileText (ls : List (Line K)) :
    freadlines 4095 [] (fileText codec ls) = (readable codec ls).map (Line.text codec) := by
  induction ls with
  | nil => rfl
  | cons l ls ih =>
    have hcons : fileText codec (l :: ls) = l.text codec ++ 10 :: fileText codec ls := by
      unfold fileText
      rw [map_cons, flatten_cons, append_assoc]
      rfl
    rw [hcons, freadlines_line 4095 (fun c hc => line_chars codec hc), nil_append, ih,
      readable, readable]
    by_cases hfits : (l.text codec).length < 4095
    · have hshort : l.short codec = true := decide_eq_true hfits
      rw [if_pos hfits, takeWhile_cons_of_pos hshort, map_cons]
    · have hlong : ¬l.short codec = true := fun h => hfits (of_decide_eq_true h)
      rw [if_neg hfits, takeWhile_cons_of_neg hlong]
      rfl

theorem keyfile_append (ls : List (Line K)) (l : Line K) :
    some ((keyfile codec ls).getD [] ++ (l.text codec ++ [10])) = keyfile codec (ls ++ [l]) := by
  have hlast : fileText codec (ls ++ [l]) = fileText codec ls ++ (l.text codec ++ [10]) := by
    unfold fileText
    rw [map_append, flatten_append, map_singleton, flatten_singleton]
  have hfile : (keyfile codec ls).getD [] = fileText codec ls := by
    unfold keyfile
    split_ifs with hls
    · rw [hls]
      rfl
    · rfl
  rw [hfile, ← hlast, keyfile, if_neg (append_ne_nil_of_right_ne_nil _ (cons_ne_nil _ _))]

theorem readable_append : readable codec (ls ++ [l]) = readable codec ls ∨
      readable codec (ls ++ [l]) = readable codec ls ++ [l] := by
  unfold readable
  rw [takeWhile_append]
  split_ifs with hall
  · have hself : ls.takeWhile (Line.short codec) = ls :=
      (List.takeWhile_prefix _).eq_of_length hall
    rw [hself, takeWhile_cons]
    split_ifs
    · exact .inr rfl
    · exact .inl (append_nil _)
  · exact .inl rfl

theorem first_mem_readable {l' : Line K} (hfirst : ls.find? (fun l' => l'.host = l.host) = some l)
    (hl' : l' ∈ readable codec ls) (hhost : l'.host = l.host) : l ∈ readable codec ls := by
  obtain ⟨rest, hrest⟩ : readable codec ls <+: ls := takeWhile_prefix _
  rw [← hrest, find?_append] at hfirst
  cases hfound : (readable codec ls).find? (fun l' => l'.host = l.host) with
  | none => exact absurd (decide_eq_true hhost) (find?_eq_none.mp hfound l' hl')
  | some l'' =>
    rw [hfound, some_or] at hfirst
    cases hfirst
    exact mem_of_find?_eq_some hfound

variable [DecidableEq K] {v : Visit K}

/-- What a line says of the key of the session. The one of an empty name is never found, for
`strtok` takes no notice of the blank that it begins with. -/
def Visit.judge (v : Visit K) (ret : Lookup) (l : Line K) : Lookup :=
  if l.host = v.host ∧ l.host.text ≠ [] then if l.key = v.key then .matching else .differing
  else ret

omit [DecidableEq K] in
theorem text_append (l : Line K) (rest : List UInt8) : l.text codec ++ rest =
      l.host.text ++ 32 :: (ascii "ssh-dss" ++ 32 :: (codec.encode l.key ++ rest)) := by
  rw [Line.text, keyLine, append_assoc, cons_append, append_assoc, cons_append]

theorem strtok_kind (rest : List UInt8) :
    strtok (ascii "ssh-dss" ++ 32 :: rest) = some (ascii "ssh-dss", rest) :=
  strtok_append (by decide) (by decide) (by decide)

omit [DecidableEq K] in
theorem strtok_key (k : K) (junk : List UInt8) :
    ∃ junk' rest, strtok (codec.encode k ++ 10 :: junk) =
      some (codec.encode k ++ 10 :: junk', rest) :=
  strtok_last (codec.encode_ne k) (fun h => (encode_chars codec h).2.2.1 rfl)
    (fun h => (encode_chars codec h).1 rfl)

theorem scanKeyfile_line (hkeys : v.keyObjects = true) (n : ℕ) (ret : Lookup) (l : Line K)
    (lines : List (List UInt8)) :
    scanKeyfile codec v n ret (l.text codec :: lines) =
      scanKeyfile codec v (n + 1) (v.judge ret l) lines := by
  obtain ⟨junk, rest, hkey⟩ := strtok_key codec l.key (10 :: v.junk n)
  rw [scanKeyfile, text_append, Visit.judge]
  by_cases hname : l.host.text = []
  · -- the kind is taken for the name, and the key for the kind
    have hkind : codec.encode l.key ++ 10 :: junk ≠ ascii "ssh-dss" := by
      intro h
      have hmem : 10 ∈ ascii "ssh-dss" := by
        rw [← h]
        exact mem_append_right _ mem_cons_self
      exact nomatch hmem
    rw [if_neg fun h => h.2 hname, hname, nil_append, strtok_cons_blank, strtok_kind]
    simp only [bind_eq_bind, bind_some, hkey]
    rw [if_pos hkind, ite_self]
  · rw [strtok_append hname (fun h => (host_chars h).2.2.1 rfl) fun h => (host_chars h).1 rfl]
    by_cases hhost : l.host = v.host
    · rw [if_pos ⟨hhost, hname⟩]
      simp only [bind_eq_bind, bind_some, strtok_kind, hkey, codec.decode_encode,
        hkeys, hhost, ne_eq, not_true_eq_false, if_false, Bool.true_eq_false]
    · have htext : l.host.text ≠ v.host.text := fun h => hhost (Host.ext h)
      rw [if_neg fun h => hhost h.1]
      simp only [bind_eq_bind, bind_some]
      rw [if_pos htext]

theorem scanKeyfile_lines (hkeys : v.keyObjects = true) (n : ℕ) (ret : Lookup)
    (ls : List (Line K)) :
    scanKeyfile codec v n ret (ls.map (Line.text codec)) = some (ls.foldl v.judge ret) := by
  induction ls generalizing n ret with
  | nil => rfl
  | cons l ls ih => rw [map_cons, foldl_cons, scanKeyfile_line codec hkeys, ih]

structure Visit.Works (v : Visit K) : Prop where
  opens : v.opens = true
  lineBuffer : v.lineBuffer = true
  keyObjects : v.keyObjects = true
  appends : v.appends = true

theorem isDsakeyInKeyfile_eq (hworks : v.Works) (ls : List (Line K)) :
    isDsakeyInKeyfile codec v (keyfile codec ls) =
      some ((readable codec ls).foldl v.judge .missing) := by
  unfold keyfile
  split_ifs with hls
  · rw [hls]
    rfl
  · unfold isDsakeyInKeyfile
    dsimp only
    rw [if_neg (by simp [hworks.opens]), if_neg (by simp [hworks.lineBuffer]), freadlines_fileText,
      scanKeyfile_lines codec hworks.keyObjects]

def OneEach (ls : List (Line K)) : Prop :=
  ls.Pairwise fun l l' => l.host = l'.host → l.host.text = []

theorem foldl_judge_of_none (hnone : ∀ l ∈ ls, l.host = v.host → l.host.text = []) (ret : Lookup) :
    ls.foldl v.judge ret = ret := by
  induction ls generalizing ret with
  | nil => rfl
  | cons l ls ih =>
    have hl : v.judge ret l = ret :=
      if_neg fun h => h.2 (hnone l mem_cons_self h.1)
    rw [foldl_cons, hl, ih fun l' hl' => hnone l' (mem_cons_of_mem _ hl')]

theorem foldl_judge_of_mem (hone : OneEach ls) (hl : l ∈ ls) (hhost : l.host = v.host)
    (hname : l.host.text ≠ []) (ret : Lookup) :
    ls.foldl v.judge ret = if l.key = v.key then .matching else .differing := by
  obtain ⟨before, rest, rfl⟩ := append_of_mem hl
  have hrest : ∀ l' ∈ rest, l'.host = v.host → l'.host.text = [] := by
    intro l' hl' hhost'
    have hpair := (pairwise_cons.mp (pairwise_append.mp hone).2.1).1 l' hl'
    exact absurd (hpair (hhost.trans hhost'.symm)) hname
  rw [foldl_append, foldl_cons, foldl_judge_of_none hrest]
  exact if_pos ⟨hhost, hname⟩

theorem add_of_readable (hworks : v.Works) (hone : OneEach (readable codec ls))
    (hl : l ∈ readable codec ls) (hhost : l.host = v.host) (hname : l.host.text ≠ []) :
    addDsakeyToKeyfile codec v (keyfile codec ls) =
      some (decide (l.key = v.key), false, keyfile codec ls) := by
  unfold addDsakeyToKeyfile
  rw [isDsakeyInKeyfile_eq codec hworks, foldl_judge_of_mem hone hl hhost hname]
  by_cases hkey : l.key = v.key
  · rw [if_pos hkey, decide_eq_true hkey]
  · rw [if_neg hkey, decide_eq_false hkey]

theorem add_of_unreadable (hworks : v.Works) (ls : List (Line K))
    (hnone : ∀ l ∈ readable codec ls, l.host = v.host → l.host.text = []) :
    addDsakeyToKeyfile codec v (keyfile codec ls) =
      some (true, true, keyfile codec (ls ++ [⟨v.host, v.key⟩])) := by
  unfold addDsakeyToKeyfile
  rw [isDsakeyInKeyfile_eq codec hworks, foldl_judge_of_none hnone]
  rw [if_neg (by simp [hworks.appends]), ← keyfile_append]
  rfl

end Lines

/-! ## Sessions -/

/-- A session with its outcome. -/
structure Verified (K : Type*) where
  visit : Visit K
  accepted : Bool
  stored : Bool

section Sessions

variable {K : Type*} [DecidableEq K] (codec : KeyCodec K)

def KeyStep (file : Option (List UInt8)) (e : Verified K) (file' : Option (List UInt8)) : Prop :=
  e.visit.Works ∧ addDsakeyToKeyfile codec e.visit file = some (e.accepted, e.stored, file')

def storedLines (es : List (Verified K)) : List (Line K) :=
  (es.filter Verified.stored).map fun e => ⟨e.visit.host, e.visit.key⟩

theorem run_keyfile {es : List (Verified K)} {file : Option (List UInt8)}
    (hrun : Run (KeyStep codec) none es file) :
    file = keyfile codec (storedLines es) ∧ OneEach (readable codec (storedLines es)) := by
  refine hrun.induct ⟨rfl, List.Pairwise.nil⟩ ?_
  rintro es file e file' - ⟨rfl, hone⟩ ⟨hworks, hadd⟩
  have hlast : storedLines (es ++ [e]) =
      if e.stored then storedLines es ++ [⟨e.visit.host, e.visit.key⟩] else storedLines es := by
    unfold storedLines
    rw [filter_append, map_append, filter_singleton]
    cases e.stored with
    | false => exact append_nil _
    | true => rfl
  by_cases hfound : ∃ l ∈ readable codec (storedLines es), l.host = e.visit.host ∧ l.host.text ≠ []
  · obtain ⟨l, hl, hhost, hname⟩ := hfound
    rw [add_of_readable codec hworks hone hl hhost hname] at hadd
    simp only [Option.some.injEq, Prod.mk.injEq] at hadd
    rw [hlast, ← hadd.2.1, ← hadd.2.2]
    exact ⟨rfl, hone⟩
  · have hnone : ∀ l ∈ readable codec (storedLines es),
        l.host = e.visit.host → l.host.text = [] := by
      intro l hl hhost
      by_contra hname
      exact hfound ⟨l, hl, hhost, hname⟩
    rw [add_of_unreadable codec hworks _ hnone] at hadd
    simp only [Option.some.injEq, Prod.mk.injEq] at hadd
    rw [hlast, ← hadd.2.1, ← hadd.2.2]
    refine ⟨rfl, ?_⟩
    rw [if_pos rfl]
    obtain hsame | hmore := readable_append codec
    · rw [hsame]
      exact hone
    · rw [hmore]
      refine pairwise_append.mpr ⟨hone, pairwise_singleton _ _, ?_⟩
      intro l hl l' hl' hhost
      rw [mem_singleton.mp hl'] at hhost
      exact hnone l hl hhost

/-- The key that was stored first for a server is the only one that is accepted, just if the name is
not empty and the line can be read back: neither it nor a line before it is too long. -/
theorem stored_key_pinned_iff {es : List (Verified K)} {file : Option (List UInt8)}
    (hrun : Run (KeyStep codec) none es file) {l : Line K}
    (hfirst : (storedLines es).find? (fun l' => l'.host = l.host) = some l) {v : Visit K}
    (hhost : v.host = l.host) (hworks : v.Works) :
    ∃ accepted stored file', addDsakeyToKeyfile codec v file = some (accepted, stored, file') ∧
      ((accepted = true ↔ v.key = l.key) ↔
        v.key = l.key ∨ l.host.text ≠ [] ∧ l ∈ readable codec (storedLines es)) := by
  obtain ⟨rfl, hone⟩ := run_keyfile codec hrun
  by_cases hfound : l.host.text ≠ [] ∧ l ∈ readable codec (storedLines es)
  · refine ⟨_, _, _, add_of_readable codec hworks hone hfound.2 hhost.symm hfound.1, ?_⟩
    rw [decide_eq_true_eq, eq_comm]
    exact iff_of_true Iff.rfl (.inr hfound)
  · have hnone : ∀ l' ∈ readable codec (storedLines es), l'.host = v.host → l'.host.text = [] := by
      intro l' hl' hhost'
      by_contra hname
      refine hfound ⟨?_, ?_⟩
      · rw [← hhost, ← hhost']
        exact hname
      · exact first_mem_readable codec hfirst hl' (hhost'.trans hhost)
    refine ⟨_, _, _, add_of_unreadable codec hworks _ hnone, ?_⟩
    rw [or_iff_left hfound]
    exact ⟨fun h => h.mp rfl, fun h => iff_of_true rfl h⟩

end Sessions

/-! ## A key that is too long for its line -/

def unaryCodec : KeyCodec ℕ where
  encode n := replicate (n + 1) 65
  decode s := some ((s.takeWhile (· = 65)).length - 1)
  encode_chars n c hc := by
    rw [eq_of_mem_replicate hc]
    decide
  encode_ne n := cons_ne_nil _ _
  decode_encode n rest := by
    have hall : ∀ c ∈ replicate (n + 1) (65 : UInt8), decide (c = 65) = true := fun c hc =>
      decide_eq_true (eq_of_mem_replicate hc)
    rw [takeWhile_append_of_pos hall, takeWhile_cons_of_neg (by decide), append_nil,
      length_replicate]
    rfl

def freenet6 : Host := ⟨ascii "anonymous.freenet6.net", by decide +kernel, by decide +kernel⟩

def visitWith (key : ℕ) : Visit ℕ := ⟨freenet6, key, true, true, true, true, fun _ => []⟩

theorem visitWith_works {key : ℕ} : (visitWith key).Works := ⟨rfl, rfl, rfl, rfl⟩

theorem first_visit (key : ℕ) : KeyStep unaryCodec none ⟨visitWith key, true, true⟩
    (keyfile unaryCodec [⟨freenet6, key⟩]) :=
  ⟨visitWith_works,
    add_of_unreadable unaryCodec visitWith_works [] nofun⟩

theorem stored_key_pinned_iff_short : ∃ file,
    Run (KeyStep unaryCodec) none [⟨visitWith 3, true, true⟩] file ∧
    (∃ stored file', addDsakeyToKeyfile unaryCodec (visitWith 3) file =
      some (true, stored, file')) ∧
    ∃ stored file', addDsakeyToKeyfile unaryCodec (visitWith 7) file =
      some (false, stored, file') := by
  have hrun := Run.next .start (first_visit 3)
  have hreadable : freenet6.text ≠ [] ∧ (⟨freenet6, 3⟩ : Line ℕ) ∈
      readable unaryCodec (storedLines [⟨visitWith 3, true, true⟩]) := by
    decide +kernel
  have hfirst : (storedLines [⟨visitWith 3, true, true⟩]).find? (fun l => l.host = freenet6) =
      some ⟨freenet6, 3⟩ := by
    decide +kernel
  have hpinned := fun key => stored_key_pinned_iff (l := ⟨freenet6, 3⟩) (v := visitWith key)
    unaryCodec hrun hfirst rfl visitWith_works
  obtain ⟨accepted, stored, file', hadd, hsame⟩ := hpinned 3
  obtain ⟨rejected, stored', file'', hadd', hother⟩ := hpinned 7
  have haccepted := (hsame.mpr (.inr hreadable)).mpr rfl
  have hrejected : rejected = false := Bool.eq_false_iff.mpr fun h =>
    nomatch (hother.mpr (.inr hreadable)).mp h
  exact ⟨_, hrun, ⟨stored, file', haccepted ▸ hadd⟩, stored', file'', hrejected ▸ hadd'⟩

/-- A key with 4095 characters is stored and never read back, so the next key is accepted too. -/
theorem second_key_accepted : ∃ file,
    Run (KeyStep unaryCodec) none [⟨visitWith 4094, true, true⟩] file ∧
    ∃ stored file', addDsakeyToKeyfile unaryCodec (visitWith 0) file =
      some (true, stored, file') := by
  have hlong : readable unaryCodec [⟨freenet6, 4094⟩] = [] := by
    refine takeWhile_cons_of_neg fun hshort => ?_
    have hfits := of_decide_eq_true hshort
    have hencode : (unaryCodec.encode 4094).length = 4095 := length_replicate
    simp only [Line.text, keyLine, length_append, length_cons, hencode] at hfits
    omega
  refine ⟨_, Run.next .start (first_visit 4094), _, _,
    add_of_unreadable unaryCodec visitWith_works _ ?_⟩
  rw [hlong]
  exact nofun

end Maiccu.Gogoc.Auth
