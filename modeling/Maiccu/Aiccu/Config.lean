import Maiccu.Aiccu.ParseLineExact
import Maiccu.Lib.Fgets

/-!
# The configuration file of aiccu

`aiccu_SaveConfig` writes the configuration line by line, and `aiccu_LoadConfig` reads a file with
`parseline`. A text that is not set is written as `(null)`, one without a visible character makes no
value, and quotes at the beginning and blanks at the end are not kept.
-/

namespace Maiccu.Aiccu

open Maiccu.Lib Option List

/-! ## The configuration -/

/-- The fields of `struct AICCU_conf` that are strings. -/
inductive StringField where
  | username
  | password
  | protocol
  | server
  | ipv6Interface
  | tunnelId
  | localIpv4Override
  | pidfile
  deriving DecidableEq

inductive BoolField where
  | automatic
  | daemonize
  | verbose
  | behindnat
  | requiretls
  | noconfigure
  | makebeats
  | defaultroute
  deriving DecidableEq

inductive ConfField where
  | string (f : StringField)
  | bool (f : BoolField)
  deriving DecidableEq

abbrev ConfField.kind : ConfField → PlRuletype
  | .string _ => .string
  | .bool _ => .bool

abbrev AiccuConf : Type := Record ConfField ConfField.kind

def aiccuConfRules : List (PlRule ConfField) :=
  [⟨ascii "username", .string .username⟩, ⟨ascii "password", .string .password⟩,
   ⟨ascii "protocol", .string .protocol⟩,
   ⟨ascii "server", .string .server⟩,
   ⟨ascii "ipv6_interface", .string .ipv6Interface⟩,
   ⟨ascii "tunnel_id", .string .tunnelId⟩,
   ⟨ascii "local_ipv4_override", .string .localIpv4Override⟩,
   ⟨ascii "automatic", .bool .automatic⟩,
   ⟨ascii "daemonize", .bool .daemonize⟩,
   ⟨ascii "verbose", .bool .verbose⟩,
   ⟨ascii "behindnat", .bool .behindnat⟩,
   ⟨ascii "requiretls", .bool .requiretls⟩,
   ⟨ascii "noconfigure", .bool .noconfigure⟩,
   ⟨ascii "makebeats", .bool .makebeats⟩,
   ⟨ascii "defaultroute", .bool .defaultroute⟩,
   ⟨ascii "pidfile", .string .pidfile⟩]

def initStrings : StringField → Option (List UInt8)
  | .ipv6Interface => some (ascii "aiccu")
  | .protocol => some (ascii "tic")
  | .server => some (ascii "tic.sixxs.net")
  | .pidfile => some (ascii "/var/run/aiccu.pid")
  | _ => none

def initBools : BoolField → Bool
  | .makebeats => true
  | .defaultroute => true
  | _ => false

def aiccuInitConfig : AiccuConf
  | .string f => initStrings f
  | .bool f => initBools f

/-! ## Some fields of a record -/

section Merge

variable {F : Type} [DecidableEq F] {V : F → Type} {done : List F} {f : F}

/-- The fields in `done` of one record, and the others of another one. -/
def mergeOn (done : List F) (a b : ∀ f, V f) : ∀ f, V f := fun f => if f ∈ done then a f else b f

theorem mergeOn_of_notMem (a b : ∀ f, V f) (h : f ∉ done) : mergeOn done a b f = b f := if_neg h

theorem mergeOn_of_mem {a b : ∀ f, V f} (h : f ∈ done) : mergeOn done a b f = a f := if_pos h

theorem update_mergeOn (done : List F) (a b : ∀ f, V f) (f : F) :
    Function.update (mergeOn done a b) f (a f) = mergeOn (f :: done) a b := by
  funext g
  by_cases hg : g = f
  · subst hg
    rw [Function.update_self, mergeOn_of_mem mem_cons_self]
  · simp [mergeOn, hg]

theorem mergeOn_cons_of_eq {a b : ∀ f, V f} (hf : f ∉ done) (h : a f = b f) :
    mergeOn (f :: done) a b = mergeOn done a b := by
  rw [← update_mergeOn, h, ← mergeOn_of_notMem a b hf, Function.update_eq_self]

end Merge

/-! ## Saving -/

/-- The calls of `fprintf`. -/
inductive SavedLine where
  | text (s : String)
  | string (title : String) (f : StringField)
  | bool (title : String) (f : BoolField)

/-- `%s` for a pointer that may be null. -/
def printString (v : Option (List UInt8)) : List UInt8 := v.getD (ascii "(null)")

def printBool (b : Bool) : List UInt8 := ascii (if b then "true" else "false")

def SavedLine.render (conf : AiccuConf) : SavedLine → List UInt8
  | .text s => ascii s
  | .string title f => ascii title ++ 32 :: printString (conf (.string f))
  | .bool title f => ascii title ++ 32 :: printBool (conf (.bool f))

def savedLines : List SavedLine :=
  [.text "# AICCU Configuration (Saved by AICCU 2007.01.15)", .text "", .text "# Login information",
   .string "username" .username,
   .string "password" .password,
   .string "protocol" .protocol,
   .string "server" .server,
   .text "",
   .text "# Interface names to use",
   .string "ipv6_interface" .ipv6Interface,
   .text "",
   .text "# The tunnel_id to use",
   .text "# (only required when there are multiple tunnels in the list)",
   .string "tunnel_id" .tunnelId,
   .text "",
   .text "# Try to automatically login and setup the tunnel?",
   .bool "automatic" .automatic,
   .text "",
   .text "# Script to run after setting up the interfaces (default: none)",
   .text "",
   .text "# TLS Required?",
   .bool "requiretls" .requiretls,
   .text "",
   .text "# Be verbose?",
   .bool "verbose" .verbose,
   .text "",
   .text "# Daemonize?",
   .bool "daemonize" .daemonize,
   .text "",
   .text "# Behind NAT (default: false)",
   .text "# Notify the user that a NAT-kind network is detected",
   .bool "behindnat" .behindnat,
   .text "",
   .text "# PID File",
   .string "pidfile" .pidfile,
   .text "",
   .text "# Make heartbeats (default true)",
   .text "# In general you don't want to turn this off",
   .text "# Of course only applies to AYIYA and heartbeat tunnels not to static ones",
   .bool "makebeats" .makebeats,
   .text "",
   .text "# Add a default route (default: true)",
   .bool "defaultroute" .defaultroute,
   .text "",
   .text "# Don't configure anything (default: false)",
   .bool "noconfigure" .noconfigure]

def aiccuSaveConfig (conf : AiccuConf) : List UInt8 :=
  savedLines.flatMap fun l => l.render conf ++ [10]

/-! ## Loading -/

/-- `char buf[1000]`. -/
def confBufLen : ℕ := 1000

/-- The loop of `aiccu_LoadConfig`, with the number of lines read before and what is behind each of
them in the buffer. It gives the configuration and the unknown lines that are reported. -/
def loadLines (inet : Inet) (stale : ℕ → List UInt8) :
    List (List UInt8) → ℕ → AiccuConf → Option (AiccuConf × List (ℕ × List UInt8))
  | [], _, conf => some (conf, [])
  | l :: ls, n, conf =>
    (parseline inet Separator.blank.text aiccuConfRules (.ofArray (l ++ 0 :: stale n)) conf).bind
      fun r => (loadLines inet stale ls (n + 1) r.data).map fun x =>
        (x.1, if r.ret then x.2 else (n + 1, r.line) :: x.2)

/-- `aiccu_LoadConfig`, for the contents of the file if it can be opened. -/
def aiccuLoadConfig (inet : Inet) (stale : ℕ → List UInt8) (file : Option (List UInt8))
    (conf : AiccuConf) : Option (Bool × AiccuConf × List (ℕ × List UInt8)) :=
  match file with
  | none => some (false, conf, [])
  | some s => (loadLines inet stale (fgetsLines confBufLen [] s) 0 conf).map fun x => (true, x)

variable {title : List UInt8}

/-! ## One line -/

section Line

variable {inet : Inet} {conf : AiccuConf} {b : LineBuf} {line v : List UInt8}

/-- A title that is found, and not taken for another one or a comment. -/
structure TitleOk (title : List UInt8) (f : ConfField) : Prop where
  rule : aiccuConfRules.find? (fun r => decide (r.title <+: title)) = some ⟨title, f⟩
  cut : aiccuConfRules.find? (fun r => decide (r.title <+: title.dropLast)) = none
  blank : 32 ∉ title
  chopped : chop title = title
  start : (title.head?.any fun c => decide (c ≠ 35 ∧ c ≠ 59 ∧ c ≠ 47)) = true

instance (title : List UInt8) (f : ConfField) : Decidable (TitleOk title f) :=
  decidable_of_iff (aiccuConfRules.find? (fun r => decide (r.title <+: title)) = some ⟨title, f⟩ ∧
      aiccuConfRules.find? (fun r => decide (r.title <+: title.dropLast)) = none ∧ 32 ∉ title ∧
      chop title = title ∧
      (title.head?.any fun c => decide (c ≠ 35 ∧ c ≠ 59 ∧ c ≠ 47)) = true)
    ⟨fun h => ⟨h.1, h.2.1, h.2.2.1, h.2.2.2.1, h.2.2.2.2⟩,
      fun h => ⟨h.rule, h.cut, h.blank, h.chopped, h.start⟩⟩

variable {f : ConfField}

theorem TitleOk.not_ignored (h : TitleOk title f) (s : List UInt8) : ¬ Ignored (title ++ s) := by
  have hstart := h.start
  cases title with
  | nil => cases hstart
  | cons d t =>
    obtain ⟨h35, h59, h47⟩ := of_decide_eq_true hstart
    rintro (hnil | hhead | hhead | hpre)
    · cases hnil
    · exact h35 (some.inj hhead)
    · exact h59 (some.inj hhead)
    · exact h47 (cons_prefix_cons.mp hpre).1.symm

/-- A value without a visible character leaves the line without a separator, and the title without
its last letter is no title. -/
theorem parseline_setting (ht : TitleOk title f) (hb : chop b.line = chop (title ++ 32 :: v)) :
    (parseline inet Separator.blank.text aiccuConfRules b conf).map (·.data) =
      some (if chop v = [] then conf else PlRule.store inet ⟨title, f⟩ (openQuote (chop v))
        conf) := by
  split_ifs with hv
  · have hchop : chop b.line = title := by
      have hblank : ∀ c ∈ 32 :: v, isBlank c = true := by
        rw [forall_mem_cons]
        exact ⟨rfl, rdropWhile_eq_nil_iff.mp hv⟩
      rw [hb]
      exact (rdropWhile_append_of_forall hblank).trans ht.chopped
    have hi : ¬ Ignored (chop b.line) := by
      rw [hchop, ← append_nil title]
      exact ht.not_ignored []
    have hnone : cutAt Separator.blank.text (chop b.line) = none :=
      hchop ▸ cutAt_singleton_eq_none_iff.mpr ht.blank
    rw [parseline_of_cutAt_none hi hnone, hchop, ht.cut]
    rfl
  · have htail : chop (32 :: v) = 32 :: chop v := rdropWhile_append_of_ne_nil hv [32]
    have hchop : chop b.line = title ++ 32 :: chop v := by
      rw [hb, ← htail]
      exact rdropWhile_append_of_ne_nil (by rw [← chop, htail]; simp) title
    have hi : ¬ Ignored (chop b.line) := hchop ▸ ht.not_ignored _
    have hcut : cutAt Separator.blank.text (chop b.line) = some (title, chop v) := by
      rw [hchop]
      exact cutAt_singleton_append ht.blank
    rw [parseline_of_cutAt hi hcut, ht.rule]
    rfl

end Line

/-! ## What is loaded for what was saved -/

/-- The text that is loaded for a text that was saved, where another one was before. -/
def reloadString (v old : Option (List UInt8)) : Option (List UInt8) :=
  if chop (printString v) = [] then old else some (openQuote (chop (printString v)))

def reload (conf before : AiccuConf) : AiccuConf
  | .string f => reloadString (conf (.string f)) (before (.string f))
  | .bool f => conf (.bool f)

def SavedLine.field : SavedLine → Option ConfField
  | .text _ => none
  | .string _ f => some (.string f)
  | .bool _ f => some (.bool f)

def savedFields : List ConfField := savedLines.filterMap SavedLine.field

theorem mem_savedFields_iff (f : ConfField) : f ∈ savedFields ↔ f ≠ .string .localIpv4Override := by
  rcases f with f | f <;> cases f <;> decide

def SavedLine.Ok : SavedLine → Prop
  | .text s => Ignored (chop (ascii s))
  | .string title f => TitleOk (ascii title) (.string f)
  | .bool title f => TitleOk (ascii title) (.bool f)

instance : DecidablePred SavedLine.Ok
  | .text s => inferInstanceAs (Decidable (Ignored (chop (ascii s))))
  | .string title f => inferInstanceAs (Decidable (TitleOk (ascii title) (.string f)))
  | .bool title f => inferInstanceAs (Decidable (TitleOk (ascii title) (.bool f)))

theorem chop_printBool_ne_nil (b : Bool) : chop (printBool b) ≠ [] := by
  cases b <;> decide

theorem read_printBool (inet : Inet) (b : Bool) :
    PlRuletype.bool.read inet (openQuote (chop (printBool b))) = some b := by
  cases b <;> rfl

section Reload

variable {inet : Inet} {conf before : AiccuConf} {done : List ConfField} {b : LineBuf}
  {l : SavedLine}

theorem parseline_render (hl : l.Ok) (hb : chop b.line = chop (l.render conf))
    (hdone : ∀ f ∈ l.field, f ∉ done) :
    (parseline inet Separator.blank.text aiccuConfRules b
      (mergeOn done (reload conf before) before)).map
        (·.data) = some (mergeOn (l.field.toList ++ done) (reload conf before) before) := by
  cases l with
  | text s =>
    have hi : Ignored (chop b.line) := hb ▸ hl
    rw [parseline_of_ignored hi]
    rfl
  | string title f =>
    rw [parseline_setting hl hb]
    refine congrArg some ?_
    split_ifs with hv
    · have hkeeps : reload conf before (.string f) = before (.string f) := if_pos hv
      exact (mergeOn_cons_of_eq (hdone _ rfl) hkeeps).symm
    · have hval : reload conf before (.string f) =
          some (openQuote (chop (printString (conf (.string f))))) := if_neg hv
      have hupdate := update_mergeOn done (reload conf before) before (.string f)
      rw [hval] at hupdate
      exact hupdate
  | bool title f =>
    rw [parseline_setting hl hb, if_neg (chop_printBool_ne_nil _)]
    refine congrArg some ?_
    rw [PlRule.store, read_printBool]
    exact update_mergeOn done (reload conf before) before (.bool f)

end Reload

variable {s : List UInt8} {before : AiccuConf} {inet : Inet} {stale : ℕ → List UInt8}

/-! ## The file -/

section File

variable {conf c c' c'' : AiccuConf}
  {done : List ConfField} {l : SavedLine} {line : List UInt8} {ls ls' : List (List UInt8)}

def Loads (inet : Inet) (stale : ℕ → List UInt8) (ls : List (List UInt8)) (c c' : AiccuConf) :
    Prop :=
  ∀ n, ∃ unknown, loadLines inet stale ls n c = some (c', unknown)

theorem Loads.cons (hline : ∀ s, (parseline inet Separator.blank.text aiccuConfRules
      (.ofArray (line ++ 0 :: s)) c).map (·.data) = some c') (h : Loads inet stale ls c' c'') :
    Loads inet stale (line :: ls) c c'' := by
  intro n
  obtain ⟨r, hr, hdata⟩ := map_eq_some_iff.mp (hline (stale n))
  obtain ⟨unknown, hls⟩ := h (n + 1)
  rw [← hdata] at hls
  rw [loadLines, hr, bind_some, hls]
  exact ⟨_, rfl⟩

theorem Loads.nil (c : AiccuConf) : Loads inet stale [] c c := fun _ => ⟨[], rfl⟩

structure FitsLine (line : List UInt8) : Prop where
  lf_notMem : 10 ∉ line
  zero_notMem : 0 ∉ line
  length_lt : line.length < confBufLen

theorem fgetsLines_of_fits (h : FitsLine line) (s : List UInt8) :
    fgetsLines confBufLen [] (line ++ 10 :: s) = (line ++ [10]) :: fgetsLines confBufLen [] s ∨
      fgetsLines confBufLen [] (line ++ 10 :: s) = line :: [10] :: fgetsLines confBufLen [] s := by
  have hlen := h.length_lt
  rw [fgetsLines_append]
  by_cases hroom : line.length + 2 ≤ confBufLen
  · left
    rw [fgetsLines_of_room h.lf_notMem (by simpa using hroom)]
    rfl
  · right
    have hne : line ≠ [] := by
      rintro rfl
      exact hroom (by decide)
    rw [fgetsLines_of_full h.lf_notMem hne (by simp; omega)]
    rfl

theorem chop_append_lf (s : List UInt8) : chop (s ++ [10]) = chop s :=
  rdropWhile_concat_pos _ _ _ rfl

theorem Loads.saved (hl : l.Ok) (hfits : FitsLine (l.render conf)) (hdone : ∀ f ∈ l.field, f ∉ done)
    (h : Loads inet stale (fgetsLines confBufLen [] s)
      (mergeOn (l.field.toList ++ done) (reload conf before) before) c) :
    Loads inet stale (fgetsLines confBufLen [] (l.render conf ++ 10 :: s))
      (mergeOn done (reload conf before) before) c := by
  have hzero : 0 ∉ l.render conf ++ [10] := by
    rw [mem_append, not_or]
    exact ⟨hfits.zero_notMem, by decide⟩
  rcases fgetsLines_of_fits hfits s with heq | heq
  · rw [heq]
    refine Loads.cons (fun r => parseline_render hl ?_ hdone) h
    rw [line_ofArray hzero, chop_append_lf]
  · rw [heq]
    refine Loads.cons (fun r => parseline_render hl ?_ hdone) (Loads.cons (fun r => ?_) h)
    · rw [line_ofArray hfits.zero_notMem]
    · rw [parseline_of_ignored]
      · rfl
      · exact Or.inl rfl

theorem loads_file {ls : List SavedLine}
    (hok : ∀ l ∈ ls, l.Ok) (hfits : ∀ l ∈ ls, FitsLine (l.render conf))
    (hnodup : (ls.filterMap SavedLine.field ++ done).Nodup) :
    Loads inet stale (fgetsLines confBufLen [] (ls.flatMap fun l => l.render conf ++ [10]))
      (mergeOn done (reload conf before) before)
      (mergeOn ((ls.filterMap SavedLine.field).reverse ++ done) (reload conf before) before) := by
  induction ls generalizing done with
  | nil => exact Loads.nil _
  | cons l ls ih =>
    rw [forall_mem_cons] at hok hfits
    rw [flatMap_cons, append_assoc]
    cases hfield : l.field with
    | none =>
      rw [filterMap_cons_none hfield] at hnodup ⊢
      refine Loads.saved hok.1 hfits.1 (by simp [hfield]) ?_
      rw [hfield]
      exact ih hok.2 hfits.2 hnodup
    | some f =>
      rw [filterMap_cons_some hfield] at hnodup ⊢
      have hf : f ∉ done := by
        rw [cons_append, nodup_cons, mem_append, not_or] at hnodup
        exact hnodup.1.2
      refine Loads.saved hok.1 hfits.1 (by simpa [hfield] using hf) ?_
      rw [hfield, reverse_cons, append_assoc]
      refine ih hok.2 hfits.2 ?_
      exact nodup_middle.mpr hnodup

end File

/-! ## Configurations that are restored -/

/-- The texts have no line break, and their lines fit the buffer. -/
def Fits (conf : AiccuConf) : Prop :=
  ∀ title f s, .string title f ∈ savedLines → conf (.string f) = some s →
    FitsLine (ascii title ++ 32 :: s)

def SavedLine.fixed : SavedLine → List UInt8
  | .text s => ascii s
  | .string title _ => ascii title
  | .bool title _ => ascii title

theorem savedLines_fixed : ∀ l ∈ savedLines, 10 ∉ l.fixed ∧ 0 ∉ l.fixed ∧ l.fixed.length < 100 := by
  decide +kernel

theorem FitsLine.setting {v : List UInt8} (htitle : 10 ∉ title ∧ 0 ∉ title ∧ title.length < 100)
    (hv : 10 ∉ v ∧ 0 ∉ v ∧ v.length < 100) : FitsLine (title ++ 32 :: v) := by
  obtain ⟨hlf, hzero, hlen⟩ := htitle
  obtain ⟨hlf', hzero', hlen'⟩ := hv
  refine ⟨by simp [hlf, hlf'], by simp [hzero, hzero'], ?_⟩
  unfold confBufLen
  simp
  omega

section Restored

variable {conf : AiccuConf}

theorem Fits.line (h : Fits conf) {l : SavedLine} (hl : l ∈ savedLines) :
    FitsLine (l.render conf) := by
  have hfixed := savedLines_fixed l hl
  cases l with
  | text s => exact ⟨hfixed.1, hfixed.2.1, hfixed.2.2.trans (by decide)⟩
  | string title f =>
    cases hv : conf (.string f) with
    | none =>
      rw [SavedLine.render, hv]
      exact .setting hfixed (by decide)
    | some s =>
      rw [SavedLine.render, hv]
      exact h title f s hl hv
  | bool title f =>
    refine .setting hfixed ?_
    cases conf (.bool f) <;> decide

theorem aiccuLoadConfig_aiccuSaveConfig (h : Fits conf) : ∃ loaded unknown,
      aiccuLoadConfig inet stale (some (aiccuSaveConfig conf)) before =
        some (true, loaded, unknown) ∧ ∀ f ∈ savedFields, loaded f = reload conf before f := by
  have hnodup : (savedLines.filterMap SavedLine.field ++ []).Nodup := by decide
  obtain ⟨unknown, hload⟩ :=
    loads_file (by decide +kernel) (fun _ hl => h.line hl) hnodup 0
  refine ⟨mergeOn (savedFields.reverse ++ []) (reload conf before) before, unknown, ?_,
    fun f hf => mergeOn_of_mem (by simpa using hf)⟩
  have hstart : mergeOn [] (reload conf before) before = before :=
    funext fun f => mergeOn_of_notMem _ _ not_mem_nil
  exact congrArg (Option.map fun x => (true, x)) hload

/-- A text that survives: it has no visible character and was there before, or has no blank at its
end and no quote at its beginning. -/
def Kept (v old : Option (List UInt8)) : Prop :=
  ∃ s, v = some s ∧ if chop s = [] then old = some s
    else chop s = s ∧ s.head? ≠ some 34 ∧ s.head? ≠ some 39

theorem openQuote_eq_self_iff : openQuote s = s ↔ s.head? ≠ some 34 ∧ s.head? ≠ some 39 := by
  cases s with
  | nil => simp [openQuote]
  | cons q m =>
    rw [openQuote, ← not_or]
    simp only [head?_cons, Option.some.injEq]
    split_ifs with hq
    · refine iff_of_false (fun heq => ?_) (not_not.mpr hq)
      have hle := (List.takeWhile_prefix (l := m) fun c => decide (c ≠ q)).length_le
      rw [heq, length_cons] at hle
      omega
    · exact iff_of_true rfl hq

theorem length_openQuote_le (s : List UInt8) : (openQuote s).length ≤ s.length := by
  unfold openQuote
  split
  · exact le_rfl
  · split_ifs
    · exact (List.takeWhile_prefix _).length_le.trans (Nat.le_succ _)
    · exact le_rfl

theorem openQuote_chop_eq_self_iff :
    openQuote (chop s) = s ↔ chop s = s ∧ s.head? ≠ some 34 ∧ s.head? ≠ some 39 := by
  constructor
  · intro h
    have hlen := length_openQuote_le (chop s)
    rw [h] at hlen
    have hchop : chop s = s := (List.rdropWhile_prefix isBlank s).eq_of_length_le hlen
    rw [hchop] at h
    exact ⟨hchop, openQuote_eq_self_iff.mp h⟩
  · rintro ⟨hchop, hquote⟩
    rw [hchop]
    exact openQuote_eq_self_iff.mpr hquote

theorem reloadString_eq_iff {v old : Option (List UInt8)} :
    reloadString v old = v ↔ Kept v old := by
  cases v with
  | none =>
    refine iff_of_false ?_ ?_
    · exact some_ne_none _
    · rintro ⟨s, hs, -⟩
      cases hs
  | some s =>
    have hkept : Kept (some s) old ↔ if chop s = [] then old = some s
        else chop s = s ∧ s.head? ≠ some 34 ∧ s.head? ≠ some 39 := by
      simp [Kept]
    rw [hkept, reloadString, show printString (some s) = s from rfl]
    split_ifs with hs
    · exact Iff.rfl
    · rw [some_inj]
      exact openQuote_chop_eq_self_iff

end Restored

/-- **Saving and loading.** For texts without line breaks that fit the buffer, the load succeeds,
and all saved fields have the values they had if and only if each saved text is one that survives.
-/
theorem saved_config_restored_iff (inet : Inet) (stale : ℕ → List UInt8) (conf before : AiccuConf)
    (h : Fits conf) :
    ∃ loaded unknown,
      aiccuLoadConfig inet stale (some (aiccuSaveConfig conf)) before =
        some (true, loaded, unknown) ∧ ((∀ f ∈ savedFields, loaded f = conf f) ↔
          ∀ f, .string f ∈ savedFields → Kept (conf (.string f)) (before (.string f))) := by
  obtain ⟨loaded, unknown, hload, hfields⟩ :=
    aiccuLoadConfig_aiccuSaveConfig h
  refine ⟨loaded, unknown, hload, ?_⟩
  constructor
  · intro hall f hf
    exact reloadString_eq_iff.mp ((hfields _ hf).symm.trans (hall _ hf))
  · intro hkept f hf
    rw [hfields f hf]
    cases f with
    | string f => exact reloadString_eq_iff.mpr (hkept f hf)
    | bool f => rfl

def sampleConf (username password tunnelId : Option (List UInt8)) : AiccuConf
  | .string .username => username
  | .string .password => password
  | .string .tunnelId => tunnelId
  | f => aiccuInitConfig f

def joeConf : AiccuConf :=
  sampleConf (some (ascii "joe")) (some (ascii "secret words")) (some (ascii "T1"))

theorem fits_joeConf : Fits joeConf := by
  intro title f s hl hs
  refine .setting (savedLines_fixed _ hl) ?_
  cases f <;> cases hs <;> decide

def emptyPasswordConf : AiccuConf := sampleConf none (some []) none

theorem fits_emptyPasswordConf : Fits emptyPasswordConf := by
  intro title f s hl hs
  refine .setting (savedLines_fixed _ hl) ?_
  cases f <;> cases hs <;> decide

/-- A configuration that is restored. -/
theorem joeConf_restored :
    ∃ loaded unknown, aiccuLoadConfig noInet (fun _ => []) (some (aiccuSaveConfig joeConf))
        aiccuInitConfig = some (true, loaded, unknown) ∧ ∀ f ∈ savedFields,
          loaded f = joeConf f := by
  obtain ⟨loaded, unknown, hload, hiff⟩ := saved_config_restored_iff noInet (fun _ => []) joeConf
    aiccuInitConfig fits_joeConf
  refine ⟨loaded, unknown, hload, hiff.mpr ?_⟩
  intro f hf
  cases f
  case localIpv4Override => exact absurd rfl ((mem_savedFields_iff _).mp hf)
  all_goals exact ⟨_, rfl, by decide⟩

/-- The defaults have no name. After they were saved and loaded, the name is `(null)`, and an empty
password is gone. -/
theorem unset_and_empty_not_restored :
    ∃ loaded unknown, aiccuLoadConfig noInet (fun _ => [])
      (some (aiccuSaveConfig emptyPasswordConf))
        aiccuInitConfig = some (true, loaded, unknown) ∧
      emptyPasswordConf (.string .username) = none ∧
      loaded (.string .username) = some (ascii "(null)") ∧
      emptyPasswordConf (.string .password) = some [] ∧ loaded (.string .password) = none := by
  obtain ⟨loaded, unknown, hload, hfields⟩ := aiccuLoadConfig_aiccuSaveConfig fits_emptyPasswordConf
  refine ⟨loaded, unknown, hload, rfl, ?_, rfl, ?_⟩
  · exact hfields _ (by decide)
  · exact hfields _ (by decide)

end Maiccu.Aiccu
