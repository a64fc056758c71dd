import Maiccu.Aiccu.ListTunnels
import Maiccu.Aiccu.ParseLineExact
import Maiccu.Lib.CBuffer

/-!
# The data of one tunnel

`tic_GetTunnel` reads the lines between `201` and `202` into a structure with `parseline`, and then
uses two of its strings, whether a line has set them or not.
-/

namespace Maiccu.Tic

open Maiccu.Lib Maiccu.Aiccu Option List

/-! ## The structure -/

/-- The strings of `struct TIC_Tunnel` that a reply can set. -/
inductive TunnelString where
  | sId
  | sType
  | sIPv4Local
  | sIPv4POP
  | sIPv6Local
  | sIPv6POP
  | sPOPId
  | sUserState
  | sAdminState
  | sPassword
  deriving DecidableEq

inductive TunnelNumber where
  | nHeartbeatInterval
  | nIPv6PrefixLength
  | nMTU
  deriving DecidableEq

inductive TunnelField where
  | string (f : TunnelString)
  | number (f : TunnelNumber)
  deriving DecidableEq

abbrev TunnelField.kind : TunnelField → PlRuletype
  | .string _ => .string
  | .number _ => .integer

abbrev TunnelData : Type := Record TunnelField TunnelField.kind

def tunnelRules : List (PlRule TunnelField) :=
  [⟨ascii "TunnelId", .string .sId⟩,
   ⟨ascii "Type", .string .sType⟩,
   ⟨ascii "IPv6 Endpoint", .string .sIPv6Local⟩,
   ⟨ascii "IPv6 POP", .string .sIPv6POP⟩,
   ⟨ascii "IPv6 PrefixLength", .number .nIPv6PrefixLength⟩,
   ⟨ascii "POP Id", .string .sPOPId⟩,
   ⟨ascii "IPv4 Endpoint", .string .sIPv4Local⟩,
   ⟨ascii "IPv4 POP", .string .sIPv4POP⟩,
   ⟨ascii "UserState", .string .sUserState⟩,
   ⟨ascii "AdminState", .string .sAdminState⟩,
   ⟨ascii "Password", .string .sPassword⟩,
   ⟨ascii "Heartbeat_Interval", .number .nHeartbeatInterval⟩,
   ⟨ascii "Tunnel MTU", .number .nMTU⟩]

def clearedTunnel : TunnelData
  | .string _ => none
  | .number _ => (0 : UInt32)

/-- `struct TIC_Tunnel`. -/
structure TicTunnel where
  data : TunnelData
  sIPv6LinkLocal : List UInt8
  usesTundev : Bool

/-! ## The function -/

def linkLocal (a : Bytes 16) : Bytes 16 :=
  let b := fun i => a.toList.getD i 0
  bytes [0xfe, 0x80, 0, 0, 0, 0, 0, 0, b 2 &&& 0xfc, b 3, b 4, b 5, b 6, b 7, b 14, b 15]

/-- What is done with the fields at the line `202`. `unset` is what the array for the local address
has in it before. -/
def completeTunnel (inet : Inet) (unset : Bytes 16) (data : TunnelData) :
    Except Fault TicTunnel := do
  let local6 ← deref (data (.string .sIPv6Local))
  let type ← deref (data (.string .sType))
  return {
    data
    sIPv6LinkLocal := inet.ntop6 (linkLocal ((inet.pton6 local6).getD unset))
    usesTundev := type = ascii "ayiya" ∨ type = ascii "l2tp" }

inductive GetRun where
  | reading (data : TunnelData)
  | returned (tun : Option TicTunnel) (unread : List Outcome)
  | fault (why : Fault)

/-- The loop over the lines. A failed read leaves `buf` cleared, so that the structure is freed. -/
def getLoop (inet : Inet) (unset : Bytes 16) : List Outcome → TunnelData → GetRun
  | [], data => .reading data
  | .fault :: _, _ => .fault .overflow
  | .fail :: os, _ => .returned none os
  | .line _ text :: os, data =>
    if endOfList <+: text then
      match completeTunnel inet unset data with
      | .ok tun => .returned (some tun) os
      | .error why => .fault why
    else if 0 ∉ lineArray text then .fault .overflow else
    match parseline inet Separator.colon.text tunnelRules (.ofArray (lineArray text)) data with
    | none => .fault .overflow
    | some r => getLoop inet unset os r.data

/-- `tic_GetTunnel`, after the request was sent. -/
def ticGetTunnel (inet : Inet) (unset : Bytes 16) : List Outcome → GetRun
  | [] => .reading clearedTunnel
  | .fault :: _ => .fault .overflow
  | .fail :: os => .returned none os
  | .line _ text :: os =>
    if startOfList <+: text then getLoop inet unset os clearedTunnel
    else if 0 ∉ lineArray text then .fault .overflow else .returned none os

/-! ## The last values -/

def given (title line : List UInt8) : Option (List UInt8) :=
  if Ignored (chop line) then none else
  match cutAt Separator.colon.text line with
  | none => none
  | some (key, value) => if key = title then some (unquote (skipBlanks (chop value))) else none

def TunnelField.value : (f : TunnelField) → List UInt8 → f.kind.Val
  | .string _, v => some v
  | .number _, v => UInt32.ofInt (atoi v)

/-- The field when the values came one after the other. -/
def TunnelField.last (f : TunnelField) (values : List (List UInt8)) (old : f.kind.Val) :
    f.kind.Val :=
  match values.getLast? with
  | some v => f.value v
  | none => old

/-- The last value that a line gives for the rule. -/
def lastGiven (r : PlRule TunnelField) (lines : List (List UInt8)) : r.offset.kind.Val :=
  r.offset.last (lines.filterMap fun text => given r.title (cString text)) (clearedTunnel r.offset)

/-! ## What is read -/

def lineBuf (text : List UInt8) : LineBuf := .ofArray (lineArray text)

/-- The rule used for a line is the first one whose title the key begins with. -/
def ruleFor (text : List UInt8) : Option (PlRule TunnelField) :=
  if Ignored (chop (lineBuf text).line) then none
  else tunnelRules.find? fun r => decide (r.title <+: usedKey .colon (chop (lineBuf text).line))

def takenFor (r : PlRule TunnelField) (text : List UInt8) : Option (List UInt8) :=
  if ruleFor text = some r then takenValue .colon (lineBuf text) else none

def lastTaken (r : PlRule TunnelField) (lines : List (List UInt8)) : r.offset.kind.Val :=
  r.offset.last (lines.filterMap (takenFor r)) (clearedTunnel r.offset)

/-- There is a zero behind the line, and behind the value if a rule is used. -/
def InBuffer (text : List UInt8) : Prop :=
  Ends text ∧ (ruleFor text = none ∨ takenValue .colon (lineBuf text) ≠ none)

/-- The lines before `202` are read inside of the buffer, what is taken last for a field is what was
given last for its title, and the two strings that are used are given. -/
structure Retrievable (lines : List (List UInt8)) : Prop where
  inBuffer : ∀ text ∈ lines, InBuffer text
  last : ∀ r ∈ tunnelRules, lastTaken r lines = lastGiven r lines
  endpoint : ∃ text ∈ lines, given (ascii "IPv6 Endpoint") (cString text) ≠ none
  type : ∃ text ∈ lines, given (ascii "Type") (cString text) ≠ none

section Fold

variable {inet : Inet} {r r' : PlRule TunnelField} {data data' : TunnelData} {text : List UInt8}

theorem eq_of_offset_eq (hr : r ∈ tunnelRules) (hr' : r' ∈ tunnelRules) (h : r.offset = r'.offset) :
    r = r' := by
  have hall : ∀ r ∈ tunnelRules, ∀ r' ∈ tunnelRules, r.offset = r'.offset → r = r' := by
    decide +kernel
  exact hall r hr r' hr' h

theorem mem_of_ruleFor (h : ruleFor text = some r) : r ∈ tunnelRules := by
  unfold ruleFor at h
  split_ifs at h
  exact mem_of_find?_eq_some h

theorem store_tunnel (inet : Inet) (r : PlRule TunnelField) (v : List UInt8) (data : TunnelData) :
    r.store inet v data = Function.update data r.offset (r.offset.value v) := by
  obtain ⟨title, f⟩ := r
  cases f <;> rfl

theorem parseline_tunnelRules (inet : Inet) (text : List UInt8) (data : TunnelData) :
    (parseline inet Separator.colon.text tunnelRules (lineBuf text) data).map Parsed.data =
      match ruleFor text with
      | none => some data
      | some r => (takenValue .colon (lineBuf text)).map fun v => r.store inet v data := by
  unfold ruleFor
  split_ifs with hi
  · rw [parseline_of_ignored hi]
    rfl
  · have h := congrArg (Option.map Prod.snd)
      (@parseline_taken .colon _ _ _ inet tunnelRules _ data hi)
    rw [Option.map_map] at h
    refine h.trans ?_
    cases tunnelRules.find? _ with
    | none => rfl
    | some r => exact Option.map_map _ _ _

theorem exists_parsed_iff (inet : Inet) (text : List UInt8) (data : TunnelData) :
    (∃ data', (parseline inet Separator.colon.text tunnelRules (lineBuf text) data).map
      Parsed.data =
      some data') ↔ ruleFor text = none ∨ takenValue .colon (lineBuf text) ≠ none := by
  rw [parseline_tunnelRules]
  cases ruleFor text with
  | none => simp
  | some r => cases takenValue .colon (lineBuf text) <;> simp

theorem parsed_field (hr : r ∈ tunnelRules)
    (h : (parseline inet Separator.colon.text tunnelRules (lineBuf text) data).map Parsed.data =
      some data') :
    data' r.offset = match takenFor r text with
      | some v => r.offset.value v
      | none => data r.offset := by
  rw [parseline_tunnelRules] at h
  unfold takenFor
  cases hrule : ruleFor text with
  | none =>
    rw [hrule] at h
    cases h
    rfl
  | some r' =>
    rw [hrule] at h
    obtain ⟨v, hv, rfl⟩ := map_eq_some_iff.mp h
    rw [store_tunnel]
    by_cases heq : r' = r
    · subst heq
      rw [if_pos rfl, hv, Function.update_self]
    · rw [if_neg fun h => heq (some.inj h), Function.update_of_ne]
      exact fun hoff => heq (eq_of_offset_eq (mem_of_ruleFor hrule) hr hoff.symm)

theorem last_cons (f : TunnelField) (read : List UInt8 → Option (List UInt8)) (text : List UInt8)
    (texts : List (List UInt8)) (old : f.kind.Val) :
    f.last ((text :: texts).filterMap read) old = f.last (texts.filterMap read)
      (match read text with
      | some v => f.value v
      | none => old) := by
  unfold TunnelField.last
  cases h : read text with
  | none => rw [filterMap_cons_none h]
  | some v =>
    rw [filterMap_cons_some h, getLast?_cons]
    cases (texts.filterMap read).getLast? with
    | none | some w => rfl

theorem lastGiven_ne_none {title : List UInt8} (f : TunnelString) {lines : List (List UInt8)} :
    lastGiven ⟨title, .string f⟩ lines ≠ none ↔
      ∃ text ∈ lines, given title (cString text) ≠ none := by
  unfold lastGiven TunnelField.last
  cases h : (lines.filterMap fun text => given title (cString text)).getLast? with
  | none =>
    rw [getLast?_eq_none_iff, filterMap_eq_nil_iff] at h
    exact iff_of_false (fun hne => hne rfl) fun ⟨text, htext, hne⟩ => hne (h text htext)
  | some v =>
    obtain ⟨text, htext, hv⟩ := mem_filterMap.mp (mem_of_getLast? h)
    exact iff_of_true nofun ⟨text, htext, by rw [hv]; exact nofun⟩

end Fold

/-! ## Replies -/

section Reply

variable {inet : Inet} {unset : Bytes 16} {data : TunnelData} {texts : List (List UInt8)}
  {os : List Outcome} {text : List UInt8}

theorem zero_mem_lineArray (hlen : text.length ≤ bufLen) : 0 ∈ lineArray text ↔ Ends text := by
  unfold lineArray Ends
  rw [mem_append, mem_replicate]
  by_cases hmem : 0 ∈ text
  · simp only [hmem, true_or, and_true, true_iff]
    omega
  · simp only [hmem, false_or, and_false, or_false, and_true, ne_eq]
    omega

/-- The lines before `202`. -/
def dataLines (texts : List (List UInt8)) : List (List UInt8) :=
  texts.takeWhile fun text => decide (¬ endOfList <+: text)

theorem getLoop_line (hlen : text.length ≤ bufLen) (hend : ¬ endOfList <+: text) (n : ℕ) :
    (∃ data', getLoop inet unset (.line n text :: os) data = getLoop inet unset os data' ∧
        InBuffer text ∧ ∀ r ∈ tunnelRules, data' r.offset =
          match takenFor r text with
          | some v => r.offset.value v
          | none => data r.offset) ∨
      (∃ why, getLoop inet unset (.line n text :: os) data = .fault why) ∧ ¬ InBuffer text := by
  rw [getLoop, if_neg hend]
  by_cases hends : Ends text
  swap
  · rw [if_pos ((zero_mem_lineArray hlen).not.mpr hends)]
    exact .inr ⟨⟨_, rfl⟩, fun h => hends h.1⟩
  rw [if_neg (not_not.mpr ((zero_mem_lineArray hlen).mpr hends))]
  have hparsed := exists_parsed_iff inet text data
  cases hp : parseline inet Separator.colon.text tunnelRules (lineBuf text) data with
  | none =>
    rw [hp] at hparsed
    refine .inr ⟨⟨.overflow, ?_⟩, fun h => ?_⟩
    · rw [← lineBuf, hp]
    · obtain ⟨_, hnone⟩ := hparsed.mpr h.2
      cases hnone
  | some p =>
    refine .inl ⟨p.data, ?_, ⟨hends, hparsed.mp ⟨p.data, by rw [hp]; rfl⟩⟩, fun r hr => ?_⟩
    · rw [← lineBuf, hp]
    · exact parsed_field hr (by rw [hp]; rfl)

theorem getLoop_lines (hos : os.map Outcome.line? = texts.map some)
    (hlen : ∀ text ∈ texts, text.length ≤ bufLen) (hend : ∃ text ∈ texts, endOfList <+: text)
    (data : TunnelData) :
    (∃ data' unread, getLoop inet unset os data =
        (match completeTunnel inet unset data' with
        | .ok tun => .returned (some tun) unread
        | .error why => .fault why) ∧ (∀ text ∈ dataLines texts, InBuffer text) ∧
        ∀ r ∈ tunnelRules, data' r.offset =
          r.offset.last ((dataLines texts).filterMap (takenFor r)) (data r.offset)) ∨
      (∃ why, getLoop inet unset os data = .fault why) ∧
        ¬ ∀ text ∈ dataLines texts, InBuffer text := by
  induction texts generalizing os data with
  | nil =>
    obtain ⟨_, h, -⟩ := hend
    exact absurd h not_mem_nil
  | cons text texts ih =>
    obtain ⟨o, os', rfl, ho, hos'⟩ := map_eq_cons_iff.mp hos
    obtain ⟨n, rfl⟩ := line_of_line? ho
    rw [forall_mem_cons] at hlen
    by_cases he : endOfList <+: text
    · have hnil : dataLines (text :: texts) = [] := takeWhile_cons_of_neg (by simpa using he)
      rw [getLoop, if_pos he, hnil]
      exact .inl ⟨data, os', rfl, by simp, fun r _ => rfl⟩
    have hcons : dataLines (text :: texts) = text :: dataLines texts :=
      takeWhile_cons_of_pos (by simpa using he)
    rw [hcons, forall_mem_cons]
    obtain ⟨data', hrun, hin, hdata⟩ | ⟨hrun, hout⟩ := getLoop_line hlen.1 he n
    · rw [hrun]
      obtain ⟨data'', unread, hrun', hin', hdata'⟩ | ⟨hrun', hout⟩ :=
        ih hos' hlen.2 (by simpa [he] using hend) data'
      · refine .inl ⟨data'', unread, hrun', ⟨hin, hin'⟩, fun r hr => ?_⟩
        rw [hdata' r hr, hdata r hr, last_cons]
      · exact .inr ⟨hrun', fun h => hout h.2⟩
    · exact .inr ⟨hrun, fun h => hout h.1⟩

theorem completeTunnel_cases (inet : Inet) (unset : Bytes 16) (data : TunnelData) :
    (∃ tun, completeTunnel inet unset data = .ok tun ∧ tun.data = data ∧
      data (.string .sIPv6Local) ≠ none ∧ data (.string .sType) ≠ none) ∨
    (∃ why, completeTunnel inet unset data = .error why) ∧
      (data (.string .sIPv6Local) = none ∨ data (.string .sType) = none) := by
  unfold completeTunnel
  cases data (.string .sIPv6Local) with
  | none => exact .inr ⟨⟨_, rfl⟩, .inl rfl⟩
  | some local6 =>
    cases data (.string .sType) with
    | none => exact .inr ⟨⟨_, rfl⟩, .inr rfl⟩
    | some type => exact .inl ⟨_, rfl, rfl, nofun, nofun⟩

theorem returned_iff {lines : List (List UInt8)} {unread : List Outcome}
    (hin : ∀ text ∈ lines, InBuffer text)
    (hdata : ∀ r ∈ tunnelRules, data r.offset = lastTaken r lines) :
    (∃ tun unread', (match completeTunnel inet unset data with
        | .ok tun => GetRun.returned (some tun) unread
        | .error why => .fault why) = .returned tun unread' ∧
      ∀ t ∈ tun, ∀ r ∈ tunnelRules, t.data r.offset = lastGiven r lines) ↔ Retrievable lines := by
  have hlocal := hdata ⟨ascii "IPv6 Endpoint", .string .sIPv6Local⟩ (by decide)
  have htype := hdata ⟨ascii "Type", .string .sType⟩ (by decide)
  obtain ⟨t, ht, rfl, hlocal', htype'⟩ | ⟨⟨why, hwhy⟩, hnone⟩ :=
    completeTunnel_cases inet unset data
  · rw [ht]
    constructor
    · rintro ⟨_, _, ⟨⟩, hvalues⟩
      have hlast : ∀ r ∈ tunnelRules, lastTaken r lines = lastGiven r lines :=
        fun r hr => (hdata r hr).symm.trans (hvalues t rfl r hr)
      rw [hlast _ (by decide)] at hlocal htype
      exact ⟨hin, hlast, (lastGiven_ne_none _).mp (hlocal ▸ hlocal'),
        (lastGiven_ne_none _).mp (htype ▸ htype')⟩
    · intro h
      refine ⟨some t, unread, rfl, ?_⟩
      rintro _ ⟨⟩ r hr
      rw [hdata r hr, h.last r hr]
  · rw [hwhy]
    refine iff_of_false nofun fun h => ?_
    rw [h.last _ (by decide)] at hlocal htype
    rcases hnone with hnone | hnone
    · exact (lastGiven_ne_none _).mpr h.endpoint (hlocal.symm.trans hnone)
    · exact (lastGiven_ne_none _).mpr h.type (htype.symm.trans hnone)

end Reply

/-- The MTU has a blank too many before it, which `atoi` skips. -/
def ayiyaTexts : List (List UInt8) :=
  [ascii "Type: ayiya", ascii "IPv6 Endpoint: 2001:db8::2", ascii "Tunnel MTU:  1280",
    ascii "202 Done"]

theorem ayiyaTexts_retrievable : Retrievable (dataLines ayiyaTexts) := by
  have hlines : dataLines ayiyaTexts = ayiyaTexts.dropLast := by decide
  rw [hlines]
  have htype : ruleFor (ascii "Type: ayiya") = some ⟨ascii "Type", .string .sType⟩ ∧
      takenValue .colon (lineBuf (ascii "Type: ayiya")) = some (ascii "ayiya") := by decide +kernel
  have hlocal : ruleFor (ascii "IPv6 Endpoint: 2001:db8::2") =
      some ⟨ascii "IPv6 Endpoint", .string .sIPv6Local⟩ ∧
      takenValue .colon (lineBuf (ascii "IPv6 Endpoint: 2001:db8::2")) =
        some (ascii "2001:db8::2") := by decide +kernel
  have hmtu : ruleFor (ascii "Tunnel MTU:  1280") = some ⟨ascii "Tunnel MTU", .number .nMTU⟩ ∧
      takenValue .colon (lineBuf (ascii "Tunnel MTU:  1280")) = some (ascii " 1280") := by
    decide +kernel
  refine ⟨?_, ?_, by decide, by decide⟩
  · simp only [ayiyaTexts, dropLast, forall_mem_cons, InBuffer, htype, hlocal, hmtu]
    exact ⟨⟨.inl (by decide), .inr nofun⟩, ⟨.inl (by decide), .inr nofun⟩,
      ⟨.inl (by decide), .inr nofun⟩, by simp⟩
  · simp only [tunnelRules, ayiyaTexts, dropLast, forall_mem_cons, lastTaken, filterMap_cons,
      takenFor, htype, hlocal, hmtu]
    exact ⟨rfl, rfl, rfl, rfl, rfl, rfl, rfl, rfl, rfl, rfl, rfl, rfl, rfl, by simp⟩

end Maiccu.Tic
