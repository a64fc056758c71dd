import Maiccu.Gogoc.TunnelInfo
import Maiccu.Gogoc.XmlResult

/-!
# The result for the XML part of a reply

The processing functions of `xml_tun.c` call the parser again for the content of their elements. So
one call of `tspXMLParse` is a tree of calls of the parser. The tables are not recursive, and the
tree is finite.
-/

namespace Maiccu.Gogoc.Xml

open Maiccu.Lib Relation Option

/-! ## Calls inside calls -/

/-- The tables of `xml_tun.c`. -/
inductive IsTable : TunTable → Prop where
  | root : IsTable rootTable
  | tunnel : IsTable tunnelTable
  | server : IsTable serverTable
  | client : IsTable clientTable
  | router : IsTable routerTable
  | dnsServer : IsTable dnsServerTable
  | broker : IsTable brokerTable
  | keepalive : IsTable keepaliveTable

/-- What a processing function does before it parses the content of its element. -/
abbrev Before := (ℕ → Option Ptr) → TunState → Option TunState

def enter (set : Bool → Vars → Vars) (x : TunState) : TunState :=
  { x with info := set true x.info }

def beforeDnsServer : Before := fun _ x => some (enter (fun b v => { v with dnsServer := b }) x)

def beforeRouter : Before := fun values x =>
  (assign (values 0) .routerProtocol x).map (enter fun b v => { v with router := b })

/-- The table for the content of an element, and what is done before it is parsed. -/
def inner : TableId → ℕ → Option (TunTable × Before)
  | .root, 0 => some (tunnelTable, fun values x =>
      tunnelFields.foldlM (fun x f => assign (values f.1) f.2 x) x)
  | .tunnel, 0 => some (serverTable, fun _ x => some (enter (fun b v => { v with server := b }) x))
  | .tunnel, 1 => some (clientTable, fun _ x => some (enter (fun b v => { v with client := b }) x))
  | .tunnel, 2 => some (brokerTable, fun _ x => some (enter (fun b v => { v with broker := b }) x))
  | .server, 1 => some (routerTable, beforeRouter)
  | .client, 1 => some (dnsServerTable, beforeDnsServer)
  | .client, 2 => some (routerTable, beforeRouter)
  | .client, 3 => some (keepaliveTable, fun values x =>
      (assign (values 0) .keepaliveInterval x).map (enter fun b v => { v with keepalive := b }))
  | .router, 1 => some (dnsServerTable, beforeDnsServer)
  | _, _ => none

def TableId.depth : TableId → ℕ
  | .root => 4
  | .tunnel => 3
  | .server => 2
  | .client => 2
  | .router => 1
  | .dnsServer => 0
  | .broker => 0
  | .keepalive => 0

/-- The processing function parses the content with `t` and passes the result on. -/
def Parses (p : Proc TableId Vars) (t : TunTable) (before : Before) : Prop :=
  ∃ after : TunState → TunState, ∀ values content z, p values content z =
    (before values z).bind fun y => (parseContent t content y).map fun r => (r.1, after r.2)

/-- The processing function does not call the parser, and what it returns is 0. -/
def ReturnsZero (p : Proc TableId Vars) : Prop :=
  ∀ values content z r, p values content z = some r → r.1 = 0

variable {t : TunTable}

section Procs

variable {set : Bool → Vars → Vars}

theorem parses_inside :
    Parses (fun _ content x => parseInside set t content x) t fun _ x => some (enter set x) :=
  ⟨fun x => { x with info := set false x.info }, fun _ _ _ => rfl⟩

theorem parses_assign_inside {f : Field} :
    Parses (fun values content x =>
        (assign (values 0) f x).bind fun x' => parseInside set t content x')
      t fun values x => (assign (values 0) f x).map (enter set) := by
  refine ⟨fun x => { x with info := set false x.info }, fun values content z => ?_⟩
  rw [bind_map]
  rfl

theorem parses_tunnel : Parses pTunnel tunnelTable fun values x =>
    tunnelFields.foldlM (fun x f => assign (values f.1) f.2 x) x := by
  refine ⟨id, fun values content z => ?_⟩
  unfold pTunnel
  simp only [id_eq, Prod.mk.eta, map_id']

theorem map_zero {r : ℤ × TunState} {o : Option TunState}
    (h : (o.map fun x' => ((0 : ℤ), x')) = some r) : r.1 = 0 := by
  obtain ⟨x', -, rfl⟩ := map_eq_some_iff.mp h
  rfl

theorem pAddress_zero : ReturnsZero pAddress := by
  intro values content z r h
  unfold pAddress at h
  split at h
  · cases h
    rfl
  · obtain ⟨p, -, h⟩ := bind_eq_some_iff.mp h
    obtain ⟨type, -, h⟩ := bind_eq_some_iff.mp h
    split at h
    · cases h
      rfl
    · exact map_zero h

theorem pAs_zero : ReturnsZero pAs := by
  intro values content z r h
  unfold pAs at h
  split_ifs at h
  · exact map_zero h
  · exact map_zero h
  · cases h
    rfl

theorem pPrefix_zero : ReturnsZero pPrefix := by
  intro values content z r h
  obtain ⟨x₁, -, h⟩ := bind_eq_some_iff.mp h
  exact map_zero h

/-- What the processing function of a node does, from the table `inner`. -/
inductive ProcOf (t : TunTable) (k : ℕ) (p : Proc TableId Vars) : Prop where
  | leaf : inner t.id k = none → ReturnsZero p → ProcOf t k p
  | parses {t' : TunTable} {before : Before} : inner t.id k = some (t', before) → IsTable t' →
      t'.id.depth < t.id.depth → Parses p t' before → ProcOf t k p

inductive ProcsFrom (t : TunTable) : ℕ → List (Node TableId Vars) → Prop where
  | nil {k : ℕ} : ProcsFrom t k []
  | cons {k : ℕ} {name : List UInt8} {p : Proc TableId Vars} {attributes : List (List UInt8)}
      {nodes : List (Node TableId Vars)} :
      ProcOf t k p → ProcsFrom t (k + 1) nodes → ProcsFrom t k (⟨name, some p, attributes⟩ :: nodes)

variable {k : ℕ} {n : Node TableId Vars} {p : Proc TableId Vars}

theorem ProcsFrom.proc {i : ℕ} {nodes : List (Node TableId Vars)} (h : ProcsFrom t k nodes)
    (hn : nodes[i]? = some n) (hp : n.p = some p) : ProcOf t (k + i) p := by
  induction h generalizing i with
  | nil => cases hn
  | @cons k name p' attributes nodes hproc _ ih =>
    cases i with
    | zero =>
      cases hn
      cases hp
      exact hproc
    | succ i =>
      have hnext := ih hn
      rwa [Nat.add_right_comm] at hnext

theorem IsTable.procs (ht : IsTable t) : ProcsFrom t 0 t.nodes := by
  cases ht with
  | root => exact .cons (.parses rfl .tunnel (by decide) parses_tunnel) .nil
  | tunnel =>
    exact .cons (.parses rfl .server (by decide) parses_inside)
      (.cons (.parses rfl .client (by decide) parses_inside)
        (.cons (.parses rfl .broker (by decide) parses_inside) .nil))
  | server =>
    exact .cons (.leaf rfl pAddress_zero)
      (.cons (.parses rfl .router (by decide) parses_assign_inside) .nil)
  | client =>
    exact .cons (.leaf rfl pAddress_zero)
      (.cons (.parses rfl .dnsServer (by decide) parses_inside)
        (.cons (.parses rfl .router (by decide) parses_assign_inside)
          (.cons (.parses rfl .keepalive (by decide) parses_assign_inside) .nil)))
  | router =>
    exact .cons (.leaf rfl pPrefix_zero)
      (.cons (.parses rfl .dnsServer (by decide) parses_inside) (.cons (.leaf rfl pAs_zero) .nil))
  | dnsServer | broker | keepalive => exact .cons (.leaf rfl pAddress_zero) .nil

theorem IsTable.proc (ht : IsTable t) (hn : t.nodes[k]? = some n) (hp : n.p = some p) :
    ProcOf t k p := by
  have hproc := ht.procs.proc hn hp
  rwa [Nat.zero_add] at hproc

theorem IsTable.keeps (ht : IsTable t) : t.Keeps Vars.owned := by
  cases ht with
  | root => exact rootTable_keeps
  | tunnel => exact tunnelTable_keeps
  | server => exact serverTable_keeps
  | client => exact clientTable_keeps
  | router => exact routerTable_keeps
  | dnsServer | broker | keepalive => exact addressTable_keeps

end Procs

/-! ## The tree of calls -/

/-- A call of the parser. -/
structure Call where
  table : TunTable
  str : List UInt8
  state : TunState

variable (c : Call)

def Call.parse : Option (ℤ × TunState) := xmlParse c.table c.str c.state

def Call.Completes : Prop := Xml.Completes c.table c.str c.state

def Call.BeginsWithText : Prop := Xml.BeginsWithText c.str c.state

def Call.Calls (k : ℕ) (p : Proc TableId Vars) (content : Ptr) (z : TunState) : Prop :=
  Xml.Calls c.table c.str c.state k p content z

/-- The call `c'` is made by a processing function that the call `c` calls. -/
inductive Call.Inside : Call → Call → Prop where
  | mk {c : Call} {k : ℕ} {p : Proc TableId Vars} {content : Ptr} {t : TunTable} {before : Before}
      {str : List UInt8} {y z : TunState} :
      c.Calls k p content z → inner c.table.id k = some (t, before) →
      before (z.values c.table.id k) z = some y → y.heap.text content = some str →
      Inside c ⟨t, str, y⟩

/-- The parser stays in its memory, and so does what the processing functions do outside the parser:
the attributes that they read are texts. -/
structure Call.Sound (c : Call) : Prop where
  tags : ¬Faulty c.table c.str c.state
  leaf {k : ℕ} {p : Proc TableId Vars} {content : Ptr} {z : TunState} : c.Calls k p content z →
    inner c.table.id k = none → p (z.values c.table.id k) content z ≠ none
  before {k : ℕ} {p : Proc TableId Vars} {content : Ptr} {z : TunState} {t : TunTable}
    {before : Before} : c.Calls k p content z → inner c.table.id k = some (t, before) →
    ∃ y, before (z.values c.table.id k) z = some y ∧ (y.heap.text content).isSome = true

variable {c' : Call} {c} {code : ℤ} {x' : TunState}

variable {k : ℕ} {p : Proc TableId Vars} {content : Ptr} {z : TunState}

theorem Call.Calls.proc (ht : IsTable c.table) (h : c.Calls k p content z) :
    ProcOf c.table k p := by
  obtain ⟨n, hn, hp⟩ := Xml.Calls.node h
  exact ht.proc hn hp

theorem Call.Calls.parses {before : Before} (ht : IsTable c.table)
    (h : c.Calls k p content z) (hinner : inner c.table.id k = some (t, before)) :
    IsTable t ∧ t.id.depth < c.table.id.depth ∧ Parses p t before := by
  cases h.proc ht with
  | leaf hnone => cases hnone.symm.trans hinner
  | parses hinner' htable hdepth hparses =>
    cases hinner.symm.trans hinner'
    exact ⟨htable, hdepth, hparses⟩

section

variable (ht : IsTable c.table)
include ht

theorem Call.Inside.proc (h : c.Inside c') :
    IsTable c'.table ∧ c'.table.id.depth < c.table.id.depth ∧
      ∃ k p content z after, c.Calls k p content z ∧ p (z.values c.table.id k) content z =
          c'.parse.map fun r : ℤ × TunState => (r.1, (after : TunState → TunState) r.2) := by
  cases h with
  | @mk k p content t before str y z hcall hinner hbefore htext =>
    obtain ⟨htable, hdepth, after, hafter⟩ := hcall.parses ht hinner
    refine ⟨htable, hdepth, k, p, content, z, after, hcall, ?_⟩
    rw [hafter, hbefore, bind_some]
    unfold parseContent
    rw [htext]
    rfl

theorem Call.table_of_inside (h : ReflTransGen Call.Inside c c') : IsTable c'.table := by
  induction h with
  | refl => exact ht
  | tail _ hstep ih => exact (hstep.proc ih).1

theorem Call.parse_eq_none (h : ReflTransGen Call.Inside c c')
    (hnone : c'.parse = none) : c.parse = none := by
  induction h using ReflTransGen.head_induction_on with
  | refl => exact hnone
  | @head c c₁ hstep _ ih =>
    obtain ⟨ht₁, -, k, p, content, z, after, hcall, hp⟩ := hstep.proc ht
    rw [ih ht₁, map_none] at hp
    exact (xmlParse_eq_none_iff ht.keeps).mpr (.inr ⟨k, p, content, z, hcall, hp⟩)

theorem Call.sound_of_some (h : c.parse ≠ none) : c.Sound := by
  have hsome : ¬xmlParse c.table c.str c.state = none := h
  rw [xmlParse_eq_none_iff ht.keeps, not_or] at hsome
  have hcalled {k : ℕ} {p : Proc TableId Vars} {content : Ptr} {z : TunState}
      (hcall : c.Calls k p content z) : p (z.values c.table.id k) content z ≠ none :=
    fun hp => hsome.2 ⟨k, p, content, z, hcall, hp⟩
  refine ⟨hsome.1, fun hcall _ => hcalled hcall, ?_⟩
  intro k p content z t before hcall hinner
  have hp := hcalled hcall
  obtain ⟨-, -, after, hafter⟩ := hcall.parses ht hinner
  rw [hafter] at hp
  obtain ⟨r, hr⟩ := ne_none_iff_exists'.mp hp
  obtain ⟨y, hy, hr⟩ := bind_eq_some_iff.mp hr
  obtain ⟨r', hparse, -⟩ := map_eq_some_iff.mp hr
  obtain ⟨str, hstr, -⟩ := bind_eq_some_iff.mp hparse
  exact ⟨y, hy, isSome_of_mem hstr⟩

end

theorem Call.exists_not_sound (d : ℕ) (hd : c.table.id.depth < d) (ht : IsTable c.table)
    (hnone : c.parse = none) : ∃ c', ReflTransGen Call.Inside c c' ∧ ¬c'.Sound := by
  induction d generalizing c with
  | zero => exact absurd hd (Nat.not_lt_zero _)
  | succ d ih =>
    by_contra hall
    have hsound (c' : Call) (h : ReflTransGen Call.Inside c c') : c'.Sound := by
      by_contra hc'
      exact hall ⟨c', h, hc'⟩
    rcases (xmlParse_eq_none_iff ht.keeps).mp hnone with hfault | ⟨k, p, content, z, hcall, hp⟩
    · exact (hsound c .refl).tags hfault
    have hcall : c.Calls k p content z := hcall
    cases hcall.proc ht with
    | leaf hleaf => exact (hsound c .refl).leaf hcall hleaf hp
    | parses hinner htable hdepth hparses =>
      obtain ⟨y, hy, htext⟩ := (hsound c .refl).before hcall hinner
      obtain ⟨str, hstr⟩ := isSome_iff_exists.mp htext
      have hinside : c.Inside ⟨_, str, y⟩ := .mk hcall hinner hy hstr
      -- What is left to have no result is the call inside.
      obtain ⟨after, hafter⟩ := hparses
      rw [hafter, hy, bind_some, map_eq_none_iff] at hp
      unfold parseContent at hp
      rw [hstr] at hp
      obtain ⟨c', hc', hunsound⟩ := ih (c := ⟨_, str, y⟩) (by dsimp only; omega) htable hp
      exact hunsound (hsound c' (.head hinside hc'))

theorem Call.parse_eq_none_iff (ht : IsTable c.table) :
    c.parse = none ↔ ∃ c', ReflTransGen Call.Inside c c' ∧ ¬c'.Sound := by
  constructor
  · exact exists_not_sound _ (Nat.lt_succ_self _) ht
  · rintro ⟨c', hinside, hsound⟩
    refine parse_eq_none ht hinside ?_
    by_contra hsome
    exact hsound (sound_of_some (table_of_inside ht hinside) hsome)

theorem Call.parse_eq_zero (ht : IsTable c.table) (h : ReflTransGen Call.Inside c c')
    (hzero : ∃ x', c.parse = some (0, x')) : ∃ x', c'.parse = some (0, x') := by
  induction h with
  | refl => exact hzero
  | @tail c₁ c₂ hreach hstep ih =>
    have ht₁ := table_of_inside ht hreach
    obtain ⟨x₁, hx₁⟩ := ih
    obtain ⟨-, -, k, p, content, z, after, hcall, hp⟩ := hstep.proc ht₁
    cases hparse : c₂.parse with
    | none =>
      rw [parse_eq_none ht₁ (.single hstep) hparse] at hx₁
      cases hx₁
    | some r =>
      rw [hparse, map_some] at hp
      have hr := Xml.Calls.result_eq_zero ht₁.keeps hcall hx₁ hp
      exact ⟨r.2, congrArg some (Prod.ext hr rfl)⟩

theorem Call.parse_eq_zero_iff (ht : IsTable c.table) (h : c.parse = some (code, x')) : code = 0 ↔
      ∀ c', ReflTransGen Call.Inside c c' → c'.Completes ∨ c'.BeginsWithText := by
  constructor
  · rintro rfl c' hinside
    obtain ⟨x₁, hx₁⟩ := parse_eq_zero ht hinside ⟨x', h⟩
    exact (xmlParse_eq_zero_iff (table_of_inside ht hinside).keeps hx₁).mp rfl
  · intro hall
    exact (xmlParse_eq_zero_iff ht.keeps h).mpr (hall c .refl)

def tspCall (data : List UInt8) (x : TunState) : Call :=
  let x₁ := (tspClearTunnelInfo x.info.theTunnelInfo).foldl State.free x
  ⟨rootTable, data, { x₁ with info := { x₁.info with
    client := false, server := false, router := false, dnsServer := false, broker := false } }⟩

/-- The result of `tspXMLParse` is 0 exactly if all calls complete, if and only if all calls are
sound, and no call begins with text unless another one has an error elsewhere. -/
theorem Call.exact_iff (ht : IsTable c.table) : (∃ code x', c.parse = some (code, x') ∧
        (code = 0 ↔ ∀ c', ReflTransGen Call.Inside c c' → c'.Completes)) ↔
      (∀ c', ReflTransGen Call.Inside c c' → c'.Sound) ∧
        ((∀ c', ReflTransGen Call.Inside c c' → ¬c'.BeginsWithText) ∨
          ∃ c', ReflTransGen Call.Inside c c' ∧ ¬c'.Completes ∧ ¬c'.BeginsWithText) := by
  constructor
  · rintro ⟨code, x', hparse, hcode⟩
    have hsome : ¬c.parse = none := by
      rw [hparse]
      exact some_ne_none _
    rw [parse_eq_none_iff ht] at hsome
    refine ⟨fun c' h => not_not.mp fun hc' => hsome ⟨c', h, hc'⟩, ?_⟩
    rw [or_iff_not_imp_right]
    intro hother c' hinside htext
    -- Without another error the result is 0, but a call that begins with text does not complete.
    have hzero : code = 0 := (parse_eq_zero_iff ht hparse).mpr fun c₁ h₁ => by
      by_contra hc₁
      exact hother ⟨c₁, h₁, not_or.mp hc₁⟩
    exact Xml.Completes.not_text (hcode.mp hzero c' hinside) htext
  · rintro ⟨hsound, hcase⟩
    cases hparse : c.parse with
    | none =>
      obtain ⟨c', hinside, hc'⟩ := (parse_eq_none_iff ht).mp hparse
      exact absurd (hsound c' hinside) hc'
    | some r =>
      refine ⟨r.1, r.2, rfl, (parse_eq_zero_iff ht hparse).trans ?_⟩
      rcases hcase with htext | ⟨c', hinside, hcomplete, htext⟩
      · exact forall₂_congr fun c' hinside => or_iff_left (htext c' hinside)
      · constructor
        · intro hall
          exact absurd (hall c' hinside) (not_or.mpr ⟨hcomplete, htext⟩)
        · intro hall
          exact absurd (hall c' hinside) hcomplete

/-- A call of the parser returns 0 if and only if it completes, unless its string begins with text,
the parser leaves its memory or a processing function does not return. For the calls inside
`tspXMLParse`, at every depth, the last two conditions are those on the tags and on the attributes
that are read. -/
theorem parse_result_iff {ι σ : Type} [DecidableEq ι] {owned : σ → List ℕ} (t : Table ι σ)
    (ht : t.Keeps owned) (str : List UInt8) (x : State ι σ) (data : List UInt8) (y : TunState) :
    ((∃ code x', xmlParse t str x = some (code, x') ∧ (code = 0 ↔ Completes t str x)) ↔
      ¬BeginsWithText str x ∧ ¬Faulty t str x ∧
        ∀ k p content z, Calls t str x k p content z → p (z.values t.id k) content z ≠ none) ∧
    ((∃ code y', tspXMLParse data y = some (code, y') ∧
        (code = 0 ↔ ∀ c, ReflTransGen Call.Inside (tspCall data y) c → c.Completes)) ↔
      (∀ c, ReflTransGen Call.Inside (tspCall data y) c → c.Sound) ∧
        ((∀ c, ReflTransGen Call.Inside (tspCall data y) c → ¬c.BeginsWithText) ∨
          ∃ c, ReflTransGen Call.Inside (tspCall data y) c ∧ ¬c.Completes ∧ ¬c.BeginsWithText)) :=
  ⟨xmlParse_exact_iff ht, Call.exact_iff (c := tspCall data y) .root⟩

theorem abc_is_text : isBlank (byte (ascii "abc") 0) = false ∧ byte (ascii "abc") 0 ≠ 60 ∧
    byte (ascii "abc") 0 ≠ 0 := by decide +kernel

theorem parse_result_iff_text : tunnelTable.Keeps Vars.owned ∧
    ¬∃ code x', xmlParse tunnelTable (ascii "abc") started = some (code, x') ∧
      (code = 0 ↔ Completes tunnelTable (ascii "abc") started) := by
  refine ⟨tunnelTable_keeps, fun hexact => ?_⟩
  have hiff := (parse_result_iff tunnelTable tunnelTable_keeps (ascii "abc") started [] started).1
  exact (hiff.mp hexact).1 ⟨rfl, abc_is_text⟩

def textInTunnel : List UInt8 := ascii "<tunnel>abc</tunnel>"

theorem textInTunnel_inside : ∃ y : TunState, y.memory = (fun _ => true) ∧
    (tspCall textInTunnel started).Inside ⟨tunnelTable, ascii "abc", y⟩ := by
  let s : List UInt8 := textInTunnel ++ [0]
  let tag : Tag := ⟨ascii "tunnel", s.set 7 0, 7, false⟩
  let x₁ : TunState := ⟨⟨[some s]⟩, started.values, started.memory, started.info⟩
  let y₁ : TunState := (x₁.setValues .root 0 fun _ => none).write 0 tag.bytes
  let z₁ : TunState := y₁.write 0 (tag.bytes.set 11 0)
  have hmatched : Matched 0 { tag with pos := 8 } y₁ 20 z₁ := by
    refine .ended (s := tag.bytes) (i := 3) rfl (by decide) rfl (by decide +kernel) ?_
    decide +kernel
  have htag : readTag s (skipBlanks s 0) = .ok tag := by decide +kernel
  have hstart : StartTag rootTable 0 0 x₁ _ { tag with pos := 8 } y₁ :=
    .known (s := s) (k := 0) rfl (by decide +kernel) htag rfl rfl
  have hcalls : (tspCall textInTunnel started).Calls 0 pTunnel ⟨0, 8⟩ z₁ :=
    ⟨0, 0, x₁, ⟨x₁, rfl, .refl⟩, .mk hstart hmatched rfl⟩
  -- The element has no attributes, so nothing is assigned before its content is parsed.
  have hassign (z : TunState) : tunnelFields.foldlM (fun z f => assign none f.2 z) z = some z := rfl
  have hvalues : z₁.values .root 0 = fun _ => none := rfl
  have hbefore : tunnelFields.foldlM (fun z f => assign (z₁.values .root 0 f.1) f.2 z) z₁ =
      some z₁ := by
    exact hassign z₁
  have htext : z₁.heap.text ⟨0, 8⟩ = some (ascii "abc") := by decide +kernel
  exact ⟨z₁, rfl, .mk hcalls rfl hbefore htext⟩

theorem tunnel_text_accepted : (∃ x', tspXMLParse textInTunnel started = some (0, x')) ∧
      ¬∀ c, ReflTransGen Call.Inside (tspCall textInTunnel started) c → c.Completes := by
  constructor
  · have hcode : (tspXMLParse textInTunnel started).map Prod.fst = some 0 := by decide +kernel
    obtain ⟨⟨code, x'⟩, hparse, hzero⟩ := map_eq_some_iff.mp hcode
    cases hzero
    exact ⟨x', hparse⟩
  · intro hall
    obtain ⟨y, hmemory, hinside⟩ := textInTunnel_inside
    exact (hall _ (.single hinside)).not_text ⟨congrFun hmemory 0, abc_is_text⟩

end Maiccu.Gogoc.Xml
