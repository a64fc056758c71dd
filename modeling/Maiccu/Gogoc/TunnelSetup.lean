import Maiccu.Gogoc.Interface

/-!
# A session with its memory and its socket

`tspSetupTunnel` and `tspTunnelNegotiation` of `tsp_client.c` once more, now with the reply to the
tunnel request as bytes, with what is allocated, freed, opened and closed, and with the interface
that is set up after the negotiation.
-/

namespace Maiccu.Gogoc.Darwin

open Maiccu.Lib Maiccu.Gogoc.Xml Logged List
open Maiccu.Tic (atoi)

/-- `session` up to the tunnel request, the payload of the reply to it, or nothing if it is lost,
what the reply is if taken for a redirection, and the host. -/
structure Dialogue where
  session : Session
  reply : Option (List UInt8)
  redirect : RedirectReply
  host : Host

variable (s : List UInt8)

def alloc : Act ℕ :=
  .step fun x => (x.heap.size, { x with heap := x.heap.alloc s })

def malloc : Act (Option ℕ) := .step fun x => x.malloc s

/-- `free` of a pointer that may be null. -/
def freePtr : Option ℕ → Act Unit
  | none => pure ()
  | some b => free b

def protocolMaxPayloadChunk : ℕ := 2048

/-- `tspAddPayloadString` for an empty payload. -/
def tspAddPayloadString : Act (Option ℕ) := do
  let chunk ← malloc []
  match chunk with
  | none => pure none
  | some old =>
    if s.length + 1 ≤ protocolMaxPayloadChunk then pure (some old)
    else do
      let new ← malloc []
      match new with
      | none => pure none
      | some new => do
        free old
        pure (some new)

/-- `tspExtractPayload` into `tunnel_info`; the result is not looked at. -/
def extract (payload : List UInt8) : Act Unit := fun x =>
  match tspExtractPayload payload x with
  | none => ([], .error .undefined)
  | some (code, x') => ([.parsed code], .ok ((), x'))

/-- `tspBuildCreateAcknowledge`. -/
def acknowledge : List UInt8 := ascii "<tunnel action=\"accept\"></tunnel>\r\n"

variable (d : Dialogue) (versionIndex : ℕ)

def sendAcknowledge : Act Status :=
  if versionIndex = versionIndexOldest then pure .success
  else do
    let plin ← tspAddPayloadString acknowledge
    if d.session.acknowledged then do
      freePtr plin
      pure .success
    else pure .socketIo

def processReply (brokers : BrokerList) (text : List UInt8)
    (plin : Option ℕ) (plout : ℕ) : Act (Status × BrokerList) :=
  if tspIsRedirectStatus (atoi text) then do
    free plout
    freePtr plin
    pure (redirectStatus (tspHandleRedirect d.redirect brokers).1,
      (tspHandleRedirect d.redirect brokers).2)
  else if atoi text ≠ 200 then pure (.tspGenericError, brokers)
  else do
    extract text
    free plout
    freePtr plin
    let status ← sendAcknowledge d versionIndex
    pure (status, brokers)

/-- How `tspSendRecv` ends for the tunnel request; the blocks are those of `plin` and `plout`. -/
inductive Received where
  | starved
  | lost (plin : Option ℕ) (plout : ℕ)
  | reply (text : List UInt8) (plin : Option ℕ) (plout : ℕ)

/-- The start of `tspTunnelNegotiation`: the request is sent and the reply received. -/
def sendRequest (request : List UInt8) : Act Received := do
  let plin ← tspAddPayloadString request
  let plout ← malloc []
  match plout with
  | none => pure .starved
  | some plout =>
    match d.reply with
    | none => pure (.lost plin plout)
    | some text => do
      -- `tspSendRecv` copies the payload and does not look at the result of `pal_malloc`.
      let copy ← malloc (text ++ [0])
      match copy with
      | none => .throw .noMemory
      | some copy => do
        free plout
        pure (.reply text plin copy)

def tspTunnelNegotiation (request : List UInt8) (versionIndex : ℕ)
    (brokers : BrokerList) : Act (Status × BrokerList) := do
  let received ← sendRequest d request
  match received with
  | .starved => pure (.memoryStarvation, brokers)
  | .lost plin plout => do
    free plout
    freePtr plin
    pure (.socketIo, brokers)
  | .reply text plin plout => processReply d versionIndex brokers text plin plout

section Code

variable (c : LocalConf) (d : Dialogue) (versionIndex : ℕ) (brokers : BrokerList)

def closing (e : SessionEnd) : Act SessionEnd := do
  .emit .closed
  pure e

def clear : List ℕ → Act Unit
  | [] => pure ()
  | b :: blocks => do
    free b
    clear blocks

/-- The end after `tspStartLocal`: the delegated prefix and the tunnel information are freed. -/
def finish (t : TunnelInfo) (started : Status × Bool) : Act Status := do
  -- The static array is no block.
  Logged.when (started.2 = true) (.emit (.freed false))
  clear (tspClearTunnelInfo t)
  pure started.1

/-- From `tspStartLocal` on. -/
def setUpNegotiated : Act Status := do
  let t ← Logged.step fun x => (x.info.theTunnelInfo, x)
  let started ← tspStartLocal c d.host t
  finish t started

def setUpReplied (negotiated : Status) : Act Status :=
  if negotiated = .success then setUpNegotiated c d else pure negotiated

def setUpAuthenticated : Act SessionEnd :=
  match tspUpdateSourceAddr c.toConf d.session with
  | none => closing ⟨.invalClientAddr, c.toConf, brokers, none⟩
  | some conf => do
    let negotiated ← tspTunnelNegotiation d (tspBuildCreateRequest conf).1 versionIndex brokers
    let status ← setUpReplied c d negotiated.1
    closing ⟨status, (tspBuildCreateRequest conf).2, negotiated.2,
      some (tspBuildCreateRequest conf).1⟩

def setUpConnected : Act SessionEnd :=
  let capabilities := tspGetCapabilities d.session.capabilities brokers
  if capabilities.1 = .success then
    if c.tunnelMode.bits &&& capabilities.2.1 = 0 then
      closing ⟨.tunmodeNotAvailable, c.toConf, brokers, none⟩
    else
      let auth := tspAuthenticate d.session.auth brokers
      if auth.1 = .success then setUpAuthenticated c d versionIndex auth.2
      else closing ⟨auth.1, c.toConf, auth.2, none⟩
  else if capabilities.1 = .socketIo ∧ (c.transport = .rudp ∨ c.transport = .rudp6) then
    closing ⟨.failSocketConnect, c.toConf, brokers, none⟩
  else closing ⟨capabilities.1, c.toConf, capabilities.2.2, none⟩

/-- `srvname` is there while `tspConnect` runs. -/
def connect : Act Unit := do
  let srvname ← alloc []
  Logged.when (d.session.connect = .connected) (.emit .opened)
  free srvname

def tspSetupTunnel : Act SessionEnd :=
  match d.session.connect with
  | .badAddress => pure ⟨.invalGogocAddress, c.toConf, brokers, none⟩
  | .unresolved => do
    connect d
    pure ⟨.failResolvAddr, c.toConf, brokers, none⟩
  | .refused => do
    connect d
    pure ⟨.failSocketConnect, c.toConf, brokers, none⟩
  | .connected => do
    connect d
    setUpConnected c d versionIndex brokers

end Code

/-! ## The memory of a negotiation -/

def Event.IsMemory : Event → Prop
  | .freed live => live = true
  | .parsed _ => True
  | _ => False

def Fault.IsMemory : Fault → Prop
  | .missing _ => False
  | _ => True

/-- `Logged.Safe` for the part of a session before the interface. -/
abbrev Tidy {α : Type} (q : α → TunState → Prop) (m : Act α) (x : TunState) : Prop :=
  Logged.Safe Event.IsMemory Fault.IsMemory q m x

variable {x : TunState}

theorem free_tidy {b : ℕ} (hb : x.heap.Live b) :
    Tidy (fun _ x' => x' = x.free b) (free b) x := by
  constructor
  · intro e he
    cases mem_singleton.mp he
    exact decide_eq_true hb
  · exact nofun
  · intro _ x' h
    cases h
    rfl

/-- What an allocation gives. -/
structure Allocated (x : TunState) (r : Option ℕ) (x' : TunState) : Prop where
  grows : x.heap.Grows x'.heap
  info : x'.info = x.info
  live : ∀ b ∈ r, x'.heap.Live b ∧ x.heap.size ≤ b

theorem malloc_tidy (s : List UInt8) (x : TunState) :
    Tidy (fun r x' => Allocated x r x' ∧ ∀ b ∈ r, b = x.heap.size ∧ x'.heap = x.heap.alloc s)
      (malloc s) x := by
  refine safe_step ?_
  unfold State.malloc
  split_ifs
  · refine ⟨⟨Heap.grows_alloc, rfl, fun b hb => ?_⟩, fun b hb => ?_⟩
    · cases hb
      exact ⟨Heap.live_alloc, le_rfl⟩
    · cases hb
      exact ⟨rfl, rfl⟩
  · exact ⟨⟨.refl _, rfl, nofun⟩, nofun⟩

theorem freePtr_tidy {r : Option ℕ} (hr : ∀ b ∈ r, x.heap.Live b) :
    Tidy (fun _ x' => (r = none ∧ x' = x) ∨ ∃ b ∈ r, x' = x.free b) (freePtr r) x := by
  cases r with
  | none => exact safe_pure (.inl ⟨rfl, rfl⟩)
  | some b => exact (free_tidy (hr b rfl)).mono fun _ x' hx' => .inr ⟨b, rfl, hx'⟩

variable {s}

theorem tspAddPayloadString_tidy :
    Tidy (fun r x' => Allocated x r x') (tspAddPayloadString s) x := by
  refine (malloc_tidy [] x).bind fun chunk x₁ ⟨hold, hchunk⟩ => ?_
  cases chunk with
  | none => exact safe_pure hold
  | some old =>
    split_ifs
    · exact safe_pure hold
    · refine (malloc_tidy [] x₁).bind fun new x₂ ⟨hnew, _⟩ => ?_
      cases new with
      | none => exact safe_pure ⟨hold.grows.trans hnew.grows, hnew.info.trans hold.info,
          nofun⟩
      | some new =>
        obtain ⟨hlive, hsize⟩ := hold.live old rfl
        obtain ⟨hlive', hsize'⟩ := hnew.live new rfl
        refine (free_tidy (hnew.grows.live hlive)).bind fun _ x₃ hx₃ => safe_pure ?_
        subst hx₃
        refine ⟨(hold.grows.trans hnew.grows).free hsize, hnew.info.trans hold.info, fun b hb => ?_⟩
        cases hb
        have hne : old ≠ new := (hlive.lt_size.trans_le hsize').ne
        exact ⟨hlive'.free_of_ne hne, hold.grows.size_le.trans hsize'⟩

structure Buffers (plin : Option ℕ) (plout : ℕ) (x : TunState) : Prop where
  reply : x.heap.Live plout
  request : ∀ b ∈ plin, x.heap.Live b ∧ b ≠ plout

variable {d} {request : List UInt8}

theorem sendRequest_tidy :
    Tidy (fun r x' => match r with
        | .starved => True
        | .lost plin plout => d.reply = none ∧ Buffers plin plout x'
        | .reply text plin plout => d.reply = some text ∧ Buffers plin plout x')
      (sendRequest d request) x := by
  refine tspAddPayloadString_tidy.bind fun plin x₁ hplin => ?_
  refine (malloc_tidy [] x₁).bind fun plout x₂ ⟨hplout, _⟩ => ?_
  cases plout with
  | none => exact safe_pure trivial
  | some plout =>
    obtain ⟨hlive, hsize⟩ := hplout.live plout rfl
    have hplin' : ∀ b ∈ plin, x₂.heap.Live b ∧ b < x₁.heap.size := fun b hb =>
      ⟨hplout.grows.live (hplin.live b hb).1, (hplin.live b hb).1.lt_size⟩
    cases hreply : d.reply with
    | none =>
      exact safe_pure ⟨rfl, hlive, fun b hb =>
        ⟨(hplin' b hb).1, ((hplin' b hb).2.trans_le hsize).ne⟩⟩
    | some text =>
      refine (malloc_tidy (text ++ [0]) x₂).bind fun copy x₃ ⟨hcopy, _⟩ => ?_
      cases copy with
      | none => exact safe_throw trivial
      | some copy =>
        obtain ⟨hlive', hsize'⟩ := hcopy.live copy rfl
        refine (free_tidy (hcopy.grows.live hlive)).bind fun _ x₄ hx₄ => safe_pure ?_
        subst hx₄
        refine ⟨rfl, hlive'.free_of_ne (hlive.lt_size.trans_le hsize').ne, fun b hb => ?_⟩
        obtain ⟨hb₁, hb₂⟩ := hplin' b hb
        exact ⟨(hcopy.grows.live hb₁).free_of_ne (hb₂.trans_le hsize).ne',
          (hb₁.lt_size.trans_le hsize').ne⟩

variable {plin : Option ℕ} {plout : ℕ}

theorem freeBuffers_tidy (h : Buffers plin plout x) {β : Type} {r : β → TunState → Prop} {m : Act β}
    (hm : ∀ x', x'.info = x.info →
      (∀ c, x.heap.Live c → c ≠ plout → c ∉ plin → x'.heap.Live c) → Tidy r m x') :
    Tidy r (do free plout; freePtr plin; m) x := by
  refine (free_tidy h.reply).bind fun _ x₁ hx₁ => ?_
  subst hx₁
  refine (freePtr_tidy fun b hb => (h.request b hb).1.free_of_ne (h.request b hb).2.symm).bind
    fun _ x₂ hx₂ => ?_
  rcases hx₂ with ⟨-, rfl⟩ | ⟨b, hb, rfl⟩
  · exact hm _ rfl fun c hc hreply _ => hc.free_of_ne hreply.symm
  · exact hm _ rfl fun c hc hreply hrequest =>
      (hc.free_of_ne hreply.symm).free_of_ne fun hbc => hrequest (hbc ▸ hb)

variable {text : List UInt8}

theorem extract_some {x' : TunState} {code : ℤ} (h : tspExtractPayload text x = some (code, x')) :
    (extract text).log x = [.parsed code] ∧ (extract text).result x = .ok ((), x') := by
  unfold extract log result
  dsimp only
  rw [h]
  exact ⟨rfl, rfl⟩

theorem extract_none (h : tspExtractPayload text x = none) :
    (extract text).log x = [] ∧ (extract text).result x = .error .undefined := by
  unfold extract log result
  dsimp only
  rw [h]
  exact ⟨rfl, rfl⟩

theorem extract_tidy :
    Tidy (fun _ x' => ∃ code, tspExtractPayload text x = some (code, x')) (extract text) x := by
  cases h : tspExtractPayload text x with
  | none =>
    obtain ⟨hlog, hresult⟩ := extract_none h
    constructor
    · rw [hlog]
      exact nofun
    · rw [hresult]
      rintro fault hfault
      cases hfault
      trivial
    · rw [hresult]
      exact nofun
  | some r =>
    obtain ⟨code, x'⟩ := r
    obtain ⟨hlog, hresult⟩ := extract_some h
    constructor
    · rw [hlog]
      intro e he
      cases mem_singleton.mp he
      trivial
    · rw [hresult]
      exact nofun
    · rw [hresult]
      rintro _ x'' hok
      cases hok
      exact ⟨code, rfl⟩

variable {versionIndex}

theorem sendAcknowledge_tidy :
    Tidy (fun _ x' => x'.info = x.info ∧ x.heap.Grows x'.heap) (sendAcknowledge d versionIndex)
      x := by
  unfold sendAcknowledge
  split_ifs
  · exact safe_pure ⟨rfl, .refl _⟩
  · refine tspAddPayloadString_tidy.bind fun plin x₁ hplin => ?_
    refine (freePtr_tidy fun b hb => (hplin.live b hb).1).bind fun _ x₂ hx₂ => ?_
    rcases hx₂ with ⟨-, rfl⟩ | ⟨b, hb, rfl⟩
    · exact safe_pure ⟨hplin.info, hplin.grows⟩
    · exact safe_pure ⟨hplin.info, hplin.grows.free (hplin.live b hb).2⟩
  · exact tspAddPayloadString_tidy.bind fun plin x₁ hplin =>
      safe_pure ⟨hplin.info, hplin.grows⟩

def Offers (r : Status × BrokerList) (x : TunState) : Prop :=
  r.1 = .success → ∃ size, x.info.theTunnelInfo.Owned size x.heap

theorem processReply_tidy {brokers : BrokerList} (h : Buffers plin plout x) :
    Tidy Offers (processReply d versionIndex brokers text plin plout) x := by
  unfold processReply
  split_ifs
  · refine freeBuffers_tidy h fun x' _ _ => safe_pure fun hsuccess => ?_
    exact absurd hsuccess (redirectStatus_ne_success _)
  · exact safe_pure nofun
  · refine extract_tidy.bind fun _ x₁ ⟨code, hextract⟩ => ?_
    obtain ⟨hgrows, howned⟩ := tspExtractPayload_owned hextract
    have hbuffers : Buffers plin plout x₁ :=
      ⟨hgrows.live h.reply, fun b hb => ⟨hgrows.live (h.request b hb).1, (h.request b hb).2⟩⟩
    refine freeBuffers_tidy hbuffers fun x₂ hinfo hlive => ?_
    refine sendAcknowledge_tidy.bind fun status x₃ ⟨hinfo', hgrows'⟩ => ?_
    refine safe_pure fun _ => ⟨x.heap.size, ?_⟩
    rw [hinfo', hinfo]
    -- The texts are newer than the buffers.
    refine howned.of_live fun c hsize hc => hgrows'.live (hlive c hc ?_ ?_)
    · exact (h.reply.lt_size.trans_le hsize).ne'
    · exact fun hc => ((h.request c hc).1.lt_size.trans_le hsize).false

theorem tspTunnelNegotiation_tidy (d : Dialogue) (request : List UInt8) (versionIndex : ℕ)
    (brokers : BrokerList) (x : TunState) :
    Tidy Offers (tspTunnelNegotiation d request versionIndex brokers) x := by
  refine sendRequest_tidy.bind fun received x₁ hreceived => ?_
  cases received with
  | starved => exact safe_pure nofun
  | lost plin plout =>
    exact freeBuffers_tidy hreceived.2 fun x' _ _ =>
      safe_pure nofun
  | reply text plin plout => exact processReply_tidy hreceived.2

/-! ## What is parsed -/

def Event.IsFreed : Event → Prop
  | .freed _ => True
  | _ => False

theorem emits_free (b : ℕ) : Logged.Emits Event.IsFreed (free b) := by
  intro x e he
  cases mem_singleton.mp he
  trivial

theorem emits_freePtr (r : Option ℕ) : Logged.Emits Event.IsFreed (freePtr r) := by
  cases r with
  | none => exact emits_pure _
  | some b => exact emits_free b

theorem emits_tspAddPayloadString : Logged.Emits Event.IsFreed (tspAddPayloadString s) := by
  refine emits_step.bind fun chunk => ?_
  cases chunk with
  | none => exact emits_pure _
  | some old =>
    split_ifs
    · exact emits_pure _
    · refine emits_step.bind fun new => ?_
      cases new with
      | none => exact emits_pure _
      | some new => exact (emits_free old).bind fun _ => emits_pure _

theorem emits_sendRequest : Logged.Emits Event.IsFreed (sendRequest d request) := by
  refine emits_tspAddPayloadString.bind fun plin => emits_step.bind fun r => ?_
  cases r with
  | none => exact emits_pure _
  | some plout =>
    cases d.reply with
    | none => exact emits_pure _
    | some text =>
      refine emits_step.bind fun copy => ?_
      cases copy with
      | none => exact emits_throw _
      | some copy => exact (emits_free plout).bind fun _ => emits_pure _

theorem emits_sendAcknowledge (d : Dialogue) (versionIndex : ℕ) :
    Logged.Emits Event.IsFreed (sendAcknowledge d versionIndex) := by
  unfold sendAcknowledge
  split_ifs
  · exact emits_pure _
  · exact emits_tspAddPayloadString.bind fun plin => (emits_freePtr plin).bind fun _ =>
      emits_pure _
  · exact emits_tspAddPayloadString.bind fun plin => emits_pure _

section Negotiation

variable {brokers brokers' : BrokerList} {x' : TunState}

theorem processReply_success (h : (processReply d versionIndex brokers text plin plout).result x =
      .ok ((.success, brokers'), x')) :
    atoi text = 200 ∧ ∃ code x₁, tspExtractPayload text x = some (code, x₁) ∧
      ∀ code', .parsed code' ∈ (processReply d versionIndex brokers text plin plout).log x ↔
        code' = code := by
  unfold processReply at h ⊢
  split_ifs at h ⊢ with hredirect hstatus
  · obtain ⟨_, x₁, -, h⟩ := result_bind_eq_ok.mp h
    obtain ⟨_, x₂, -, h⟩ := result_bind_eq_ok.mp h
    rw [result_pure, Except.ok.injEq, Prod.mk.injEq, Prod.mk.injEq] at h
    exact absurd h.1.1 (redirectStatus_ne_success _)
  · cases h
  · refine ⟨not_not.mp hstatus, ?_⟩
    obtain ⟨_, x₁, hextract, -⟩ := result_bind_eq_ok.mp h
    obtain ⟨code, hcode⟩ := extract_tidy.result _ _ hextract
    refine ⟨code, x₁, hcode, fun code' => ?_⟩
    rw [log_bind_of_ok hextract, (extract_some hcode).1, mem_append,
      mem_singleton, Event.parsed.injEq]
    refine or_iff_left fun hrest => ?_
    have hfreed := (emits_free plout).bind fun _ => (emits_freePtr plin).bind fun _ =>
      (emits_sendAcknowledge d versionIndex).bind fun status => emits_pure (status, brokers)
    exact hfreed x₁ _ hrest

theorem tspTunnelNegotiation_success
    (h : (tspTunnelNegotiation d request versionIndex brokers).result x =
      .ok ((.success, brokers'), x')) :
    ∃ text plin plout y, (sendRequest d request).result x = .ok (.reply text plin plout, y) ∧
      d.reply = some text ∧ atoi text = 200 ∧
      ∃ code y₁, tspExtractPayload text y = some (code, y₁) ∧
        ∀ code', .parsed code' ∈ (tspTunnelNegotiation d request versionIndex brokers).log x ↔
          code' = code := by
  obtain ⟨received, y, hsend, h⟩ := result_bind_eq_ok.mp h
  cases received with
  | starved => cases h
  | lost plin plout =>
    obtain ⟨_, x₁, -, h⟩ := result_bind_eq_ok.mp h
    obtain ⟨_, x₂, -, h⟩ := result_bind_eq_ok.mp h
    cases h
  | reply text plin plout =>
    obtain ⟨hstatus, code, y₁, hextract, hparsed⟩ := processReply_success h
    have hreply := (sendRequest_tidy.result _ _ hsend).1
    refine ⟨text, plin, plout, y, hsend, hreply, hstatus, code, y₁, hextract, fun code' => ?_⟩
    unfold tspTunnelNegotiation
    rw [log_bind_of_ok hsend, mem_append]
    exact (or_iff_right (emits_sendRequest x _)).trans (hparsed code')

end Negotiation

end Maiccu.Gogoc.Darwin
