import Mathlib.Data.List.Dedup
import Maiccu.Aiccu.GetTunnel
import Maiccu.Lib.Rekey

/-!
# The tunnels of the adapter

After a login the adapter of the graphical client puts each entry of the list of tunnels under its
id. It then walks along the ids, asks for the data of each tunnel, and moves the entry to a key made
of the id and the type. A C string becomes an `NSString` only if it is UTF-8; otherwise the
dictionary literals throw. The order of the keys of a dictionary is not known.
-/

namespace Maiccu.Tic

open Maiccu.Lib Maiccu.Aiccu Option List

/-! ## The data of a tunnel -/

/-- The keys of the dictionary for one tunnel. -/
inductive InfoKey where
  | id
  | ipv6
  | ipv4
  | popid
  | ipv4Local
  | ipv6Local
  | ipv4Pop
  | ipv6Pop
  | ipv6Linklocal
  | password
  | popId
  | type
  | userstate
  | adminstate
  | heartbeatIntervall
  | ipv6Prefixlength
  | mtu
  | usesTundev
  deriving DecidableEq

inductive InfoValue where
  | text (s : List UInt8)
  | number (n : UInt32)
  deriving DecidableEq

abbrev Info := InfoKey → Option InfoValue

/-- `addEntriesFromDictionary:`, which does nothing for `nil`. -/
def Info.addEntries (info : Info) : Option Info → Info
  | none => info
  | some entries => fun key => (entries key).or (info key)

variable (utf8 : List UInt8 → Bool)

/-- A dictionary literal. `cstons` reads `NULL` as the empty string; `utf8` says which strings can
be made. -/
def infoLiteral (texts : List (InfoKey × Option (List UInt8)))
    (numbers : List (InfoKey × UInt32)) : Option Info :=
  if texts.all fun e => utf8 (e.2.getD []) then
    some fun key => ((texts.lookup key).map fun s => .text (s.getD [])).or
      ((numbers.lookup key).map .number)
  else none

def listedInfo (tun : STunnel) : Option Info :=
  infoLiteral utf8 [(.id, some tun.sId), (.ipv6, some tun.sIPv6), (.ipv4, some tun.sIPv4),
    (.popid, some tun.sPOPId)] []

/-- `requestTunnelInfoForTunnel:` for the structure that `tic_GetTunnel` returned. -/
def tunnelInfo (tun : TicTunnel) : Option Info :=
  infoLiteral utf8
    [(.id, tun.data (.string .sId)), (.ipv4Local, tun.data (.string .sIPv4Local)),
     (.ipv6Local, tun.data (.string .sIPv6Local)),
     (.ipv4Pop, tun.data (.string .sIPv4POP)),
     (.ipv6Pop, tun.data (.string .sIPv6POP)),
     (.ipv6Linklocal, some tun.sIPv6LinkLocal),
     (.password, tun.data (.string .sPassword)),
     (.popId, tun.data (.string .sPOPId)),
     (.type, tun.data (.string .sType)),
     (.userstate, tun.data (.string .sUserState)),
     (.adminstate, tun.data (.string .sAdminState))]
    [(.heartbeatIntervall, tun.data (.number .nHeartbeatInterval)),
     (.ipv6Prefixlength, tun.data (.number .nIPv6PrefixLength)),
     (.mtu, tun.data (.number .nMTU)),
     (.usesTundev, if tun.usesTundev then 1 else 0)]

/-! ## The two dictionaries -/

abbrev TunnelMap := Dict (List UInt8) Info

/-- The loop of `requestTunnelList`. -/
def requestTunnelList (utf8 : List UInt8 → Bool) : List STunnel → TunnelMap → Option TunnelMap
  | [], tunnels => some tunnels
  | tun :: tuns, tunnels =>
    match listedInfo utf8 tun with
    | none => none
    | some info => requestTunnelList utf8 tuns (tunnels.insert tun.sId info)

/-- `%@` for the type of a tunnel. -/
def Info.typeText (info : Info) : List UInt8 :=
  match info .type with
  | none => ascii "(null)"
  | some (.text s) => s
  | some (.number n) => showInt n.toNat

/-- `@"-- %@ - %@ --"` for the id and the type. -/
def tunnelLabel (tunnel : List UInt8) (info : Info) : List UInt8 :=
  ascii "-- " ++ (tunnel ++ (ascii " - " ++ (info.typeText ++ ascii " --")))

def addAnswer (answers : List UInt8 → Option TicTunnel)
    (tunnel : List UInt8) (info : Info) : Option Info :=
  match answers tunnel with
  | none => some (info.addEntries none)
  | some tun => (tunnelInfo utf8 tun).map fun entries => info.addEntries (some entries)

/-- What `doLogin` does with the list and the answers: `_tunnelList` was emptied before. `order`
gives the keys as `allKeys` does. -/
def retrieveTunnels (order : List (List UInt8) → List (List UInt8))
    (tuns : List STunnel) (answers : List UInt8 → Option TicTunnel) : Option TunnelMap :=
  (requestTunnelList utf8 tuns ∅).bind fun tunnelList =>
    rekey (addAnswer utf8 answers) tunnelLabel (order tunnelList.keys) tunnelList

/-! ## Labels -/

section Labels

variable {s t : List UInt8} {i j : Info}

theorem tunnelLabel_inj (hs : 32 ∉ s) (ht : 32 ∉ t) (h : tunnelLabel s i = tunnelLabel t j) :
    s = t := by
  have h' := append_cancel_left h
  have hdash : ascii " - " = 32 :: ascii "- " := by decide
  exact eq_of_append_cons hs ht h'

theorem freshLabels {ks : List (List UInt8)} (h : ∀ k ∈ ks, 32 ∉ k) :
    FreshLabels tunnelLabel ks where
  notMem k _ i hmem := h _ hmem (mem_append_left _ (by decide))
  injective k hk k' hk' _ _ heq := tunnelLabel_inj (h k hk) (h k' hk') heq

end Labels

/-! ## The ids of a list -/

section Ids

variable {a field : List UInt8} {n : ℕ} {tun : STunnel} {os unread : List Outcome} {r : Listed}

theorem space_notMem_of_copyfieldLoop {pre : Option (List UInt8)} (hpre : ∀ s ∈ pre, 32 ∉ s)
    (h : copyfieldLoop a n pre = some (some field)) : 32 ∉ field := by
  induction a generalizing n pre with
  | nil => simp [copyfieldLoop] at h
  | cons c a ih =>
    cases pre with
    | none =>
      rw [copyfieldLoop] at h
      split_ifs at h with h₁ h₂ h₃
      · simp at h
      · simp only [Option.some.injEq] at h
        simp [← h]
      · exact ih (by simp) h
      · exact ih (by simpa using Ne.symm h₂) h
    | some s =>
      have hs : 32 ∉ s := hpre s rfl
      rw [copyfieldLoop] at h
      split_ifs at h with h₁ h₂
      · simp only [Option.some.injEq] at h
        exact h ▸ hs
      · exact ih (by simp) h
      · refine ih ?_ h
        rintro _ ⟨⟩
        simpa using ⟨hs, fun heq => h₁ (Or.inr heq.symm)⟩

theorem exists_of_readField {α : Type} {k : List UInt8 → Option (Option α)} {x : α}
    (h : readField a n k = some (some x)) : ∃ f, 32 ∉ f ∧ k f = some (some x) := by
  unfold readField at h
  cases hc : copyfield a n bufLen with
  | none => simp [hc] at h
  | some o =>
    cases o with
    | none => simp [hc] at h
    | some f =>
      simp only [hc] at h
      split_ifs at h
      refine ⟨f, ?_, h⟩
      simp only [copyfield, map_eq_some_iff] at hc
      obtain ⟨_, hloop, s, rfl, rfl⟩ := hc
      exact fun hmem => space_notMem_of_copyfieldLoop (by simp) hloop (mem_of_mem_take hmem)

theorem space_notMem_of_readTunnel (h : readTunnel a = some (some tun)) : 32 ∉ tun.sId := by
  obtain ⟨sId, hid, h⟩ := exists_of_readField h
  obtain ⟨sIPv6, -, h⟩ := exists_of_readField h
  obtain ⟨sIPv4, -, h⟩ := exists_of_readField h
  obtain ⟨sPOPId, -, h⟩ := exists_of_readField h
  simp only [Option.some.injEq] at h
  rw [← h]
  exact hid

def ListState.SpaceFree (st : ListState) : Prop := ∀ e ∈ st.list, 32 ∉ e.2.sId

variable {st : ListState}

theorem finish_spaceFree {text : List UInt8} {pending : List ℕ}
    (hst : st.SpaceFree) (h : finish text pending st = some r) : ∀ e ∈ r.ret, 32 ∉ e.2.sId := by
  unfold finish at h
  split_ifs at h
  · simp only [Option.some.injEq] at h
    rw [← h]
    exact hst
  · obtain ⟨_, -, rfl⟩ := map_eq_some_iff.mp h
    simp

def LineStep.SpaceFree : LineStep → Prop
  | .next st => st.SpaceFree
  | .stop o => ∀ r ∈ o, ∀ e ∈ r.ret, 32 ∉ e.2.sId

theorem listLine_spaceFree (text : List UInt8) (hst : st.SpaceFree) :
    (listLine text st).SpaceFree := by
  have hnone : (LineStep.stop none).SpaceFree := nofun
  unfold listLine
  split_ifs
  · exact fun r hr => finish_spaceFree hst hr
  · cases countfields (lineArray text) with
    | none => exact hnone
    | some i =>
      dsimp only
      split_ifs
      · exact fun r hr => finish_spaceFree hst hr
      · cases hread : readTunnel (lineArray text) with
        | none => exact hnone
        | some o =>
          cases o with
          | none =>
            have hst' : ListState.SpaceFree ⟨st.list, st.allocated + 1⟩ := hst
            exact fun r hr => finish_spaceFree hst' hr
          | some tun =>
            intro e he
            rcases mem_append.mp he with he | he
            · exact hst e he
            · rw [mem_singleton.mp he]
              exact space_notMem_of_readTunnel hread

theorem ofEnd_returned {o : Option Listed} {os' : List Outcome}
    (h : ListRun.ofEnd o os' = .returned r unread) : o = some r := by
  cases o with
  | none => cases h
  | some r' => cases h; rfl

theorem listLoop_spaceFree (hst : st.SpaceFree)
    (h : listLoop os st = .returned r unread) : ∀ e ∈ r.ret, 32 ∉ e.2.sId := by
  induction os generalizing st with
  | nil => cases h
  | cons o os ih =>
    cases o with
    | fault => cases h
    | fail => exact finish_spaceFree hst (ofEnd_returned h)
    | line n text =>
      have hstep := listLine_spaceFree text hst
      rw [listLoop] at h
      cases hline : listLine text st with
      | next st' =>
        rw [hline] at h hstep
        exact ih hstep h
      | stop o =>
        rw [hline] at h hstep
        exact hstep r (ofEnd_returned h)

theorem space_notMem_of_ticListTunnels (h : ticListTunnels os = .returned r unread) :
    ∀ tun ∈ r.ret.map Prod.snd, 32 ∉ tun.sId := by
  have hnil : ListState.SpaceFree ⟨[], 0⟩ := nofun
  have hall : ∀ e ∈ r.ret, 32 ∉ e.2.sId := by
    cases os with
    | nil => cases h
    | cons o os =>
      cases o with
      | fault => cases h
      | fail => cases h; exact hnil
      | line n text =>
        rw [ticListTunnels] at h
        split_ifs at h
        · exact listLoop_spaceFree hnil h
        · obtain ⟨_, -, rfl⟩ := map_eq_some_iff.mp (ofEnd_returned h)
          exact hnil
  simpa using fun tun n hmem => hall (n, tun) hmem

end Ids

/-! ## The dictionary by ids -/

theorem requestTunnelList_spec {utf8 : List UInt8 → Bool} {tuns : List STunnel} {m m' : TunnelMap}
    (h : requestTunnelList utf8 tuns m = some m') :
    (∀ k, k ∈ m'.keys ↔ k ∈ m.keys ∨ k ∈ tuns.map STunnel.sId) ∧
      ∀ k info, m'.lookup k = some info → m.lookup k = some info ∨
        ∃ tun ∈ tuns, tun.sId = k ∧ listedInfo utf8 tun = some info := by
  induction tuns generalizing m with
  | nil =>
    obtain rfl : m = m' := some.inj h
    exact ⟨by simp, fun k info hk => Or.inl hk⟩
  | cons tun tuns ih =>
    unfold requestTunnelList at h
    cases hinfo : listedInfo utf8 tun with
    | none => simp [hinfo] at h
    | some info =>
      simp only [hinfo] at h
      obtain ⟨hkeys, hlookup⟩ := ih h
      refine ⟨fun k => ?_, fun k i hk => ?_⟩
      · rw [hkeys, ← AList.mem_keys, AList.mem_insert, AList.mem_keys, map_cons, mem_cons]
        tauto
      · rcases hlookup k i hk with hk | ⟨tun', hmem, hid⟩
        · by_cases heq : k = tun.sId
          · subst heq
            rw [AList.lookup_insert] at hk
            exact Or.inr ⟨tun, mem_cons_self, rfl, hk ▸ hinfo⟩
          · rw [AList.lookup_insert_ne heq] at hk
            exact Or.inl hk
        · exact Or.inr ⟨tun', mem_cons_of_mem tun hmem, hid⟩

/-! ## The map after the login -/

/-- **The tunnels after a login.** -/
theorem doLogin_tunnelMap (utf8 : List UInt8 → Bool) (order : List (List UInt8) → List (List UInt8))
    (horder : ∀ ks, (order ks).Perm ks) (os unread : List Outcome) (r : Listed)
    (hlist : ticListTunnels os = .returned r unread) (answers : List UInt8 → Option TicTunnel)
    (env : LoginEnv) (conn : Option (List RecvEvent)) (t t' : TicConf)
    (sheet : LoginSheet TunnelMap) (hlogin : doLogin (fun q =>
      (retrieveTunnels utf8 order (r.ret.map Prod.snd) answers).map fun m => (m, q)) env conn t =
        some (sheet, t'))
    (hvalid : sheet.validCredentials = true) :
    ∃ (m : TunnelMap) (entry : List UInt8 → Info), sheet.tunnelList = some m ∧
      -- one key for each id, with the entry of that tunnel
      m.keys.Perm (((r.ret.map Prod.snd).map STunnel.sId).dedup.map fun id =>
        tunnelLabel id (entry id)) ∧
      ∀ id ∈ (r.ret.map Prod.snd).map STunnel.sId,
        m.lookup (tunnelLabel id (entry id)) = some (entry id) ∧ id ∉ m.keys ∧
        ∃ tun ∈ r.ret.map Prod.snd, tun.sId = id ∧ ∃ info, listedInfo utf8 tun = some info ∧
          addAnswer utf8 answers id info = some (entry id) := by
  obtain ⟨q, p, hretrieve, hsheet⟩ := tunnelList_of_doLogin hlogin hvalid
  obtain ⟨m, hm, rfl⟩ := map_eq_some_iff.mp hretrieve
  obtain ⟨m₀, hrequest, hrekey⟩ := bind_eq_some_iff.mp hm
  obtain ⟨hkeys, hlookup⟩ := requestTunnelList_spec hrequest
  simp only [AList.keys_empty, not_mem_nil, false_or] at hkeys
  have hperm := horder m₀.keys
  have hspace : ∀ k ∈ order m₀.keys, 32 ∉ k := by
    intro k hk
    obtain ⟨tun, htun, rfl⟩ := mem_map.mp ((hkeys k).mp (hperm.mem_iff.mp hk))
    exact space_notMem_of_ticListTunnels hlist tun htun
  have hfresh := freshLabels hspace
  obtain ⟨entry, hentry⟩ := exists_rekeyed (hperm.symm.nodup m₀.keys_nodup) hfresh hrekey
  -- the keys that were walked along are the distinct ids
  have hids : (order m₀.keys).Perm ((r.ret.map Prod.snd).map STunnel.sId).dedup := by
    refine hperm.trans ((perm_ext_iff_of_nodup m₀.keys_nodup (nodup_dedup _)).mpr ?_)
    intro k
    rw [hkeys, mem_dedup]
  refine ⟨m, entry, hsheet, (hentry.keys_perm hfresh hperm).trans (hids.map _), fun id hid => ?_⟩
  have hwalked : id ∈ order m₀.keys := hids.mem_iff.mpr (mem_dedup.mpr hid)
  refine ⟨hentry.lookup_label id hwalked, ?_, ?_⟩
  · rw [← AList.mem_keys, ← AList.lookup_eq_none]
    exact hentry.lookup_old id hwalked
  · obtain ⟨info, hinfo, hanswer⟩ := hentry.changed id hwalked
    rcases hlookup id info hinfo with hempty | ⟨tun, htun, hid, hlisted⟩
    · cases hempty
    · exact ⟨tun, htun, hid, info, hlisted, hanswer⟩

def threeLines : List Outcome :=
  [.line 3 startOfList, .line 9 (ascii "T1 a b p1"), .line 9 (ascii "T2 c d p2"),
    .line 9 (ascii "T1 e f p3"), .line 3 endOfList]

def threeTunnels : List STunnel :=
  [⟨ascii "T1", ascii "a", ascii "b", ascii "p1"⟩, ⟨ascii "T2", ascii "c", ascii "d", ascii "p2"⟩,
    ⟨ascii "T1", ascii "e", ascii "f", ascii "p3"⟩]

def ayiyaTunnel : TicTunnel :=
  ⟨Function.update clearedTunnel (.string .sType) (some (ascii "ayiya")), [], true⟩

def firstAnswered (id : List UInt8) : Option TicTunnel :=
  if id = ascii "T1" then some ayiyaTunnel else none

theorem threeLines_listed :
    ∃ r, ticListTunnels threeLines = .returned r [] ∧ r.ret.map Prod.snd = threeTunnels := by
  have hos : ReadableReply (threeLines ++ []) :=
    ⟨.inr (.inl (by decide)), fun _ => ⟨.inr (.inl (by decide)), fun _ =>
      ⟨.inr (.inl (by decide)), fun _ => ⟨.inl (by decide), fun _ => trivial⟩⟩⟩⟩
  have hreply : TunnelReply threeLines
      [ascii "T1 a b p1", ascii "T2 c d p2", ascii "T1 e f p3"] := by
    refine ⟨startOfList, endOfList, rfl, by decide, ?_, by decide⟩
    simp only [forall_mem_cons]
    exact ⟨⟨by decide, by decide, by decide⟩, ⟨by decide, by decide, by decide⟩,
      ⟨by decide, by decide, by decide⟩, by simp⟩
  exact ticListTunnels_of_tunnelReply hos hreply (.cons ⟨by decide, by decide⟩
    (.cons ⟨by decide, by decide⟩ (.cons ⟨by decide, by decide⟩ .nil)))

/-- The adapter goes on after a failed connection, so that this is a login for it. -/
theorem threeLines_mapped : ∃ r sheet t', ticListTunnels threeLines = .returned r [] ∧
    doLogin (fun q => (retrieveTunnels (fun _ => true) reverse (r.ret.map Prod.snd)
      firstAnswered).map fun m => (m, q)) someLogin none ⟨none, ticBuf, [], []⟩ =
        some (sheet, t') ∧ sheet.validCredentials = true ∧
    ∃ (m : TunnelMap) (entry : List UInt8 → Info), sheet.tunnelList = some m ∧
      m.keys.Perm [tunnelLabel (ascii "T2") (entry (ascii "T2")),
        tunnelLabel (ascii "T1") (entry (ascii "T1"))] := by
  obtain ⟨r, hr, hret⟩ := threeLines_listed
  obtain ⟨m, hm⟩ : ∃ m, retrieveTunnels (fun _ => true) reverse threeTunnels firstAnswered =
      some m := isSome_iff_exists.mp (by decide)
  have hlogin : doLogin (fun q => (retrieveTunnels (fun _ => true) reverse
      (r.ret.map Prod.snd) firstAnswered).map fun m => (m, q)) someLogin none
      ⟨none, ticBuf, [], []⟩ = some (⟨true, .doLoginComplite, some m⟩, ⟨none, ticBuf, [], []⟩) := by
    rw [hret, hm]
    rfl
  obtain ⟨m', entry, hsheet, hkeys, -⟩ := doLogin_tunnelMap (fun _ => true) reverse
    reverse_perm threeLines [] r hr firstAnswered someLogin none _ _ _ hlogin rfl
  rw [hret] at hkeys
  exact ⟨r, _, _, hr, hlogin, rfl, m', entry, hsheet, hkeys⟩

end Maiccu.Tic
