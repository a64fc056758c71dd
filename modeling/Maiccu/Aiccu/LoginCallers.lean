import Maiccu.Aiccu.TicLogin

/-!
# The callers of the login

`tic_Login` returned a `bool` before it was patched to return error codes. The adapter of the
graphical client compares the value with `true` and hands every other value on, so the `false` of a
failed connection comes out as `0`, its own sign of success. `get_tunnel` and `list_tunnels` still
test for `false`, and go on after every error code.
-/

namespace Maiccu.Tic

open Maiccu.Lib Option

/-! ## The adapter -/

def loginToTicServer (env : LoginEnv) (conn : Option (List RecvEvent)) (t : TicConf) :
    Option (ℕ × TicConf) :=
  (ticLogin env conn t).map fun r => if r.1 ≠ 1 then r else (0, r.2)

/-- `logoutFromTicServerWithMessage`, which also clears the `TIC_conf`. -/
def logoutFromTicServer (t : TicConf) (msg : String) : TicConf :=
  { ticLogout t (.text msg) with sock := none }

inductive LoginNotification where
  | doLoginComplite
  | doLoginError
  deriving DecidableEq, Repr

structure LoginSheet (τ : Type) where
  validCredentials : Bool
  notification : LoginNotification
  tunnelList : Option τ

/-- `retrieve` are the requests for the tunnels after a login. -/
def doLogin {τ : Type} (retrieve : TicConf → Option (τ × TicConf)) (env : LoginEnv)
    (conn : Option (List RecvEvent)) (t : TicConf) : Option (LoginSheet τ × TicConf) :=
  (loginToTicServer env conn t).bind fun r =>
    if r.1 = 0 then
      (retrieve r.2).map fun q =>
        (⟨true, .doLoginComplite, some q.1⟩, logoutFromTicServer q.2 "Bye Bye")
    else some (⟨false, .doLoginError, none⟩, logoutFromTicServer r.2 "Bye Bye")

/-! ## The command line client -/

/-- The guard `if (!tic_Login(...)) return failure;` before the rest of a function. -/
def guardLogin {α : Type} (failure : α) (rest : TicConf → Option (α × TicConf)) (env : LoginEnv)
    (conn : Option (List RecvEvent)) (t : TicConf) : Option (α × TicConf) :=
  (ticLogin env conn t).bind fun r => if r.1 = 0 then some (failure, r.2) else rest r.2

/-- `get_tunnel`, which returns `NULL` if the login fails. -/
def getTunnel {τ : Type} (rest : TicConf → Option (Option τ × TicConf)) :
    LoginEnv → Option (List RecvEvent) → TicConf → Option (Option τ × TicConf) :=
  guardLogin none rest

/-- `list_tunnels`, which returns `0` if the login fails. -/
def listTunnels (rest : TicConf → Option (ℕ × TicConf)) :
    LoginEnv → Option (List RecvEvent) → TicConf → Option (ℕ × TicConf) :=
  guardLogin 0 rest

def GoesOn {α : Type} (run : (TicConf → Option (α × TicConf)) → Option (α × TicConf)) : Prop :=
  ∃ t, ∀ rest, run rest = rest t

/-! ## The completed dialogue -/

structure Passes (now : ℤ) (s : Step) (text : List UInt8) : Prop where
  accepts : Accepts text
  clock : s = .unixtime → ∃ time, message text = some time ∧ ticChecktime now (atoi time) = 0
  challenge : s = .challenge → ∃ c, message text = some c

/-- The connection is there, and each of the six replies passes. -/
def Completed (now : ℤ) (conn : Option (List RecvEvent)) (b : RecvBuf) : Prop :=
  ∃ evs rs, conn = some evs ∧
    outcomes bufLen 6 evs b = rs.map (fun r : ℕ × List UInt8 => .line r.1 r.2) ∧
    List.Forall₂ (fun s r => Passes now s r.2) loginSteps rs

variable {now : ℤ} {s : Step} {text : List UInt8}

theorem judge_none_iff : s.judge now text = none ↔ Passes now s text := by
  unfold Step.judge
  by_cases h : Accepts text
  · rw [if_neg (not_not.mpr h)]
    cases s with
    | unixtime =>
      cases hm : message text with
      | none => exact iff_of_false nofun fun hp => by simpa [hm] using hp.clock rfl
      | some time =>
        refine ⟨fun hj => ⟨h, fun _ => ⟨time, hm, by simpa using hj⟩, nofun⟩, fun hp => ?_⟩
        simpa [hm] using hp.clock rfl
    | challenge =>
      cases hm : message text with
      | none => exact iff_of_false nofun fun hp => by simpa [hm] using hp.challenge rfl
      | some c => exact iff_of_true rfl ⟨h, nofun, fun _ => ⟨c, hm⟩⟩
    | welcome | client | username | authenticate => exact iff_of_true rfl ⟨h, nofun, nofun⟩
  · refine iff_of_false (fun hj => ?_) fun hp => h hp.accepts
    split_ifs at hj

variable {e : LoginEnd}

theorem judge_ne_accepted (h : s.judge now text = some e) : e ≠ .accepted := by
  rintro rfl
  unfold Step.judge at h
  by_cases ha : Accepts text
  · rw [if_neg (not_not.mpr ha)] at h
    cases s <;> cases hm : message text <;> simp [hm] at h
  · split_ifs at h <;> cases h

theorem converse_accepted_iff {ss : List Step} {os : List Outcome} (hlen : os.length = ss.length) :
    converse now ss os = .accepted ↔
      ∃ rs, os = rs.map (fun r : ℕ × List UInt8 => .line r.1 r.2) ∧
        List.Forall₂ (fun s r => Passes now s r.2) ss rs := by
  induction ss generalizing os with
  | nil =>
    refine iff_of_true rfl ⟨[], ?_, List.Forall₂.nil⟩
    exact List.length_eq_zero_iff.mp hlen
  | cons s ss ih =>
    cases os with
    | nil => exact nomatch hlen
    | cons o os =>
      have hlen' : os.length = ss.length := by simpa using hlen
      cases o with
      | line n text =>
        rw [converse]
        cases hj : s.judge now text with
        | none =>
          rw [getD_none, ih hlen']
          constructor
          · rintro ⟨rs, rfl, hrs⟩
            exact ⟨(n, text) :: rs, rfl, List.Forall₂.cons (judge_none_iff.mp hj) hrs⟩
          · rintro ⟨rs, hos, hrs⟩
            cases hrs with
            | cons hr hrs => exact ⟨_, (List.cons.inj hos).2, hrs⟩
        | some e =>
          refine iff_of_false (judge_ne_accepted hj) ?_
          rintro ⟨rs, hos, hrs⟩
          cases hrs with
          | cons hr hrs =>
            have htext := (List.cons.inj hos).1
            simp only [Outcome.line.injEq] at htext
            rw [← htext.2, ← judge_none_iff, hj] at hr
            exact nomatch hr
      | fail | fault =>
        refine iff_of_false (by simp [converse]) ?_
        rintro ⟨rs, hos, hrs⟩
        cases hrs with
        | cons _ _ => exact nomatch (List.cons.inj hos).1

theorem outcomes_length (ulen n : ℕ) : ∀ (evs : List RecvEvent) (b : RecvBuf),
    (outcomes ulen n evs b).length = n := by
  induction n with
  | zero => exact fun _ _ => rfl
  | succ n ih => exact fun _ _ => congrArg (· + 1) (ih _ _)

variable {conn : Option (List RecvEvent)}

theorem loginEnd_accepted_iff {b : RecvBuf} :
    loginEnd now conn b = .accepted ↔ Completed now conn b := by
  cases conn with
  | none =>
    refine iff_of_false (by simp [loginEnd]) ?_
    rintro ⟨evs, rs, h, _⟩
    exact nomatch h
  | some evs =>
    rw [loginEnd, converse_accepted_iff (outcomes_length bufLen 6 evs b)]
    constructor
    · rintro ⟨rs, h⟩
      exact ⟨evs, rs, rfl, h⟩
    · rintro ⟨evs', rs, he, h⟩
      cases he
      exact ⟨rs, h⟩

/-! ## What the callers make of the value -/

section Callers

variable {env : LoginEnv} {t : TicConf}

theorem ticLogin_cases : (ticLogin env conn t = none ∧ loginEnd env.now conn t.buf = .undefined) ∨
    ∃ c t', ticLogin env conn t = some (c, t') ∧ (loginEnd env.now conn t.buf).code = some c := by
  have hcode := ticLogin_code env conn t
  cases hl : ticLogin env conn t with
  | none =>
    rw [hl] at hcode
    left
    refine ⟨rfl, ?_⟩
    cases he : loginEnd env.now conn t.buf <;> simp [he, LoginEnd.code] at hcode
    rfl
  | some r =>
    rw [hl] at hcode
    exact Or.inr ⟨r.1, r.2, rfl, hcode.symm⟩

theorem code_one_iff : e.code = some 1 ↔ e = .accepted := by
  cases e with
  | refused s => cases s <;> simp [LoginEnd.code, Step.code, TKZAiccuError.code]
  | _ => simp [LoginEnd.code, TKZAiccuError.code]

theorem loginToTicServer_zero_iff : (∃ t', loginToTicServer env conn t = some (0, t')) ↔
    ∃ c t', ticLogin env conn t = some (c, t') ∧ c ≤ 1 := by
  unfold loginToTicServer
  cases ticLogin env conn t with
  | none => simp
  | some r =>
    obtain ⟨c, t'⟩ := r
    simp only [map_some, Option.some.injEq]
    constructor
    · rintro ⟨t'', h⟩
      refine ⟨c, t', rfl, ?_⟩
      by_cases hc : c = 1
      · omega
      · rw [if_pos hc] at h
        have := (Prod.mk.inj h).1
        omega
    · rintro ⟨c', t'', h, hle⟩
      cases h
      by_cases hc : c = 1
      · exact ⟨t', by rw [if_neg (by simpa using hc)]⟩
      · exact ⟨t', by rw [if_pos hc, show c = 0 by omega]⟩

theorem tunnelList_of_doLogin {τ : Type} {retrieve : TicConf → Option (τ × TicConf)}
    {t' : TicConf} {sheet : LoginSheet τ} (hlogin : doLogin retrieve env conn t = some (sheet, t'))
    (hvalid : sheet.validCredentials = true) :
    ∃ q p, retrieve q = some p ∧ sheet.tunnelList = some p.1 := by
  obtain ⟨q, -, hq⟩ := bind_eq_some_iff.mp hlogin
  split_ifs at hq
  · obtain ⟨p, hp, hsheet⟩ := map_eq_some_iff.mp hq
    exact ⟨q.2, p, hp, by rw [← (Prod.mk.inj hsheet).1]⟩
  · rw [← (Prod.mk.inj (some.inj hq)).1] at hvalid
    cases hvalid

theorem doLogin_valid_iff {τ : Type} {retrieve : TicConf → Option (τ × TicConf)}
    (hr : ∀ t, retrieve t ≠ none) :
    (∃ r, doLogin retrieve env conn t = some r ∧ r.1.validCredentials = true) ↔
      ∃ t', loginToTicServer env conn t = some (0, t') := by
  unfold doLogin
  cases loginToTicServer env conn t with
  | none => simp
  | some r =>
    obtain ⟨c, t'⟩ := r
    rw [bind_some]
    by_cases hc : c = 0
    · subst hc
      refine iff_of_true ?_ ⟨t', rfl⟩
      obtain ⟨q, hq⟩ := ne_none_iff_exists'.mp (hr t')
      rw [hq]
      exact ⟨_, rfl, rfl⟩
    · rw [if_neg hc]
      refine iff_of_false ?_ ?_
      · rintro ⟨r, h, hv⟩
        cases h
        exact nomatch hv
      · rintro ⟨t'', h⟩
        cases h
        exact hc rfl

theorem goesOn_guardLogin_iff {α : Type} {failure : α} :
    GoesOn (fun rest => guardLogin failure rest env conn t) ↔
      ∃ c t', ticLogin env conn t = some (c, t') ∧ c ≠ 0 := by
  unfold GoesOn guardLogin
  cases ticLogin env conn t with
  | none =>
    refine iff_of_false ?_ (by simp)
    rintro ⟨t', h⟩
    exact nomatch h (fun t => some (failure, t))
  | some r =>
    obtain ⟨c, t'⟩ := r
    simp only [bind_some]
    by_cases hc : c = 0
    · refine iff_of_false ?_ ?_
      · rintro ⟨t'', h⟩
        have := h (fun _ => none)
        rw [if_pos hc] at this
        exact nomatch this
      · rintro ⟨c', t'', h, hne⟩
        cases h
        exact hne hc
    · refine iff_of_true ⟨t', fun rest => by rw [if_neg hc]⟩ ⟨c, t', rfl, hc⟩

structure CallersAgree (env : LoginEnv) (conn : Option (List RecvEvent)) (t : TicConf) : Prop where
  loginToTicServer : (∃ t', loginToTicServer env conn t = some (0, t')) ↔
    Completed env.now conn t.buf
  doLogin : ∀ {τ : Type} {retrieve : TicConf → Option (τ × TicConf)}, (∀ t, retrieve t ≠ none) →
    ((∃ r, doLogin retrieve env conn t = some r ∧ r.1.validCredentials = true) ↔
      Completed env.now conn t.buf)
  getTunnel : ∀ {τ : Type}, GoesOn (fun rest => getTunnel (τ := τ) rest env conn t) ↔
    Completed env.now conn t.buf
  listTunnels : GoesOn (fun rest => listTunnels rest env conn t) ↔ Completed env.now conn t.buf

theorem callersAgree_of {p : Prop} (hp : p ↔ Completed env.now conn t.buf)
    (hgui : (∃ c t', ticLogin env conn t = some (c, t') ∧ c ≤ 1) ↔ p)
    (hcli : (∃ c t', ticLogin env conn t = some (c, t') ∧ c ≠ 0) ↔ p) :
    CallersAgree env conn t where
  loginToTicServer := loginToTicServer_zero_iff.trans (hgui.trans hp)
  doLogin hr := (doLogin_valid_iff hr).trans (loginToTicServer_zero_iff.trans (hgui.trans hp))
  getTunnel := goesOn_guardLogin_iff.trans (hcli.trans hp)
  listTunnels := goesOn_guardLogin_iff.trans (hcli.trans hp)

end Callers

/-- **Callers.** The callers agree with the dialogue if and only if it was completed (or the login
left its arrays, and nothing is said). -/
theorem callersAgree_iff (env : LoginEnv) (conn : Option (List RecvEvent)) (t : TicConf) :
    CallersAgree env conn t ↔
      Completed env.now conn t.buf ∨ loginEnd env.now conn t.buf = .undefined := by
  rcases ticLogin_cases with ⟨hl, he⟩ | ⟨c, t', hl, hc⟩
  · have hno : ¬ Completed env.now conn t.buf := by
      rw [← loginEnd_accepted_iff, he]
      decide
    refine iff_of_true (callersAgree_of (p := False) ?_ ?_ ?_) (Or.inr he)
    · exact iff_of_false not_false hno
    · simp [hl]
    · simp [hl]
  · have hne : loginEnd env.now conn t.buf ≠ .undefined := by
      intro he
      rw [he] at hc
      exact absurd hc (by simp [LoginEnd.code])
    have hone : c = 1 ↔ Completed env.now conn t.buf := by
      rw [← loginEnd_accepted_iff, ← code_one_iff, hc, Option.some.injEq]
    constructor
    · intro h
      left
      -- `0` misleads the adapter, every error code the command line client
      by_cases h0 : c ≤ 1
      · exact h.loginToTicServer.mp (loginToTicServer_zero_iff.mpr ⟨c, t', hl, h0⟩)
      · exact h.listTunnels.mp (goesOn_guardLogin_iff.mpr ⟨c, t', hl, by omega⟩)
    · intro h
      have h1 := hone.mpr (h.resolve_right hne)
      refine callersAgree_of (p := True) (iff_of_true trivial (hone.mp h1)) ?_ ?_
      · exact iff_of_true ⟨c, t', hl, by omega⟩ trivial
      · exact iff_of_true ⟨c, t', hl, by omega⟩ trivial

theorem adapter_login_without_connection :
    loginToTicServer ⟨0, [], [], [], [], fun _ => []⟩ none ⟨none, ticBuf, [], []⟩ =
        some (0, ⟨none, ticBuf, [], []⟩) ∧
      ¬ CallersAgree ⟨0, [], [], [], [], fun _ => []⟩ none ⟨none, ticBuf, [], []⟩ := by
  refine ⟨rfl, fun h => ?_⟩
  obtain ⟨evs, rs, hconn, _⟩ := h.loginToTicServer.mp ⟨_, rfl⟩
  exact nomatch hconn

end Maiccu.Tic
