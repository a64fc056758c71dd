import Maiccu.Aiccu.GetlineLines
import Maiccu.Aiccu.CheckTime

/-!
# Logging in to a TIC server

`tic_Login` of `tic.c`, as built for Maiccu (with `AICCU_PATCH`, without `AICCU_GNUTLS`): six
replies are read, each of which has to start with a `2`. What `connect_client` gives is the argument
`conn`. `none` is the result of a login that leaves its arrays.
-/

namespace Maiccu.Tic

open Maiccu.Lib Option

/-! ## The session -/

/-- The text of a `QUIT`. -/
inductive QuitMsg where
  /-- One of the built-in texts. -/
  | bye
  /-- `Aborting: Clock is off by %d seconds`. -/
  | clockIsOff (i : ℤ)
  | text (s : String)
  deriving DecidableEq, Repr

inductive Command where
  | client (sysname release : List UInt8)
  | getUnixtime
  | username (name : List UInt8)
  | challengeMd5
  | authenticateMd5 (signature : List UInt8)
  | tunnelList
  | tunnelShow (id : List UInt8)
  | popShow (id : List UInt8)
  | quit (msg : QuitMsg)
  deriving DecidableEq, Repr

/-- A `TIC_conf` with the globals `tic_buf` and `tic_filled`, what was sent, and how each call of
`sock_getline` ended. -/
structure TicConf where
  sock : Option TlsSocket
  buf : RecvBuf
  sent : List Command
  replies : List Outcome
  deriving DecidableEq, Repr

/-- `sizeof(buf)` of every caller of `sock_getline`. -/
def bufLen : ℕ := 1024

/-- `sock_getline(tic->sock, tic_buf, sizeof(tic_buf), &tic_filled, buf, sizeof(buf))`. -/
def TicConf.getline (t : TicConf) : Outcome × TicConf :=
  let r := sockGetline bufLen t.sock t.buf
  (r.1, { t with sock := r.2.2, buf := r.2.1, replies := t.replies ++ [r.1] })

/-- `sock_printf`: without a connection the line goes to the log. -/
def TicConf.printf (t : TicConf) (c : Command) : TicConf :=
  match t.sock with
  | some (.conn _) => { t with sent := t.sent ++ [c] }
  | _ => t

def ticLogout (t : TicConf) (msg : QuitMsg) : TicConf :=
  match t.sock with
  | none => t
  | some _ => { t.printf (.quit msg) with sock := none }

structure LoginEnv where
  /-- `time(NULL)`. -/
  now : ℤ
  sysname : List UInt8
  release : List UInt8
  username : List UInt8
  password : List UInt8
  /-- `MD5String`: the digest in hexadecimal. -/
  md5 : List UInt8 → List UInt8

/-! ## The login -/

/-- `enum TKZAiccuError`, the values a login can return. -/
inductive TKZAiccuError where
  | invalidUser
  | invalidPwd
  | noTicConnection
  | clientNotUpToDate
  | noTimeSync
  deriving DecidableEq, Repr

def TKZAiccuError.code : TKZAiccuError → ℕ
  | .invalidUser => 2
  | .invalidPwd => 3
  | .noTicConnection => 4
  | .clientNotUpToDate => 5
  | .noTimeSync => 6

/-- The test `buf[0] == '2'`. -/
def Accepts (text : List UInt8) : Prop := text.head? = some 50

instance (text : List UInt8) : Decidable (Accepts text) := inferInstanceAs (Decidable (_ = _))

/-- The string at `&buf[4]`; there is none if no zero byte follows in the buffer. -/
def message (text : List UInt8) : Option (List UInt8) :=
  if text.length < bufLen ∨ 0 ∈ text.drop 4 then some ((text.drop 4).takeWhile (· ≠ 0)) else none

def TicConf.ask {α : Type*} (t : TicConf) (failed : TicConf → Option α)
    (k : List UInt8 → TicConf → Option α) : Option α :=
  match t.getline with
  | (.line _ text, t') => k text t'
  | (.fail, t') => failed t'
  | (.fault, _) => none

def returnFalse (t : TicConf) : Option (ℕ × TicConf) := some (0, t)

def refuse (text : List UInt8) (code : ℕ) (t : TicConf) : Option (ℕ × TicConf) :=
  (message text).map fun _ => (code, t)

def ticLogin (env : LoginEnv) (conn : Option (List RecvEvent)) (t : TicConf) :
    Option (ℕ × TicConf) :=
  match conn with
  | none => some (0, { t with sock := none })
  | some evs =>
    -- the welcome
    TicConf.ask { t with sock := some (.conn evs) } returnFalse fun text t =>
    if ¬ Accepts text then some (TKZAiccuError.noTicConnection.code, t) else
    TicConf.ask (t.printf (.client env.sysname env.release)) returnFalse fun text t =>
    if ¬ Accepts text then refuse text TKZAiccuError.clientNotUpToDate.code t else
    TicConf.ask (t.printf .getUnixtime) returnFalse fun text t =>
    if ¬ Accepts text then refuse text 0 t else
    (message text).bind fun time =>
    let i := ticChecktime env.now (atoi time)
    if i ≠ 0 then some (TKZAiccuError.noTimeSync.code, ticLogout t (.clockIsOff i)) else
    TicConf.ask (t.printf (.username env.username)) returnFalse fun text t =>
    if ¬ Accepts text then refuse text TKZAiccuError.invalidUser.code t else
    TicConf.ask (t.printf .challengeMd5) returnFalse fun text t =>
    if ¬ Accepts text then refuse text 0 t else
    (message text).bind fun challenge =>
    -- `sChallenge` has the size of `buf`
    let signature := env.md5 ((challenge ++ env.md5 env.password).take (bufLen - 1))
    TicConf.ask (t.printf (.authenticateMd5 signature)) (fun t => returnFalse (ticLogout t .bye))
      fun text t =>
    if ¬ Accepts text then refuse text TKZAiccuError.invalidPwd.code (ticLogout t .bye) else
    some (1, t)

/-! ## What a login keeps -/

def Keeps {α : Type*} (p : TicConf → Prop) (o : Option (α × TicConf)) : Prop :=
  ∀ r, o = some r → p r.2

section Keeps

variable {p : TicConf → Prop}

variable {t : TicConf} {α : Type*}

theorem keeps_some {a : α} (h : p t) : Keeps p (some (a, t)) := by
  rintro r hr
  cases hr
  exact h

theorem keeps_none : Keeps (α := α) p none := by
  rintro r hr
  cases hr

theorem keeps_ite {c : Prop} [Decidable c] {a b : Option (α × TicConf)}
    (ha : Keeps p a) (hb : Keeps p b) : Keeps p (if c then a else b) := by
  split_ifs
  · exact ha
  · exact hb

theorem keeps_bind {β : Type*} {o : Option β} {f : β → Option (α × TicConf)}
    (h : ∀ b, Keeps p (f b)) : Keeps p (o.bind f) := by
  cases o with
  | none => exact keeps_none
  | some b => exact h b

theorem keeps_refuse {text : List UInt8} {code : ℕ} (h : p t) : Keeps p (refuse text code t) := by
  unfold refuse
  cases message text with
  | none => exact keeps_none
  | some _ => exact keeps_some h

variable (hget : ∀ t : TicConf, p t → t.getline.1 ≠ .fault → p t.getline.2)

include hget in
theorem keeps_ask {failed : TicConf → Option (α × TicConf)}
    {k : List UInt8 → TicConf → Option (α × TicConf)} (ht : p t)
    (hfail : ∀ t', p t' → Keeps p (failed t')) (hk : ∀ text t', p t' → Keeps p (k text t')) :
    Keeps p (t.ask failed k) := by
  have h := hget t ht
  unfold TicConf.ask
  rcases hg : t.getline with ⟨o, t'⟩
  rw [hg] at h
  cases o with
  | line n text => exact hk text t' (h (by simp))
  | fail => exact hfail t' (h (by simp))
  | fault => exact keeps_none

include hget in
/-- **Invariants.** What holds when the connection is made, and is kept by reading, sending and the
logout, holds after the login. -/
theorem ticLogin_keeps {env : LoginEnv} {conn : Option (List RecvEvent)}
    (ht : p { t with sock := conn.map .conn }) (hprintf : ∀ t c, p t → p (t.printf c))
    (hlogout : ∀ t m, p t → p (ticLogout t m)) : Keeps p (ticLogin env conn t) := by
  cases conn with
  | none => exact keeps_some ht
  | some evs =>
    have hfalse : ∀ t', p t' → Keeps p (returnFalse t') := fun t' h => keeps_some h
    refine keeps_ask hget ht hfalse fun text t ht => ?_
    refine keeps_ite (keeps_some ht) ?_
    refine keeps_ask hget (hprintf _ _ ht) hfalse fun text t ht => ?_
    refine keeps_ite (keeps_refuse ht) ?_
    refine keeps_ask hget (hprintf _ _ ht) hfalse fun text t ht => ?_
    refine keeps_ite (keeps_refuse ht) (keeps_bind fun time => ?_)
    refine keeps_ite (keeps_some (hlogout _ _ ht)) ?_
    refine keeps_ask hget (hprintf _ _ ht) hfalse fun text t ht => ?_
    refine keeps_ite (keeps_refuse ht) ?_
    refine keeps_ask hget (hprintf _ _ ht) hfalse fun text t ht => ?_
    refine keeps_ite (keeps_refuse ht) (keeps_bind fun challenge => ?_)
    refine keeps_ask hget (hprintf _ _ ht) (fun t' h => hfalse _ (hlogout _ _ h))
      fun text t ht => ?_
    exact keeps_ite (keeps_refuse (hlogout _ _ ht)) (keeps_some ht)

end Keeps

/-! ## How a login ends -/

inductive Step where
  | welcome
  | client
  | unixtime
  | username
  | challenge
  | authenticate
  deriving DecidableEq, Repr

def loginSteps : List Step := [.welcome, .client, .unixtime, .username, .challenge, .authenticate]

/-- How a login ends. -/
inductive LoginEnd where
  | connectFailed
  | readFailed (s : Step)
  | refused (s : Step)
  | clockIsOff
  | accepted
  /-- The code left its arrays. -/
  | undefined
  deriving DecidableEq, Repr

def Step.judge (now : ℤ) (s : Step) (text : List UInt8) : Option LoginEnd :=
  if ¬ Accepts text then
    -- every refusal but that of the welcome logs the text
    if s ≠ .welcome ∧ message text = none then some .undefined else some (.refused s)
  else match s, message text with
    | .unixtime, none => some .undefined
    | .unixtime, some time =>
      if ticChecktime now (atoi time) ≠ 0 then some .clockIsOff else none
    | .challenge, none => some .undefined
    | _, _ => none

def converse (now : ℤ) : List Step → List Outcome → LoginEnd
  | [], _ => .accepted
  | s :: ss, .line _ text :: os => (s.judge now text).getD (converse now ss os)
  | s :: _, .fail :: _ => .readFailed s
  | _ :: _, _ => .undefined

/-- How a login over `conn` ends, with the buffer `b` before it. -/
def loginEnd (now : ℤ) (conn : Option (List RecvEvent)) (b : RecvBuf) : LoginEnd :=
  match conn with
  | none => .connectFailed
  | some evs => converse now loginSteps (outcomes bufLen 6 evs b)

def Step.code : Step → ℕ
  | .welcome => TKZAiccuError.noTicConnection.code
  | .client => TKZAiccuError.clientNotUpToDate.code
  | .unixtime => 0
  | .username => TKZAiccuError.invalidUser.code
  | .challenge => 0
  | .authenticate => TKZAiccuError.invalidPwd.code

def LoginEnd.code : LoginEnd → Option ℕ
  | .connectFailed => some 0
  | .readFailed _ => some 0
  | .refused s => some s.code
  | .clockIsOff => some TKZAiccuError.noTimeSync.code
  | .accepted => some 1
  | .undefined => none

structure TicConf.At (t : TicConf) (evs : List RecvEvent) (b : RecvBuf) : Prop where
  sock : t.sock = some (.conn evs)
  buf : t.buf = b

variable {t : TicConf} {evs : List RecvEvent} {b : RecvBuf} {now : ℤ} {s : Step} {text : List UInt8}

theorem TicConf.At.printf (h : t.At evs b) (c : Command) : (t.printf c).At evs b := by
  unfold TicConf.printf
  rw [h.sock]
  exact ⟨rfl, h.buf⟩

theorem TicConf.At.getline (h : t.At evs b) : t.getline.1 = (getlineLoop bufLen evs b).1 ∧
      t.getline.2.At (getlineLoop bufLen evs b).2.2 (getlineLoop bufLen evs b).2.1 := by
  unfold TicConf.getline
  rw [h.sock, h.buf]
  exact ⟨rfl, rfl, rfl⟩

theorem ask_code {ss : List Step} {n : ℕ} {failed : TicConf → Option (ℕ × TicConf)}
    {k : List UInt8 → TicConf → Option (ℕ × TicConf)} (ht : t.At evs b)
    (hfail : ∀ t', (failed t').map Prod.fst = some 0)
    (hk : ∀ text t' evs b, t'.At evs b → (k text t').map Prod.fst =
      ((s.judge now text).getD (converse now ss (outcomes bufLen n evs b))).code) :
    (t.ask failed k).map Prod.fst = (converse now (s :: ss)
      (outcomes bufLen (n + 1) evs b)).code := by
  obtain ⟨hout, hat⟩ := ht.getline
  unfold TicConf.ask
  rw [outcomes, ← hout]
  rcases hg : t.getline with ⟨o, t'⟩
  rw [hg] at hat
  cases o with
  | line m text => exact hk text t' _ _ hat
  | fail => exact hfail t'
  | fault => rfl

theorem refuse_code (text : List UInt8) (code : ℕ) (t : TicConf) :
    (refuse text code t).map Prod.fst = (message text).map fun _ => code := by
  unfold refuse
  rw [map_map]
  rfl

/-- A step after the welcome: a reply that is refused ends the login with the step's code. -/
theorem ask_step {ss : List Step} {n : ℕ} {c : Command} {failed : TicConf → Option (ℕ × TicConf)}
    {out : TicConf → TicConf} {next : List UInt8 → TicConf → Option (ℕ × TicConf)}
    (hs : s ≠ .welcome) (ht : t.At evs b) (hfail : ∀ t', (failed t').map Prod.fst = some 0)
    (hnext : ∀ text t' evs b, Accepts text → t'.At evs b → (next text t').map Prod.fst =
      ((s.judge now text).getD (converse now ss (outcomes bufLen n evs b))).code) :
    ((t.printf c).ask failed fun text t =>
        if ¬ Accepts text then refuse text s.code (out t) else next text t).map Prod.fst =
      (converse now (s :: ss) (outcomes bufLen (n + 1) evs b)).code := by
  refine ask_code (ht.printf c) hfail fun text t' _ _ ht' => ?_
  by_cases h : Accepts text
  · rw [if_neg (not_not.mpr h)]
    exact hnext text t' _ _ h ht'
  · unfold Step.judge
    rw [if_pos h, refuse_code, if_pos h]
    cases message text with
    | none => simp [hs, LoginEnd.code]
    | some m => simp [LoginEnd.code]

theorem ticLogin_code (env : LoginEnv) (conn : Option (List RecvEvent)) (t : TicConf) :
    (ticLogin env conn t).map Prod.fst = (loginEnd env.now conn t.buf).code := by
  cases conn with
  | none => rfl
  | some evs =>
    refine ask_code ⟨rfl, rfl⟩ (fun _ => rfl) fun text t _ _ ht => ?_
    by_cases hw : Accepts text
    swap
    · simp [hw, Step.judge, LoginEnd.code, Step.code]
    unfold Step.judge
    rw [if_neg (not_not.mpr hw), if_neg (not_not.mpr hw)]
    refine ask_step (s := .client) (by simp) ht (fun _ => rfl) fun text t _ _ hc ht => ?_
    unfold Step.judge
    rw [if_neg (not_not.mpr hc)]
    refine ask_step (s := .unixtime) (by simp) ht (fun _ => rfl) fun text t _ _ hu ht => ?_
    unfold Step.judge
    rw [if_neg (not_not.mpr hu)]
    cases message text with
    | none => rfl
    | some time =>
    rw [bind_some]
    by_cases hi : ticChecktime env.now (atoi time) = 0
    swap
    · simp [hi, LoginEnd.code]
    simp only [hi, ne_eq, not_true_eq_false, if_false, getD_none]
    refine ask_step (s := .username) (by simp) ht (fun _ => rfl) fun text t _ _ hn ht => ?_
    unfold Step.judge
    rw [if_neg (not_not.mpr hn)]
    refine ask_step (s := .challenge) (by simp) ht (fun _ => rfl) fun text t _ _ hg ht => ?_
    unfold Step.judge
    rw [if_neg (not_not.mpr hg)]
    cases message text with
    | none => rfl
    | some challenge =>
    refine ask_step (s := .authenticate) (by simp) ht (fun _ => rfl) fun text t _ _ ha ht => ?_
    unfold Step.judge
    rw [if_neg (not_not.mpr ha)]
    rfl

end Maiccu.Tic
