import Maiccu.Aiccu.CheckTime
import Maiccu.Gogoc.Session

/-!
# DIGEST-MD5

`AuthDIGEST_MD5` of `tsp_auth.c`: the server sends a challenge, the client answers with a digest of
its password, and the server proves with a second challenge that it knows the password too. MD5 and
base64 are left open. A directive that was not sent is a null pointer, and the reading of one ends
the model without a status.
-/

namespace Maiccu.Gogoc.Auth

open Maiccu.Lib List
open Maiccu.Tic (atoi)

/-! ## The challenge -/

/-- `tChallenge`. -/
structure Challenge where
  realm : Option (List UInt8)
  nonce : Option (List UInt8)
  qop : Option (List UInt8)
  algorithm : Option (List UInt8)
  charset : Option (List UInt8)
  rspauth : Option (List UInt8)

def insertInChallengeStruct (c : Challenge) (token value : List UInt8) : Challenge :=
  if token = ascii "realm" then { c with realm := some value }
  else if token = ascii "nonce" then { c with nonce := some value }
  else if token = ascii "qop" then { c with qop := some value }
  else if token = ascii "algorithm" then { c with algorithm := some value }
  else if token = ascii "charset" then { c with charset := some value }
  else if token = ascii "rspauth" then { c with rspauth := some value }
  else c

def chopQuotes (s : List UInt8) : List UInt8 :=
  let t := if s.head? = some 34 then s.tail else s
  if t.getLast? = some 34 then t.dropLast else t

def valueAt (seg token value : List UInt8) : List UInt8 :=
  if seg ≠ [] ∧ token ≠ [] ∧ value = [] then cString (chopQuotes seg) else value

def Stores (seg token value : List UInt8) : Prop :=
  seg ≠ [] ∧ token ≠ [] ∧ valueAt seg token value ≠ []

instance (seg token value : List UInt8) : Decidable (Stores seg token value) :=
  inferInstanceAs (Decidable (_ ∧ _))

/-- `seg` is what stands between `s` and `e`. The memory ends with zeros. As in the scanner of the
capabilities, the byte after a separator or an equals sign is `unseen`, also if it is the zero that
ends the string. -/
def scanChallenge (unseen : Bool) (seg token value : List UInt8) (c : Challenge) :
    List UInt8 → Challenge
  | [] =>
    if unseen = false ∧ Stores seg token value then
      insertInChallengeStruct c token (valueAt seg token value)
    else c
  | b :: rest =>
    if unseen = true then scanChallenge false [b] token value c rest
    else if b = 44 ∨ b = 13 ∨ b = 10 ∨ b = 0 then
      if Stores seg token value then
        let c' := insertInChallengeStruct c token (valueAt seg token value)
        if b = 0 then c' else scanChallenge true [] [] [] c' rest
      else if b = 0 then c
      else scanChallenge true [] token (valueAt seg token value) c rest
    else if b = 61 ∧ token = [] ∧ seg ≠ [] then scanChallenge true [] (cString seg) value c rest
    else scanChallenge false (seg ++ [b]) token value c rest

/-- `mem` is the memory from the start of the string on. -/
def extractChallenge (mem : List UInt8) : Challenge :=
  scanChallenge false [] [] [] ⟨none, none, none, none, none, none⟩ mem

/-! ## The digests -/

structure Crypto where
  md5digest : List UInt8 → Bytes 16
  base64decode : List UInt8 → List UInt8
  base64encode : List UInt8 → List UInt8

/-- A digit of `%02x`. -/
def hexDigit (k : ℕ) : UInt8 := if k < 10 then UInt8.ofNat (48 + k) else UInt8.ofNat (87 + k)

def hexText (d : Bytes 16) : List UInt8 :=
  d.toList.flatMap fun b => [hexDigit (b.toNat / 16), hexDigit (b.toNat % 16)]

def Crypto.md5 (h : Crypto) (s : List UInt8) : List UInt8 := hexText (h.md5digest s)

/-- What `AuthDIGEST_MD5` takes from the configuration, the text of the version, and the time. -/
structure DigestConf where
  userid : List UInt8
  passwd : List UInt8
  server : List UInt8
  version : List UInt8
  cnonce : ℕ

section Digest

variable (h : Crypto) (conf : DigestConf) (realm nonce qop : List UInt8)

/-- `HEX(H(A1))`. With the versions up to 2.0.0 a zero in the inner digest ends the text. -/
def digestA1 : List UInt8 :=
  let a11 := (h.md5digest (snprintf
    (8 + conf.userid.length + realm.length + conf.passwd.length + 1)
    (conf.userid ++ 58 :: (realm ++ 58 :: conf.passwd)))).toList
  let text := snprintf (nonce.length + 18) (58 :: (nonce ++ 58 :: showInt conf.cnonce))
  if 0 ∈ a11 ∧ ¬(5 < conf.version.length ∨ ascii "2.0.0" < conf.version) then h.md5 (cString a11)
  else h.md5 (a11 ++ text)

/-- `HEX(H(A2))` for a method. -/
def digestA2 (method : List UInt8) : List UInt8 :=
  h.md5 (snprintf (9 + 12 + conf.server.length + 1) (method ++ (ascii ":tsp/" ++ conf.server)))

/-- The digest of a response: `Response` for the method `AUTHENTICATE` and `cResponse` for the empty
one. -/
def challengeResponse (method : List UInt8) : List UInt8 :=
  h.md5 (snprintf (24 + 32 + nonce.length + 16 + qop.length + 32 + 1)
    (digestA1 h conf realm nonce ++ 58 :: (nonce ++ (ascii ":00000001:" ++ (showInt conf.cnonce ++
      58 :: (qop ++ 58 :: digestA2 h conf method))))))

def escapeUserid (userid : List UInt8) : List UInt8 :=
  userid.flatMap fun c => if c = 34 ∨ c = 92 then [92, c] else [c]

def digestAnswer (charset : List UInt8) : List UInt8 :=
  snprintf (112 + charset.length + (escapeUserid conf.userid).length + realm.length +
      nonce.length + 16 + conf.server.length + 32)
    (ascii "charset=" ++ (charset ++ (ascii ",username=\"" ++ (escapeUserid conf.userid ++
      (ascii "\",realm=\"" ++ (realm ++ (ascii "\",nonce=\"" ++ (nonce ++
        (ascii "\",nc=00000001,cnonce=\"" ++ (showInt conf.cnonce ++
          (ascii "\",digest-uri=\"tsp/" ++ (conf.server ++ (ascii "\",response=" ++
            (challengeResponse h conf realm nonce qop (ascii "AUTHENTICATE") ++
              ascii ",qop=auth"))))))))))))))

end Digest

/-! ## The exchange -/

/-- Which allocations succeed, the texts that the three replies leave in the buffer, or `none` for a
failed call, what stands in memory behind the two challenges and behind `rspauth`, and what the
replies are if taken for redirections. -/
structure DigestRun where
  memory : ℕ → Bool
  first : Option (List UInt8)
  second : Option (List UInt8)
  third : Option (List UInt8)
  junk : ℕ → List UInt8
  redirect : List UInt8 → RedirectReply
  brokers : BrokerList

/-- The end of `AuthDIGEST_MD5`; `none` is the reading of a directive that is not there. -/
abbrev DigestEnd := Option (Status × BrokerList)

section Code

variable (h : Crypto) (conf : DigestConf) (x : DigestRun)

def DigestRun.redirected (text : List UInt8) : DigestEnd :=
  some (redirectStatus (tspHandleRedirect (x.redirect text) x.brokers).1,
    (tspHandleRedirect (x.redirect text) x.brokers).2)

def DigestRun.check (reply : Option (List UInt8)) (next : List UInt8 → DigestEnd) : DigestEnd :=
  match reply with
  | none => some (.socketIo, x.brokers)
  | some text =>
    if tspIsRedirectStatus (atoi text) then x.redirected text
    else if atoi text = 300 then some (.authenticationFailure, x.brokers)
    else next text

/-- The allocation number `n`. -/
def DigestRun.alloc (n : ℕ) (next : DigestEnd) : DigestEnd :=
  if x.memory n = true then next else some (.memoryStarvation, x.brokers)

def directive (d : Option (List UInt8)) (next : List UInt8 → DigestEnd) : DigestEnd :=
  d.bind next

def DigestRun.challenge (n : ℕ) (text : List UInt8) : Challenge :=
  extractChallenge (h.base64decode text ++ 0 :: x.junk n)

/-- The buffer after the third reply: it still has the answer to the challenge. -/
def DigestRun.buffer (answer reply : List UInt8) : List UInt8 :=
  reply ++ (h.base64encode answer).drop reply.length

def DigestRun.finish (answer : List UInt8) : DigestEnd :=
  match x.third with
  | none => some (.socketIo, x.brokers)
  | some reply =>
    let text := DigestRun.buffer h answer reply
    if tspIsRedirectStatus (atoi text) then x.redirected text
    else if atoi text = 200 then some (.success, x.brokers)
    else if atoi text = 300 then some (.authenticationFailure, x.brokers)
    else some (.tspGenericError, x.brokers)

/-- The proof of the server is checked; `memcmp` looks at 32 bytes wherever the value ends. -/
def DigestRun.verify (answer expected rspauth : List UInt8) : DigestEnd :=
  if (rspauth ++ 0 :: x.junk 2).take 32 = expected.take 32 then x.finish h answer
  else some (.authenticationFailure, x.brokers)

def DigestRun.answered (answer expected : List UInt8) : DigestEnd :=
  x.check x.second fun text =>
    x.alloc 6 <| directive (x.challenge h 1 text).rspauth fun rspauth =>
      x.verify h answer expected rspauth

def DigestRun.authDigestMd5 : DigestEnd :=
  x.check x.first fun text =>
    let c := x.challenge h 0 text
    x.alloc 0 <| x.alloc 1 <| directive c.realm fun realm =>
      x.alloc 2 <| directive c.nonce fun nonce =>
        x.alloc 3 <| directive c.qop fun qop =>
          x.alloc 4 <| directive c.charset fun charset =>
            x.alloc 5 <| x.answered h (digestAnswer h conf realm nonce qop charset)
              (challengeResponse h conf realm nonce qop [])

end Code

/-! ## What a successful end means -/

section Sound

variable (h : Crypto) (conf : DigestConf) (x : DigestRun)

def DigestEnd.Sound (e : DigestEnd) (p : Prop) : Prop :=
  ∃ status brokers, e = some (status, brokers) ∧ (status = .success → p)

def Passes (reply : Option (List UInt8)) (text : List UInt8) : Prop :=
  reply = some text ∧ ¬tspIsRedirectStatus (atoi text) ∧ atoi text ≠ 300

variable {h conf x} {p : Prop}

theorem sound_of_ne {status : Status} {brokers : BrokerList} (hne : status ≠ .success) :
    DigestEnd.Sound (some (status, brokers)) p :=
  ⟨status, brokers, rfl, fun heq => absurd heq hne⟩

theorem sound_redirected {text : List UInt8} : DigestEnd.Sound (x.redirected text) p := by
  refine sound_of_ne ?_
  unfold redirectStatus
  split
  · exact nofun
  · exact nofun

variable {next : List UInt8 → DigestEnd}

theorem sound_check {reply : Option (List UInt8)} : DigestEnd.Sound (x.check reply next) p ↔
      ∀ text, Passes reply text → DigestEnd.Sound (next text) p := by
  unfold DigestRun.check
  cases reply with
  | none => exact iff_of_true (sound_of_ne nofun) fun _ h => nomatch h.1
  | some text =>
    have hiff : (∀ t, Passes (some text) t → DigestEnd.Sound (next t) p) ↔
        (¬tspIsRedirectStatus (atoi text) ∧ atoi text ≠ 300 → DigestEnd.Sound (next text) p) := by
      constructor
      · intro hall hpasses
        exact hall text ⟨rfl, hpasses⟩
      · rintro hone t ⟨heq, hpasses⟩
        cases heq
        exact hone hpasses
    rw [hiff]
    dsimp only
    by_cases hredirect : tspIsRedirectStatus (atoi text)
    · rw [if_pos hredirect]
      exact iff_of_true sound_redirected fun h => absurd hredirect h.1
    by_cases hfailed : atoi text = 300
    · rw [if_neg hredirect, if_pos hfailed]
      exact iff_of_true (sound_of_ne nofun) fun h => absurd hfailed h.2
    · rw [if_neg hredirect, if_neg hfailed]
      exact (imp_iff_right ⟨hredirect, hfailed⟩).symm

theorem sound_alloc {n : ℕ} {next : DigestEnd} :
    DigestEnd.Sound (x.alloc n next) p ↔ (x.memory n = true → DigestEnd.Sound next p) := by
  unfold DigestRun.alloc
  by_cases hmemory : x.memory n = true
  · rw [if_pos hmemory]
    exact (imp_iff_right hmemory).symm
  · rw [if_neg hmemory]
    exact iff_of_true (sound_of_ne nofun) fun h => absurd h hmemory

theorem sound_directive {d : Option (List UInt8)} :
    DigestEnd.Sound (directive d next) p ↔ ∃ v, d = some v ∧ DigestEnd.Sound (next v) p := by
  cases d with
  | none =>
    refine iff_of_false ?_ fun ⟨_, h, _⟩ => nomatch h
    rintro ⟨_, _, h, _⟩
    cases h
  | some v =>
    constructor
    · exact fun hsound => ⟨v, rfl, hsound⟩
    · rintro ⟨_, heq, hsound⟩
      cases heq
      exact hsound

variable {answer : List UInt8}

theorem sound_finish : DigestEnd.Sound (x.finish h answer) p ↔
      ∀ reply, x.third = some reply → atoi (DigestRun.buffer h answer reply) = 200 → p := by
  unfold DigestRun.finish
  cases x.third with
  | none => exact iff_of_true (sound_of_ne nofun) nofun
  | some reply =>
    have hiff : (∀ r, some reply = some r → atoi (DigestRun.buffer h answer r) = 200 → p) ↔
        (atoi (DigestRun.buffer h answer reply) = 200 → p) := by
      constructor
      · exact fun hall => hall reply rfl
      · rintro hone r heq
        cases heq
        exact hone
    rw [hiff]
    dsimp only
    by_cases hsuccess : atoi (DigestRun.buffer h answer reply) = 200
    · have hredirect : ¬tspIsRedirectStatus (atoi (DigestRun.buffer h answer reply)) := by
        rw [hsuccess]
        decide
      rw [if_neg hredirect, if_pos hsuccess]
      constructor
      · rintro ⟨_, _, heq, hp⟩ -
        cases heq
        exact hp rfl
      · exact fun hp => ⟨_, _, rfl, fun _ => hp hsuccess⟩
    · refine iff_of_true ?_ fun h => absurd h hsuccess
      split_ifs
      · exact sound_redirected
      · exact sound_of_ne nofun
      · exact sound_of_ne nofun

theorem sound_verify {expected rspauth : List UInt8} :
    DigestEnd.Sound (x.verify h answer expected rspauth) p ↔
      ((rspauth ++ 0 :: x.junk 2).take 32 = expected.take 32 →
        DigestEnd.Sound (x.finish h answer) p) := by
  unfold DigestRun.verify
  split_ifs with hsame
  · exact (imp_iff_right hsame).symm
  · exact iff_of_true (sound_of_ne nofun) fun h => absurd h hsame

theorem hexDigit_ne_zero {k : ℕ} (hk : k < 16) : hexDigit k ≠ 0 := by
  revert k
  decide

theorem length_md5 (s : List UInt8) : (h.md5 s).length = 32 := by
  unfold Crypto.md5 hexText
  rw [length_flatMap]
  simp only [length_cons, length_nil, map_const', sum_replicate, List.Vector.toList_length]
  rfl

theorem zero_notMem_md5 (s : List UInt8) : 0 ∉ h.md5 s := by
  intro hzero
  obtain ⟨b, -, hdigit⟩ := mem_flatMap.mp hzero
  have hb := b.toNat_lt
  simp only [mem_cons, not_mem_nil, or_false] at hdigit
  rcases hdigit with hdigit | hdigit
  · exact hexDigit_ne_zero (by omega) hdigit.symm
  · exact hexDigit_ne_zero (by omega) hdigit.symm

/-- `memcmp` finds 32 equal bytes only inside the value, for the digest has no zero. -/
theorem memcmp_md5 {rspauth junk s : List UInt8} :
    (rspauth ++ 0 :: junk).take 32 = (h.md5 s).take 32 ↔ rspauth.take 32 = h.md5 s := by
  have hwhole : (h.md5 s).take 32 = h.md5 s := take_of_length_le (length_md5 s).le
  rw [hwhole]
  by_cases hlong : 32 ≤ rspauth.length
  · rw [take_append_of_le_length hlong]
  · constructor
    · intro heq
      refine absurd ?_ (zero_notMem_md5 (h := h) s)
      rw [← heq, take_append]
      refine mem_append_right _ ?_
      obtain ⟨k, hk⟩ := Nat.exists_eq_succ_of_ne_zero (Nat.sub_ne_zero_of_lt (not_le.mp hlong))
      rw [hk]
      exact mem_cons_self
    · intro heq
      have hlength := congrArg length heq
      rw [length_md5, length_take] at hlength
      omega

/-- The first 32 characters of `rspauth` in the second reply are the digest for the empty method,
made with the directives of the first reply, and the third reply has the status 200. -/
def DigestRun.Proved (h : Crypto) (conf : DigestConf) (x : DigestRun) : Prop :=
  ∃ text realm nonce qop text' rspauth reply,
    x.first = some text ∧ (x.challenge h 0 text).realm = some realm ∧
    (x.challenge h 0 text).nonce = some nonce ∧ (x.challenge h 0 text).qop = some qop ∧
    x.second = some text' ∧ (x.challenge h 1 text').rspauth = some rspauth ∧
    rspauth.take 32 = challengeResponse h conf realm nonce qop [] ∧
    x.third = some reply ∧ atoi reply = 200

/-- The second reply has `rspauth` if it is read, and if that is the digest expected then what is
left in the buffer does not make the status of the third reply 200. -/
def DigestRun.SecondComplete (h : Crypto) (x : DigestRun) (answer expected : List UInt8) : Prop :=
  ∀ text, Passes x.second text → x.memory 6 = true →
    ∃ rspauth, (x.challenge h 1 text).rspauth = some rspauth ∧
      (rspauth.take 32 = expected → ∀ reply, x.third = some reply →
        atoi (DigestRun.buffer h answer reply) = 200 → atoi reply = 200)

/-- The first reply has each directive that is read, as far as the memory lasts, and the second one
is complete. -/
def DigestRun.Complete (h : Crypto) (conf : DigestConf) (x : DigestRun) : Prop :=
  ∀ text, Passes x.first text → x.memory 0 = true → x.memory 1 = true →
    ∃ realm, (x.challenge h 0 text).realm = some realm ∧ (x.memory 2 = true →
      ∃ nonce, (x.challenge h 0 text).nonce = some nonce ∧ (x.memory 3 = true →
        ∃ qop, (x.challenge h 0 text).qop = some qop ∧ (x.memory 4 = true →
          ∃ charset, (x.challenge h 0 text).charset = some charset ∧ (x.memory 5 = true →
            x.SecondComplete h (digestAnswer h conf realm nonce qop charset)
              (challengeResponse h conf realm nonce qop [])))))

theorem sound_answered {text realm nonce qop : List UInt8} (hfirst : x.first = some text)
    (hrealm : (x.challenge h 0 text).realm = some realm)
    (hnonce : (x.challenge h 0 text).nonce = some nonce)
    (hqop : (x.challenge h 0 text).qop = some qop) :
    DigestEnd.Sound (x.answered h answer (challengeResponse h conf realm nonce qop []))
        (x.Proved h conf) ↔
      x.SecondComplete h answer (challengeResponse h conf realm nonce qop []) := by
  unfold DigestRun.answered DigestRun.SecondComplete
  rw [sound_check]
  refine forall_congr' fun text' => forall_congr' fun hpasses => ?_
  rw [sound_alloc, sound_directive]
  refine forall_congr' fun _ => exists_congr fun rspauth => and_congr_right fun hrspauth => ?_
  rw [sound_verify, sound_finish]
  unfold challengeResponse
  rw [memcmp_md5]
  refine forall_congr' fun hsame => forall_congr' fun reply => forall_congr' fun hthird => ?_
  refine forall_congr' fun _ => ?_
  constructor
  · rintro ⟨_, _, _, _, _, _, reply', -, -, -, -, -, -, -, hthird', hstatus⟩
    rw [hthird, Option.some_inj] at hthird'
    rw [hthird']
    exact hstatus
  · intro hstatus
    exact ⟨text, realm, nonce, qop, text', rspauth, reply, hfirst, hrealm, hnonce, hqop, hpasses.1,
      hrspauth, hsame, hthird, hstatus⟩

end Sound

/-- `AuthDIGEST_MD5` returns a status, which is success only if the server has proved that it knows
the password, just if the replies are complete. -/
theorem digestMd5_sound_iff (h : Crypto) (conf : DigestConf) (x : DigestRun) :
    (∃ status brokers, x.authDigestMd5 h conf = some (status, brokers) ∧
      (status = .success → x.Proved h conf)) ↔ x.Complete h conf := by
  show DigestEnd.Sound (x.authDigestMd5 h conf) (x.Proved h conf) ↔ _
  unfold DigestRun.authDigestMd5 DigestRun.Complete
  rw [sound_check]
  refine forall_congr' fun text => forall_congr' fun hpasses => ?_
  rw [sound_alloc, sound_alloc, sound_directive]
  refine forall_congr' fun _ => forall_congr' fun _ => exists_congr fun realm =>
    and_congr_right fun hrealm => ?_
  rw [sound_alloc, sound_directive]
  refine forall_congr' fun _ => exists_congr fun nonce => and_congr_right fun hnonce => ?_
  rw [sound_alloc, sound_directive]
  refine forall_congr' fun _ => exists_congr fun qop => and_congr_right fun hqop => ?_
  rw [sound_alloc, sound_directive]
  refine forall_congr' fun _ => exists_congr fun charset => and_congr_right fun _ => ?_
  rw [sound_alloc]
  refine forall_congr' fun _ => ?_
  exact sound_answered hpasses.1 hrealm hnonce hqop

theorem missing_realm_read :
    let h : Crypto := ⟨fun _ => List.Vector.replicate 16 0, fun text => text, fun text => text⟩
    let x : DigestRun := ⟨fun _ => true, some (ascii "charset=utf-8"), none, none, fun _ => [],
      fun _ => ⟨none, none⟩, ⟨0, []⟩⟩
    x.authDigestMd5 h ⟨ascii "user", ascii "secret", ascii "broker", ascii "2.0.0", 1⟩ = none := by
  decide +kernel

end Maiccu.Gogoc.Auth
