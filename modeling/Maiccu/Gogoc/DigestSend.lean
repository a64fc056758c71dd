import Maiccu.Gogoc.DigestMd5
import Maiccu.Gogoc.Validation
import Maiccu.Lib.CBuffer

/-!
# Sending the digest response

`AuthDIGEST_MD5` escapes the user id in an array, prints the response to the heap, encodes it to
`Buffer`, and hands it to `NetTCPPrintf` or `NetRUDPPrintf`, which print it once more.
-/

namespace Maiccu.Gogoc.Auth

open Maiccu.Lib List
open Maiccu.Gogoc.Config (validateServer length_showNat_le)

def validateText (n : ℕ) (s : List UInt8) : Bool :=
  s = [] || (s.length ≤ n && s.all fun c => 32 ≤ c && c ≤ 126)

def validateUserID : List UInt8 → Bool := validateText 253

def validatePasswd : List UInt8 → Bool := validateText 128

/-- The texts are accepted, and the time has 64 bits. -/
structure DigestConf.Valid (conf : DigestConf) : Prop where
  userid : validateUserID conf.userid = true
  passwd : validatePasswd conf.passwd = true
  server : validateServer conf.server = true
  cnonce : conf.cnonce < 2 ^ 64

/-- The loop that makes `escapeUserid`, with the index in the array. At the end of the array it ends
too, and the zero is then stored behind the array. -/
def escapeLoop (i : ℕ) : List UInt8 → Except Fault ℕ
  | [] => if i < 512 then .ok i else .error .overflow
  | c :: cs =>
    if 512 ≤ i then .error .overflow
    else if c = 34 ∨ c = 92 then
      if i = 511 then .error .overflow else escapeLoop (i + 2) cs
    else escapeLoop (i + 1) cs

/-- `basis_64`. -/
def basis64 (k : UInt8) : UInt8 :=
  (ascii "ABCDEFGHIJKLMNOPQRSTUVWXYZabcdefghijklmnopqrstuvwxyz0123456789+/").getD k.toNat 0

def base64encode : List UInt8 → List UInt8
  | [] => []
  | [a] => [basis64 (a >>> 2), basis64 ((a &&& 3) <<< 4), 61, 61]
  | [a, b] =>
    [basis64 (a >>> 2), basis64 ((a &&& 3) <<< 4 ||| b >>> 4), basis64 ((b &&& 15) <<< 2), 61]
  | a :: b :: c :: s =>
    basis64 (a >>> 2) :: basis64 ((a &&& 3) <<< 4 ||| b >>> 4) ::
      basis64 ((b &&& 15) <<< 2 ||| c >>> 6) :: basis64 (c &&& 63) :: base64encode s

/-- The format `"%s\r\n"` in `Data`. -/
def netPrintf (buffer : List UInt8) : List UInt8 := snprintf 1024 (buffer ++ [13, 10])

def netTCPPrintf : List UInt8 → List UInt8 := netPrintf

def netRUDPPrintf : List UInt8 → List UInt8 := netPrintf

/-- The response `answer` on its way, for the user id `userid`. -/
def sendAnswer (netprintf : List UInt8 → List UInt8) (userid answer : List UInt8) :
    Except Fault (List UInt8) :=
  (escapeLoop 0 userid).bind fun _ => (strcpy 4096 (base64encode answer)).map netprintf

/-- The response is not cut in the string of the size `len`, and all of it is sent. -/
def SentWhole (h : Crypto) (conf : DigestConf) (realm nonce qop charset : List UInt8)
    (netprintf : List UInt8 → List UInt8) : Prop :=
  let answer := digestAnswer h conf realm nonce qop charset
  let len := 112 + charset.length + (escapeUserid conf.userid).length + realm.length +
    nonce.length + 16 + conf.server.length + 32
  answer.length + 1 < len ∧
    sendAnswer netprintf conf.userid answer = .ok (base64encode answer ++ [13, 10])

theorem escapeUserid_cons (c : UInt8) (s : List UInt8) : (escapeUserid (c :: s)).length =
    (if c = 34 ∨ c = 92 then 2 else 1) + (escapeUserid s).length := by
  show ((if c = 34 ∨ c = 92 then [92, c] else [c]) ++ escapeUserid s).length = _
  rw [length_append]
  split_ifs <;> rfl

theorem escapeLoop_eq {s : List UInt8} {i : ℕ} (hi : i + (escapeUserid s).length < 512) :
    escapeLoop i s = .ok (i + (escapeUserid s).length) := by
  induction s generalizing i with
  | nil => exact if_pos hi
  | cons c s ih =>
    rw [escapeUserid_cons] at hi ⊢
    rw [escapeLoop, if_neg (by omega)]
    split_ifs at hi ⊢ with hc hlast
    · omega
    · rw [ih (by omega), Nat.add_assoc]
    · rw [ih (by omega), Nat.add_assoc]

theorem length_escapeUserid_le (s : List UInt8) : (escapeUserid s).length ≤ 2 * s.length := by
  induction s with
  | nil => rfl
  | cons c s ih =>
    rw [escapeUserid_cons, length_cons]
    split_ifs
    · omega
    · omega

theorem DigestConf.Valid.userid_lt {conf : DigestConf} (hvalid : conf.Valid) :
    (escapeUserid conf.userid).length < 512 := by
  have hlength := length_escapeUserid_le conf.userid
  have hu := hvalid.userid
  simp only [validateUserID, validateText, Bool.or_eq_true, Bool.and_eq_true,
    decide_eq_true_eq] at hu
  rcases hu with hnil | ⟨hle, -⟩
  · rw [hnil]
    decide
  · omega

theorem length_base64encode (s : List UInt8) :
    (base64encode s).length = (s.length + 2) / 3 * 4 := by
  induction s using base64encode.induct with
  | case1 => rfl
  | case2 | case3 => simp [base64encode]
  | case4 a b c s ih =>
    simp only [base64encode, length_cons, ih]
    omega

theorem sendAnswer_iff {userid answer : List UInt8} (huserid : (escapeUserid userid).length < 512) :
    sendAnswer netPrintf userid answer = .ok (base64encode answer ++ [13, 10]) ↔
      answer.length ≤ 765 := by
  have hlength := length_base64encode answer
  unfold sendAnswer
  rw [escapeLoop_eq (by omega)]
  show Except.map netPrintf (strcpy 4096 (base64encode answer)) = _ ↔ _
  constructor
  · intro hsent
    by_contra hlong
    rcases Nat.lt_or_ge (base64encode answer).length 4096 with hfits | hfits
    · rw [strcpy_of_lt hfits] at hsent
      have hcut := congrArg length (Except.ok.inj hsent)
      rw [netPrintf, snprintf, length_take, length_append] at hcut
      change min _ (_ + 2) = _ + 2 at hcut
      omega
    · rw [strcpy_of_le hfits] at hsent
      cases hsent
  · intro hshort
    rw [strcpy_of_lt (by omega)]
    refine congrArg Except.ok (snprintf_of_lt ?_)
    rw [length_append]
    show _ + 2 < 1024
    omega

/-- The limit is that of `Data`: no other buffer is too small before. -/
theorem digest_sent_iff (h : Crypto) (conf : DigestConf) (realm nonce qop charset : List UInt8)
    (hvalid : conf.Valid) :
    (SentWhole h conf realm nonce qop charset netTCPPrintf ∧
      SentWhole h conf realm nonce qop charset netRUDPPrintf) ↔
      charset.length + (escapeUserid conf.userid).length + realm.length + nonce.length +
        (showInt conf.cnonce).length + conf.server.length ≤ 636 := by
  have hcnonce : (showInt conf.cnonce).length ≤ 20 := length_showNat_le (by omega)
    (hvalid.cnonce.trans (by decide))
  have hlength : (digestAnswer h conf realm nonce qop charset).length =
      charset.length + (escapeUserid conf.userid).length + realm.length + nonce.length +
        (showInt conf.cnonce).length + conf.server.length + 129 := by
    unfold digestAnswer challengeResponse
    rw [snprintf_of_lt] <;> simp only [length_append, length_md5] <;> simp [ascii] <;> omega
  show (SentWhole h conf realm nonce qop charset netPrintf ∧
    SentWhole h conf realm nonce qop charset netPrintf) ↔ _
  rw [and_self_iff]
  refine (and_iff_right (by omega)).trans ((sendAnswer_iff hvalid.userid_lt).trans ?_)
  omega

def hostConf : DigestConf := ⟨ascii "user", ascii "secret", ascii "broker", ascii "2.0.0", 1⟩

theorem hostConf_valid : hostConf.Valid := ⟨by decide, by decide, by decide, by decide⟩

def zeroDigest : Crypto := ⟨fun _ => List.Vector.replicate 16 0, fun s => s, base64encode⟩

theorem digest_sent_short :
    SentWhole zeroDigest hostConf (ascii "r") (ascii "n") (ascii "auth") (ascii "utf-8")
      netTCPPrintf :=
  ((digest_sent_iff zeroDigest hostConf _ _ _ _ hostConf_valid).mpr (by decide +kernel)).1

/-- A nonce of 700 characters. -/
theorem long_nonce_cut :
    let nonce := replicate 700 97
    let challenge := ascii "realm=r,qop=auth,charset=utf-8,nonce=" ++ nonce
    let c := extractChallenge (challenge ++ [0])
    hostConf.Valid ∧ (base64encode challenge).length < 4096 ∧
    (c.realm, c.nonce, c.qop, c.charset) =
      (some (ascii "r"), some nonce, some (ascii "auth"), some (ascii "utf-8")) ∧
    ¬SentWhole zeroDigest hostConf (ascii "r") nonce (ascii "auth") (ascii "utf-8")
      netTCPPrintf := by
  refine ⟨hostConf_valid, by decide +kernel, by decide +kernel, fun hsent => ?_⟩
  exact absurd hsent.2 (by decide +kernel)

end Maiccu.Gogoc.Auth
