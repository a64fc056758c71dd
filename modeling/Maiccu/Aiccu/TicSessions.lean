import Maiccu.Aiccu.GetlineSafety
import Maiccu.Aiccu.TicLogin

/-!
# Sessions that share a buffer

`tic_buf` and `tic_filled` are globals. A `tic_Login` connects anew, but neither it nor the logout
empties the buffer (`sock_getline` would, for a socket whose descriptor is `-1`, but no caller ever
has one), so a line may begin with bytes of an earlier connection.
-/

namespace Maiccu.Tic

open Maiccu.Lib Option List

/-! ## Sessions -/

inductive Action where
  | getline
  | printf (c : Command)
  deriving DecidableEq, Repr

def TicConf.act (t : TicConf) : Action → Option TicConf
  | .getline => match t.getline with
    | (.fault, _) => none
    | (_, t') => some t'
  | .printf c => some (t.printf c)

def TicConf.acts : TicConf → List Action → Option TicConf
  | t, [] => some t
  | t, a :: as => (t.act a).bind fun t' => t'.acts as

/-- The login, what the caller does after it, and the logout, which some of the failing paths leave
out. -/
structure Session where
  env : LoginEnv
  conn : Option (List RecvEvent)
  actions : List Action
  quit : Option QuitMsg

def Session.bytes (s : Session) : List UInt8 := stream (s.conn.getD [])

def Session.run (s : Session) (t : TicConf) : Option TicConf :=
  (ticLogin s.env s.conn { t with sent := [], replies := [] }).bind fun r =>
    (r.2.acts s.actions).map fun t =>
      match s.quit with
      | some msg => ticLogout t msg
      | none => t

def Outcome.text : Outcome → List UInt8
  | .line _ text => text
  | _ => []

def TicConf.texts (t : TicConf) : List UInt8 := (t.replies.map Outcome.text).flatten

/-- The texts of the lines so far, what is in the buffer and what is to come are in this order bytes
of `total`, each used at most once. After a `recv` that failed the fill count is lost. -/
structure Own (total : List UInt8) (t : TicConf) : Prop where
  length : t.buf.rbuf.length = 2048
  texts : t.texts.Sublist total
  open_ : ∀ evs, t.sock = some (.conn evs) →
    (t.buf.Ok ∧ (t.texts ++ (t.buf.content ++ stream evs)).Sublist total) ∨ t.buf.filled = word - 1
  notClosed : t.sock ≠ some .closed

/-- The session up to one of its actions. -/
def Session.upTo (s : Session) (n : ℕ) : Session :=
  { s with actions := s.actions.take n, quit := none }

/-- Every line of every session is made of bytes of that session's connection, at its end and after
each of its actions. -/
def OwnBytes : List Session → TicConf → Prop
  | [], _ => True
  | s :: ss, t => (∀ n t', (s.upTo n).run t = some t' → Own s.bytes t') ∧
    ∀ t', s.run t = some t' → t'.texts.Sublist s.bytes ∧ OwnBytes ss t'

/-- The buffer is empty whenever a login connects. -/
def EmptyAtLogin : List Session → TicConf → Prop
  | [], _ => True
  | s :: ss, t => (s.conn ≠ none → t.buf.filled = 0) ∧ ∀ t', s.run t = some t' → EmptyAtLogin ss t'

/-! ## One call -/

theorem stripCr_sublist (l : List UInt8) : (stripCr l).Sublist l := by
  unfold stripCr
  split_ifs
  · exact dropLast_sublist l
  · exact List.Sublist.refl l

theorem lineOutcome_text {ulen : ℕ} {l : List UInt8} : (lineOutcome ulen l).text.Sublist l := by
  unfold lineOutcome
  split_ifs
  · exact nil_sublist l
  · exact nil_sublist l
  · exact stripCr_sublist l

variable {ulen rcap : ℕ} {total c d : List UInt8} {t : TicConf}

theorem line_sublist (hc : lf ∈ c) (hd : some (afterLine c) = some d) (bs : List UInt8) :
    ((lineOutcome ulen (firstLine c)).text ++ (d ++ bs)).Sublist (c ++ bs) := by
  obtain ⟨l, r, rfl, hl⟩ := eq_append_cons_of_mem hc
  rw [afterLine_append hl] at hd
  cases hd
  rw [firstLine_append hl, append_assoc, cons_append]
  exact lineOutcome_text.append ((List.Sublist.refl _).cons lf)

variable {evs : List RecvEvent}

theorem readLine_sublist (hd : (readLine rcap ulen evs c).2.1 = some d) :
    ((readLine rcap ulen evs c).1.text ++ (d ++ stream (readLine rcap ulen evs c).2.2)).Sublist
      (c ++ stream evs) := by
  fun_induction readLine rcap ulen evs c with
  | case1 c hc | case3 evs c hc | case7 bs evs c hc => exact line_sublist hc hd _
  | case2 | case8 =>
    cases hd
    exact List.Sublist.refl _
  | case4 => cases hd
  | case5 evs c =>
    cases hd
    exact (dropLast_sublist c).append (List.Sublist.refl _)
  | case6 evs c _ _ _ ih =>
    exact (ih hd).trans ((dropLast_sublist c).append (List.Sublist.refl _))
  | case9 bs evs c =>
    cases hd
    have heq : c ++ bs.take (rcap - c.length) ++ stream (unread (rcap - c.length) bs ++ evs) =
        c ++ stream (.data bs :: evs) := by
      rw [stream_unread, stream_data, append_assoc, ← append_assoc (bs.take _), take_append_drop]
    rw [heq]
    exact List.Sublist.refl _
  | case10 bs evs c _ _ _ ih =>
    have hsub := ih hd
    rwa [append_assoc, ← stream_data] at hsub

theorem readLine_none_text
    (h : (readLine rcap ulen evs c).2.1 = none) : (readLine rcap ulen evs c).1.text = [] := by
  fun_induction readLine rcap ulen evs c with
  | case1 | case2 | case3 | case5 | case7 | case8 | case9 => cases h
  | case4 => rfl
  | case6 _ _ _ _ _ ih | case10 _ _ _ _ _ _ ih => exact ih h

/-! ## One session -/

theorem texts_append (rs : List Outcome) (o : Outcome) :
    ((rs ++ [o]).map Outcome.text).flatten = (rs.map Outcome.text).flatten ++ o.text := by
  simp

theorem Own.getline (h : Own total t) (hne : t.getline.1 ≠ .fault) : Own total t.getline.2 := by
  have hsame {o : Outcome} (ho : o.text = []) :
      ((t.replies ++ [o]).map Outcome.text).flatten.Sublist total := by
    rw [texts_append, ho, append_nil]
    exact h.texts
  cases hs : t.sock with
  | none =>
    rw [TicConf.getline, hs]
    exact ⟨h.length, hsame rfl, nofun, nofun⟩
  | some sk =>
    cases sk with
    | closed => exact absurd hs h.notClosed
    | conn evs =>
      rw [TicConf.getline, hs] at hne ⊢
      rcases h.open_ evs hs with ⟨hok, hsub⟩ | hlost
      · obtain ⟨hout, hrest⟩ := getlineLoop_refines (show 10 ≤ bufLen by decide)
          (by rw [word_eq]; decide) hok
        obtain ⟨hevs, hsim⟩ := hrest hne
        cases ha : (readLine (t.buf.rbuf.length - 10) bufLen evs t.buf.content).2.1 with
        | some d =>
          rw [ha] at hsim
          obtain ⟨hok', hd, hlen⟩ := hsim
          have hstep : (t.texts ++ (getlineLoop bufLen evs t.buf).1.text ++
              ((getlineLoop bufLen evs t.buf).2.1.content ++
                stream (getlineLoop bufLen evs t.buf).2.2)).Sublist total := by
            rw [hout, hevs, hd, append_assoc]
            exact ((List.Sublist.refl _).append (readLine_sublist ha)).trans hsub
          rw [TicConf.texts, ← texts_append] at hstep
          refine ⟨hlen.trans h.length, (sublist_append_left _ _).trans hstep, ?_, nofun⟩
          rintro _ ⟨⟩
          exact .inl ⟨hok', hstep⟩
        | none =>
          rw [ha] at hsim
          obtain ⟨hfill, hlen⟩ := hsim
          -- only a failed `recv` loses the fill count, so there is no text
          have htext : (getlineLoop bufLen evs t.buf).1.text = [] := by
            rw [hout]
            exact readLine_none_text ha
          exact ⟨hlen.trans h.length, hsame htext, fun _ _ => .inr hfill, nofun⟩
      · have hsmall : t.buf.rbuf.length + 1 < word := by rw [h.length, word_eq]; decide
        exact absurd (getlineLoop_lost hlost hsmall bufLen evs) hne

theorem Own.printf (c : Command) (h : Own total t) : Own total (t.printf c) := by
  unfold TicConf.printf
  split
  · exact ⟨h.length, h.texts, h.open_, h.notClosed⟩
  · exact h

theorem Own.logout {msg : QuitMsg} (h : Own total t) : Own total (ticLogout t msg) := by
  unfold ticLogout
  split
  · exact h
  · have hp := h.printf (.quit msg)
    exact ⟨hp.length, hp.texts, nofun, by simp⟩

theorem Own.acts {as : List Action} {t' : TicConf} (h : Own total t) (hrun : t.acts as = some t') :
    Own total t' := by
  induction as generalizing t with
  | nil =>
    cases hrun
    exact h
  | cons a as ih =>
    obtain ⟨t₁, hact, hrest⟩ := bind_eq_some_iff.mp hrun
    apply ih ?_ hrest
    cases a with
    | printf c =>
      cases hact
      exact h.printf c
    | getline =>
      have hget := h.getline
      rw [TicConf.act] at hact
      rcases hg : t.getline with ⟨o, t₂⟩
      rw [hg] at hact hget
      cases o with
      | fault => cases hact
      | line n text | fail =>
        cases hact
        exact hget (by simp)

theorem Own.run {s : Session} {t' : TicConf} (hlen : t.buf.rbuf.length = 2048)
    (hempty : s.conn ≠ none → t.buf.filled = 0) (hrun : s.run t = some t') : Own s.bytes t' := by
  obtain ⟨r, hlogin, hrest⟩ := bind_eq_some_iff.mp hrun
  obtain ⟨t₁, hacts, hquit⟩ := map_eq_some_iff.mp hrest
  have hstart : Own s.bytes { t with sock := s.conn.map .conn, sent := [], replies := [] } := by
    refine ⟨hlen, nil_sublist _, fun evs he => Or.inl ?_, ?_⟩
    · obtain ⟨evs', hconn, he'⟩ := map_eq_some_iff.mp he
      cases he'
      have h0 : t.buf.filled = 0 := hempty (by simp [hconn])
      have hcont : t.buf.content = [] := by unfold RecvBuf.content; rw [h0]; rfl
      refine ⟨⟨by simp only [h0, hlen]; decide, by simp only [hlen, word_eq]; decide⟩, ?_⟩
      show (([] : List UInt8) ++ (t.buf.content ++ stream evs)).Sublist s.bytes
      rw [hcont, Session.bytes, hconn]
      exact List.Sublist.refl _
    · cases s.conn <;> simp
  have hlog : Own s.bytes r.2 := ticLogin_keeps (fun t h hne => h.getline hne) hstart
    (fun t c h => h.printf c) (fun t m h => h.logout) r hlogin
  have hact : Own s.bytes t₁ := hlog.acts hacts
  rw [← hquit]
  cases s.quit with
  | none => exact hact
  | some msg => exact hact.logout

/-! ## All sessions -/

theorem ownBytes_of_emptyAtLogin {ss : List Session} (hlen : t.buf.rbuf.length = 2048)
    (h : EmptyAtLogin ss t) : OwnBytes ss t := by
  induction ss generalizing t with
  | nil => trivial
  | cons s ss ih =>
    obtain ⟨hempty, hnext⟩ := h
    refine ⟨fun n t' hrun => Own.run (s := s.upTo n) hlen hempty hrun, fun t' hrun => ?_⟩
    have hown := Own.run hlen hempty hrun
    exact ⟨hown.texts, ih hown.length (hnext t' hrun)⟩

/-- **Sessions.** If the buffer is empty whenever a login connects, each line of each session is
made of bytes of that session's connection. -/
theorem sessions_own_bytes (ss : List Session) (h : EmptyAtLogin ss ⟨none, ticBuf, [], []⟩) :
    OwnBytes ss ⟨none, ticBuf, [], []⟩ :=
  ownBytes_of_emptyAtLogin ticBuf_length h

def oneChunk (bs : List UInt8) : Session :=
  ⟨⟨0, [], [], [], [], fun _ => []⟩, some [.data bs], [], some .bye⟩

theorem sessions_own_bytes_two : OwnBytes [oneChunk [52, 48, 48, lf], oneChunk [52, 48, 49, lf]]
    ⟨none, ticBuf, [], []⟩ := by
  have hrun : ((oneChunk [52, 48, 48, lf]).run ⟨none, ticBuf, [], []⟩).map (·.buf.filled) =
      some 0 := by decide +kernel
  refine sessions_own_bytes _ ⟨fun _ => rfl, fun t' ht => ⟨fun _ => ?_, fun _ _ => trivial⟩⟩
  rw [ht] at hrun
  exact some.inj hrun

/-- The server refuses the first login and sends an `X` after its reply; the first line of the
second session is `X200`. -/
theorem session_reads_old_byte : ((oneChunk [52, 48, 48, lf, 88]).run ⟨none, ticBuf, [], []⟩ >>=
        (oneChunk [50, 48, 48, lf]).run).map (·.replies) = some [.line 5 [88, 50, 48, 48]] ∧
      ¬ OwnBytes [oneChunk [52, 48, 48, lf, 88], oneChunk [50, 48, 48, lf]]
        ⟨none, ticBuf, [], []⟩ := by
  have hrun : ((oneChunk [52, 48, 48, lf, 88]).run ⟨none, ticBuf, [], []⟩ >>=
      (oneChunk [50, 48, 48, lf]).run).map (·.replies) = some [.line 5 [88, 50, 48, 48]] := by
    decide +kernel
  refine ⟨hrun, fun h => ?_⟩
  obtain ⟨t₂, hbind, hreplies⟩ := map_eq_some_iff.mp hrun
  obtain ⟨t₁, h₁, h₂⟩ := bind_eq_some_iff.mp hbind
  have hsub := ((h.2 t₁ h₁).2.2 t₂ h₂).1
  rw [TicConf.texts, hreplies] at hsub
  exact nomatch hsub.subset (by simp [Outcome.text] : (88 : UInt8) ∈ _)

end Maiccu.Tic
