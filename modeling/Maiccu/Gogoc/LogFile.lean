import Mathlib.Data.Int.Notation
import Mathlib.Tactic.SplitIfs

/-!
# The handle of the log file

`Logfp` of `log.c`. `RotateLogFile` closes the stream before it saves the file, and `LogConfigure`
closes it if there is to be no log file; in both the handle may keep its value. What the system
calls return comes from outside.
-/

namespace Maiccu.Gogoc.LogFile

inductive Handle where
  | null
  | opened
  | closed
  deriving DecidableEq

inductive Fault where
  /-- The handle or the configuration is used while it is null. -/
  | nullUse
  /-- A closed stream is written or closed. -/
  | closedUse

/-- `fprintf`, `fflush`, `ftell` or `fclose`. -/
def Handle.use : Handle → Except Fault Handle
  | .null => .error .nullUse
  | .opened => .ok .opened
  | .closed => .error .closedUse

/-- The part of `tLogConfiguration` for the file. -/
structure Conf where
  levelFile : ℤ
  filename : Option (List UInt8)
  rotation : Bool
  deleteRotated : Bool
  buffer : Bool

/-- What `RotateLogFile` meets. -/
inductive Rotation where
  /-- `fflush` or `ftell` fails, or there is room for the line. -/
  | notDue
  /-- Whether there is a name for the backup, the copy succeeds, and the file is opened again. -/
  | due (named copied opens : Bool)

variable (conf : Option Conf)

/-- `filename` comes from the caller, and `conf` is the configuration in force. -/
def rotateLogFile (filename : Option (List UInt8)) (r : Rotation)
    (h : Handle) : Except Fault Handle :=
  if h = .null ∨ filename = none then .ok h
  else h.use.bind fun h =>
    match r, conf with
    | .notDue, _ => .ok h
    | .due _ _ _, none => .error .nullUse
    | .due named copied opens, some g =>
      if ¬g.deleteRotated ∧ ¬(named ∧ copied) then .ok .closed
      else .ok (if opens then .opened else .null)

/-- The end of `LogToFile` and of `LogBufferLineToFile`. -/
def writeLine (c : Conf) (r : Rotation) (h : Handle) :
    Except Fault Handle :=
  (if c.rotation then rotateLogFile conf c.filename r h else .ok h).bind Handle.use

/-- `told`: the message was written to `stderr`, and the time can be read. -/
def directErrorMessage (told : Bool) (h : Handle) : Except Fault Handle :=
  if ¬told ∨ h = .null then .ok h else h.use

/-- A call of `LogConfigure` is `logConfigure`, then the lines of the buffer and `configured` if
there is a configuration and its file, if it has one, can be opened. -/
inductive Step where
  /-- `clock` says whether the time can be read. -/
  | display (level : ℤ) (clock : Bool) (r : Rotation)
  | directErrorMessage (told : Bool)
  | logConfigure (c : Option Conf) (opens told : Bool)
  | logBufferLineToFile (c : Conf) (r : Rotation)
  | configured (c : Conf)
  | logClose

structure Log where
  logfp : Handle
  conf : Option Conf

def Log.step (s : Log) : Step → Except Fault Log
  | .display level clock r =>
    match s.conf with
    | none => .ok s
    | some c =>
      if s.logfp = .null ∨ ¬level ≤ c.levelFile ∨ ¬clock ∨ c.buffer then .ok s
      else (writeLine s.conf c r s.logfp).map (⟨·, s.conf⟩)
  | .directErrorMessage told => (LogFile.directErrorMessage told s.logfp).map (⟨·, s.conf⟩)
  | .logConfigure none _ told => (LogFile.directErrorMessage told s.logfp).map (⟨·, none⟩)
  | .logConfigure (some c) opens _ =>
    if 0 < c.levelFile then
      if c.filename = none ∨ s.logfp ≠ .null ∧ s.conf.bind Conf.filename = c.filename then .ok s
      else (if s.logfp = .null then .ok .null else s.logfp.use).map fun _ =>
        if opens then ⟨.opened, s.conf⟩ else ⟨.null, none⟩
    else if s.logfp = .null then .ok s
    else s.logfp.use.map fun _ => ⟨.closed, s.conf⟩
  | .logBufferLineToFile c r =>
    if c.filename = none ∨ s.logfp = .null then .ok s
    else (writeLine s.conf c r s.logfp).map (⟨·, s.conf⟩)
  | .configured c => .ok { s with conf := some c }
  | .logClose => (if s.logfp = .null then .ok .null else s.logfp.use).map fun _ => ⟨.null, none⟩

/-- A closed stream is used, or left in the handle. -/
def Broken : Except Fault Log → Prop
  | .ok s => s.logfp = .closed
  | .error e => e = .closedUse

/-- The stream is closed, and the file cannot be saved under another name. -/
def Rotation.Drops (c : Conf) : Rotation → Prop
  | .notDue => False
  | .due named copied _ =>
    c.rotation ∧ c.filename ≠ none ∧ (∃ g ∈ conf, ¬g.deleteRotated) ∧ ¬(named ∧ copied)

/-- The stream is closed, and the handle stays as it is. -/
def Log.Leaves (s : Log) : Step → Prop
  | .display level clock r => s.logfp = .opened ∧
      ∃ c ∈ s.conf, level ≤ c.levelFile ∧ clock ∧ ¬c.buffer ∧ r.Drops s.conf c
  | .logConfigure (some c) _ _ => ¬0 < c.levelFile ∧ s.logfp = .opened
  | .logBufferLineToFile c r => s.logfp = .opened ∧ r.Drops s.conf c
  | _ => False

/-- `p` holds of each step, up to a fault. -/
def Log.Along (p : Log → Step → Prop) : Log → List Step → Prop
  | _, [] => True
  | s, x :: xs => p s x ∧ ∀ s', s.step x = .ok s' → s'.Along p xs

variable {conf' : Option Conf} {conf} {c : Conf} {r : Rotation} {s : Log}

theorem broken_writeLine_iff :
    Broken ((writeLine conf c r .opened).map (⟨·, conf'⟩)) ↔ r.Drops conf c := by
  unfold writeLine rotateLogFile Rotation.Drops
  cases c.rotation <;> cases c.filename <;> cases r <;> cases conf <;>
    simp [Handle.use, Broken, Except.bind, Except.map]
  -- a rotation is due
  split_ifs with hdrop
  · exact iff_of_true rfl hdrop
  · exact iff_of_false (by simp) hdrop
  · exact iff_of_false (by simp) hdrop

theorem not_broken_message (hs : s.logfp ≠ .closed) {told : Bool} :
    ¬Broken ((directErrorMessage told s.logfp).map (⟨·, conf⟩)) := by
  unfold directErrorMessage
  cases h : s.logfp with
  | closed => exact absurd h hs
  | null => simp [Broken, Except.map]
  | opened => cases told <;> simp [Broken, Except.map, Handle.use]

theorem broken_write_iff (hs : s.logfp ≠ .closed) (hnull : s.logfp ≠ .null) :
    Broken ((writeLine s.conf c r s.logfp).map (⟨·, s.conf⟩)) ↔
      s.logfp = .opened ∧ r.Drops s.conf c := by
  cases h : s.logfp with
  | closed => exact absurd h hs
  | null => exact absurd h hnull
  | opened => exact broken_writeLine_iff.trans (and_iff_right rfl).symm

theorem broken_step_iff (hs : s.logfp ≠ .closed) (x : Step) : Broken (s.step x) ↔ s.Leaves x := by
  cases x with
  | display level clock r =>
    unfold Log.step Log.Leaves
    cases hc : s.conf with
    | none => exact iff_of_false hs (by simp)
    | some c =>
      dsimp only
      split_ifs with hkept
      · refine iff_of_false hs ?_
        rintro ⟨hopened, c', ⟨⟩, hlevel, hclock, hbuffer, -⟩
        simp_all
      · rw [← hc, broken_write_iff hs fun h => hkept (.inl h)]
        simp_all
  | directErrorMessage told => exact iff_of_false (not_broken_message hs) id
  | logConfigure c opens told =>
    cases c with
    | none => exact iff_of_false (not_broken_message hs) id
    | some c =>
      unfold Log.step Log.Leaves
      dsimp only
      by_cases hlevel : 0 < c.levelFile
      · refine iff_of_false ?_ fun h => h.1 hlevel
        rw [if_pos hlevel]
        by_cases hkept : c.filename = none ∨
            s.logfp ≠ .null ∧ s.conf.bind Conf.filename = c.filename
        · rw [if_pos hkept]
          exact hs
        · cases h : s.logfp <;> cases opens <;> simp_all [Broken, Except.map, Handle.use]
      · rw [if_neg hlevel, and_iff_right hlevel]
        cases h : s.logfp <;> simp_all [Broken, Except.map, Handle.use]
  | logBufferLineToFile c r =>
    unfold Log.step Log.Leaves
    dsimp only
    split_ifs with hkept
    · refine iff_of_false hs ?_
      rintro ⟨hopened, hdrops⟩
      cases r <;> simp_all [Rotation.Drops]
    · exact broken_write_iff hs fun h => hkept (.inr h)
  | configured c => exact iff_of_false hs id
  | logClose =>
    refine iff_of_false ?_ id
    unfold Log.step
    cases h : s.logfp with
    | closed => exact absurd h hs
    | null | opened => exact nofun

def Sound (xs : List Step) : Prop :=
  Log.Along (fun s x => ¬Broken (s.step x)) ⟨.null, none⟩ xs

theorem along_iff (hs : s.logfp ≠ .closed) (xs : List Step) :
    s.Along (fun s x => ¬Broken (s.step x)) xs ↔ s.Along (fun s x => ¬s.Leaves x) xs := by
  induction xs generalizing s with
  | nil => exact Iff.rfl
  | cons x xs ih =>
    rw [Log.Along, Log.Along, ← broken_step_iff hs]
    refine and_congr_right fun hx => forall_congr' fun s' => imp_congr_right fun hstep => ih ?_
    rw [hstep] at hx
    exact hx

/-- **The handle.** For all steps and all that the system does: the handle is null or an open
stream, and no closed stream is used, if and only if no step leaves a stream that it has closed. -/
theorem log_handle_sound_iff (xs : List Step) :
    Sound xs ↔ Log.Along (fun s x => ¬s.Leaves x) ⟨.null, none⟩ xs :=
  along_iff (by decide) xs

/-- The time for the name of the backup cannot be read, and the line is written to the closed
stream; or the log file is switched off, and the handle stays. -/
theorem closed_log_kept :
    ¬Sound [.logConfigure (some ⟨1, some [108], true, false, false⟩) true true,
      .configured ⟨1, some [108], true, false, false⟩, .display 1 true (.due false true true)] ∧
    ¬Sound [.logConfigure (some ⟨1, some [108], true, false, false⟩) true true,
      .logConfigure (some ⟨0, none, true, false, false⟩) true true] :=
  ⟨fun h => ((h.2 _ rfl).2 _ rfl).1 rfl, fun h => (h.2 _ rfl).1 rfl⟩

end Maiccu.Gogoc.LogFile
