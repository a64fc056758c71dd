import Mathlib.Data.List.DropRight
import Maiccu.Gogoc.ServerWalk
import Maiccu.Gogoc.SourceAddr

/-!
# Falling back to older versions

A server that does not know the version of the protocol answers so, and the next attempt uses the
next older one. The flag that asks for it is set in the switch over the status and taken down in the
switch over the tunnel mode.
-/

namespace Maiccu.Gogoc

open Maiccu.Lib Option List

/-- `TSPProtoVerStr`, without the null pointer at its end. -/
def tspProtoVerStr : List (List UInt8) :=
  [ascii "2.0.2", ascii "2.0.1", ascii "2.0.0", ascii "1.0.1"]

def TunnelMode.oldestVersion : TunnelMode → ℕ
  | .v6udpv4 | .v4v6 => min versionIndexStart versionIndexOldest
  | .v6anyv4 | .v6v4 => versionIndexOldest

theorem tspProtoVerStr_pos : 0 < tspProtoVerStr.length := by decide

theorem oldestVersion_lt (mode : TunnelMode) : mode.oldestVersion < tspProtoVerStr.length := by
  cases mode <;> decide

/-- What an attempt comes to: a session with a version, and its status, or the end of the loop
before there is one. -/
inductive Tried where
  | session (version : ℕ) (status : Status)
  | left
  deriving DecidableEq

def Tried.unsupported : Tried → Bool
  | .session _ status => status = .invalTspVersion
  | .left => false

def Main.tried (s : Main) (a : Attempt) : Tried :=
  match s.chooseTransport with
  | none => .left
  | some s₁ => .session s₁.versionIndex (s₁.session a).status

def Main.TriedStep (s : Main) (t : Tried) (s' : Main) : Prop :=
  ∃ a, s.tried a = t ∧ s.step a = some s'

variable {s : Main}

/-! ## The version of an attempt -/

theorem useTransport_version {cycle oldest : ℕ} {t : Transport} :
    match s.useTransport cycle oldest t with
    | none => s.tspVersionFallback = true ∧ oldest ≤ s.versionIndex
    | some s₁ => s₁.versionIndex = (if s.tspVersionFallback then s.versionIndex + 1 else 0) ∧
        (s.tspVersionFallback = true → s.versionIndex < oldest) := by
  unfold Main.useTransport
  by_cases hfallback : s.tspVersionFallback = true
  · rw [if_pos hfallback]
    by_cases hold : s.versionIndex < oldest
    · rw [if_pos hold]
      exact ⟨(if_pos hfallback).symm, fun _ => hold⟩
    · rw [if_neg hold]
      exact ⟨hfallback, not_lt.mp hold⟩
  · rw [if_neg hfallback]
    exact ⟨(if_neg hfallback).symm, fun h => absurd h hfallback⟩

/-- The next older version is taken if the flag is set, and the newest one if not. The loop is left
just if there is no older version. -/
theorem chooseTransport_version (s : Main) :
    match s.chooseTransport with
    | none => s.tspVersionFallback = true ∧ s.conf.tunnelMode.oldestVersion ≤ s.versionIndex
    | some s₁ => s₁.versionIndex = (if s.tspVersionFallback then s.versionIndex + 1 else 0) ∧
        (s.tspVersionFallback = true → s.versionIndex < s.conf.tunnelMode.oldestVersion) := by
  unfold Main.chooseTransport
  cases s.conf.tunnelMode with
  | v6udpv4 => exact useTransport_version
  | v6anyv4 | v6v4 | v4v6 =>
    by_cases hcycle : s.cycle = 1
    · dsimp only
      rw [if_pos hcycle]
      exact useTransport_version
    · dsimp only
      rw [if_neg hcycle]
      exact useTransport_version

/-- Of the two variables only the flag is touched, and only by the answer that the version is not
supported. -/
def Main.VersionKept (s : Main) (status : Status) (s' : Main) : Prop :=
  s'.versionIndex = s.versionIndex ∧
    s'.tspVersionFallback = (if status = .invalTspVersion then true else s.tspVersionFallback)

theorem onStatus_version (s : Main) (a : Attempt) (status : Status) :
    (s.onStatus a status).All (s.VersionKept status) := by
  refine onStatus_same.imp fun s' h => ?_
  unfold Main.VersionKept
  rw [h]
  cases status with
  | failSocketConnect | authenticationFailure =>
    unfold Main.switched
    simp only [reduceCtorEq, if_false]
    split_ifs
    · exact ⟨rfl, rfl⟩
    · exact ⟨rfl, rfl⟩
  | _ => exact ⟨rfl, rfl⟩

variable {a : Attempt} {s' : Main}

theorem step_version {s₁ : Main} (hchoose : s.chooseTransport = some s₁)
    (hstep : s.step a = some s') :
    s'.versionIndex = s₁.versionIndex ∧
        (s'.tspVersionFallback = true ↔ (s₁.session a).status = .invalTspVersion) ∨
      s'.versionIndex = 0 ∧ s'.tspVersionFallback = false ∧
        (s₁.session a).status ≠ .invalTspVersion := by
  have hkept := onStatus_version (s₁.afterSession a) a (s₁.session a).status
  have hdown : (s₁.afterSession a).tspVersionFallback = false := by
    rw [(chooseTransport_eq hchoose).1]
    rfl
  have hflag : ∀ s₂, (s₁.afterSession a).VersionKept (s₁.session a).status s₂ →
      s₂.versionIndex = s₁.versionIndex ∧
        (s₂.tspVersionFallback = true ↔ (s₁.session a).status = .invalTspVersion) := by
    rintro s₂ ⟨hversion, hfallback⟩
    refine ⟨hversion, ?_⟩
    by_cases hstatus : (s₁.session a).status = .invalTspVersion
    · rw [hfallback, if_pos hstatus]
      exact iff_of_true rfl hstatus
    · rw [hfallback, if_neg hstatus, hdown]
      exact iff_of_false Bool.false_ne_true hstatus
  rw [← attempt_of_choose (stop_of_step hstep) hchoose] at hkept
  obtain hv | ⟨s₂, hv, rfl⟩ | ⟨s₂, hv, -, rfl⟩ := step_cases hstep
  · rw [hv] at hkept
    exact .inl (hflag _ hkept)
  · rw [hv] at hkept
    rw [waitRetry_eq]
    exact .inl (hflag _ hkept)
  · refine .inr ⟨rfl, rfl, fun hstatus => ?_⟩
    rw [attempt_of_choose (stop_of_step hstep) hchoose, hstatus] at hv
    cases hv

/-! ## A run of answers that the version is not supported -/

def refusedVersions (k : ℕ) : List Tried :=
  (range k).map fun version => .session version .invalTspVersion

theorem refusedVersions_succ (k : ℕ) :
    refusedVersions (k + 1) = refusedVersions k ++ [.session k .invalTspVersion] := by
  unfold refusedVersions
  rw [range_succ, map_append]
  rfl

theorem length_refusedVersions (k : ℕ) : (refusedVersions k).length = k := by
  unfold refusedVersions
  rw [length_map, length_range]

structure Main.Refused (s : Main) (ts : List Tried) (k : ℕ) : Prop where
  refused : ts.rtakeWhile Tried.unsupported = refusedVersions k
  allowed : k ≤ s.conf.tunnelMode.oldestVersion + 1
  flag : s.tspVersionFallback = true ↔ 0 < k
  version : 0 < k → s.versionIndex + 1 = k
  inTable : s.versionIndex < tspProtoVerStr.length

section Refused

variable {ts : List Tried} {k : ℕ}

theorem tried_of_refused (h : s.Refused ts k) :
    s.tried a = .left ∧ k = s.conf.tunnelMode.oldestVersion + 1 ∨
      ∃ s₁, s.chooseTransport = some s₁ ∧ s₁.versionIndex = k ∧
        k ≤ s.conf.tunnelMode.oldestVersion ∧ s.tried a = .session k (s₁.session a).status := by
  have hchoice := chooseTransport_version s
  unfold Main.tried
  cases hchoose : s.chooseTransport with
  | none =>
    rw [hchoose] at hchoice
    obtain ⟨hflag, hold⟩ := hchoice
    have hversion := h.version (h.flag.mp hflag)
    have hallowed := h.allowed
    exact .inl ⟨rfl, by omega⟩
  | some s₁ =>
    rw [hchoose] at hchoice
    obtain ⟨hversion, hold⟩ := hchoice
    have hk : s₁.versionIndex = k ∧ k ≤ s.conf.tunnelMode.oldestVersion := by
      by_cases hflag : s.tspVersionFallback = true
      · rw [hversion, if_pos hflag, h.version (h.flag.mp hflag)]
        have hnext := h.version (h.flag.mp hflag)
        have holder := hold hflag
        exact ⟨rfl, by omega⟩
      · have hzero : k = 0 := Nat.eq_zero_of_not_pos fun hpos => hflag (h.flag.mpr hpos)
        rw [hversion, if_neg hflag, hzero]
        exact ⟨rfl, Nat.zero_le _⟩
    refine .inr ⟨s₁, rfl, hk.1, hk.2, ?_⟩
    dsimp only
    rw [hk.1]

theorem refused_zero (hlast : ts.rtakeWhile Tried.unsupported = [])
    (hflag : s.tspVersionFallback = false) (hin : s.versionIndex < tspProtoVerStr.length) :
    s.Refused ts 0 where
  refused := hlast
  allowed := Nat.zero_le _
  flag := iff_of_false (by rw [hflag]; exact Bool.false_ne_true) (lt_irrefl 0)
  version := fun h => absurd h (lt_irrefl 0)
  inTable := hin

theorem rtakeWhile_of_supported {t : Tried} (ht : t.unsupported = false) :
    (ts ++ [t]).rtakeWhile Tried.unsupported = [] := by
  rw [rtakeWhile_concat, ht, if_neg Bool.false_ne_true]

theorem step_refused {t : Tried} (h : s.Refused ts k) (hstep : s.TriedStep t s') :
    ∃ k', s'.Refused (ts ++ [t]) k' := by
  obtain ⟨a, rfl, hstep⟩ := hstep
  obtain ⟨hleft, -⟩ | ⟨s₁, hchoose, hversion, hold, htried⟩ := tried_of_refused h
  · rw [hleft]
    have hnone : s.chooseTransport = none := by
      unfold Main.tried at hleft
      cases hchoose : s.chooseTransport with
      | none => rfl
      | some s₁ =>
        rw [hchoose] at hleft
        cases hleft
    unfold Main.step Main.attempt at hstep
    rw [stop_of_step hstep, if_neg Bool.false_ne_true, hnone] at hstep
    dsimp only at hstep
    split_ifs at hstep
    cases hstep
    exact ⟨0, refused_zero (rtakeWhile_of_supported rfl) rfl tspProtoVerStr_pos⟩
  · rw [htried]
    have hin : k < tspProtoVerStr.length := lt_of_le_of_lt hold (oldestVersion_lt _)
    obtain ⟨hversion', hflag⟩ | ⟨hversion', hflag, hstatus⟩ := step_version hchoose hstep
    · by_cases hstatus : (s₁.session a).status = .invalTspVersion
      · rw [hstatus] at hflag ⊢
        refine ⟨k + 1, ?_, ?_, ?_, ?_, ?_⟩
        · rw [refusedVersions_succ, ← h.refused]
          have hunsupported : (Tried.session k .invalTspVersion).unsupported = true := rfl
          rw [rtakeWhile_concat, if_pos hunsupported]
        · rw [step_tunnelMode hstep]
          exact Nat.succ_le_succ hold
        · exact iff_of_true (hflag.mpr rfl) (Nat.succ_pos k)
        · intro _
          rw [hversion', hversion]
        · rw [hversion', hversion]
          exact hin
      · refine ⟨0, refused_zero (rtakeWhile_of_supported (decide_eq_false hstatus)) ?_ ?_⟩
        · exact Bool.eq_false_iff.mpr fun hset => hstatus (hflag.mp hset)
        · rw [hversion', hversion]
          exact hin
    · refine ⟨0, refused_zero (rtakeWhile_of_supported (decide_eq_false hstatus)) hflag ?_⟩
      rw [hversion']
      exact tspProtoVerStr_pos

end Refused

variable {ts : List Tried}

section Runs

variable {conf : Conf} {server : List UInt8} {file : Option (List UInt8)} {junk : UInt16}

theorem start_refused : (Main.start conf server file junk).Refused [] 0 := by
  unfold Main.start
  split_ifs
  · split
    · exact refused_zero rfl rfl tspProtoVerStr_pos
    · exact refused_zero rfl rfl tspProtoVerStr_pos
  · exact refused_zero rfl rfl tspProtoVerStr_pos

theorem run_refused (hrun : Run Main.TriedStep (Main.start conf server file junk) ts s) :
    s.conf.tunnelMode = conf.tunnelMode ∧ ∃ k, s.Refused ts k := by
  refine hrun.induct ⟨start_tunnelMode, 0, start_refused⟩ ?_
  rintro ts s t s' - ⟨hmode, k, h⟩ hstep
  obtain ⟨a, -, hstep'⟩ := id hstep
  exact ⟨(step_tunnelMode hstep').trans hmode, step_refused h hstep⟩

/-- In every run the version index is inside the table. The answers at the end of the history that
the version is not supported are those to the first `k` versions, one each and from the newest on,
and there are no more than the mode allows. The next session is with the version `k`, and if the
mode does not allow it the loop is left. -/
theorem version_fallback_runs (hrun : Run Main.TriedStep (Main.start conf server file junk) ts s) :
    s.versionIndex < tspProtoVerStr.length ∧
    (∀ a version status, s.tried a = .session version status → version < tspProtoVerStr.length) ∧
    ∃ k ≤ conf.tunnelMode.oldestVersion + 1, ts.rtakeWhile Tried.unsupported = refusedVersions k ∧
      ∀ a, if k ≤ conf.tunnelMode.oldestVersion then ∃ status, s.tried a = .session k status
        else s.tried a = .left := by
  obtain ⟨hmode, k, h⟩ := run_refused hrun
  refine ⟨h.inTable, ?_, k, hmode ▸ h.allowed, h.refused, ?_⟩
  · intro a version status htried
    obtain ⟨hleft, -⟩ | ⟨s₁, -, -, hold, hsession⟩ := tried_of_refused h
    · rw [hleft] at htried
      cases htried
    · rw [hsession] at htried
      cases htried
      exact lt_of_le_of_lt hold (oldestVersion_lt _)
  · intro a
    rw [← hmode]
    obtain ⟨hleft, hk⟩ | ⟨s₁, -, -, hold, hsession⟩ := tried_of_refused h
    · rw [if_neg (by omega)]
      exact hleft
    · rw [if_pos hold]
      exact ⟨_, hsession⟩

end Runs

def unsupportedVersion : Attempt := answered .connected (.status 302 ⟨none, none⟩)

def Main.tries (s : Main) : List Attempt → Option (List Tried × Main)
  | [] => some ([], s)
  | a :: as => do
    let s₁ ← s.step a
    let (ts, s₂) ← s₁.tries as
    return (s.tried a :: ts, s₂)

theorem run_of_tries {as : List Attempt}
    (h : s.tries as = some (ts, s')) : Run Main.TriedStep s ts s' := by
  induction as generalizing s ts with
  | nil =>
    cases h
    exact .start
  | cons a as ih =>
    unfold Main.tries at h
    simp only [bind_eq_bind, bind_eq_some_iff, Prod.exists] at h
    obtain ⟨s₁, hstep, ts₁, s₂, hrest, hpair⟩ := h
    cases hpair
    exact (ih hrest).head ⟨a, rfl, hstep⟩

theorem version_fallback_runs_unsupported : ∃ s,
    Run Main.TriedStep hostStart (refusedVersions 4) s ∧ s.tried unsupportedVersion = .left := by
  have hruns : (hostStart.tries (replicate 4 unsupportedVersion)).map Prod.fst =
      some (refusedVersions 4) := by
    decide +kernel
  obtain ⟨⟨ts, s⟩, hs, rfl⟩ := map_eq_some_iff.mp hruns
  have hrun := run_of_tries hs
  obtain ⟨-, -, k, -, hrefused, hnext⟩ := version_fallback_runs hrun
  have hall : (refusedVersions 4).rtakeWhile Tried.unsupported = refusedVersions 4 := by decide
  have hk : k = 4 := by
    have hlength := congrArg length (hall.symm.trans hrefused)
    rw [length_refusedVersions, length_refusedVersions] at hlength
    exact hlength.symm
  have hleft := hnext unsupportedVersion
  rw [hk, if_neg (by decide)] at hleft
  exact ⟨s, hrun, hleft⟩

end Maiccu.Gogoc
