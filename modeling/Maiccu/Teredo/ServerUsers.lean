import Maiccu.Teredo.Server

/-!
# The raw socket of the servers

All servers of a process send over one raw socket. `teredo_server_create` (`server.c`) opens it for
the first user and `teredo_server_destroy` closes it after the last one. The users are counted
before the steps of the creation that can fail, and no failure takes the count back.
-/

namespace Maiccu.Teredo

open Maiccu.Lib List

/-- What `raw_fd` names: no socket of the servers, `-1`, or an open socket. -/
inductive RawFd where
  | idle
  | failed
  | opened
  deriving DecidableEq

/-- The static variables of `server.c`. -/
structure RawSocket where
  rawUsers : UInt32
  rawFd : RawFd
  deriving DecidableEq

/-- What the system answers to a creation. -/
structure Resources where
  raw : Bool
  malloc : Bool
  primary : Bool
  secondary : Bool

variable (r : RawSocket)

/-- The shared part of `teredo_server_create`; `none` if the count would overflow. -/
def RawSocket.addUser (raw : Bool) : Option RawSocket :=
  if r.rawUsers = 4294967295 then none
  else some {
    rawUsers := r.rawUsers + 1
    rawFd := if r.rawUsers = 0 then (if raw then .opened else .failed) else r.rawFd }

/-- `teredo_server_create` with the shared variables it leaves. -/
def RawSocket.create (ip1 ip2 : Ipv4) (sys : Resources) :
    RawSocket × Option Server :=
  match r.addUser sys.raw with
  | none => (r, none)
  | some r' =>
    if r'.rawFd = .failed then (r', none)
    else (r', if sys.malloc ∧ sys.primary ∧ sys.secondary then teredoServerCreate ip1 ip2 else none)

/-- `teredo_server_destroy`. -/
def RawSocket.destroy : RawSocket where
  rawUsers := r.rawUsers - 1
  rawFd := if r.rawUsers - 1 = 0 then .idle else r.rawFd

structure Servers where
  raw : RawSocket
  live : List Server

inductive ServerCall where
  | create (ip1 ip2 : Ipv4) (sys : Resources)
  /-- The server at the given place is destroyed, if there is one. -/
  | destroy (i : ℕ)

namespace Servers

def start : Servers := ⟨⟨0, .idle⟩, []⟩

variable (s : Servers)

def step : ServerCall → Servers
  | .create ip1 ip2 sys =>
    let (raw, server) := s.raw.create ip1 ip2 sys
    ⟨raw, server.toList ++ s.live⟩
  | .destroy i => if i < s.live.length then ⟨s.raw.destroy, s.live.eraseIdx i⟩ else s

/-- The call is a creation that returns null. -/
def Fails : ServerCall → Prop
  | .create ip1 ip2 sys => (s.raw.create ip1 ip2 sys).2 = none
  | .destroy _ => False

/-- After the call the socket is open exactly if there is a server, and if it was a creation that
failed, all is as before. -/
def Right (c : ServerCall) : Prop :=
  ((s.step c).raw.rawFd = .opened ↔ 0 < (s.step c).live.length) ∧
    (s.Fails c → (s.step c).raw = s.raw)

/-- `p` holds of each call of a sequence and the state it is made in. -/
def Along (p : Servers → ServerCall → Prop) (s : Servers) : List ServerCall → Prop
  | [] => True
  | c :: cs => p s c ∧ Along p (s.step c) cs

/-- A user is counted for each server. -/
structure Balanced (s : Servers) : Prop where
  users : s.raw.rawUsers.toNat = s.live.length
  fd : s.raw.rawFd = if s.live = [] then .idle else .opened

variable {s}

theorem along_iff {p q : Servers → ServerCall → Prop} {cs : List ServerCall}
    (hs : s.Balanced) (hpq : ∀ s c, Balanced s → (p s c ↔ q s c))
    (hnext : ∀ s c, Balanced s → q s c → (s.step c).Balanced) : s.Along p cs ↔ s.Along q cs := by
  induction cs generalizing s with
  | nil => exact Iff.rfl
  | cons c cs ih =>
    rw [Along, Along, hpq s c hs]
    exact and_congr_right fun hq => ih (hnext s c hs hq)

/-- The creation finds what it needs: the raw socket if there is no server yet, memory, the two UDP
sockets and global addresses. -/
structure Granted (s : Servers) (ip1 ip2 : Ipv4) (sys : Resources) : Prop where
  raw : s.live = [] → sys.raw = true
  memory : sys.malloc ∧ sys.primary ∧ sys.secondary
  unicast : isIpv4GlobalUnicast ip1 = true ∧ isIpv4GlobalUnicast ip2 = true

/-- A creation that fails does so on the overflow test, before its user is counted. -/
def Counted (s : Servers) : ServerCall → Prop
  | .create ip1 ip2 sys => s.live.length = 4294967295 ∨ s.Granted ip1 ip2 sys
  | .destroy _ => True

section

variable (hs : s.Balanced)
include hs

theorem Balanced.live_eq_nil : s.live = [] ↔ s.raw.rawUsers = 0 := by
  rw [← length_eq_zero_iff, ← hs.users, ← UInt32.toNat_inj]
  rfl

theorem Balanced.full_iff : s.live.length = 4294967295 ↔ s.raw.rawUsers = 4294967295 := by
  rw [← hs.users, ← UInt32.toNat_inj]
  rfl

theorem Balanced.addUser (hfull : s.live.length ≠ 4294967295) (raw : Bool) :
    s.raw.addUser raw = some ⟨s.raw.rawUsers + 1,
      if s.live = [] → raw = true then .opened else .failed⟩ := by
  rw [RawSocket.addUser, if_neg (mt hs.full_iff.mpr hfull), hs.fd]
  simp only [← hs.live_eq_nil]
  by_cases hlive : s.live = []
  · simp [hlive]
  · simp [hlive]

theorem Balanced.create (hfull : s.live.length ≠ 4294967295) (ip1 ip2 : Ipv4) (sys : Resources) :
    (s.raw.create ip1 ip2 sys).1 = ⟨s.raw.rawUsers + 1,
      if s.live = [] → sys.raw = true then .opened else .failed⟩ ∧
    ((s.raw.create ip1 ip2 sys).2 ≠ none ↔ s.Granted ip1 ip2 sys) := by
  rw [RawSocket.create, hs.addUser hfull]
  dsimp only
  by_cases hraw : s.live = [] → sys.raw = true
  · rw [if_pos hraw, if_neg (by decide)]
    refine ⟨rfl, ?_⟩
    simp only [teredoServerCreate]
    split_ifs with hmemory hunicast
    · exact iff_of_true nofun ⟨hraw, hmemory, hunicast⟩
    · exact iff_of_false (fun h => h rfl) fun h => hunicast h.unicast
    · exact iff_of_false (fun h => h rfl) fun h => hmemory h.memory
  · rw [if_neg hraw, if_pos rfl]
    exact ⟨rfl, iff_of_false (fun h => h rfl) fun h => hraw h.raw⟩

theorem Balanced.right :
    s.raw.rawFd = .opened ↔ 0 < s.live.length := by
  rw [hs.fd, length_pos_iff]
  by_cases hlive : s.live = []
  · simp [hlive]
  · simp [hlive]

theorem Balanced.step_create {ip1 ip2 : Ipv4} {sys : Resources}
    (hfull : s.live.length ≠ 4294967295) (h : s.Granted ip1 ip2 sys) :
    (s.step (.create ip1 ip2 sys)).Balanced := by
  obtain ⟨hraw, hsome⟩ := hs.create hfull ip1 ip2 sys
  obtain ⟨server, hserver⟩ := Option.ne_none_iff_exists'.mp (hsome.mpr h)
  have hlt := s.raw.rawUsers.toNat_lt
  have hlive := hs.users
  rw [if_pos h.raw] at hraw
  refine ⟨?_, ?_⟩
  · simp only [Servers.step, hraw, hserver, UInt32.toNat_add, UInt32.reduceToNat,
      Option.toList_some, length_append, length_singleton]
    omega
  · simp only [Servers.step, hraw, hserver]
    rfl

theorem Balanced.step_destroy (i : ℕ) :
    (s.step (.destroy i)).Balanced := by
  unfold Servers.step
  by_cases hi : i < s.live.length
  · have hlt := s.raw.rawUsers.toNat_lt
    have hlive := hs.users
    have husers : (s.raw.rawUsers - 1).toNat = (s.live.eraseIdx i).length := by
      simp only [length_eraseIdx_of_lt hi, UInt32.toNat_sub, UInt32.reduceToNat]
      omega
    have hnil : s.raw.rawUsers - 1 = 0 ↔ s.live.eraseIdx i = [] := by
      rw [← length_eq_zero_iff, ← husers, ← UInt32.toNat_inj]
      rfl
    have hlive : s.live ≠ [] := ne_nil_of_length_pos (by omega)
    simp only [if_pos hi]
    refine ⟨husers, ?_⟩
    simp only [RawSocket.destroy, hnil, hs.fd, if_neg hlive]
  · simp only [if_neg hi]
    exact hs

theorem Balanced.step {c : ServerCall} (hc : s.Counted c) :
    (s.step c).Balanced ∧ (s.Fails c → (s.step c).raw = s.raw) := by
  cases c with
  | create ip1 ip2 sys =>
    by_cases hfull : s.live.length = 4294967295
    · have hstep : s.step (.create ip1 ip2 sys) = s := by
        rw [Servers.step, RawSocket.create, RawSocket.addUser, if_pos (hs.full_iff.mp hfull)]
        rfl
      rw [hstep]
      exact ⟨hs, fun _ => rfl⟩
    · have hgranted := hc.resolve_left hfull
      exact ⟨hs.step_create hfull hgranted,
        fun hfails => absurd hfails ((hs.create hfull ip1 ip2 sys).2.mpr hgranted)⟩
  | destroy i => exact ⟨hs.step_destroy i, False.elim⟩

theorem Balanced.right_iff (c : ServerCall) :
    s.Right c ↔ s.Counted c := by
  refine ⟨fun h => ?_, fun hc => ?_⟩
  · cases c with
    | create ip1 ip2 sys =>
      refine or_iff_not_imp_left.mpr fun hfull => ?_
      obtain ⟨hraw, hsome⟩ := hs.create hfull ip1 ip2 sys
      refine hsome.mp fun hfails => ?_
      -- the user of the creation is counted and stays so
      have husers := congrArg RawSocket.rawUsers (hraw.symm.trans (h.2 hfails))
      exact absurd (UInt32.add_eq_left.mp husers) (by decide)
    | destroy i => exact trivial
  · obtain ⟨hstep, hraw⟩ := hs.step hc
    exact ⟨hstep.right, hraw⟩

end

/-- The socket is open exactly while there is a server, and a failed creation leaves no trace, as
long as no creation fails after the user is counted. -/
theorem raw_socket_iff (cs : List ServerCall) : start.Along Right cs ↔ start.Along Counted cs :=
  along_iff ⟨rfl, rfl⟩ (fun _ c hs => hs.right_iff c) fun _ _ hs hc => (hs.step hc).1

/-- The second UDP socket cannot be bound: the raw socket stays open without a server, and the
creation and destruction of a server later do not close it. -/
theorem raw_socket_left_open :
    let ip := bytes (be 4 0xc0586302)
    let s := [ServerCall.create ip ip ⟨true, true, true, false⟩,
      .create ip ip ⟨true, true, true, true⟩, .destroy 0].foldl step start
    s.live.length = 0 ∧ s.raw = ⟨1, .opened⟩ := by
  decide +kernel

end Servers

end Maiccu.Teredo
