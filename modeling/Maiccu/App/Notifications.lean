import Maiccu.Lib.Run
import Maiccu.Lib.Timers

/-!
# Notifications of the status

`TKZMaiccu.m` shows status messages with Growl: the first ones at once and by themselves, those of a
burst in groups, from a queue. Each message puts off a timer, which ends the burst: it shows what is
left and clears the counter. The firing of a timer that is not scheduled changes nothing, so every
list of events is a run.
-/

namespace Maiccu.App

open Maiccu.Lib List

abbrev Text := List UInt16

/-- A status message. -/
structure Message where
  text : Text
  ne_nil : text ≠ []

/-- The variables of `TKZMaiccu` that are used here, with the timers of the run loop and what was
passed to Growl. -/
structure TKZMaiccu where
  postQueue : List Message
  postTimer : Option ℕ
  postNotificationCount : UInt64
  timers : Timers
  /-- The descriptions of the notifications. -/
  growl : List Text

variable (s : TKZMaiccu)

namespace TKZMaiccu

def init : TKZMaiccu := ⟨[], none, 0, .empty, []⟩

def wholeMessage (messages : List Message) : Text := messages.flatMap Message.text

def postGrowlNotification : TKZMaiccu :=
  let s' := { s with postQueue := [] }
  if (wholeMessage s.postQueue).length ≠ 0 then
    { s' with growl := s.growl ++ [wholeMessage s.postQueue] }
  else s'

/-- `[_postTimer invalidate]`. -/
def invalidatePostTimer : TKZMaiccu :=
  match s.postTimer with
  | none => s
  | some t => { s with timers := s.timers.invalidate t }

/-- `scheduledTimerWithTimeInterval`. -/
def schedulePostTimer : TKZMaiccu :=
  { s with timers := s.timers.schedule, postTimer := some s.timers.made }

def enqueue (message : Message) : TKZMaiccu :=
  { s with
    postQueue := s.postQueue ++ [message]
    postNotificationCount := s.postNotificationCount + 1 }

/-- The first five notifications are shown immediately, and the others by five. -/
def showFull : TKZMaiccu :=
  if s.postNotificationCount ≤ 5 ∨ 5 ≤ s.postQueue.length then s.postGrowlNotification else s

def postNotification (message : Message) : TKZMaiccu :=
  (s.enqueue message).showFull.invalidatePostTimer.schedulePostTimer

def resetStatusNotificationCount : TKZMaiccu :=
  { s with postNotificationCount := 0 }.postGrowlNotification

end TKZMaiccu

inductive Event where
  | post (message : Message)
  | fire (t : ℕ)

def TKZMaiccu.step : Event → TKZMaiccu
  | .post message => s.postNotification message
  | .fire t =>
    if t ∈ s.timers.scheduled then
      { s with timers := s.timers.invalidate t }.resetStatusNotificationCount
    else s

def after (events : List Event) : TKZMaiccu := events.foldl TKZMaiccu.step .init

def posted (events : List Event) : List Message :=
  events.filterMap fun
    | .post message => some message
    | .fire _ => none

/-! ## What one step does -/

variable {s} {m : Message} {messages group : List Message} {growl : List Text}
  {events : List Event} {t : ℕ}

namespace TKZMaiccu

theorem wholeMessage_eq_nil_iff : wholeMessage messages = [] ↔ messages = [] := by
  cases messages with
  | nil => exact ⟨fun _ => rfl, fun _ => rfl⟩
  | cons m messages =>
    have hne := m.ne_nil
    simp [wholeMessage, hne]

theorem postGrowlNotification_eq (s : TKZMaiccu) : s.postGrowlNotification = { s with
      postQueue := []
      growl := s.growl ++ if s.postQueue = [] then [] else [wholeMessage s.postQueue] } := by
  unfold postGrowlNotification
  have hlen : (wholeMessage s.postQueue).length = 0 ↔ s.postQueue = [] := by
    rw [length_eq_zero_iff, wholeMessage_eq_nil_iff]
  by_cases h : s.postQueue = []
  · rw [if_neg (not_not.mpr (hlen.mpr h)), if_pos h, append_nil]
  · rw [if_pos (mt hlen.mp h), if_neg h]

theorem invalidatePostTimer_eq (s : TKZMaiccu) :
    s.invalidatePostTimer = { s with timers := s.invalidatePostTimer.timers } := by
  unfold invalidatePostTimer
  split
  · rfl
  · rfl

theorem invalidatePostTimer_made (s : TKZMaiccu) :
    s.invalidatePostTimer.timers.made = s.timers.made := by
  unfold invalidatePostTimer
  split
  · rfl
  · rfl

theorem mem_invalidatePostTimer : t ∈ s.invalidatePostTimer.timers.scheduled ↔
    t ∈ s.timers.scheduled ∧ s.postTimer ≠ some t := by
  unfold invalidatePostTimer
  split
  · rename_i hnone
    rw [hnone]
    exact ⟨fun h => ⟨h, Option.some_ne_none t ∘ Eq.symm⟩, fun h => h.1⟩
  · rename_i u hsome
    rw [hsome, Timers.mem_invalidate, Ne, Ne, Option.some_inj, eq_comm]

theorem showFull_eq (s : TKZMaiccu) :
    s.showFull = { s with postQueue := s.showFull.postQueue, growl := s.showFull.growl } := by
  unfold showFull
  split_ifs
  · rw [postGrowlNotification_eq]
  · rfl

def Shows (s : TKZMaiccu) : Prop :=
  s.postNotificationCount + 1 ≤ 5 ∨ 5 ≤ s.postQueue.length + 1

theorem shows_iff : s.Shows ↔
    (s.enqueue m).postNotificationCount ≤ 5 ∨ 5 ≤ (s.enqueue m).postQueue.length := by
  unfold Shows enqueue
  rw [length_append, length_singleton]

theorem postNotification_of_shows (h : s.Shows) (m : Message) :
    (s.postNotification m).postQueue = [] ∧
      (s.postNotification m).growl = s.growl ++ [wholeMessage (s.postQueue ++ [m])] := by
  have hne : (s.enqueue m).postQueue ≠ [] :=
    append_ne_nil_of_right_ne_nil _ (cons_ne_nil m [])
  unfold postNotification
  rw [invalidatePostTimer_eq, showFull, if_pos (shows_iff.mp h), postGrowlNotification_eq,
    if_neg hne]
  exact ⟨rfl, rfl⟩

theorem postNotification_of_not_shows (h : ¬ s.Shows) (m : Message) :
    (s.postNotification m).postQueue = s.postQueue ++ [m] ∧
      (s.postNotification m).growl = s.growl := by
  unfold postNotification
  rw [invalidatePostTimer_eq, showFull, if_neg (mt shows_iff.mpr h)]
  exact ⟨rfl, rfl⟩

theorem postNotification_count (s : TKZMaiccu) (m : Message) :
    (s.postNotification m).postNotificationCount = s.postNotificationCount + 1 := by
  unfold postNotification
  rw [invalidatePostTimer_eq, showFull_eq]
  rfl

theorem postNotification_made (s : TKZMaiccu) (m : Message) :
    (s.postNotification m).timers.made = s.timers.made + 1 := by
  have hmade : (s.enqueue m).showFull.invalidatePostTimer.timers.made = s.timers.made := by
    rw [invalidatePostTimer_made, showFull_eq]
    rfl
  exact congrArg (· + 1) hmade

def Pending (s : TKZMaiccu) : Prop := ∃ t, s.postTimer = some t ∧ t ∈ s.timers.scheduled

theorem postNotification_pending (s : TKZMaiccu) (m : Message) : (s.postNotification m).Pending :=
  ⟨_, rfl, Timers.mem_schedule.mpr (.inr rfl)⟩

theorem step_fire (h : t ∈ s.timers.scheduled) : s.step (.fire t) = { s with
      postQueue := []
      postNotificationCount := 0
      timers := s.timers.invalidate t
      growl := s.growl ++ if s.postQueue = [] then [] else [wholeMessage s.postQueue] } :=
  (if_pos h).trans (postGrowlNotification_eq _)

theorem step_fire_of_notMem (h : t ∉ s.timers.scheduled) : s.step (.fire t) = s := if_neg h

theorem step_gone (e : Event) (h : s.timers.Gone t) : (s.step e).timers.Gone t := by
  cases e with
  | post m =>
    have htimers : (s.enqueue m).showFull.timers = s.timers := by
      rw [showFull_eq]
      rfl
    rw [← htimers] at h
    refine Timers.Gone.schedule ?_
    unfold invalidatePostTimer
    split
    · exact h
    · exact h.invalidate _
  | fire u =>
    by_cases hu : u ∈ s.timers.scheduled
    · rw [step_fire hu]
      exact h.invalidate u
    · rw [step_fire_of_notMem hu]
      exact h

end TKZMaiccu

/-! ## Groups of messages -/

def Batched (messages : List Message) (growl : List Text) : Prop :=
  ∃ groups : List (List Message), groups.flatten = messages ∧
    growl = groups.map TKZMaiccu.wholeMessage ∧ ∀ g ∈ groups, g ≠ [] ∧ g.length ≤ 5

theorem Batched.append (h : Batched messages growl) (hne : group ≠ []) (hlen : group.length ≤ 5) :
    Batched (messages ++ group) (growl ++ [TKZMaiccu.wholeMessage group]) := by
  obtain ⟨groups, rfl, rfl, hgroups⟩ := h
  refine ⟨groups ++ [group], ?_, ?_, ?_⟩
  · rw [flatten_append, flatten_singleton]
  · rw [map_append, map_singleton]
  · rw [forall_mem_append, forall_mem_singleton]
    exact ⟨hgroups, hne, hlen⟩

/-- Between two events: all but the queue was shown, the queue is short, if it is not empty a timer
will show it, and no timer but the last one is scheduled. -/
structure Inv (events : List Event) (s : TKZMaiccu) : Prop where
  shown : ∃ messages, messages ++ s.postQueue = posted events ∧ Batched messages s.growl
  short : s.postQueue.length ≤ 4
  pending : s.postQueue ≠ [] → s.Pending
  latest : ∀ t ∈ s.timers.scheduled, s.postTimer = some t

theorem posted_append (events events' : List Event) :
    posted (events ++ events') = posted events ++ posted events' := filterMap_append

theorem inv_init : Inv [] .init :=
  ⟨⟨[], rfl, [], rfl, rfl, forall_mem_nil _⟩, Nat.zero_le 4, fun h =>
    absurd rfl h, forall_mem_nil _⟩

theorem Inv.scheduled_post (h : Inv events s) (ht : t ∈ (s.postNotification m).timers.scheduled) :
    t ∉ s.timers.scheduled ∧ (s.postNotification m).postTimer = some t := by
  rcases Timers.mem_schedule.mp ht with hold | hnew
  · obtain ⟨hmem, hne⟩ := TKZMaiccu.mem_invalidatePostTimer.mp hold
    rw [TKZMaiccu.showFull_eq] at hmem hne
    exact absurd (h.latest t hmem) hne
  · have hmade : t + 1 = s.timers.made + 1 := by
      rw [← s.postNotification_made m, hnew]
      rfl
    refine ⟨fun hmem => ?_, ?_⟩
    · have := s.timers.lt_made t hmem
      omega
    · rw [hnew]
      rfl

theorem Inv.post (h : Inv events s) (m : Message) :
    Inv (events ++ [.post m]) (s.postNotification m) := by
  obtain ⟨messages, hposted, hbatched⟩ := h.shown
  have hnext : messages ++ (s.postQueue ++ [m]) = posted (events ++ [.post m]) := by
    rw [posted_append, ← hposted, append_assoc]
    rfl
  have hshort := h.short
  have hpending := fun _ : (s.postNotification m).postQueue ≠ [] => s.postNotification_pending m
  have hlatest := fun t (ht : t ∈ (s.postNotification m).timers.scheduled) =>
    (h.scheduled_post ht).2
  by_cases hshows : s.Shows
  · obtain ⟨hqueue, hgrowl⟩ := TKZMaiccu.postNotification_of_shows hshows m
    refine ⟨⟨messages ++ (s.postQueue ++ [m]), ?_, ?_⟩, ?_, hpending, hlatest⟩
    · rw [hqueue, append_nil]
      exact hnext
    · rw [hgrowl]
      refine hbatched.append (append_ne_nil_of_right_ne_nil _ (by simp)) ?_
      rw [length_append, length_singleton]
      omega
    · rw [hqueue]
      exact Nat.zero_le 4
  · obtain ⟨hqueue, hgrowl⟩ := TKZMaiccu.postNotification_of_not_shows hshows m
    refine ⟨⟨messages, ?_, ?_⟩, ?_, hpending, hlatest⟩
    · rw [hqueue]
      exact hnext
    · rw [hgrowl]
      exact hbatched
    · have hfew : ¬ 5 ≤ s.postQueue.length + 1 := fun hfive => hshows (.inr hfive)
      rw [hqueue, length_append, length_singleton]
      omega

theorem Inv.fire (h : Inv events s) (t : ℕ) : Inv (events ++ [.fire t]) (s.step (.fire t)) := by
  have hposted : posted (events ++ [.fire t]) = posted events := by
    rw [posted_append]
    exact append_nil _
  by_cases ht : t ∈ s.timers.scheduled
  · obtain ⟨messages, heq, hbatched⟩ := h.shown
    have hshort := h.short
    rw [TKZMaiccu.step_fire ht]
    refine ⟨⟨messages ++ s.postQueue, ?_, ?_⟩, Nat.zero_le 4, fun hne => absurd rfl hne,
      fun u hu => h.latest u (Timers.mem_invalidate.mp hu).1⟩
    · rw [hposted, ← heq, append_nil]
    · split_ifs with hempty
      · rw [hempty, append_nil, append_nil]
        exact hbatched
      · exact hbatched.append hempty (by omega)
  · rw [TKZMaiccu.step_fire_of_notMem ht]
    exact ⟨hposted.symm ▸ h.shown, h.short, h.pending, h.latest⟩

theorem inv_after (events : List Event) : Inv events (after events) := by
  refine (run_foldl TKZMaiccu.step events .init).induct (p := Inv) inv_init ?_
  rintro events s e s' - h rfl
  cases e with
  | post m => exact h.post m
  | fire t => exact h.fire t

theorem after_append (events events' : List Event) :
    after (events ++ events') = events'.foldl TKZMaiccu.step (after events) :=
  foldl_append

theorem notMem_of_replaced (h : t ∈ (after events).timers.scheduled)
    {events' : List Event} : t ∉ (after (events ++ .post m :: events')).timers.scheduled := by
  have hgone : ((after events).postNotification m).timers.Gone t := by
    refine ⟨?_, fun hmem => ((inv_after events).scheduled_post hmem).1 h⟩
    rw [TKZMaiccu.postNotification_made]
    exact Nat.lt_succ_of_lt ((after events).timers.lt_made t h)
  have hrun := run_foldl TKZMaiccu.step events' ((after events).postNotification m)
  have hstays := hrun.invariant (p := fun s => s.timers.Gone t) hgone fun s e s' hs hstep => by
    rw [hstep]
    exact TKZMaiccu.step_gone e hs
  rw [after_append]
  exact hstays.2

/-! ## The first messages after a reset -/

def AtReset (events : List Event) : Prop :=
  events = [] ∨ ∃ before t, events = before ++ [.fire t] ∧ t ∈ (after before).timers.scheduled

theorem AtReset.cleared (h : AtReset events) :
    (after events).postQueue = [] ∧ (after events).postNotificationCount = 0 := by
  rcases h with rfl | ⟨before, t, rfl, ht⟩
  · exact ⟨rfl, rfl⟩
  · rw [after_append]
    change ((after before).step (.fire t)).postQueue = [] ∧
      ((after before).step (.fire t)).postNotificationCount = 0
    rw [TKZMaiccu.step_fire ht]
    exact ⟨rfl, rfl⟩

theorem growl_of_few (hqueue : s.postQueue = [])
    (hcount : s.postNotificationCount.toNat + messages.length ≤ 5) :
    ((messages.map Event.post).foldl TKZMaiccu.step s).growl =
      s.growl ++ messages.map Message.text := by
  induction messages generalizing s with
  | nil => exact (append_nil _).symm
  | cons m messages ih =>
    rw [length_cons] at hcount
    have hnext : (s.postNotificationCount + 1).toNat = s.postNotificationCount.toNat + 1 := by
      rw [UInt64.toNat_add]
      have hone : (1 : UInt64).toNat = 1 := rfl
      omega
    have hshows : s.Shows := by
      refine .inl (UInt64.le_iff_toNat_le.mpr ?_)
      have hfive : (5 : UInt64).toNat = 5 := rfl
      omega
    obtain ⟨hqueue', hgrowl⟩ := TKZMaiccu.postNotification_of_shows hshows m
    have hcount' : (s.postNotification m).postNotificationCount.toNat + messages.length ≤ 5 := by
      rw [TKZMaiccu.postNotification_count, hnext]
      omega
    have hwhole : TKZMaiccu.wholeMessage [m] = m.text := append_nil _
    refine (ih hqueue' hcount').trans ?_
    rw [hgrowl, hqueue, nil_append, hwhole, append_assoc]
    rfl

/-! ## Delivery -/

variable (source : ℕ → Event)

/-- The first `n` events of an endless run. -/
def history (n : ℕ) : List Event := (range n).map source

/-- No timer is scheduled forever: it fires, or it is invalidated. -/
def Fair : Prop :=
  ∀ n, ∀ t ∈ (after (history source n)).timers.scheduled,
    ∃ k, n ≤ k ∧ t ∉ (after (history source k)).timers.scheduled

variable {source} {n k : ℕ}

theorem history_succ (source : ℕ → Event) (n : ℕ) :
    history source (n + 1) = history source n ++ [source n] := by
  unfold history
  rw [range_succ, map_append, map_singleton]

theorem after_history_succ (source : ℕ → Event) (n : ℕ) :
    after (history source (n + 1)) = (after (history source n)).step (source n) := by
  rw [history_succ, after_append]
  rfl

theorem posted_history_mono (h : n ≤ k) :
    posted (history source n) <+: posted (history source k) := by
  induction h with
  | refl => exact prefix_rfl
  | step _ ih =>
    rw [history_succ, posted_append]
    exact ih.trans (prefix_append _ _)

theorem exists_last {p : ℕ → Prop} (h : n ≤ k) (hn : p n) (hk : ¬ p k) :
    ∃ j, n ≤ j ∧ p j ∧ ¬ p (j + 1) := by
  induction h with
  | refl => exact absurd hn hk
  | @step k hle ih =>
    by_cases hp : p k
    · exact ⟨k, hle, hp, hk⟩
    · exact ih hp

theorem lost_timer (hmem : t ∈ s.timers.scheduled) {e : Event}
    (hlost : t ∉ (s.step e).timers.scheduled) :
    (∃ m, e = .post m) ∨ (s.step e).postQueue = [] := by
  cases e with
  | post m => exact .inl ⟨m, rfl⟩
  | fire u =>
    by_cases hu : u ∈ s.timers.scheduled
    · refine .inr ?_
      rw [TKZMaiccu.step_fire hu]
    · rw [TKZMaiccu.step_fire_of_notMem hu] at hlost
      exact absurd hmem hlost

/-- Later the queue holds only messages that came later, or `c` more were posted. -/
theorem progress (hfair : Fair source) (n c : ℕ) : ∃ k, n ≤ k ∧
    ((posted (history source n)).length + (after (history source k)).postQueue.length ≤
        (posted (history source k)).length ∨
      (posted (history source n)).length + c ≤ (posted (history source k)).length) := by
  induction c with
  | zero => exact ⟨n, Nat.le_refl n, .inr (Nat.le_refl _)⟩
  | succ c ih =>
    obtain ⟨k, hnk, hdone | hmore⟩ := ih
    · exact ⟨k, hnk, .inl hdone⟩
    by_cases hqueue : (after (history source k)).postQueue = []
    · refine ⟨k, hnk, .inl ?_⟩
      rw [hqueue, length_nil]
      omega
    -- The pending timer is lost at some step: a message came, or the queue was shown.
    obtain ⟨t, -, hmem⟩ := (inv_after (history source k)).pending hqueue
    obtain ⟨l, hkl, hl⟩ := hfair k t hmem
    obtain ⟨j, hkj, hj, hlost⟩ :=
      exists_last (p := fun j => t ∈ (after (history source j)).timers.scheduled) hkl hmem hl
    rw [after_history_succ] at hlost
    have hlen : (posted (history source k)).length ≤ (posted (history source j)).length :=
      (posted_history_mono hkj).length_le
    refine ⟨j + 1, by omega, ?_⟩
    rcases lost_timer hj hlost with ⟨m, hpost⟩ | hempty
    · refine .inr ?_
      rw [history_succ, posted_append, length_append, hpost]
      change _ ≤ _ + 1
      omega
    · have hnext : (posted (history source j)).length ≤ (posted (history source (j + 1))).length :=
        (posted_history_mono (Nat.le_add_right j 1)).length_le
      refine .inl ?_
      rw [after_history_succ, hempty, length_nil]
      omega

theorem delivered (hfair : Fair source) (n : ℕ) : ∃ k, n ≤ k ∧ ∃ messages,
    posted (history source n) <+: messages ∧
      messages ++ (after (history source k)).postQueue = posted (history source k) ∧
      Batched messages (after (history source k)).growl := by
  obtain ⟨k, hnk, hprogress⟩ := progress hfair n 4
  have hinv := inv_after (history source k)
  have hshort := hinv.short
  obtain ⟨messages, heq, hbatched⟩ := hinv.shown
  have hlen := congrArg length heq
  rw [length_append] at hlen
  have hpre : posted (history source n) <+: messages := by
    refine prefix_of_prefix_length_le (posted_history_mono hnk)
      ⟨(after (history source k)).postQueue, heq⟩ ?_
    omega
  exact ⟨k, hnk, messages, hpre, heq, hbatched⟩

/-- Of every run: Growl gets the messages in the order in which they were posted, in groups of one
to five, and the rest is in the queue, for which a timer is pending. The first five messages after a
reset come by themselves. If timers are not scheduled forever, each message is passed on. -/
theorem notifications_delivered :
    (∀ events, (∃ messages, messages ++ (after events).postQueue = posted events ∧
        Batched messages (after events).growl) ∧
      ((after events).postQueue ≠ [] → (after events).Pending)) ∧
    (∀ events, AtReset events → ∀ messages : List Message, messages.length ≤ 5 →
      (after (events ++ messages.map .post)).growl =
        (after events).growl ++ messages.map Message.text) ∧
    (∀ source, Fair source → ∀ n, ∃ k, n ≤ k ∧ ∃ messages, posted (history source n) <+: messages ∧
        messages ++ (after (history source k)).postQueue = posted (history source k) ∧
        Batched messages (after (history source k)).growl) ∧
    ∀ events t m events', t ∈ (after events).timers.scheduled →
      t ∉ (after (events ++ .post m :: events')).timers.scheduled := by
  refine ⟨fun events => ?_, fun events hreset messages hlen => ?_,
    fun source hfair n => delivered hfair n,
    fun events t m events' ht => notMem_of_replaced ht⟩
  · exact ⟨(inv_after events).shown, (inv_after events).pending⟩
  · obtain ⟨hqueue, hcount⟩ := hreset.cleared
    rw [after_append]
    refine growl_of_few hqueue ?_
    have hzero : (0 : UInt64).toNat = 0 := rfl
    rw [hcount, hzero, Nat.zero_add]
    exact hlen

def hello : Message := ⟨[104, 105], by decide⟩

/-- Six messages, and then the timer that the last one has started. -/
def sixHellos (n : ℕ) : Event := if n < 6 then .post hello else .fire 5

theorem sixHellos_fair : Fair sixHellos := by
  have hnone : ∀ n, (after (history sixHellos (n + 7))).timers.scheduled = [] := by
    intro n
    induction n with
    | zero => rfl
    | succ n ih =>
      have hgone : 5 ∉ (after (history sixHellos (n + 7))).timers.scheduled := by
        rw [ih]
        exact not_mem_nil
      rw [after_history_succ, sixHellos, if_neg (by omega), TKZMaiccu.step_fire_of_notMem hgone]
      exact ih
  intro n t _
  refine ⟨n + 7, Nat.le_add_right n 7, ?_⟩
  rw [hnone]
  exact not_mem_nil

theorem notifications_delivered_six :
    (after (replicate 5 (.post hello))).growl = replicate 5 hello.text ∧ ∃ k, 6 ≤ k ∧ ∃ messages,
      posted (history sixHellos 6) <+: messages ∧
        messages ++ (after (history sixHellos k)).postQueue = posted (history sixHellos k) ∧
        Batched messages (after (history sixHellos k)).growl :=
  ⟨notifications_delivered.2.1 [] (.inl rfl) (replicate 5 hello) (by decide),
    notifications_delivered.2.2.1 sixHellos sixHellos_fair 6⟩

end Maiccu.App
