/-
# Who the notifications wait for

A worker broadcasts its notifications on a channel of 128 messages, which
keeps a message until every active receiver has it. Some of the receivers are
only there to be cloned: the one of the `Worker` itself, from which
`as_handle` and `notify_on` clone, and the ones of the `WorkerHandle`s.
Nobody receives with them, and that of the `Worker` is never dropped.

So the channel keeps every notification that was ever broadcast, whatever the
subscriptions do, and the 129th broadcast waits for ever (`room_fails`).

The worker is that of `Announce`, one step at a time; the notifications that
a step appends are broadcast here.

Key definitions: `step`, `Room`, `Few`.
Key theorem: `room_iff_few`.
-/
import ClAsync.Lib.Broadcast
import ClAsync.Worker.Announce

namespace ClAsync
namespace Notifications

open Runs Broadcast
open Announce (Notification notificationCapacity)

/-! ### Subscriptions -/

/-- The bits of `NotificationFlags`. -/
abbrev NotificationFlags := UInt64

namespace NotificationFlags

def shutdown : NotificationFlags := 1
def kill : NotificationFlags := 2
def continue_ : NotificationFlags := 4
def childStopped : NotificationFlags := 8
def custom : NotificationFlags := 16

/-- All the bits of `flag` are set. -/
def contains (flags flag : NotificationFlags) : Bool := flags &&& flag == flag

/-- `matches`: the flag of the notification is set. -/
def matches_ (flags : NotificationFlags) : Notification → Bool
  | .shutdown => contains flags shutdown
  | .kill => contains flags kill
  | .continue => contains flags continue_
  | .childStopped => contains flags childStopped
  | .custom _ => contains flags custom

end NotificationFlags

/-- `NotificationFuture::poll` on what is before its receiver: how many
notifications it receives, and the one that it returns, if it does not
pend. -/
def NotificationFuture.poll (flags : NotificationFlags) : List Notification → ℕ × Option Notification
  | [] => (0, none)
  | notification :: rest =>
    if flags.matches_ notification then (1, some notification)
    else
      let polled := poll flags rest
      (polled.1 + 1, polled.2)

/-! ### The system -/

/-- What a receiver is part of. -/
inductive Holder
  | worker
  | handle
  | subscription (flags : NotificationFlags)
  deriving DecidableEq, Repr

/-- A worker, and the broadcast channel of its notifications. -/
structure System where
  /-- Its notifications are those of its last step. -/
  worker : Announce.State
  channel : Channel Notification Holder

/-- `Worker::new`. -/
def System.init : System := ⟨Announce.State.init, notificationCapacity, [], [some (.worker, 0)]⟩

/-- What happens to the worker, or to one of the receivers. -/
inductive Act
  /-- A step of the worker, or of those it shares a channel or a queue with. -/
  | worker (act : Announce.Act)
  | asHandle
  /-- `notify_on` of the worker or of a handle. -/
  | notifyOn (i : ℕ) (flags : NotificationFlags)
  | clone (i : ℕ)
  | updateFlags (i : ℕ) (flags : NotificationFlags)
  /-- A poll of the future of `recv`. -/
  | recv (i : ℕ)
  | drop (i : ℕ)
  deriving DecidableEq, Repr

/-- `broadcast_notification`, for each of the notifications of a step. -/
def broadcastAll (channel : Channel Notification Holder) :
    List Notification → Option (Channel Notification Holder)
  | [] => some channel
  | notification :: rest => (channel.broadcast notification).bind fun channel => broadcastAll channel rest

/-- One act; a notification that finds the channel full is none. -/
def step (s : System) : Act → Option System
  | .worker act =>
    (Announce.step { s.worker with notifications := [] } act).bind fun worker =>
    (broadcastAll s.channel worker.notifications).map fun channel => { worker, channel }
  | .asHandle => (s.channel.clone 0 .handle).map fun channel => { s with channel }
  | .notifyOn i flags =>
    match s.channel.receiver i with
    | some (.worker, _) | some (.handle, _) =>
      (s.channel.clone i (.subscription flags)).map fun channel => { s with channel }
    | _ => none
  | .clone i =>
    match s.channel.receiver i with
    | some (.subscription flags, _) =>
      (s.channel.clone i (.subscription flags)).map fun channel => { s with channel }
    | _ => none
  | .updateFlags i flags =>
    match s.channel.receiver i with
    | some (.subscription _, _) => some { s with channel := s.channel.update i (.subscription flags) }
    | _ => none
  | .recv i =>
    match s.channel.receiver i with
    | some (.subscription flags, _) =>
      some { s with channel := s.channel.advance i (NotificationFuture.poll flags (s.channel.pending i)).1 }
    | _ => none
  | .drop i =>
    match s.channel.receiver i with
    | some (.handle, _) | some (.subscription _, _) => some { s with channel := s.channel.drop i }
    | _ => none

/-! ### Broadcasts that do not wait -/

/-- What the next step of the worker broadcasts. -/
def System.broadcasting (s : System) : List Notification :=
  ((Announce.step { s.worker with notifications := [] } .next).map Announce.State.notifications).getD []

/-- The worker is about to broadcast, and the channel has room. -/
def Room (s : System) : Prop := s.broadcasting ≠ [] → s.channel.kept < s.channel.capacity

/-- The worker is about to broadcast, and has broadcast fewer than 128
notifications before. -/
def Few (s : System) : Prop := s.broadcasting ≠ [] → s.channel.sent.length < notificationCapacity

/-- Whenever the worker is about to broadcast, every subscription has received
all there is. -/
def UpToDate (s : System) : Prop :=
  s.broadcasting ≠ [] → ∀ r ∈ s.channel.receivers, ∀ flags position,
    r = some (.subscription flags, position) → position = s.channel.sent.length

/-! ### The receiver that never receives -/

/-- The first receiver is the worker's, at the start. -/
structure Origin (s : System) : Prop where
  first : s.channel.receivers.head? = some (some (.worker, 0))
  capacity : s.channel.capacity = notificationCapacity

theorem origin_init : Origin System.init := ⟨rfl, rfl⟩

theorem Origin.receiver_zero {s : System} (h : Origin s) : s.channel.receiver 0 = some (.worker, 0) := by
  rw [Channel.receiver, ← List.head?_eq_getElem?, h.first]
  rfl

/-- A receiver that is not the worker's is not the first. -/
theorem Origin.ne_zero {s : System} (h : Origin s) {i position : ℕ} {holder : Holder}
    (hi : s.channel.receiver i = some (holder, position)) (hne : holder ≠ .worker) : i ≠ 0 := by
  rintro rfl
  rw [h.receiver_zero] at hi
  obtain ⟨rfl, -⟩ := Prod.mk.inj (Option.some.inj hi)
  exact hne rfl

theorem Origin.clone {s : System} {channel : Channel Notification Holder} {i : ℕ} {holder : Holder} (h : Origin s)
    (hclone : s.channel.clone i holder = some channel) : Origin { s with channel } := by
  obtain ⟨source, -, rfl⟩ := Option.map_eq_some_iff.mp hclone
  refine ⟨?_, h.capacity⟩
  show (s.channel.receivers ++ _).head? = _
  rw [List.head?_append, h.first]
  rfl

theorem Origin.modify {s : System} {i : ℕ} {f : Option (Holder × ℕ) → Option (Holder × ℕ)} (h : Origin s)
    (hi : i ≠ 0) : Origin { s with channel := { s.channel with receivers := s.channel.receivers.modify i f } } :=
  ⟨Channel.head_modify h.first hi, h.capacity⟩

theorem Origin.set {s : System} {i : ℕ} {r : Option (Holder × ℕ)} (h : Origin s) (hi : i ≠ 0) :
    Origin { s with channel := { s.channel with receivers := s.channel.receivers.set i r } } := by
  rw [List.set_eq_modify]
  exact h.modify hi

/-- A broadcast has nothing to do with the receivers. -/
theorem broadcastAll_eq {channel channel' : Channel Notification Holder} {notifications : List Notification}
    (h : broadcastAll channel notifications = some channel') :
    channel' = { channel with sent := channel.sent ++ notifications } := by
  induction notifications generalizing channel with
  | nil =>
    rw [List.append_nil]
    exact (Option.some.inj h).symm
  | cons notification rest ih =>
    obtain ⟨channel₁, hfirst, hrest⟩ := Option.bind_eq_some_iff.mp h
    obtain ⟨-, rfl⟩ := Channel.broadcast_eq_some.mp hfirst
    rw [ih hrest, List.append_assoc]
    rfl

theorem origin_step {s s' : System} {act : Act} (h : Origin s) (hstep : step s act = some s') : Origin s' := by
  cases act with
  | worker act =>
    obtain ⟨worker, -, hstep⟩ := Option.bind_eq_some_iff.mp hstep
    obtain ⟨channel, hchannel, rfl⟩ := Option.map_eq_some_iff.mp hstep
    rw [broadcastAll_eq hchannel]
    exact ⟨h.first, h.capacity⟩
  | asHandle =>
    obtain ⟨channel, hclone, rfl⟩ := Option.map_eq_some_iff.mp hstep
    exact h.clone hclone
  | notifyOn i flags =>
    simp only [step] at hstep
    split at hstep
    · obtain ⟨channel, hclone, rfl⟩ := Option.map_eq_some_iff.mp hstep
      exact h.clone hclone
    · obtain ⟨channel, hclone, rfl⟩ := Option.map_eq_some_iff.mp hstep
      exact h.clone hclone
    · cases hstep
  | clone i =>
    simp only [step] at hstep
    split at hstep
    · obtain ⟨channel, hclone, rfl⟩ := Option.map_eq_some_iff.mp hstep
      exact h.clone hclone
    · cases hstep
  | updateFlags i flags =>
    simp only [step] at hstep
    split at hstep
    · rename_i hi
      obtain rfl := Option.some.inj hstep
      exact h.modify (h.ne_zero hi fun h => by cases h)
    · cases hstep
  | recv i =>
    simp only [step] at hstep
    split at hstep
    · rename_i hi
      obtain rfl := Option.some.inj hstep
      exact h.modify (h.ne_zero hi fun h => by cases h)
    · cases hstep
  | drop i =>
    simp only [step] at hstep
    split at hstep
    · rename_i hi
      obtain rfl := Option.some.inj hstep
      exact h.set (h.ne_zero hi (by decide))
    · rename_i hi
      obtain rfl := Option.some.inj hstep
      exact h.set (h.ne_zero hi fun h => by cases h)
    · cases hstep

/-! ### What the channel keeps -/

/-- All that was broadcast. -/
theorem Origin.kept {s : System} (h : Origin s) : s.channel.kept = s.channel.sent.length :=
  Channel.kept_of_start (List.mem_of_mem_head? h.first)

theorem room_iff {s : System} (h : Origin s) : Room s ↔ Few s := by
  unfold Room Few
  rw [h.kept, h.capacity]

theorem handle_notifications {w w' : Announce.State} {event : Announce.PolledEvent} (hnone : w.notifications = [])
    (h : Announce.handle w event = some w') : w'.notifications = [] ∨ ∃ n, w'.notifications = [n] := by
  cases event with
  | message =>
    obtain rfl := Option.some.inj h
    exact .inl hnone
  | other =>
    obtain rfl := Option.some.inj h
    exact .inl hnone
  | signal signal =>
    simp only [Announce.handle] at h
    split at h
    · obtain rfl := Option.some.inj h
      exact .inl hnone
    · obtain rfl := Option.some.inj h
      exact .inl hnone
    · obtain rfl := Option.some.inj h
      exact .inl hnone
    · rw [Announce.notify_cases h, hnone]
      exact .inr ⟨_, rfl⟩

theorem receive_notifications (w : Announce.State) (msg : Announce.Message) :
    (Announce.receive w msg).notifications = w.notifications ∧
      (Announce.shutdownReceive w msg).notifications = w.notifications := by
  cases msg <;> exact ⟨rfl, rfl⟩

theorem next_notifications {w w' : Announce.State} (hnone : w.notifications = [])
    (h : Announce.next w = some w') : w'.notifications = [] ∨ ∃ n, w'.notifications = [n] := by
  unfold Announce.next at h
  split at h
  · obtain rfl := Option.some.inj h
    exact .inl hnone
  · refine handle_notifications ?_ h
    exact hnone
  · split at h <;> obtain rfl := Option.some.inj h
    · exact .inl ((receive_notifications _ _).1.trans hnone)
    · exact .inl hnone
  · obtain rfl := Option.some.inj h
    split <;> exact .inl hnone
  · obtain rfl := Option.some.inj h
    exact .inl hnone
  · rw [Announce.notify_cases h]
    exact .inr ⟨_, congrArg (· ++ [_]) hnone⟩
  · split at h <;> obtain rfl := Option.some.inj h
    · exact .inl ((receive_notifications _ _).2.trans hnone)
    · exact .inl hnone
  · obtain rfl := Option.some.inj h
    exact .inl hnone
  · rw [Announce.notify_cases h]
    exact .inr ⟨_, congrArg (· ++ [_]) hnone⟩
  · obtain rfl := Option.some.inj h
    exact .inl hnone
  · obtain rfl := Option.some.inj h
    exact .inl hnone
  all_goals cases h

/-- A step of the worker broadcasts one notification at most, and only its
next step does. -/
theorem step_notifications {w w' : Announce.State} {act : Announce.Act}
    (h : Announce.step { w with notifications := [] } act = some w') :
    w'.notifications = [] ∨ act = .next ∧ ∃ n, w'.notifications = [n] := by
  cases act with
  | next => exact (next_notifications rfl h).imp_right fun h => ⟨rfl, h⟩
  | started ok =>
    simp only [Announce.step] at h
    split at h
    · obtain rfl := Option.some.inj h
      exact .inl (by split <;> rfl)
    · cases h
  | interrupted =>
    simp only [Announce.step] at h
    split at h
    · obtain rfl := Option.some.inj h
      exact .inl rfl
    · cases h
  | events events =>
    simp only [Announce.step] at h
    split at h
    · obtain rfl := Option.some.inj h
      exact .inl rfl
    · cases h
  | tasks running =>
    simp only [Announce.step] at h
    split at h
    · obtain rfl := Option.some.inj h
      exact .inl (by split <;> rfl)
    · cases h
  | _ =>
    obtain rfl := Option.some.inj h
    exact .inl rfl

/-- With room, the worker is not blocked. -/
theorem not_waits_of_room {s : System} {act : Announce.Act} {w : Announce.State} (h : Room s)
    (hact : Announce.step { s.worker with notifications := [] } act = some w) :
    ∃ s', step s (.worker act) = some s' := by
  have hstep : step s (.worker act) =
      (broadcastAll s.channel w.notifications).map fun channel => ⟨w, channel⟩ := by
    rw [step, hact, Option.bind_some]
  obtain hnone | ⟨rfl, n, hn⟩ := step_notifications hact
  · rw [hstep, hnone]
    exact ⟨_, rfl⟩
  · have hbroadcasting : s.broadcasting ≠ [] := by
      rw [System.broadcasting, hact, Option.map_some, Option.getD_some, hn]
      exact List.cons_ne_nil _ _
    have hsent : s.channel.broadcast n = some _ := Channel.broadcast_eq_some.mpr ⟨h hbroadcasting, rfl⟩
    rw [hstep, hn, broadcastAll, hsent]
    exact ⟨_, rfl⟩

/-- **Broadcasting never blocks the worker if and only if** whenever it
broadcasts it has broadcast fewer than 128 notifications before, in every run,
whatever subscriptions there are and whether they are up to date or not. -/
theorem room_iff_few (acts : List Act) : Along step Room System.init acts ↔ Along step Few System.init acts :=
  along_congr (fun _ _ _ h hstep => origin_step h hstep) (fun _ h => room_iff h) acts origin_init

/-! ### A worker that gets signals -/

/-- Idle, after `n` signals, with a subscription that has received all of
their notifications. -/
def idleAfter (n : ℕ) : System :=
  ⟨{ Announce.State.init with pc := .poll, status := .idle },
    notificationCapacity, List.replicate n (.custom 10),
    [some (.worker, 0), some (.subscription NotificationFlags.custom, n)]⟩

/-- The worker starts, and somebody subscribes. -/
def begin : List Act := [.worker (.started true), .notifyOn 0 NotificationFlags.custom]

/-- An iteration of the main loop that gets a signal, and the subscription
receives its notification. -/
def iteration : List Act :=
  [.worker (.events [.signal (.userDefined 10)]), .worker .next, .recv 1, .worker .next, .worker .next, .worker .next]

/-- So many iterations of the worker. -/
def iterations (n : ℕ) : List Act := (List.replicate n iteration).flatten

theorem run_begin : run step System.init begin = some (idleAfter 0) := rfl

theorem upToDate_of_quiet {s : System} (h : s.broadcasting = []) : UpToDate s := fun hne => absurd h hne

/-- A signal is to be handled. -/
def handling (n : ℕ) : System :=
  { idleAfter n with
    worker := { (idleAfter n).worker with pc := .handle [.signal (.userDefined 10)], status := .busy } }

theorem upToDate_handling (n : ℕ) : UpToDate (handling n) := by
  intro _ r hr flags position heq
  subst heq
  obtain h | h := List.mem_pair.mp hr
  · cases h
  · obtain ⟨-, rfl⟩ := Prod.mk.inj (Option.some.inj h)
    exact List.length_replicate.symm

/-- It has been handled, in the middle of the iteration. -/
def handled (n position : ℕ) (pc : Announce.Pc) (notifications : List Notification) : System :=
  ⟨{ Announce.State.init with pc, status := .busy, notifications },
    notificationCapacity, List.replicate (n + 1) (.custom 10),
    [some (.worker, 0), some (.subscription NotificationFlags.custom, position)]⟩

theorem step_handling {n : ℕ} (hlt : n < 128) :
    step (handling n) (.worker .next) = some (handled n n (.handle []) [.custom 10]) := by
  have hkept : (idleAfter n).channel.kept < notificationCapacity := by
    rw [@Channel.kept_of_start _ _ (idleAfter n).channel .worker List.mem_cons_self]
    show (List.replicate n _).length < 128
    rwa [List.length_replicate]
  have hsent : (idleAfter n).channel.broadcast (.custom 10) = some (handled n n (.handle []) []).channel := by
    refine Channel.broadcast_eq_some.mpr ⟨hkept, ?_⟩
    unfold handled idleAfter
    rw [List.replicate_succ']
  show ((((idleAfter n).channel.broadcast (.custom 10)).bind fun channel => broadcastAll channel []).map _) = _
  rw [hsent]
  rfl

theorem step_handled (n : ℕ) : step (handled n n (.handle []) [.custom 10]) (.recv 1) =
    some (handled n (n + 1) (.handle []) [.custom 10]) := by
  have hpending : (handled n n (.handle []) [.custom 10]).channel.pending 1 = [.custom 10] := by
    show (List.replicate (n + 1) (Notification.custom 10)).drop n = _
    rw [List.drop_replicate, Nat.add_sub_cancel_left]
    rfl
  have hstep : step (handled n n (.handle []) [.custom 10]) (.recv 1) =
      some { handled n n (.handle []) [.custom 10] with
        channel := (handled n n (.handle []) [.custom 10]).channel.advance 1 (NotificationFuture.poll
          NotificationFlags.custom ((handled n n (.handle []) [.custom 10]).channel.pending 1)).1 } := rfl
  rw [hstep, hpending]
  rfl

/-- An iteration leads to the next, and the subscription is up to date
throughout. -/
theorem iteration_idleAfter {n : ℕ} (hlt : n < 128) :
    run step (idleAfter n) iteration = some (idleAfter (n + 1)) ∧ Along step UpToDate (idleAfter n) iteration := by
  have hevents : step (idleAfter n) (.worker (.events [.signal (.userDefined 10)])) = some (handling n) := rfl
  have hrecv : step (handled n (n + 1) (.handle []) [.custom 10]) (.worker .next) =
      some (handled n (n + 1) .recv []) := rfl
  have hrun : step (handled n (n + 1) .recv []) (.worker .next) = some (handled n (n + 1) .run []) := rfl
  have hpoll : step (handled n (n + 1) .run []) (.worker .next) = some (idleAfter (n + 1)) := rfl
  refine ⟨?_, ?_⟩
  · simp only [iteration, run, hevents, step_handling hlt, step_handled, hrecv, hrun, hpoll, Option.bind_some]
  · simp only [iteration, Along, hevents, step_handling hlt, step_handled, hrecv, hrun, hpoll, Option.mem_some_iff,
      forall_eq', upToDate_handling n, true_and]
    exact ⟨upToDate_of_quiet rfl, upToDate_of_quiet rfl, upToDate_of_quiet rfl, upToDate_of_quiet rfl,
      upToDate_of_quiet rfl, upToDate_of_quiet rfl⟩

theorem iterations_idleAfter {n : ℕ} (hle : n ≤ 128) :
    run step (idleAfter 0) (iterations n) = some (idleAfter n) ∧ Along step UpToDate (idleAfter 0) (iterations n) := by
  induction n with
  | zero => exact ⟨rfl, upToDate_of_quiet rfl⟩
  | succ n ih =>
    obtain ⟨hrun, hup⟩ := ih (by omega)
    obtain ⟨hrun', hup'⟩ := iteration_idleAfter (show n < 128 by omega)
    have hsplit : iterations (n + 1) = iterations n ++ iteration := by
      rw [iterations, List.replicate_succ', List.flatten_append, List.flatten_singleton, iterations]
    rw [hsplit, run_append, hrun]
    exact ⟨hrun', hup.append hrun hup'⟩

/-- One signal more than the channel has room for. -/
def signals : List Act := begin ++ (iterations 128 ++ [.worker (.events [.signal (.userDefined 10)])])

/-- The subscription receives every notification at once, and still the 129th
broadcast waits. -/
theorem room_fails : Along step UpToDate System.init signals ∧ ¬ Along step Room System.init signals := by
  obtain ⟨hrun, hup⟩ := iterations_idleAfter (Nat.le_refl 128)
  constructor
  · have hbegin : Along step UpToDate System.init begin :=
      ⟨upToDate_of_quiet rfl, fun s hs => ⟨?_, fun s' hs' => ?_⟩⟩
    · refine hbegin.append run_begin (hup.append hrun ⟨upToDate_of_quiet rfl, fun s hs => ?_⟩)
      obtain rfl := Option.some.inj hs
      exact upToDate_handling 128
    · obtain rfl := Option.some.inj hs
      exact upToDate_of_quiet rfl
    · obtain rfl := Option.some.inj hs
      obtain rfl := Option.some.inj hs'
      exact upToDate_of_quiet rfl
  · intro h
    have hroom : Room (handling 128) := ((h.of_run run_begin).of_run hrun).2 (handling 128) rfl
    have hlt := hroom (List.cons_ne_nil _ _)
    rw [@Channel.kept_of_start _ _ (handling 128).channel .worker List.mem_cons_self] at hlt
    have hlen : (handling 128).channel.sent.length = 128 := List.length_replicate
    rw [hlen] at hlt
    exact absurd hlt (Nat.lt_irrefl 128)

end Notifications
end ClAsync
