/-
# The announcement of a stop

A worker that stops tells the receivers of its notifications and the event
queues of its registry. Where it does so depends on how it stops: the main
loop, at the end of an iteration that finds the state `Stopping`, before it
goes on to the shutdown loop; or the thread, when `worker_loop` has returned
in any other way and the state is not `Stopping`.

The state is not a record of how the loop was left. A `Shutdown` that is
followed by a `Kill` in the same batch sets it to `Stopping`, and then the
loop returns at once: nobody makes the announcement (`announced_fails`).

Any thread may register and remove event queues at any moment. A queue that
the worker is to tell and that is removed before it does is not told.

Key definitions: `step`, `Announced`, `Heeds`.
Key theorems: `inv_step`, one step, and `announced_of_heeds`, every run.
-/
import ClAsync.Lib.Runs
import ClAsync.Worker.Loop
import Mathlib.Logic.Function.Basic

namespace ClAsync
namespace Announce

open Runs

/-! ### Notifications and signals -/

/-- `Notification`; a custom one carries a `u64`. -/
inductive Notification
  | shutdown
  | kill
  | continue
  | childStopped
  | custom (code : ℕ)
  deriving DecidableEq, Repr

/-- `Signal`; the two of the user carry their number. -/
inductive Signal
  | hangup
  | interrupt
  | quit
  | kill
  | trap
  | abort
  | busError
  | floatingPointError
  | segmentationFault
  | brokenPipe
  | alarm
  | terminate
  | childStopped
  | continue
  | stop
  | terminalStop
  | ttyIn
  | ttyOut
  | userDefined (signal : ℤ)
  | unknown (signal : ℤ)
  deriving DecidableEq, Repr

/-- The notification that the main loop makes of a signal. -/
def Signal.notification : Signal → Option Notification
  | .continue => some .continue
  | .ttyIn | .ttyOut => none
  | .interrupt | .terminate | .hangup | .quit | .alarm => some .shutdown
  | .userDefined code => some (.custom (code % 2 ^ 64).toNat)
  | .childStopped => some .childStopped
  | _ => none

/-! ### Event queues -/

/-- The types of the events the poller reports, as one, and the two others. -/
inductive EventType
  | polled
  | shutdown
  | kill
  deriving DecidableEq, Repr

/-- `Event`: under the key of the queue it is for. -/
structure Event where
  eventType : EventType
  key : Key
  deriving DecidableEq, Repr

/-- `EventQueue`. `told` records the events of broadcasts, each with the
wakers it woke. -/
structure EventQueue where
  queue : List Event
  wakerQueue : List Waker
  told : List (Event × List Waker)
  deriving DecidableEq, Repr

/-- `push` and `wake`, as a broadcast makes them. -/
def EventQueue.pushAndWake (q : EventQueue) (event : Event) : EventQueue :=
  ⟨q.queue ++ [event], [], q.told ++ [(event, q.wakerQueue)]⟩

/-- An event queue, by its number; an `Arc` is shared. -/
abbrev QueueId := ℕ

/-- `EventQueueRegistry`: a map from keys to queues. -/
abbrev Registry := List (Key × QueueId)

/-- The queues that are registered. -/
def Registry.queues (registry : Registry) : List QueueId := registry.map Prod.snd

/-- `EventQueueRegistry::remove`. -/
def Registry.remove (registry : Registry) (key : Key) : Registry := registry.filter fun entry => entry.1 ≠ key

/-- `EventQueueRegistry::register`, which replaces the queue of the key. -/
def Registry.register (registry : Registry) (key : Key) (q : QueueId) : Registry :=
  (key, q) :: Registry.remove registry key

/-- `broadcast_and_wake`. -/
def broadcastAndWake (registry : Registry) (queues : QueueId → EventQueue) (eventType : EventType) :
    QueueId → EventQueue :=
  registry.foldl (fun queues entry =>
    Function.update queues entry.2 ((queues entry.2).pushAndWake ⟨eventType, entry.1⟩)) queues

/-! ### The worker -/

/-- A message, by what it does to a worker that stops. -/
inductive Message
  | shutdown
  | kill
  | other
  deriving DecidableEq, Repr

/-- An event of a batch: of the message channel, of the signals, or another. -/
inductive PolledEvent
  | message
  | signal (signal : Signal)
  | other
  deriving DecidableEq, Repr

/-- Where the worker is: in the main loop; it has decided to stop, and tells
the queues, then the receivers; in the shutdown loop; `worker_loop` has
returned, and the thread does the rest. -/
inductive Pc
  | start
  | poll
  | handle (events : List PolledEvent)
  | recv
  | run
  | announceQueues
  | announce
  | shutdownRecv
  | shutdownRun
  | returned
  | kill
  | killQueues
  | stop
  | stopped
  deriving DecidableEq, Repr

/-- A worker, with the notifications it has broadcast. -/
structure State where
  pc : Pc
  status : WorkerState
  channel : List Message
  shouldRecv : Bool
  notifications : List Notification
  registry : Registry
  queues : QueueId → EventQueue
  /-- The queues that were registered when the loop decided to stop. -/
  decided : List QueueId

/-- A worker whose thread has been started. -/
def State.init : State := ⟨.start, .starting, [], false, [], [], fun _ => ⟨[], [], []⟩, []⟩

/-- What the worker does, and what is done to it. -/
inductive Act
  | send (msg : Message)
  /-- Any thread, tasks included, uses the registry or a queue. -/
  | register (key : Key) (q : QueueId)
  | remove (key : Key)
  | registerWaker (q : QueueId) (w : Waker)
  | pop (q : QueueId)
  /-- The worker sets up its signal descriptor, or fails to. -/
  | started (ok : Bool)
  | interrupted
  /-- `poll_events` returns. -/
  | events (events : List PolledEvent)
  /-- The tasks have run in the shutdown loop; some are still pending. -/
  | tasks (running : Bool)
  /-- The next step of the worker. -/
  | next
  deriving DecidableEq, Repr

/-- `broadcast(128)`. The worker's own receiver never receives, so nothing
leaves the channel. -/
def notificationCapacity : ℕ := 128

/-- `broadcast_blocking`: blocks when the channel is full. -/
def notify (s : State) (n : Notification) : Option State :=
  if s.notifications.length < notificationCapacity then
    some { s with notifications := s.notifications ++ [n] }
  else none

/-- The loop decides to stop. -/
def State.decide (s : State) (pc : Pc) : State := { s with pc, decided := Registry.queues s.registry }

/-- `broadcast_and_wake`, to the queues registered now. -/
def State.broadcast (s : State) (eventType : EventType) : State :=
  { s with queues := broadcastAndWake s.registry s.queues eventType }

/-- One event of a batch. -/
def handle (s : State) : PolledEvent → Option State
  | .message => some { s with shouldRecv := true }
  | .other => some s
  | .signal signal =>
    match signal.notification with
    | none => some s
    | some .shutdown => some ({ s with status := .stopping }.broadcast .shutdown)
    | some .kill => some (s.decide .returned)
    | some n => notify s n

/-- One message of the main loop. -/
def receive (s : State) : Message → State
  | .shutdown => { s with status := .stopping }
  | .kill => s.decide .returned
  | .other => s

/-- One message of the shutdown loop. -/
def shutdownReceive (s : State) : Message → State
  | .kill => { s with pc := .returned, status := .stopped }
  | .shutdown | .other => s

/-- The next step of the worker, if it is its turn. -/
def next (s : State) : Option State :=
  match s.pc with
  | .handle [] => some { s with pc := .recv }
  | .handle (event :: events) => handle { s with pc := .handle events } event
  | .recv =>
    match s.shouldRecv, s.channel with
    | true, msg :: channel => some (receive { s with channel } msg)
    | _, _ => some { s with pc := .run }
  | .run =>
    some (if s.status = .stopping then s.decide .announceQueues
      else { s with pc := .poll, status := .idle, shouldRecv := false })
  | .announceQueues => some { s.broadcast .shutdown with pc := .announce }
  | .announce => notify { s with pc := .shutdownRecv } .shutdown
  | .shutdownRecv =>
    match s.channel with
    | msg :: channel => some (shutdownReceive { s with channel } msg)
    | [] => some { s with pc := .shutdownRun }
  | .returned => some { s with pc := if s.status = .stopping then .stop else .kill }
  | .kill => notify { s with pc := .killQueues } .kill
  | .killQueues => some { s.broadcast .kill with pc := .stop }
  | .stop => some { s with pc := .stopped, status := .stopped }
  | .start | .poll | .shutdownRun | .stopped => none

/-- One act. -/
def step (s : State) : Act → Option State
  | .send msg => some { s with channel := s.channel ++ [msg] }
  | .register key q => some { s with registry := Registry.register s.registry key q }
  | .remove key => some { s with registry := Registry.remove s.registry key }
  | .registerWaker q w =>
    some { s with
      queues := Function.update s.queues q { s.queues q with wakerQueue := (s.queues q).wakerQueue ++ [w] } }
  | .pop q =>
    some { s with queues := Function.update s.queues q { s.queues q with queue := (s.queues q).queue.tail } }
  | .started ok =>
    match s.pc with
    | .start => some (if ok then { s with pc := .poll, status := .idle } else s.decide .returned)
    | _ => none
  | .interrupted =>
    match s.pc with
    | .poll => some { s with status := .idle }
    | _ => none
  | .events events =>
    match s.pc with
    | .poll => some { s with pc := .handle events, status := .busy }
    | _ => none
  | .tasks running =>
    match s.pc with
    | .shutdownRun =>
      some (if running then { s with pc := .shutdownRecv } else { s with pc := .returned, registry := [] })
    | _ => none
  | .next => next s

/-! ### Broadcasts -/

/-- The queue was pushed, and woken with, an event that says that the worker
stops. -/
def Told (queues : QueueId → EventQueue) (q : QueueId) : Prop :=
  ∃ t ∈ (queues q).told, t.1.eventType = .shutdown ∨ t.1.eventType = .kill

instance (queues : QueueId → EventQueue) (q : QueueId) : Decidable (Told queues q) :=
  inferInstanceAs (Decidable (∃ t ∈ (queues q).told, _ ∨ _))

theorem told_update_push {queues : QueueId → EventQueue} {q : QueueId} (entry : Key × QueueId)
    (eventType : EventType) (h : Told queues q) :
    Told (Function.update queues entry.2 ((queues entry.2).pushAndWake ⟨eventType, entry.1⟩)) q := by
  obtain ⟨t, ht, htype⟩ := h
  by_cases hq : q = entry.2
  · subst hq
    refine ⟨t, ?_, htype⟩
    rw [Function.update_self]
    exact List.mem_append_left _ ht
  · exact ⟨t, by rwa [Function.update_of_ne hq], htype⟩

theorem told_update {queues : QueueId → EventQueue} {p q : QueueId} {queue : EventQueue}
    (htold : queue.told = (queues p).told) (h : Told queues q) : Told (Function.update queues p queue) q := by
  obtain ⟨t, ht, htype⟩ := h
  refine ⟨t, ?_, htype⟩
  by_cases hq : q = p
  · subst hq
    rwa [Function.update_self, htold]
  · rwa [Function.update_of_ne hq]

/-- A broadcast leaves told who was told. -/
theorem told_broadcast {q : QueueId} {eventType : EventType} (registry : Registry) :
    ∀ {queues : QueueId → EventQueue}, Told queues q → Told (broadcastAndWake registry queues eventType) q := by
  induction registry with
  | nil => exact fun h => h
  | cons entry registry ih => exact fun h => ih (told_update_push entry eventType h)

/-- A broadcast tells every queue that is registered. -/
theorem told_of_mem {q : QueueId} {eventType : EventType} (htype : eventType = .shutdown ∨ eventType = .kill)
    {registry : Registry} : ∀ {queues : QueueId → EventQueue}, q ∈ registry.queues →
    Told (broadcastAndWake registry queues eventType) q := by
  induction registry with
  | nil => exact fun h => by cases h
  | cons entry registry ih =>
    intro queues hq
    rcases List.mem_cons.mp hq with rfl | hq
    · refine told_broadcast registry ⟨(⟨eventType, entry.1⟩, (queues entry.2).wakerQueue), ?_, htype⟩
      simp only [Function.update_self]
      exact List.mem_append_right _ List.mem_cons_self
    · exact ih hq

/-! ### What a stop announces -/

/-- The receivers have been told that the worker stops. -/
def Notified (s : State) : Prop := .shutdown ∈ s.notifications ∨ .kill ∈ s.notifications

/-- By the time the worker is `Stopped`, a notification says so, and every
queue that was registered when the loop decided to stop has been told. -/
def Announced (s : State) : Prop :=
  s.status = .stopped → Notified s ∧ ∀ q ∈ s.decided, Told s.queues q

/-- The loop has decided to stop, and the queues are still to be told. -/
def State.owes (s : State) : Bool :=
  match s.pc with
  | .announceQueues => true
  | .returned => s.status != .stopping && s.status != .stopped
  | .kill | .killQueues => s.status != .stopped
  | _ => false

/-- The queues that are still to be told stay registered. -/
def Keeps (s : State) (registry : Registry) : Prop :=
  s.owes = true → ∀ q ∈ s.decided, q ∈ Registry.queues s.registry → Told s.queues q ∨ q ∈ Registry.queues registry

instance (s : State) (registry : Registry) : Decidable (Keeps s registry) :=
  inferInstanceAs (Decidable (_ → ∀ q ∈ s.decided, _))

/-- The main loop receives no `Kill` when it has been told to shut down, and
no queue that is still to be told is removed or replaced. -/
def Heeds (s : State) : Act → Prop
  | .next => s.pc = .recv → s.shouldRecv = true → s.channel.head? = some .kill → s.status ≠ .stopping
  | .remove key => Keeps s (Registry.remove s.registry key)
  | .register key q => Keeps s (Registry.register s.registry key q)
  | _ => True

instance (s : State) : ∀ a, Decidable (Heeds s a)
  | .next | .remove _ | .register _ _ => by dsimp only [Heeds]; infer_instance
  | .send _ | .registerWaker _ _ | .pop _ | .started _ | .interrupted | .events _ | .tasks _ => instDecidableTrue

/-- All queues have been told. -/
def AllTold (s : State) : Prop := ∀ q ∈ s.decided, Told s.queues q

/-- A queue that has not been told is still registered. -/
def Pending (s : State) : Prop := ∀ q ∈ s.decided, Told s.queues q ∨ q ∈ Registry.queues s.registry

/-- What has been announced where. -/
def Inv (s : State) : Prop :=
  match s.pc with
  | .start => s.status = .starting
  | .poll | .handle _ | .recv | .run => s.status ≠ .stopped
  | .announceQueues => s.status = .stopping ∧ Pending s
  | .announce => s.status = .stopping ∧ AllTold s
  | .shutdownRecv | .shutdownRun => s.status = .stopping ∧ Notified s ∧ AllTold s
  | .returned =>
    (s.status = .stopping ∨ s.status = .stopped → Notified s ∧ AllTold s) ∧
      (s.status ≠ .stopping → s.status ≠ .stopped → Pending s)
  | .kill => (s.status = .stopped → Notified s ∧ AllTold s) ∧ (s.status ≠ .stopped → Pending s)
  | .killQueues => Notified s ∧ (s.status = .stopped → AllTold s) ∧ (s.status ≠ .stopped → Pending s)
  | .stop | .stopped => Notified s ∧ AllTold s

theorem Inv.announced {s : State} (hs : Inv s) : Announced s := by
  intro hst
  cases hp : s.pc <;> simp only [Inv, hp, hst] at hs
  case returned => exact hs.1 (Or.inr trivial)
  case kill => exact hs.1 trivial
  case killQueues => exact ⟨hs.1, hs.2.1 trivial⟩
  case stop => exact hs
  case stopped => exact hs
  case announceQueues => cases hs.1
  case announce => cases hs.1
  case shutdownRecv => cases hs.1
  case shutdownRun => cases hs.1
  case start => cases hs
  all_goals exact absurd rfl hs

/-- Steps that leave the worker where it is. -/
theorem inv_of_same {s s' : State} (hs : Inv s) (hpc : s'.pc = s.pc) (hstatus : s'.status = s.status)
    (hnotifications : s'.notifications = s.notifications) (hdecided : s'.decided = s.decided)
    (htold : ∀ q, Told s.queues q → Told s'.queues q)
    (hkeeps : Keeps s s'.registry) : Inv s' := by
  have hall : AllTold s → AllTold s' := fun h q hq => htold q (h q (hdecided ▸ hq))
  have hnot : Notified s → Notified s' := fun h => by rwa [Notified, hnotifications]
  have hboth : Notified s ∧ AllTold s → Notified s' ∧ AllTold s' := fun h => ⟨hnot h.1, hall h.2⟩
  have hpending : s.owes = true → Pending s → Pending s' := by
    intro ho h q hq
    rw [hdecided] at hq
    rcases h q hq with htold' | hmem
    · exact Or.inl (htold q htold')
    · exact (hkeeps ho q hq hmem).imp_left (htold q)
  cases hp : s.pc <;> simp only [Inv, hp] at hs <;> simp only [Inv, hpc, hp, hstatus]
  case announceQueues => exact ⟨hs.1, hpending (by simp [State.owes, hp]) hs.2⟩
  case announce => exact ⟨hs.1, hall hs.2⟩
  case shutdownRecv => exact ⟨hs.1, hboth hs.2⟩
  case shutdownRun => exact ⟨hs.1, hboth hs.2⟩
  case returned =>
    exact ⟨fun h => hboth (hs.1 h), fun hstop hst =>
      hpending (by simpa [State.owes, hp] using ⟨hstop, hst⟩) (hs.2 hstop hst)⟩
  case kill =>
    exact ⟨fun h => hboth (hs.1 h), fun hst => hpending (by simpa [State.owes, hp] using hst) (hs.2 hst)⟩
  case killQueues =>
    exact ⟨hnot hs.1, fun h => hall (hs.2.1 h),
      fun hst => hpending (by simpa [State.owes, hp] using hst) (hs.2.2 hst)⟩
  case stop => exact hboth hs
  case stopped => exact hboth hs
  all_goals exact hs

theorem notify_cases {s s' : State} {n : Notification} (h : notify s n = some s') :
    s' = { s with notifications := s.notifications ++ [n] } := by
  unfold notify at h
  split at h <;> cases h
  rfl

theorem notification_ne_kill (signal : Signal) : signal.notification ≠ some .kill := by
  cases signal <;> simp [Signal.notification]

theorem decide_pending (s : State) (pc : Pc) : Pending (s.decide pc) := fun _ hq => Or.inr hq

/-- An event leaves the worker in its batch. -/
theorem inv_handle {s s' : State} {event : PolledEvent} {events : List PolledEvent} (hpc : s.pc = .handle events)
    (hst : s.status ≠ .stopped) (h : handle s event = some s') : Inv s' := by
  have hin : ∀ {s'' : State}, s''.pc = .handle events → s''.status ≠ .stopped → Inv s'' := fun hpc hst => by
    simpa only [Inv, hpc] using hst
  cases event with
  | message => cases h; exact hin hpc hst
  | other => cases h; exact hin hpc hst
  | signal signal =>
    simp only [handle] at h
    split at h
    · cases h
      exact hin hpc hst
    · cases h
      exact hin hpc (by simp [State.broadcast])
    · rename_i hkill
      exact absurd hkill (notification_ne_kill signal)
    · rw [notify_cases h]
      exact hin hpc hst

/-- A queue that has not been told and is registered is told by a broadcast. -/
theorem allTold_broadcast {s : State} {eventType : EventType}
    (htype : eventType = .shutdown ∨ eventType = .kill) (hs : Pending s) : AllTold (s.broadcast eventType) := by
  intro q hq
  rcases hs q hq with htold | hmem
  · exact told_broadcast s.registry htold
  · exact told_of_mem htype hmem

theorem notified_append {s : State} (n : Notification) (hn : n = .shutdown ∨ n = .kill) :
    Notified { s with notifications := s.notifications ++ [n] } := by
  rcases hn with rfl | rfl
  · exact Or.inl (List.mem_append_right _ (List.mem_singleton.mpr rfl))
  · exact Or.inr (List.mem_append_right _ (List.mem_singleton.mpr rfl))

/-- The loop returns as it is told to, and not as it has finished. -/
theorem inv_returned (s : State) (hstop : s.status ≠ .stopping) (hst : s.status ≠ .stopped) :
    Inv (s.decide .returned) :=
  ⟨fun h => h.elim (fun h => absurd h hstop) (fun h => absurd h hst), fun _ _ => decide_pending s _⟩

/-- A message of the main loop: a `Kill` finds a worker that was not told to
shut down. -/
theorem inv_receive {s : State} {msg : Message} {channel : List Message} (hpc : s.pc = .recv)
    (hst : s.status ≠ .stopped) (hkill : msg = .kill → s.status ≠ .stopping) :
    Inv (receive { s with channel } msg) := by
  cases msg with
  | shutdown => simp [receive, Inv, hpc]
  | other => simpa only [receive, Inv, hpc] using hst
  | kill => exact inv_returned { s with channel } (hkill rfl) hst

/-- A message of the shutdown loop, which has made the announcement. -/
theorem inv_shutdownReceive {s : State} (msg : Message) (hpc : s.pc = .shutdownRecv) (hst : s.status = .stopping)
    (hnot : Notified s) (hall : AllTold s) : Inv (shutdownReceive s msg) := by
  cases msg with
  | kill => exact ⟨fun _ => ⟨hnot, hall⟩, fun _ hne => absurd rfl hne⟩
  | shutdown =>
    simp only [shutdownReceive, Inv, hpc]
    exact ⟨hst, hnot, hall⟩
  | other =>
    simp only [shutdownReceive, Inv, hpc]
    exact ⟨hst, hnot, hall⟩

theorem inv_next {s s' : State} (hs : Inv s) (hh : Heeds s .next) (h : next s = some s') : Inv s' := by
  obtain ⟨pc, status, channel, shouldRecv, notifications, registry, queues, decided⟩ := s
  cases pc with
  | handle events =>
    cases events with
    | nil =>
      cases h
      exact hs
    | cons event events =>
      exact inv_handle (s := ⟨.handle events, status, channel, shouldRecv, notifications, registry, queues, decided⟩)
        rfl hs h
  | recv =>
    cases shouldRecv with
    | false =>
      cases h
      exact hs
    | true =>
      cases channel with
      | nil =>
        cases h
        exact hs
      | cons msg channel =>
        cases h
        refine inv_receive rfl hs ?_
        rintro rfl
        exact hh rfl rfl rfl
  | run =>
    by_cases hstop : status = .stopping
    · simp only [next, if_pos hstop] at h
      cases h
      exact ⟨hstop, decide_pending _ _⟩
    · simp only [next, if_neg hstop] at h
      cases h
      simp [Inv]
  | announceQueues =>
    cases h
    exact ⟨hs.1, allTold_broadcast (Or.inl rfl) hs.2⟩
  | announce =>
    rw [notify_cases h]
    exact ⟨hs.1, notified_append _ (Or.inl rfl), hs.2⟩
  | shutdownRecv =>
    cases channel with
    | nil =>
      cases h
      exact hs
    | cons msg channel =>
      cases h
      exact inv_shutdownReceive msg rfl hs.1 hs.2.1 hs.2.2
  | returned =>
    cases h
    by_cases hstop : status = .stopping
    · simp only [Inv, if_pos hstop]
      exact hs.1 (Or.inl hstop)
    · simp only [Inv, if_neg hstop]
      exact ⟨fun hst => hs.1 (Or.inr hst), hs.2 hstop⟩
  | kill =>
    rw [notify_cases h]
    exact ⟨notified_append _ (Or.inr rfl), fun hst => (hs.1 hst).2, hs.2⟩
  | killQueues =>
    cases h
    refine ⟨hs.1, ?_⟩
    by_cases hst : status = .stopped
    · exact fun q hq => told_broadcast registry (hs.2.1 hst q hq)
    · exact allTold_broadcast (Or.inr rfl) (hs.2.2 hst)
  | stop =>
    cases h
    exact hs
  | start | poll | shutdownRun | stopped => cases h

/-- What one step preserves. -/
theorem inv_step {s s' : State} {a : Act} (hs : Inv s) (hh : Heeds s a) (h : step s a = some s') : Inv s' := by
  cases a with
  | next => exact inv_next hs hh h
  | send msg =>
    cases h
    exact inv_of_same hs rfl rfl rfl rfl (fun _ h => h) (fun _ _ _ => Or.inr)
  | register key q =>
    cases h
    exact inv_of_same hs rfl rfl rfl rfl (fun _ h => h) hh
  | remove key =>
    cases h
    exact inv_of_same hs rfl rfl rfl rfl (fun _ h => h) hh
  | registerWaker q w =>
    cases h
    exact inv_of_same hs rfl rfl rfl rfl (fun _ => told_update rfl) (fun _ _ _ => Or.inr)
  | pop q =>
    cases h
    exact inv_of_same hs rfl rfl rfl rfl (fun _ => told_update rfl) (fun _ _ _ => Or.inr)
  | started ok =>
    simp only [step] at h
    split at h <;> cases h
    rename_i hpc
    simp only [Inv, hpc] at hs
    cases ok with
    | true => simp [Inv]
    | false => exact inv_returned s (by simp [hs]) (by simp [hs])
  | interrupted =>
    simp only [step] at h
    split at h <;> cases h
    rename_i hpc
    simp [Inv, hpc]
  | events events =>
    simp only [step] at h
    split at h <;> cases h
    simp [Inv]
  | tasks running =>
    simp only [step] at h
    split at h <;> cases h
    rename_i hpc
    simp only [Inv, hpc] at hs
    cases running with
    | true => exact hs
    | false => exact ⟨fun _ => hs.2, fun _ _ q hq => Or.inl (hs.2.2 q hq)⟩

/-- **In a run that heeds the condition, every stop is announced.** -/
theorem announced_of_heeds (as : List Act) (h : Taken step Heeds State.init as) :
    Along step Announced State.init as :=
  along_of_invariant (fun _ _ _ hs hh h => inv_step hs hh h) (fun _ hs => hs.announced) rfl h

/-- A queue is registered and waited for; the worker is told to shut down, and
a `Kill` comes after that. -/
def shutdownThenKill : List Act :=
  [.register 5 0, .registerWaker 0 7, .started true, .send .shutdown, .events [.message], .next, .next, .next,
    .next, .next, .send .kill, .next, .next, .next, .next, .next, .next, .next]

theorem announced_shutdownThenKill :
    (run step State.init shutdownThenKill).any (fun s => s.pc = .stopped) = true ∧
      Along step Announced State.init shutdownThenKill :=
  ⟨by decide, announced_of_heeds shutdownThenKill (by decide)⟩

/-- The same with both messages in one batch. -/
def shutdownWithKill : List Act :=
  [.register 5 0, .registerWaker 0 7, .started true, .send .shutdown, .send .kill, .events [.message], .next,
    .next,
    .next, .next, .next, .next]

theorem announced_fails : ¬ Along step Announced State.init shutdownWithKill := by
  intro h
  obtain ⟨s, hs, hstopped, hsilent⟩ : ∃ s ∈ run step State.init shutdownWithKill,
      s.status = .stopped ∧ s.notifications = [] := by decide
  rw [← List.append_nil shutdownWithKill] at h
  have hnotified := ((h.of_run hs).head hstopped).1
  simp [Notified, hsilent] at hnotified

end Announce
end ClAsync
