/-
# Event queues

The `EventQueueRegistry` of a worker maps the keys of the poller to
`EventQueue`s. In one iteration of its loop the worker polls a batch of
events, pushes each to the queue of its key, then wakes the queues that got
one, and only then runs its tasks. A `NextEventFuture` that is polled takes
the oldest event, or leaves its waker with the queue; `wake` takes all wakers
at once. A signal that shuts the worker down is read in the middle of a
batch, and pushes an event to every queue and wakes it on the spot.

All of this is one thread: the tasks register and remove queues, and poll
and drop futures, between the wake-ups and the next poll. Queues are numbered,
and so are the futures, which go on in a list with the phase of their life.
`returned` is the record of the events that futures returned. `pushed` is that
of the events due to each queue: a step writes it down from the polled event
and the registry it finds (`arrivals`), whatever it makes of the event.

Key definitions: `EventQueue`, `State`, `Act`, `advance`, `arrivals`, `step`.
Key theorem: `advance_cases`, the steps one by one.
-/
import ClAsync.Io.Completion
import ClAsync.Lib.Runs
import ClAsync.Lib.Wakers
import Mathlib.Logic.Function.Basic

namespace ClAsync

/-! ### Events and queues -/

/-- `EventType`: the bits of `EPOLLIN` and so on, and two of its own. -/
abbrev EventType := Int32

namespace EventType

def rdhup : EventType := 0x2000
def shutdown : EventType := rdhup <<< 1
def kill : EventType := rdhup <<< 2

end EventType

/-- `Event`: what happened to the source of the key. -/
structure Event where
  eventType : EventType
  key : Key
  deriving DecidableEq, Repr

/-- `EventQueue`: events, and the wakers of those that wait for one. -/
structure EventQueue where
  queue : List Event
  wakerQueue : List Waker
  deriving DecidableEq, Repr

namespace EventQueue

/-- `EventQueue::new`. -/
def new : EventQueue := ⟨[], []⟩

/-- `EventQueue::push`. -/
def push (q : EventQueue) (event : Event) : EventQueue := { q with queue := q.queue ++ [event] }

/-- `EventQueue::pop`. -/
def pop (q : EventQueue) : Option Event × EventQueue :=
  match q.queue with
  | [] => (none, q)
  | event :: queue => (some event, { q with queue })

/-- `EventQueue::register_waker`. -/
def registerWaker (q : EventQueue) (waker : Waker) : EventQueue :=
  { q with wakerQueue := q.wakerQueue ++ [waker] }

end EventQueue

/-- A `NextEventFuture`; its data is the number of its queue. -/
abbrev NextEventFuture := Wakers.Future Empty ℕ

namespace Dispatch

/-! ### The worker -/

/-- Where the worker is: in `epoll_wait`; at an event of its batch; at a queue
to wake; at its messages and tasks; in the loop after its last iteration;
gone. -/
inductive Pc
  | poll
  | push (events : List Event)
  | wake
  | tasks
  | shutdown
  | stopped
  deriving DecidableEq, Repr

/-- An event that a future returned. -/
structure Returned where
  future : ℕ
  queue : ℕ
  event : Event
  deriving DecidableEq, Repr

/-- A worker with its event queues, and the futures that wait on them. -/
structure State where
  pc : Pc
  messageChannelKey : Key
  ioChannelKey : Key
  sfdKey : Key
  stopping : Bool
  queuesToWake : List Key
  registry : List (Key × ℕ)
  queues : ℕ → EventQueue
  futures : List NextEventFuture
  /-- The events that were due to each queue. -/
  pushed : ℕ → List Event
  returned : List Returned

/-- Before the first iteration. -/
def State.init (messageChannelKey ioChannelKey sfdKey : Key) : State :=
  ⟨.poll, messageChannelKey, ioChannelKey, sfdKey, false, [], [], fun _ => .new, [], fun _ => [], []⟩

namespace State

/-- `EventQueue::push`. -/
def push (s : State) (q : ℕ) (event : Event) : State :=
  { s with queues := Function.update s.queues q ((s.queues q).push event) }

/-- `EventQueue::wake`. -/
def wake (s : State) (q : ℕ) : State :=
  { s with
    queues := Function.update s.queues q { s.queues q with wakerQueue := [] }
    futures := Wakers.wakeAll (s.queues q).wakerQueue s.futures }

/-- `EventQueueRegistry::push_event`, and the key to wake if there is a queue. -/
def pushEvent (s : State) (event : Event) : State :=
  match s.registry.lookup event.key with
  | some q => { s.push q event with queuesToWake := s.queuesToWake ++ [event.key] }
  | none => s

/-- `EventQueueRegistry::wake`. -/
def wakeKey (s : State) (key : Key) : State :=
  match s.registry.lookup key with
  | some q => s.wake q
  | none => s

/-- `EventQueueRegistry::broadcast_and_wake`, over the entries in the order of
the map. -/
def broadcastAndWake (s : State) (eventType : EventType) : List (Key × ℕ) → State
  | [] => s
  | (key, q) :: entries => ((s.push q ⟨eventType, key⟩).wake q).broadcastAndWake eventType entries

/-- `EventQueueRegistry::register`, `remove`. -/
def register (s : State) (key : Key) (q : ℕ) : State :=
  { s with registry := (key, q) :: s.registry.filter fun entry => entry.1 ≠ key }

/-- `EventQueueRegistry::remove`. -/
def remove (s : State) (key : Key) : State :=
  { s with registry := s.registry.filter fun entry => entry.1 ≠ key }

/-- `worker_loop` returns, and drops the executor with its tasks. -/
def stop (s : State) : State := { s with pc := .stopped, futures := s.futures.map Wakers.Future.drop }

/-- `NextEventFuture::poll` of the future `i`. -/
def pollFuture (s : State) (i : ℕ) (f : NextEventFuture) (waker : Waker) : State :=
  match (s.queues f.data).pop with
  | (some event, queue) =>
    { s with
      queues := Function.update s.queues f.data queue
      futures := s.futures.set i { f with phase := .ready }
      returned := s.returned ++ [⟨i, f.data, event⟩] }
  | (none, queue) =>
    { s with
      queues := Function.update s.queues f.data (queue.registerWaker waker)
      futures := s.futures.set i { f with phase := .pending, waker, woken := false } }

end State

/-! ### Steps -/

/-- What the read of the `signalfd` gives: an error, a signal that shuts down,
or another. -/
inductive SignalRead
  | failed
  | shutdown
  | other
  deriving DecidableEq, Repr

/-- What the worker does, and what is done with its queues. -/
inductive Act
  | poll (events : List Event)
  | push (signal : SignalRead) (order : List (Key × ℕ))
  | wake
  | repair (messageChannelKey : Key)
  | shutdown
  | kill (order : List (Key × ℕ))
  | iterate (order : List (Key × ℕ))
  | clear
  | register (key : Key) (queue : ℕ)
  | remove (key : Key)
  | nextEvent (queue : ℕ)
  | pollFuture (i : ℕ) (waker : Waker)
  | drop (i : ℕ)
  deriving DecidableEq, Repr

/-- An event of the batch; `order` is the order of the registry. -/
def dispatch (s : State) (event : Event) (events : List Event) (signal : SignalRead)
    (order : List (Key × ℕ)) : State :=
  let s := { s with pc := .push events }
  if event.key = s.messageChannelKey ∨ event.key = s.ioChannelKey then s
  else if event.key = s.sfdKey then
    match signal with
    | .failed => s
    | .shutdown => (({ s with stopping := true }).broadcastAndWake .shutdown order).pushEvent event
    | .other => s.pushEvent event
  else s.pushEvent event

/-- The tasks run here. -/
def Pc.runsTasks : Pc → Bool
  | tasks | shutdown => true
  | _ => false

/-- What a task does. -/
def runTask (s : State) : Act → Option State
  | .register key q => some (s.register key q)
  | .remove key => some (s.remove key)
  | .nextEvent q => some { s with futures := s.futures ++ [.new q] }
  | .pollFuture i waker =>
    match s.futures[i]? with
    | some f => if f.phase.canPoll then some (s.pollFuture i f waker) else none
    | none => none
  | .drop i =>
    match s.futures[i]? with
    | some f => if f.phase.canDrop then some { s with futures := s.futures.set i f.drop } else none
    | none => none
  | _ => none

/-- One step of the worker's thread. -/
def advance (s : State) (a : Act) : Option State :=
  match s.pc, a with
  | .poll, .poll events => some { s with pc := .push events }
  | .push [], .push _ _ => some { s with pc := .wake }
  | .push (event :: events), .push signal order =>
    if order.Perm s.registry then some (dispatch s event events signal order) else none
  | .wake, .wake =>
    match s.queuesToWake with
    | [] => some { s with pc := .tasks }
    | key :: keys => some (({ s with queuesToWake := keys }).wakeKey key)
  | .tasks, .repair messageChannelKey => some { s with messageChannelKey }
  | .tasks, .shutdown => some { s with stopping := true }
  | .tasks, .iterate order =>
    if s.stopping then
      if order.Perm s.registry then some { s.broadcastAndWake .shutdown order with pc := .shutdown } else none
    else some { s with pc := .poll }
  | .tasks, .kill order =>
    if s.stopping then some s.stop
    else if order.Perm s.registry then some (s.stop.broadcastAndWake .kill order) else none
  | .shutdown, .kill order =>
    -- The state is set to `Stopped` first, and so not found `Stopping` after the loop.
    if order.Perm s.registry then some (s.stop.broadcastAndWake .kill order) else none
  | .shutdown, .clear => some { s with registry := [] }.stop
  | pc, a => if pc.runsTasks then runTask s a else none

/-! ### What is due to the queues -/

/-- What a broadcast is to bring to the queue `q`: an event for each key that
is registered with it. -/
def broadcastTo (eventType : EventType) (order : List (Key × ℕ)) (q : ℕ) : List Event :=
  (order.filter fun entry => entry.2 = q).map fun entry => ⟨eventType, entry.1⟩

/-- What a polled event is to bring to `q`: itself, if its key is registered
with `q`. -/
def State.eventTo (s : State) (event : Event) (q : ℕ) : List Event :=
  if s.registry.lookup event.key = some q then [event] else []

/-- The events that the step `a` is to push to `q`. The worker keeps those of
its two channels, and one of the signal descriptor that it cannot read. -/
def arrivals (s : State) (a : Act) (q : ℕ) : List Event :=
  match a, s.pc with
  | .push signal order, .push (event :: _) =>
    if event.key = s.messageChannelKey ∨ event.key = s.ioChannelKey then []
    else if event.key = s.sfdKey then
      match signal with
      | .failed => []
      | .shutdown => broadcastTo .shutdown order q ++ s.eventTo event q
      | .other => s.eventTo event q
    else s.eventTo event q
  | .iterate order, .tasks => if s.stopping then broadcastTo .shutdown order q else []
  | .kill order, .tasks => if s.stopping then [] else broadcastTo .kill order q
  | .kill order, .shutdown => broadcastTo .kill order q
  | _, _ => []

/-- A step, with the record of what was due. -/
def step (s : State) (a : Act) : Option State :=
  (advance s a).map fun s' => { s' with pushed := fun q => s.pushed q ++ arrivals s a q }

/-! ### The steps one by one -/

/-- Everything an action can do, and where the worker is then. -/
inductive Advanced (s : State) : Act → State → Prop
  | poll (events : List Event) (hpc : s.pc = .poll) : Advanced s (.poll events) { s with pc := .push events }
  | endOfBatch (signal : SignalRead) (order : List (Key × ℕ)) (hpc : s.pc = .push []) :
      Advanced s (.push signal order) { s with pc := .wake }
  | dispatch (event : Event) (events : List Event) (signal : SignalRead) (order : List (Key × ℕ))
      (hpc : s.pc = .push (event :: events)) :
      Advanced s (.push signal order) (dispatch s event events signal order)
  | woken (hpc : s.pc = .wake) (hwake : s.queuesToWake = []) : Advanced s .wake { s with pc := .tasks }
  | wake (key : Key) (keys : List Key) (hpc : s.pc = .wake) (hwake : s.queuesToWake = key :: keys) :
      Advanced s .wake (({ s with queuesToWake := keys }).wakeKey key)
  | repair (messageChannelKey : Key) (hpc : s.pc = .tasks) :
      Advanced s (.repair messageChannelKey) { s with messageChannelKey }
  | shutdown (hpc : s.pc = .tasks) : Advanced s .shutdown { s with stopping := true }
  | leave (order : List (Key × ℕ)) (hpc : s.pc = .tasks) (hstop : s.stopping = true) :
      Advanced s (.iterate order) { s.broadcastAndWake .shutdown order with pc := .shutdown }
  | loop (order : List (Key × ℕ)) (hpc : s.pc = .tasks) (hstop : s.stopping = false) :
      Advanced s (.iterate order) { s with pc := .poll }
  | killStopping (order : List (Key × ℕ)) (hpc : s.pc = .tasks) (hstop : s.stopping = true) :
      Advanced s (.kill order) s.stop
  | kill (order : List (Key × ℕ)) (hpc : s.pc = .tasks ∧ s.stopping = false ∨ s.pc = .shutdown) :
      Advanced s (.kill order) (s.stop.broadcastAndWake .kill order)
  | clear (hpc : s.pc = .shutdown) : Advanced s .clear { s with registry := [] }.stop
  | task (a : Act) (s' : State) (hruns : s.pc.runsTasks = true) (h : runTask s a = some s') : Advanced s a s'

theorem advance_cases {s s' : State} {a : Act} (h : advance s a = some s') : Advanced s a s' := by
  have htask : (if s.pc.runsTasks then runTask s a else none) = some s' → Advanced s a s' := fun h => by
    obtain ⟨hruns, h⟩ := Option.ite_none_right_eq_some.mp h
    exact .task a s' hruns h
  obtain ⟨pc, messageChannelKey, ioChannelKey, sfdKey, stopping, queuesToWake, registry⟩ := s
  cases pc with
  | poll =>
    cases a with
    | poll events =>
      cases h
      exact .poll events rfl
    | _ => exact htask h
  | push events =>
    cases events with
    | nil =>
      cases a with
      | push signal order =>
        cases h
        exact .endOfBatch signal order rfl
      | _ => exact htask h
    | cons event events =>
      cases a with
      | push signal order =>
        obtain ⟨-, h⟩ := Option.ite_none_right_eq_some.mp h
        cases h
        exact .dispatch event events signal order rfl
      | _ => exact htask h
  | wake =>
    cases a with
    | wake =>
      cases queuesToWake with
      | nil =>
        cases h
        exact .woken rfl rfl
      | cons key keys =>
        cases h
        exact .wake key keys rfl rfl
    | _ => exact htask h
  | tasks =>
    cases a with
    | repair messageChannelKey =>
      cases h
      exact .repair messageChannelKey rfl
    | shutdown =>
      cases h
      exact .shutdown rfl
    | iterate order =>
      cases stopping with
      | true =>
        obtain ⟨-, h⟩ := Option.ite_none_right_eq_some.mp h
        cases h
        exact .leave order rfl rfl
      | false =>
        cases h
        exact .loop order rfl rfl
    | kill order =>
      cases stopping with
      | true =>
        cases h
        exact .killStopping order rfl rfl
      | false =>
        obtain ⟨-, h⟩ := Option.ite_none_right_eq_some.mp h
        cases h
        exact .kill order (Or.inl ⟨rfl, rfl⟩)
    | _ => exact htask h
  | shutdown =>
    cases a with
    | kill order =>
      obtain ⟨-, h⟩ := Option.ite_none_right_eq_some.mp h
      cases h
      exact .kill order (Or.inr rfl)
    | clear =>
      cases h
      exact .clear rfl
    | _ => exact htask h
  | stopped => exact htask h

end Dispatch

end ClAsync
