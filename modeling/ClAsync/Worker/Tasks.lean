/-
# The worker loop and its tasks

`worker_loop` again, seen from the tasks: the messages that spawn and wake
them, the executor, the state byte other threads choose a worker by, and the
way out of the loop. Of the I/O path nothing is left but that wakers are
called at any moment, which is a message like any other.

Both loops drain the channel, run the tasks that are ready and look whether
to go on (`recv`, `run`, `check`). A poll of a task has a beginning and an
end; between them anything can be sent, by the task or by others, and nothing
is received. When the worker has left its loop, its end of the channel is
still there for a moment (`leaving`) before `worker_loop` returns.

The history records what was spawned and finished, which ids were polled,
which were woken since their latest poll began, and the futures of all tasks
sent to the worker.

Key definitions: `Message`, `Pc`, `State`, `Act`, `step`.
Key theorem: `step_effect`, everything a step can do.
-/
import ClAsync.Task.Executor
import ClAsync.Worker.Loop

namespace ClAsync
namespace Tasks

variable {F : Type}

/-- `Message`, with the tasks; `other` is a message that has no part in them. -/
inductive Message (F : Type)
  | taskSpawner (future : F)
  | spawnTask (task : Task F)
  | spawnTasks (tasks : List (Task F))
  | wakeTask (id : TaskId)
  | shutdown
  | kill
  | other
  deriving DecidableEq, Repr

/-- The futures of the tasks the message brings. -/
def Message.futures : Message F → List F
  | taskSpawner future => [future]
  | spawnTask task => [task.future]
  | spawnTasks tasks => tasks.map Task.future
  | wakeTask _ | shutdown | kill | other => []

/-- The main loop, or the one after a shutdown. -/
inductive Loop
  | main
  | shutdown
  deriving DecidableEq, Repr

/-- Where the worker is. `check` is the test at the end of an iteration of
either loop. -/
inductive Pc (F : Type)
  | start
  | poll
  | recv (l : Loop)
  | run (l : Loop)
  | polling (l : Loop) (task : LocalTask F)
  | check (l : Loop)
  | leaving
  | returned
  | stopped
  deriving DecidableEq, Repr

/-- The task that is being polled. -/
def Pc.task : Pc F → List (LocalTask F)
  | polling _ task => [task]
  | _ => []

/-- `worker_loop` has returned, and its end of the channel is gone. -/
def Pc.isReturned : Pc F → Bool
  | returned | stopped => true
  | _ => false

/-- What has happened to tasks, and what has been sent. -/
structure History (F : Type) where
  spawned : List (LocalTask F)
  finished : List (LocalTask F)
  polled : Finset TaskId
  woken : Finset TaskId
  sent : List F
  deriving DecidableEq

/-- A task begins to be polled. -/
def History.beginPoll (h : History F) (task : LocalTask F) : History F :=
  { h with polled := insert task.id h.polled, woken := h.woken.erase task.id }

/-- The poll returns. -/
def History.endPoll (h : History F) (task : LocalTask F) : Poll Unit → History F
  | .ready () => { h with finished := h.finished ++ [task] }
  | .pending => h

/-- A worker with its executor, and their history. -/
structure State (F : Type) where
  pc : Pc F
  status : WorkerState
  channel : List (Message F)
  shouldRecv : Bool
  executor : Executor F
  history : History F
  deriving DecidableEq

/-- A worker whose thread has been started. -/
def State.init : State F := ⟨.start, .starting, [], false, .new, ⟨[], [], ∅, ∅, []⟩⟩

/-- What the worker does, and what others send to it. -/
inductive Act (F : Type)
  | send (msg : Message F)
  /-- `worker_loop` sets up its signal descriptor, or fails to. -/
  | started (ok : Bool)
  /-- `poll_events` is interrupted. -/
  | interrupted
  /-- `poll_events` returns, with an event of the message channel and a signal
  to shut down, or without. -/
  | events (message shutdown : Bool)
  /-- The next message; `newId` is what `TaskId::new` gives if it is asked. -/
  | receive (newId : TaskId)
  /-- The poll of the task returns. -/
  | polled (result : Poll Unit)
  /-- The next step of the loop. -/
  | next
  deriving DecidableEq, Repr

/-- The step neither sends nor receives a message. -/
def Act.isLocal : Act F → Bool
  | send _ | receive _ => false
  | _ => true

/-! ### Messages -/

/-- The tasks a message makes the executor spawn. -/
def Message.tasks (newId : TaskId) : Message F → List (LocalTask F)
  | taskSpawner future => [⟨future, newId⟩]
  | spawnTask task => [task.intoLocal]
  | spawnTasks tasks => tasks.map Task.intoLocal
  | wakeTask _ | shutdown | kill | other => []

/-- The executor spawns tasks. -/
def State.spawn (s : State F) (tasks : List (LocalTask F)) : State F :=
  { s with
    executor := tasks.foldl Executor.spawn s.executor
    history := { s.history with spawned := s.history.spawned ++ tasks } }

/-- A message, in the main loop or in the shutdown loop. -/
def receive (s : State F) (l : Loop) (newId : TaskId) : Message F → State F
  | .taskSpawner future => s.spawn [⟨future, newId⟩]
  | .spawnTask task => s.spawn [task.intoLocal]
  | .spawnTasks tasks => s.spawn (tasks.map Task.intoLocal)
  | .wakeTask id => { s with executor := s.executor.wakeTask id }
  | .kill =>
    match l with
    | .main => { s with pc := .leaving }
    | .shutdown => { s with pc := .leaving, status := .stopped }
  | .shutdown =>
    match l with
    | .main => { s with status := .stopping }
    | .shutdown => s
  | .other => s

/-- `send_message`, unless the other end of the channel is gone. -/
def send (s : State F) (msg : Message F) : State F :=
  { s with
    channel := s.channel ++ [msg]
    history := { s.history with
      sent := s.history.sent ++ msg.futures
      woken := match msg with
        | .wakeTask id => insert id s.history.woken
        | _ => s.history.woken } }

/-- The loop stops receiving: the channel is empty, or the main loop has not
been told of a message. -/
def State.drained (s : State F) : Loop → Bool
  | .main => !s.shouldRecv || s.channel.isEmpty
  | .shutdown => s.channel.isEmpty

/-! ### Steps -/

/-- The steps the worker takes by itself. -/
def next (s : State F) : Option (State F) :=
  match s.pc with
  | .recv l => if s.drained l then some { s with pc := .run l } else none
  | .run l =>
    match s.executor.readyTasks with
    | [] => some { s with pc := .check l }
    | task :: readyTasks =>
      some { s with
        pc := .polling l task
        executor := { s.executor with readyTasks }.beginPoll task
        history := s.history.beginPoll task }
  | .check .main =>
    some (if s.status = .stopping then { s with pc := .recv .shutdown }
      else { s with pc := .poll, status := .idle, shouldRecv := false })
  | .check .shutdown =>
    some { s with pc := if s.executor.hasRunningTasks then .recv .shutdown else .leaving }
  | .leaving => some { s with pc := .returned }
  | .returned => some { s with pc := .stopped, status := .stopped }
  | .start | .poll | .polling _ _ | .stopped => none

/-- One act. -/
def step (s : State F) : Act F → Option (State F)
  | .send msg => if s.pc.isReturned then none else some (send s msg)
  | .started ok =>
    match s.pc with
    | .start => some (if ok then { s with pc := .poll, status := .idle } else { s with pc := .leaving })
    | _ => none
  | .interrupted =>
    match s.pc with
    | .poll => some { s with status := .idle }
    | _ => none
  | .events message shutdown =>
    match s.pc with
    | .poll =>
      some { s with
        pc := .recv .main, status := if shutdown then .stopping else .busy, shouldRecv := message }
    | _ => none
  | .receive newId =>
    match s.pc, s.channel with
    | .recv l, msg :: channel => if s.drained l then none else some (receive { s with channel } l newId msg)
    | _, _ => none
  | .polled result =>
    match s.pc with
    | .polling l task =>
      some { s with
        pc := .run l
        executor := s.executor.endPoll task result
        history := s.history.endPoll task result }
    | _ => none
  | .next => next s

/-! ### What a step does -/

/-- What each act leads to. -/
inductive Goes (s : State F) : Act F → State F → Prop
  | send (msg : Message F) (hpc : s.pc.isReturned = false) : Goes s (.send msg) (send s msg)
  | started (hpc : s.pc = .start) : Goes s (.started true) { s with pc := .poll, status := .idle }
  | notStarted (hpc : s.pc = .start) : Goes s (.started false) { s with pc := .leaving }
  | interrupted (hpc : s.pc = .poll) : Goes s .interrupted { s with status := .idle }
  | events (message shutdown : Bool) (hpc : s.pc = .poll) : Goes s (.events message shutdown)
      { s with pc := .recv .main, status := if shutdown then .stopping else .busy, shouldRecv := message }
  | receive (l : Loop) (newId : TaskId) (msg : Message F) (channel : List (Message F)) (hpc : s.pc = .recv l)
      (hchannel : s.channel = msg :: channel) (hdrained : s.drained l = false) :
      Goes s (.receive newId) (receive { s with channel } l newId msg)
  | polled (l : Loop) (task : LocalTask F) (result : Poll Unit) (hpc : s.pc = .polling l task) :
      Goes s (.polled result)
        { s with
          pc := .run l
          executor := s.executor.endPoll task result
          history := s.history.endPoll task result }
  /-- There is no message left to receive. -/
  | drained (l : Loop) (hpc : s.pc = .recv l) (hdrained : s.drained l = true) : Goes s .next { s with pc := .run l }
  /-- There is no task left to poll. -/
  | polledAll (l : Loop) (hpc : s.pc = .run l) (hready : s.executor.readyTasks = []) :
      Goes s .next { s with pc := .check l }
  | beginPoll (l : Loop) (task : LocalTask F) (readyTasks : List (LocalTask F)) (hpc : s.pc = .run l)
      (hready : s.executor.readyTasks = task :: readyTasks) :
      Goes s .next
        { s with
          pc := .polling l task
          executor := { s.executor with readyTasks }.beginPoll task
          history := s.history.beginPoll task }
  /-- The main loop ends with a shutdown. -/
  | shutdown (hpc : s.pc = .check .main) (hstatus : s.status = .stopping) :
      Goes s .next { s with pc := .recv .shutdown }
  | sleep (hpc : s.pc = .check .main) (hstatus : s.status ≠ .stopping) :
      Goes s .next { s with pc := .poll, status := .idle, shouldRecv := false }
  /-- The shutdown loop goes on while tasks are left. -/
  | goOn (hpc : s.pc = .check .shutdown) (hrunning : s.executor.hasRunningTasks = true) :
      Goes s .next { s with pc := .recv .shutdown }
  | finish (hpc : s.pc = .check .shutdown) (hrunning : s.executor.hasRunningTasks = false) :
      Goes s .next { s with pc := .leaving }
  | leave (hpc : s.pc = .leaving) : Goes s .next { s with pc := .returned }
  | stop (hpc : s.pc = .returned) : Goes s .next { s with pc := .stopped, status := .stopped }

theorem goes_of_next {s s' : State F} (h : next s = some s') : Goes s .next s' := by
  cases hpc : s.pc with
  | recv l =>
    simp only [next, hpc] at h
    split at h <;> cases h
    rename_i hdrained
    exact .drained l hpc hdrained
  | run l =>
    simp only [next, hpc] at h
    cases hready : s.executor.readyTasks with
    | nil =>
      simp only [hready] at h
      cases h
      exact .polledAll l hpc hready
    | cons task readyTasks =>
      simp only [hready] at h
      cases h
      exact .beginPoll l task readyTasks hpc hready
  | check l =>
    cases l with
    | main =>
      simp only [next, hpc] at h
      by_cases hstatus : s.status = .stopping
      · rw [if_pos hstatus] at h
        cases h
        exact .shutdown hpc hstatus
      · rw [if_neg hstatus] at h
        cases h
        exact .sleep hpc hstatus
    | shutdown =>
      simp only [next, hpc] at h
      cases h
      cases hrunning : s.executor.hasRunningTasks with
      | true => exact .goOn hpc hrunning
      | false => exact .finish hpc hrunning
  | leaving =>
    simp only [next, hpc] at h
    cases h
    exact .leave hpc
  | returned =>
    simp only [next, hpc] at h
    cases h
    exact .stop hpc
  | start | poll | polling | stopped =>
    simp only [next, hpc] at h
    cases h

theorem goes_of_step {s s' : State F} {a : Act F} (h : step s a = some s') : Goes s a s' := by
  cases a with
  | send msg =>
    obtain ⟨hpc, rfl⟩ : ¬ s.pc.isReturned = true ∧ send s msg = s' := by simpa [step] using h
    exact .send msg (Bool.eq_false_iff.mpr hpc)
  | started ok =>
    simp only [step] at h
    split at h <;> cases h
    rename_i hpc
    cases ok with
    | true => exact .started hpc
    | false => exact .notStarted hpc
  | interrupted =>
    simp only [step] at h
    split at h <;> cases h
    rename_i hpc
    exact .interrupted hpc
  | events message shutdown =>
    simp only [step] at h
    split at h <;> cases h
    rename_i hpc
    exact .events message shutdown hpc
  | receive newId =>
    simp only [step] at h
    split at h
    · rename_i l msg channel hpc hchannel
      split at h <;> cases h
      rename_i hdrained
      exact .receive l newId msg channel hpc hchannel (Bool.eq_false_iff.mpr hdrained)
    · cases h
  | polled result =>
    simp only [step] at h
    split at h <;> cases h
    rename_i l task hpc
    exact .polled l task result hpc
  | next => exact goes_of_next h

/-- What the step `a` does to the messages, the tasks and their history. -/
inductive Effect (a : Act F) (s s' : State F) : Prop
  | keep (ha : a.isLocal = true) (hchannel : s'.channel = s.channel) (hexecutor : s'.executor = s.executor)
      (hhistory : s'.history = s.history) (htask : s.pc.task = []) (htask' : s'.pc.task = [])
  | send (msg : Message F) (ha : a = .send msg) (hpc : s.pc.isReturned = false) (hs' : s' = send s msg)
  | receive (l : Loop) (newId : TaskId) (msg : Message F) (channel : List (Message F)) (ha : a = .receive newId)
      (hpc : s.pc = .recv l) (hchannel : s.channel = msg :: channel)
      (hs' : s' = receive { s with channel } l newId msg)
  | beginPoll (l : Loop) (task : LocalTask F) (readyTasks : List (LocalTask F)) (ha : a.isLocal = true)
      (hpc : s.pc = .run l) (hready : s.executor.readyTasks = task :: readyTasks) (hpc' : s'.pc = .polling l task)
      (hchannel : s'.channel = s.channel) (hexecutor : s'.executor = { s.executor with readyTasks }.beginPoll task)
      (hhistory : s'.history = s.history.beginPoll task)
  | endPoll (l : Loop) (task : LocalTask F) (result : Poll Unit) (ha : a.isLocal = true)
      (hpc : s.pc = .polling l task) (hpc' : s'.pc = .run l) (hchannel : s'.channel = s.channel)
      (hexecutor : s'.executor = s.executor.endPoll task result)
      (hhistory : s'.history = s.history.endPoll task result)

theorem step_effect {s s' : State F} {a : Act F} (h : step s a = some s') : Effect a s s' := by
  cases goes_of_step h with
  | send msg hpc => exact .send msg rfl hpc rfl
  | receive l newId msg channel hpc hchannel => exact .receive l newId msg channel rfl hpc hchannel rfl
  | polled l task result hpc => exact .endPoll l task result rfl hpc rfl rfl rfl rfl
  | beginPoll l task readyTasks hpc hready => exact .beginPoll l task readyTasks rfl hpc hready rfl rfl rfl rfl
  | interrupted hpc => exact .keep rfl rfl rfl rfl (by rw [hpc]; rfl) (by rw [hpc]; rfl)
  | started hpc | notStarted hpc | events _ _ hpc | drained _ hpc | polledAll _ hpc | shutdown hpc | sleep hpc
  | goOn hpc | finish hpc | leave hpc | stop hpc =>
    exact .keep rfl rfl rfl rfl (by rw [hpc]; rfl) rfl

/-- What a message does, by its kind. -/
theorem receive_executor (s : State F) (l : Loop) (newId : TaskId) (msg : Message F) :
    (receive s l newId msg).channel = s.channel ∧
      (receive s l newId msg).history = { s.history with spawned := s.history.spawned ++ msg.tasks newId } ∧
      (receive s l newId msg).executor = match msg with
        | .wakeTask id => s.executor.wakeTask id
        | _ => { s.executor with readyTasks := s.executor.readyTasks ++ msg.tasks newId } := by
  cases msg with
  | taskSpawner future => exact ⟨rfl, rfl, Executor.foldl_spawn _ _⟩
  | spawnTask task => exact ⟨rfl, rfl, Executor.foldl_spawn _ _⟩
  | spawnTasks tasks => exact ⟨rfl, rfl, Executor.foldl_spawn _ _⟩
  | wakeTask id => exact ⟨rfl, by simp [receive, Message.tasks], rfl⟩
  | shutdown => cases l <;> simp [receive, Message.tasks]
  | kill => cases l <;> simp [receive, Message.tasks]
  | other => simp [receive, Message.tasks]

theorem receive_task (s : State F) (l : Loop) (newId : TaskId) (msg : Message F) (h : s.pc = .recv l) :
    (receive s l newId msg).pc = .recv l ∨ (receive s l newId msg).pc = .leaving := by
  cases msg with
  | shutdown => cases l <;> exact Or.inl h
  | kill => cases l <;> exact Or.inr rfl
  | _ => exact Or.inl h

end Tasks
end ClAsync
