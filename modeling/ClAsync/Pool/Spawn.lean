/-
# The pool and its tasks

`ThreadPool::spawn` and `spawn_with`, called from any thread: a call draws
from the round-robin counter, looks at the state of the worker it has drawn,
and sends the task to the first one that is available. These are separate
steps, and the workers take theirs in between. `Task::new` gives the task of
a `spawn` its id before the call; a spawner's task gets one when its worker
receives it.

Every SpawnTask message is sent this way (`register_event_source` too makes
a task and sends it to `get_next_worker`); a worker's own steps and the
messages that bring no task come in between in any order.

Key definitions: `Stage`, `Call`, `State`, `Act`, `step`.
Key theorem: `step_cases`, what one step can do.
-/
import ClAsync.Lib.Wakers
import ClAsync.Pool.Dispatch
import ClAsync.Worker.Leaving

namespace ClAsync

/-- `SpawnTaskErrorKind`. -/
inductive SpawnTaskErrorKind
  | failedToGetWorker
  | failedToSendTask
  deriving DecidableEq, Repr

namespace Spawn

variable {F : Type}

/-- How far a call is: `left` probes remain to `get_next_worker`; it has drawn
the worker `id` and is to look at its state; it is to send the message; it
has returned `Ok`, or the task and an error. -/
inductive Stage
  | probing (left : ℕ)
  | probed (left id : ℕ)
  | chosen (id : ℕ)
  | sent (id : ℕ)
  | failed (kind : SpawnTaskErrorKind)
  deriving DecidableEq, Repr

/-- A call of `spawn` or `spawn_with`, with the message it sends. -/
structure Call (F : Type) where
  msg : Tasks.Message F
  stage : Stage
  deriving DecidableEq

/-- The workers, the ids of tasks, and the calls of `spawn` under way. -/
structure State (F : Type) where
  nextId : ℕ
  /-- How many ids `TaskId::new` has given. -/
  nextTaskId : ℕ
  workers : List (Tasks.State F)
  calls : List (Call F)
  deriving DecidableEq

/-- A pool whose `n` workers have been started. -/
def State.init (n : ℕ) : State F := ⟨0, 0, List.replicate n .init, []⟩

/-- A step of a call or of a worker. -/
inductive Act (F : Type)
  | spawn (future : F)
  | spawnWith (future : F)
  /-- The next step of a call. -/
  | call (i : ℕ)
  /-- A worker receives the next message. -/
  | receive (v : ℕ)
  /-- Another step of a worker, or a message to it that brings no task. -/
  | worker (v : ℕ) (a : Tasks.Act F)
  /-- Another user of the round-robin counter. -/
  | tick
  /-- Another user of `TaskId::new`. -/
  | newTaskId
  deriving DecidableEq

/-- The id `TaskId::new` gives next. -/
def State.taskId (s : State F) : TaskId := s.nextTaskId % u64Count

/-- `TaskId::new` is called when the message is received. -/
def makesId : Tasks.Message F → Bool
  | .taskSpawner _ => true
  | _ => false

/-- The steps of a worker that `Act.worker` stands for. -/
def isInner : Tasks.Act F → Bool
  | .receive _ => false
  | .send msg => msg.futures.isEmpty
  | _ => true

/-- One atomic step of a call. -/
def callStep (s : State F) (i : ℕ) (call : Call F) : Option (State F) :=
  let go := fun stage => { s with calls := s.calls.set i { call with stage } }
  match call.stage with
  | .probing 0 => some (go (.failed .failedToGetWorker))
  | .probing (left + 1) =>
    some { go (.probed left (s.nextId % s.workers.length)) with nextId := (s.nextId + 1) % u64Count }
  | .probed left id =>
    match s.workers[id]? with
    | none => some (go (.failed .failedToGetWorker))
    | some w => some (go (if Pool.available w.status then .chosen id else .probing left))
  | .chosen id =>
    s.workers[id]?.bind fun w =>
      match Tasks.step w (.send call.msg) with
      | none => some (go (.failed .failedToSendTask))
      | some w' => some { go (.sent id) with workers := s.workers.set id w' }
  | .sent _ | .failed _ => none

/-- One act. -/
def step (s : State F) : Act F → Option (State F)
  | .spawn future => some { s with
      nextTaskId := s.nextTaskId + 1
      calls := s.calls ++ [⟨.spawnTask ⟨future, s.taskId⟩, .probing s.workers.length⟩] }
  | .spawnWith future => some { s with
      calls := s.calls ++ [⟨.taskSpawner future, .probing s.workers.length⟩] }
  | .call i => s.calls[i]?.bind fun call => callStep s i call
  | .receive v => s.workers[v]?.bind fun w =>
      (Tasks.step w (.receive s.taskId)).map fun w' => { s with
        nextTaskId := s.nextTaskId + if w.channel.head?.any makesId then 1 else 0
        workers := s.workers.set v w' }
  | .worker v a => s.workers[v]?.bind fun w =>
      if isInner a then (Tasks.step w a).map fun w' => { s with workers := s.workers.set v w' } else none
  | .tick => some { s with nextId := (s.nextId + 1) % u64Count }
  | .newTaskId => some { s with nextTaskId := s.nextTaskId + 1 }

/-- Everything an action can do, as one relation. -/
inductive Step (s : State F) : Act F → State F → Prop
  | spawn (future : F) : Step s (.spawn future) { s with
      nextTaskId := s.nextTaskId + 1
      calls := s.calls ++ [⟨.spawnTask ⟨future, s.taskId⟩, .probing s.workers.length⟩] }
  | spawnWith (future : F) : Step s (.spawnWith future) { s with
      calls := s.calls ++ [⟨.taskSpawner future, .probing s.workers.length⟩] }
  | search (i : ℕ) (call : Call F) (stage : Stage) (nextId : ℕ) (hcall : s.calls[i]? = some call)
      (hstage : ∀ v, call.stage ≠ .sent v) (hstage' : ∀ v, stage ≠ .sent v) :
      Step s (.call i) { s with nextId, calls := s.calls.set i { call with stage } }
  | send (i : ℕ) (call : Call F) (id : ℕ) (w w' : Tasks.State F) (hcall : s.calls[i]? = some call)
      (hstage : call.stage = .chosen id) (hw : s.workers[id]? = some w)
      (hw' : Tasks.step w (.send call.msg) = some w') :
      Step s (.call i) { s with
        calls := s.calls.set i { call with stage := .sent id }
        workers := s.workers.set id w' }
  | receive (v : ℕ) (w w' : Tasks.State F) (hw : s.workers[v]? = some w)
      (hw' : Tasks.step w (.receive s.taskId) = some w') :
      Step s (.receive v) { s with
        nextTaskId := s.nextTaskId + if w.channel.head?.any makesId then 1 else 0
        workers := s.workers.set v w' }
  | worker (v : ℕ) (a : Tasks.Act F) (w w' : Tasks.State F) (hw : s.workers[v]? = some w)
      (ha : isInner a = true) (hw' : Tasks.step w a = some w') :
      Step s (.worker v a) { s with workers := s.workers.set v w' }
  | tick : Step s .tick { s with nextId := (s.nextId + 1) % u64Count }
  | newTaskId : Step s .newTaskId { s with nextTaskId := s.nextTaskId + 1 }

theorem callStep_cases {s s' : State F} {i : ℕ} {call : Call F} (hcall : s.calls[i]? = some call)
    (h : callStep s i call = some s') : Step s (.call i) s' := by
  cases hstage : call.stage with
  | probing left =>
    cases left with
    | zero =>
      simp only [callStep, hstage] at h
      cases h
      exact .search i call _ s.nextId hcall (fun v => by simp [hstage]) (fun v => by simp)
    | succ left =>
      simp only [callStep, hstage] at h
      cases h
      exact .search i call _ _ hcall (fun v => by simp [hstage]) (fun v => by simp)
  | probed left id =>
    simp only [callStep, hstage] at h
    split at h <;> cases h
    · exact .search i call _ s.nextId hcall (fun v => by simp [hstage]) (fun v => by simp)
    · refine .search i call _ s.nextId hcall (fun v => by simp [hstage]) fun v => ?_
      split <;> simp
  | chosen id =>
    simp only [callStep, hstage] at h
    obtain ⟨w, hw, h⟩ := Option.bind_eq_some_iff.mp h
    split at h <;> cases h
    · exact .search i call _ s.nextId hcall (fun v => by simp [hstage]) (fun v => by simp)
    · rename_i w' hw'
      exact .send i call id w w' hcall hstage hw hw'
  | sent | failed =>
    simp only [callStep, hstage] at h
    cases h

theorem step_cases {s s' : State F} {a : Act F} (h : step s a = some s') : Step s a s' := by
  cases a with
  | spawn future => cases h; exact .spawn future
  | spawnWith future => cases h; exact .spawnWith future
  | call i =>
    obtain ⟨call, hcall, h⟩ := Option.bind_eq_some_iff.mp h
    exact callStep_cases hcall h
  | receive v =>
    obtain ⟨w, hw, h⟩ := Option.bind_eq_some_iff.mp h
    obtain ⟨w', hw', rfl⟩ := Option.map_eq_some_iff.mp h
    exact .receive v w w' hw hw'
  | worker v a =>
    obtain ⟨w, hw, h⟩ := Option.bind_eq_some_iff.mp h
    simp only [Option.ite_none_right_eq_some] at h
    obtain ⟨ha, h⟩ := h
    obtain ⟨w', hw', rfl⟩ := Option.map_eq_some_iff.mp h
    exact .worker v a w w' hw ha hw'
  | tick => cases h; exact .tick
  | newTaskId => cases h; exact .newTaskId

end Spawn
end ClAsync
