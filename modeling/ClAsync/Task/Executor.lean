/-
# The executor

`Executor`: the tasks of one worker. A task is in the queue of those that are
ready, or in the map of those that run (that were polled and stay pending),
or it is being polled and in neither. `wake_task` moves a task from the map
to the queue, and does nothing for a task that is not in the map.

A future is known by its identity only: what it does when it is polled is up
to whoever polls it. `running_tasks` is a list of tasks with distinct ids, in
no order; `waker_cache` is the set of its keys, since the waker of an id is
`TaskWaker { task_id, tx }`.
-/
import ClAsync.Io.Completion
import Mathlib.Data.Finset.Insert
import Mathlib.Data.List.Nodup

namespace ClAsync

/-- A `u64`, counted up by the executor of each worker. -/
abbrev TaskId := ℕ

/-- `Task`: what a thread sends to a worker. -/
structure Task (F : Type) where
  future : F
  id : TaskId
  deriving DecidableEq, Repr

/-- `LocalTask`: what an executor runs. -/
structure LocalTask (F : Type) where
  future : F
  id : TaskId
  deriving DecidableEq, Repr

/-- `From<Task> for LocalTask`. -/
def Task.intoLocal {F : Type} (task : Task F) : LocalTask F := ⟨task.future, task.id⟩

/-- `Executor`: the tasks to poll next, those that wait, and the ids that have a
waker. -/
structure Executor (F : Type) where
  readyTasks : List (LocalTask F)
  runningTasks : List (LocalTask F)
  wakerCache : Finset TaskId
  deriving DecidableEq

namespace Executor

variable {F : Type}

/-- `Executor::new`. -/
def new : Executor F := ⟨[], [], ∅⟩

/-- `spawn`: a new task is ready. -/
def spawn (e : Executor F) (task : LocalTask F) : Executor F :=
  { e with readyTasks := e.readyTasks ++ [task] }

/-- `wake_task`: a task that waits is ready again, and nothing happens to another. -/
def wakeTask (e : Executor F) (id : TaskId) : Executor F :=
  match e.runningTasks.find? fun task => task.id = id with
  | some task => { e with
    readyTasks := e.readyTasks ++ [task]
    runningTasks := e.runningTasks.filter fun task => task.id ≠ id }
  | none => e

/-- `has_running_tasks`. -/
def hasRunningTasks (e : Executor F) : Bool := !e.runningTasks.isEmpty

/-- `run_task` up to the poll: the task gets a waker. -/
def beginPoll (e : Executor F) (task : LocalTask F) : Executor F :=
  { e with wakerCache := insert task.id e.wakerCache }

/-- `run_task` from the poll on. -/
def endPoll (e : Executor F) (task : LocalTask F) : Poll Unit → Executor F
  | .ready () => { e with wakerCache := e.wakerCache.erase task.id }
  | .pending => { e with runningTasks := task :: e.runningTasks.filter fun other => other.id ≠ task.id }

/-- The tasks the executor holds. -/
def owned (e : Executor F) : List (LocalTask F) := e.readyTasks ++ e.runningTasks

/-- The ids of the tasks. -/
def ids (tasks : List (LocalTask F)) : List TaskId := tasks.map LocalTask.id

theorem mem_ids {tasks : List (LocalTask F)} {task : LocalTask F} (h : task ∈ tasks) : task.id ∈ ids tasks :=
  List.mem_map_of_mem h

theorem filter_id_eq_self {tasks : List (LocalTask F)} {id : TaskId} (h : id ∉ ids tasks) :
    (tasks.filter fun task => task.id ≠ id) = tasks := by
  refine List.filter_eq_self.mpr fun task htask => decide_eq_true fun hid => h ?_
  rw [← hid]
  exact mem_ids htask

/-- The map without the task it has under an id. -/
theorem perm_of_find? {tasks : List (LocalTask F)} {id : TaskId} {task : LocalTask F} (hn : (ids tasks).Nodup)
    (h : (tasks.find? fun task => task.id = id) = some task) :
    tasks.Perm (task :: tasks.filter fun task => task.id ≠ id) := by
  induction tasks with
  | nil => cases h
  | cons t tasks ih =>
    simp only [ids, List.map_cons, List.nodup_cons] at hn
    by_cases hid : t.id = id
    · rw [List.find?_cons_of_pos (by simpa using hid)] at h
      cases h
      rw [List.filter_cons_of_neg (by simpa using hid), filter_id_eq_self (hid ▸ hn.1)]
    · rw [List.find?_cons_of_neg (by simpa using hid)] at h
      rw [List.filter_cons_of_pos (by simpa using hid)]
      exact ((ih hn.2 h).cons t).trans (.swap ..)

theorem foldl_spawn (e : Executor F) : ∀ tasks : List (LocalTask F),
    tasks.foldl spawn e = { e with readyTasks := e.readyTasks ++ tasks }
  | [] => by rw [List.append_nil]; rfl
  | task :: tasks => by rw [List.foldl_cons, foldl_spawn (e.spawn task) tasks, spawn, List.append_assoc]; rfl

/-- What waking an id does to a task it finds, and to the others. -/
theorem wakeTask_cases (e : Executor F) (id : TaskId) (hn : (ids e.runningTasks).Nodup) :
    (id ∉ ids e.runningTasks ∧ e.wakeTask id = e) ∨
      ∃ task ∈ e.runningTasks, task.id = id ∧
        e.wakeTask id = { e with
          readyTasks := e.readyTasks ++ [task]
          runningTasks := e.runningTasks.filter fun task => task.id ≠ id } ∧
        e.runningTasks.Perm (task :: e.runningTasks.filter fun task => task.id ≠ id) := by
  unfold wakeTask
  cases hf : e.runningTasks.find? fun task => task.id = id with
  | none =>
    refine Or.inl ⟨fun hmem => ?_, rfl⟩
    obtain ⟨task, htask, hid⟩ := List.mem_map.mp hmem
    simpa [hid] using List.find?_eq_none.mp hf task htask
  | some task =>
    have hid : task.id = id := by simpa using List.find?_some hf
    exact Or.inr ⟨task, List.mem_of_find?_eq_some hf, hid, rfl, perm_of_find? hn hf⟩

/-- Waking moves a task, and loses none. -/
theorem owned_wakeTask (e : Executor F) (id : TaskId) (hn : (ids e.runningTasks).Nodup) :
    (e.wakeTask id).owned.Perm e.owned := by
  rcases wakeTask_cases e id hn with ⟨-, he⟩ | ⟨task, -, -, he, hperm⟩
  · rw [he]
  · rw [he, owned, owned, List.append_assoc]
    exact hperm.symm.append_left _

/-- A task that stays pending comes back. -/
theorem owned_endPoll_pending (e : Executor F) {task : LocalTask F} (h : task.id ∉ ids e.runningTasks) :
    (e.endPoll task .pending).owned.Perm (task :: e.owned) := by
  simp only [endPoll, owned, filter_id_eq_self h]
  exact List.perm_middle

end Executor

end ClAsync
