/-
# Accepted tasks

A call of `spawn` or `spawn_with` that returns `Ok` has put its task into a
worker's channel. The task is run to completion before the worker's loop
returns, unless the worker has already looked at its channel for the last
time: a call that finds a worker available can send its task at any later
time, and the worker may have been told to shut down, have drained its
channel and have found no running task by then. The task is dropped with the
receiver (`completes_fails`).

`Graceful` says that this does not happen, that nobody is killed and that
`TaskId::new` has not given all its ids; `completes_of_graceful` is that then
every accepted task is run to completion.

Key definitions: `held`, the tasks with an id, `Ok`, `Graceful`, `Completes`.
Key theorems: `ok_step`, one step, and `completes_of_graceful`, every run.
-/
import ClAsync.Lib.Runs
import ClAsync.Pool.Spawn

namespace ClAsync
namespace Spawn

open Runs Wakers

variable {F : Type}

/-! ### Ids -/

/-- The ids of the tasks the message brings; a spawner's task has none yet. -/
def msgIds : Tasks.Message F → List TaskId
  | .spawnTask task => [task.id]
  | .spawnTasks tasks => tasks.map Task.id
  | .taskSpawner _ | .wakeTask _ | .shutdown | .kill | .other => []

/-- The id of the task the call still has. -/
def Call.ids (call : Call F) : List TaskId :=
  match call.stage with
  | .sent _ => []
  | _ => msgIds call.msg

theorem Call.ids_of_ne {call : Call F} (h : ∀ v, call.stage ≠ .sent v) : call.ids = msgIds call.msg := by
  unfold Call.ids
  split
  · rename_i v hstage
    exact absurd hstage (h v)
  · rfl

def workerIds (w : Tasks.State F) : List TaskId :=
  Executor.ids w.history.spawned ++ w.channel.flatMap msgIds

/-- How many tasks of the pool have the id. -/
def held (s : State F) (id : TaskId) : ℕ :=
  (s.calls.map fun call => call.ids.count id).sum + (s.workers.map fun w => (workerIds w).count id).sum

/-- The ids a step of a worker brings to it. -/
def newIds (w : Tasks.State F) : Tasks.Act F → List TaskId
  | .send msg => msgIds msg
  | .receive newId => if w.channel.head?.any makesId then [newId] else []
  | _ => []

theorem ids_tasks (newId : TaskId) (msg : Tasks.Message F) :
    Executor.ids (msg.tasks newId) = msgIds msg ++ if makesId msg then [newId] else [] := by
  cases msg with
  | spawnTasks tasks =>
    simp [Executor.ids, Tasks.Message.tasks, msgIds, makesId, Task.intoLocal, Function.comp_def]
  | _ => rfl

theorem count_workerIds {w w' : Tasks.State F} {a : Tasks.Act F} (h : Tasks.step w a = some w') (id : TaskId) :
    (workerIds w').count id = (workerIds w).count id + (newIds w a).count id := by
  have hsame : a.isLocal = true → w'.channel = w.channel → w'.history.spawned = w.history.spawned →
      (workerIds w').count id = (workerIds w).count id + (newIds w a).count id := fun ha hc hs => by
    have hnew : newIds w a = [] := by
      cases a with
      | send msg => cases ha
      | receive newId => cases ha
      | _ => rfl
    rw [workerIds, workerIds, hc, hs, hnew]
    rfl
  cases Tasks.step_effect h with
  | send msg ha _ hs' =>
    subst hs' ha
    simp [workerIds, Tasks.send, newIds, List.count_append, Nat.add_assoc]
  | receive l newId msg channel ha hpc hchannel hs' =>
    obtain ⟨hch, hhist, -⟩ := Tasks.receive_executor { w with channel } l newId msg
    subst ha
    rw [workerIds, workerIds, hs', hch, hhist, Tasks.ids_append, ids_tasks]
    simp only [newIds, hchannel, List.head?_cons, Option.any_some, List.flatMap_cons, List.count_append]
    omega
  | keep ha hchannel _ hhistory => exact hsame ha hchannel (by rw [hhistory])
  | beginPoll l task readyTasks ha _ _ _ hchannel _ hhistory => exact hsame ha hchannel (by rw [hhistory]; rfl)
  | endPoll l task result ha _ _ hchannel _ hhistory =>
    exact hsame ha hchannel (by rw [hhistory]; cases result <;> rfl)

/-- Every id belongs to one task at most, and an id not given yet to none. -/
def Unique (s : State F) : Prop :=
  ∀ id, held s id ≤ 1 ∧ (s.nextTaskId ≤ id → held s id = 0)

theorem count_le_held {s : State F} {v : ℕ} {w : Tasks.State F} (hw : s.workers[v]? = some w) (id : TaskId) :
    (workerIds w).count id ≤ held s id :=
  (le_sum_map (fun w => (workerIds w).count id) hw).trans (Nat.le_add_left _ _)

/-- A step of a worker brings to the pool what it brings to the worker. -/
theorem held_worker {s : State F} {v : ℕ} {w w' : Tasks.State F} {a : Tasks.Act F} (hw : s.workers[v]? = some w)
    (hw' : Tasks.step w a = some w') (id : TaskId) :
    held { s with workers := s.workers.set v w' } id = held s id + (newIds w a).count id := by
  have hcount := count_workerIds hw' id
  have hsum := sum_map_set (fun w => (workerIds w).count id) hw w'
  simp only [held] at hsum ⊢
  omega

/-! ### One step -/

/-- The worker a call has settled on, and to which it will send. -/
def Stage.target : Stage → Option ℕ
  | chosen id => some id
  | probing _ | probed _ _ | sent _ | failed _ => none

/-- No id is given once more, and nobody is killed; a worker that leaves its
loop has no task in its channel, and gets none before it has returned. -/
def Graceful (s : State F) : Act F → Prop
  | .spawn _ => s.nextTaskId < u64Count
  | .call i => ∀ call ∈ s.calls[i]?, ∀ id ∈ call.stage.target, ∀ w ∈ s.workers[id]?, w.pc ≠ .leaving
  | .receive v => ∀ w ∈ s.workers[v]?, w.channel.head?.any makesId = true → s.nextTaskId < u64Count
  | .worker v a => ∀ w ∈ s.workers[v]?, Tasks.Closes w a
  | .spawnWith _ | .tick | .newTaskId => True

instance [DecidableEq F] (s : State F) : ∀ a, Decidable (Graceful s a)
  | .spawn _ | .call _ | .receive _ | .worker _ _ => by dsimp only [Graceful]; infer_instance
  | .spawnWith _ | .tick | .newTaskId => instDecidableTrue

/-- A call brings one task; if it returned `Ok`, a worker was sent it. -/
structure CallOk (workers : List (Tasks.State F)) (call : Call F) : Prop where
  task : ∃ future, call.msg.futures = [future]
  sent : ∀ v, call.stage = .sent v →
    ∃ w, workers[v]? = some w ∧ ∀ future ∈ call.msg.futures, future ∈ w.history.sent

/-- What every step of a graceful run keeps. -/
structure Ok (s : State F) : Prop where
  unique : Unique s
  workers : ∀ w ∈ s.workers, Tasks.Sane w ∧ Tasks.Kept w
  calls : ∀ call ∈ s.calls, CallOk s.workers call

theorem taskId_of_lt {s : State F} (h : s.nextTaskId < u64Count) : s.taskId = s.nextTaskId := Nat.mod_eq_of_lt h

/-- An id more, if it is the next one, is an id given. -/
theorem unique_of_new {s s' : State F} {id : TaskId} (hs : Unique s) (new : List TaskId)
    (hheld : held s' id = held s id + new.count id) (hnew : new = [] ∨ new = [s.nextTaskId])
    (hnext : s'.nextTaskId = s.nextTaskId + new.length) :
    held s' id ≤ 1 ∧ (s'.nextTaskId ≤ id → held s' id = 0) := by
  obtain ⟨hone, hzero⟩ := hs id
  rcases hnew with rfl | rfl
  · simp only [List.count_nil, List.length_nil] at hheld hnext
    rw [hheld, hnext]
    exact ⟨hone, hzero⟩
  · rw [List.count_singleton] at hheld
    rw [List.length_singleton] at hnext
    by_cases hid : s.nextTaskId = id
    · have hz := hzero (by omega)
      rw [if_pos (by simpa using hid)] at hheld
      exact ⟨by omega, fun hle => by omega⟩
    · rw [if_neg (by simpa using hid)] at hheld
      exact ⟨by omega, fun hle => by rw [hheld, hzero (by omega)]⟩

theorem unique_step {s s' : State F} {a : Act F} (hs : Unique s) (hg : Graceful s a) (h : Step s a s') :
    Unique s' := by
  intro id
  have hsame : ∀ {s'}, held s' id = held s id → s'.nextTaskId = s.nextTaskId →
      held s' id ≤ 1 ∧ (s'.nextTaskId ≤ id → held s' id = 0) := fun hheld hnext =>
    unique_of_new hs [] hheld (Or.inl rfl) hnext
  cases h with
  | spawn future =>
    refine unique_of_new hs [s.nextTaskId] ?_ (Or.inr rfl) rfl
    simp only [held, List.map_append, List.sum_append, List.map_cons, List.map_nil, List.sum_cons, List.sum_nil,
      Call.ids, msgIds, taskId_of_lt hg]
    omega
  | spawnWith future =>
    refine hsame ?_ rfl
    simp [held, Call.ids, msgIds]
  | search i call stage nextId hcall hstage hstage' =>
    refine hsame ?_ rfl
    have hids : (⟨call.msg, stage⟩ : Call F).ids = call.ids := by
      rw [Call.ids_of_ne hstage, Call.ids_of_ne hstage']
    have hsum := sum_map_set (fun call : Call F => call.ids.count id) hcall ⟨call.msg, stage⟩
    simp only [hids] at hsum
    simp only [held]
    omega
  | send i call v w w' hcall hstage hw hw' =>
    refine hsame ?_ rfl
    have hworker := held_worker hw hw' id
    have hcall' : call.ids = msgIds call.msg := by rw [Call.ids, hstage]
    have hsum := sum_map_set (fun call : Call F => call.ids.count id) hcall ⟨call.msg, .sent v⟩
    simp only [hcall', newIds] at hsum hworker
    have hnil : (⟨call.msg, .sent v⟩ : Call F).ids = [] := rfl
    rw [hnil, List.count_nil] at hsum
    simp only [held] at hworker ⊢
    omega
  | receive v w w' hw hw' =>
    refine unique_of_new hs (newIds w (.receive s.taskId)) (held_worker hw hw' id) ?_ ?_
    · simp only [newIds]
      by_cases hm : w.channel.head?.any makesId = true
      · rw [if_pos hm, taskId_of_lt (hg w hw hm)]
        exact Or.inr rfl
      · rw [if_neg hm]
        exact Or.inl rfl
    · simp only [newIds]
      split <;> rfl
  | worker v a w w' hw ha hw' =>
    refine hsame ?_ rfl
    have hnew : newIds w a = [] := by
      cases a with
      | receive newId => cases ha
      | send msg =>
        cases msg with
        | spawnTask => cases ha
        | spawnTasks tasks => simpa [newIds, msgIds, isInner, Tasks.Message.futures] using ha
        | _ => rfl
      | _ => rfl
    rw [held_worker hw hw' id, hnew, List.count_nil, Nat.add_zero]
  | tick => exact hs id
  | newTaskId => exact ⟨(hs id).1, fun hle => (hs id).2 (by simp only at hle; omega)⟩

/-- What a worker was sent it was sent. -/
theorem sent_subset {w w' : Tasks.State F} {a : Tasks.Act F} (h : Tasks.step w a = some w') :
    w.history.sent ⊆ w'.history.sent := by
  cases Tasks.step_effect h with
  | keep _ _ _ hhistory => exact hhistory ▸ List.Subset.refl _
  | send msg _ _ hs' =>
    subst hs'
    exact List.subset_append_left ..
  | receive l newId msg channel _ _ _ hs' =>
    obtain ⟨-, hhistory, -⟩ := Tasks.receive_executor { w with channel } l newId msg
    rw [hs', hhistory]
    exact List.Subset.refl _
  | beginPoll l task readyTasks _ _ _ _ _ _ hhistory => exact hhistory ▸ List.Subset.refl _
  | endPoll l task result _ _ _ _ _ hhistory =>
    rw [hhistory]
    cases result <;> exact List.Subset.refl _

theorem CallOk.set {workers : List (Tasks.State F)} {v : ℕ} {w w' : Tasks.State F} {a : Tasks.Act F}
    {call : Call F} (h : CallOk workers call) (hw : workers[v]? = some w) (hw' : Tasks.step w a = some w') :
    CallOk (workers.set v w') call := by
  refine ⟨h.task, fun id hstage => ?_⟩
  obtain ⟨w₀, hw₀, hsent⟩ := h.sent id hstage
  obtain ⟨w₁, hw₁, hsub⟩ := getElem?_set_rel (R := fun w w' => w.history.sent ⊆ w'.history.sent)
    (fun _ => List.Subset.refl _) hw (sent_subset hw') hw₀
  exact ⟨w₁, hw₁, fun future hf => hsub (hsent future hf)⟩

theorem callOk_probing {workers : List (Tasks.State F)} {msg : Tasks.Message F} {future : F} {left : ℕ}
    (hmsg : msg.futures = [future]) : CallOk workers ⟨msg, .probing left⟩ :=
  ⟨⟨future, hmsg⟩, fun v h => by cases h⟩

/-- The ids of the tasks a worker receives are new to it. -/
theorem distinct_receive {s : State F} {v : ℕ} {w : Tasks.State F} (hs : Unique s) (hg : Graceful s (.receive v))
    (hw : s.workers[v]? = some w) : Tasks.Distinct w (.receive s.taskId) := by
  intro msg hmsg
  obtain ⟨channel, hchannel⟩ : ∃ channel, w.channel = msg :: channel := by
    cases hc : w.channel with
    | nil => rw [hc] at hmsg; cases hmsg
    | cons m channel =>
      rw [hc] at hmsg
      cases hmsg
      exact ⟨channel, rfl⟩
  rw [List.nodup_iff_count_le_one]
  intro id
  rw [Tasks.ids_append, ids_tasks, List.count_append, List.count_append]
  have hle := count_le_held hw id
  rw [workerIds, hchannel, List.flatMap_cons, List.count_append, List.count_append] at hle
  obtain ⟨hone, hzero⟩ := hs id
  by_cases hm : makesId msg = true
  · rw [if_pos hm, taskId_of_lt (hg w hw (by rw [hchannel]; exact hm)), List.count_singleton]
    by_cases hid : s.nextTaskId = id
    · have := hzero (by omega)
      rw [if_pos (by simpa using hid)]
      omega
    · rw [if_neg (by simpa using hid)]
      omega
  · rw [if_neg hm, List.count_nil]
    omega

theorem closes_send {w : Tasks.State F} {msg : Tasks.Message F} {future : F} (hmsg : msg.futures = [future])
    (hpc : w.pc ≠ .leaving) : Tasks.Closes w (.send msg) := by
  refine ⟨?_, ?_⟩
  · intro hkill
    cases hkill
    cases hmsg
  · cases hp : w.pc with
    | leaving => exact absurd hp hpc
    | check l => cases l <;> trivial
    | _ => trivial

theorem ok_init (n : ℕ) : Ok (State.init n : State F) := by
  have hzero : ∀ id, held (State.init n : State F) id = 0 := fun id => by
    have hworker : (workerIds (Tasks.State.init : Tasks.State F)).count id = 0 := rfl
    simp [held, State.init, hworker]
  refine ⟨fun id => ⟨by rw [hzero]; omega, fun _ => hzero id⟩, ?_, fun call h => by cases h⟩
  intro w hw
  rw [List.eq_of_mem_replicate hw]
  exact ⟨Tasks.sane_init, Tasks.kept_init⟩

/-- One worker takes a step. -/
theorem workers_set {s : State F} {v : ℕ} {w w' : Tasks.State F} {a : Tasks.Act F} (hs : Ok s)
    (hw : s.workers[v]? = some w) (hnew : Tasks.Distinct w a) (hc : Tasks.Closes w a)
    (hw' : Tasks.step w a = some w') : ∀ w ∈ s.workers.set v w', Tasks.Sane w ∧ Tasks.Kept w := by
  obtain ⟨hsane, hkept⟩ := hs.workers w (List.mem_of_getElem? hw)
  exact forall_mem_set hs.workers ⟨Tasks.sane_step hsane hnew hw', Tasks.kept_step hkept hc hw'⟩

theorem ok_step {s s' : State F} {a : Act F} (hs : Ok s) (hg : Graceful s a) (h : step s a = some s') : Ok s' := by
  have hunique := unique_step hs.unique hg (step_cases h)
  have happend : ∀ {call}, CallOk s.workers call → ∀ c ∈ s.calls ++ [call], CallOk s.workers c := by
    intro call hcall c hc
    rcases List.mem_append.mp hc with hc | hc
    · exact hs.calls c hc
    · exact List.mem_singleton.mp hc ▸ hcall
  cases step_cases h with
  | spawn future => exact ⟨hunique, hs.workers, happend (callOk_probing rfl)⟩
  | spawnWith future => exact ⟨hunique, hs.workers, happend (callOk_probing rfl)⟩
  | search i call stage nextId hcall hstage hstage' =>
    refine ⟨hunique, hs.workers, forall_mem_set hs.calls ⟨(hs.calls call (List.mem_of_getElem? hcall)).task, ?_⟩⟩
    exact fun v h => absurd h (hstage' v)
  | send i call v w w' hcall hstage hw hw' =>
    have hok := hs.calls call (List.mem_of_getElem? hcall)
    obtain ⟨future, hfuture⟩ := hok.task
    have hpc : w.pc ≠ .leaving := hg call hcall v (by rw [hstage]; rfl) w hw
    have hdistinct : Tasks.Distinct w (.send call.msg) := trivial
    refine ⟨hunique, workers_set hs hw hdistinct (closes_send hfuture hpc) hw', ?_⟩
    refine forall_mem_set (fun c hc => (hs.calls c hc).set hw hw') ⟨⟨future, hfuture⟩, fun id h => ?_⟩
    cases h
    refine ⟨w', List.getElem?_set_self (List.getElem?_eq_some_iff.mp hw).1, fun f hf => ?_⟩
    cases Tasks.step_effect hw' with
    | send msg ha _ hs' =>
      cases ha
      rw [hs']
      exact List.mem_append_right _ hf
    | keep ha => cases ha
    | receive _ _ _ _ ha => cases ha
    | beginPoll _ _ _ ha => cases ha
    | endPoll _ _ _ ha => cases ha
  | receive v w w' hw hw' =>
    refine ⟨hunique, workers_set hs hw (distinct_receive hs.unique hg hw) ?_ hw',
      fun c hc => (hs.calls c hc).set hw hw'⟩
    refine ⟨fun h => (by cases h), ?_⟩
    cases w.pc with
    | check l => cases l <;> trivial
    | _ => trivial
  | worker v a w w' hw ha hw' =>
    refine ⟨hunique, workers_set hs hw ?_ (hg w hw) hw', fun c hc => (hs.calls c hc).set hw hw'⟩
    cases a with
    | receive newId => cases ha
    | _ => trivial
  | tick => exact ⟨hunique, hs.workers, hs.calls⟩
  | newTaskId => exact ⟨hunique, hs.workers, hs.calls⟩

/-! ### Runs -/

/-- Every accepted task is run to completion before its worker's loop returns,
and none is left in the channel. -/
structure Completes (s : State F) : Prop where
  workers : ∀ w ∈ s.workers, w.pc.isReturned = true →
    w.waiting = [] ∧ w.history.sent.Perm (w.history.finished.map LocalTask.future)
  /-- A call that returned `Ok` has sent its task to a worker, and a worker that
  has returned has finished it. -/
  calls : ∀ call ∈ s.calls, ∀ v, call.stage = .sent v → ∃ w, s.workers[v]? = some w ∧
    ∀ future ∈ call.msg.futures, future ∈ w.history.sent ∧
      (w.pc.isReturned = true → future ∈ w.history.finished.map LocalTask.future)

theorem Ok.completes {s : State F} (hs : Ok s) : Completes s := by
  have hworkers : ∀ w ∈ s.workers, w.pc.isReturned = true →
      w.waiting = [] ∧ w.history.sent.Perm (w.history.finished.map LocalTask.future) := fun w hw hpc =>
    Tasks.perm_finished (hs.workers w hw).1 (hs.workers w hw).2 hpc
  refine ⟨hworkers, fun call hcall v hstage => ?_⟩
  obtain ⟨w, hw, hsent⟩ := (hs.calls call hcall).sent v hstage
  refine ⟨w, hw, fun future hf => ⟨hsent future hf, fun hpc => ?_⟩⟩
  exact (hworkers w (List.mem_of_getElem? hw) hpc).2.mem_iff.mp (hsent future hf)

/-- **In every graceful run, every task whose `spawn` or `spawn_with` returned
`Ok` is run to completion before its worker's loop returns.** -/
theorem completes_of_graceful (n : ℕ) (as : List (Act F)) (h : Taken step Graceful (State.init n) as) :
    Along step Completes (State.init n : State F) as :=
  along_of_invariant (fun _ _ _ hs hg h => ok_step hs hg h) (fun _ hs => hs.completes) (ok_init n) h

/-- A task is spawned on the only worker, which is told to shut down, runs it
and leaves its loop. -/
def spawnAndShutdown : List (Act Unit) :=
  [.worker 0 (.started true), .spawn (), .call 0, .call 0, .call 0, .worker 0 (.send .shutdown),
    .worker 0 (.events true false), .receive 0, .receive 0, .worker 0 .next, .worker 0 .next,
    .worker 0 (.polled (.ready ())), .worker 0 .next, .worker 0 .next, .worker 0 .next, .worker 0 .next,
    .worker 0 .next, .worker 0 .next, .worker 0 .next]

theorem completes_spawnAndShutdown :
    (run step (State.init 1) spawnAndShutdown).isSome = true ∧
      Along step Completes (State.init 1) spawnAndShutdown :=
  ⟨by decide, completes_of_graceful 1 spawnAndShutdown (by decide)⟩

/-- A call finds the worker idle. The worker is told to shut down, drains its
channel and finds no running task before the call sends. -/
def sentTooLate : List (Act Unit) :=
  [.worker 0 (.started true), .spawn (), .call 0, .call 0, .worker 0 (.send .shutdown),
    .worker 0 (.events true false), .receive 0, .worker 0 .next, .worker 0 .next, .worker 0 .next,
    .worker 0 .next, .worker 0 .next, .worker 0 .next, .call 0, .worker 0 .next]

theorem completes_fails : ¬ Along step Completes (State.init 1) sentTooLate := by
  intro h
  obtain ⟨s, hs, hlost⟩ : ∃ s ∈ run step (State.init 1) sentTooLate,
      ∃ w ∈ s.workers, w.pc.isReturned = true ∧ w.waiting ≠ [] := by decide
  obtain ⟨w, hw, hpc, hwaiting⟩ := hlost
  rw [← List.append_nil sentTooLate] at h
  exact hwaiting ((h.of_run hs).head.workers w hw hpc).1

end Spawn
end ClAsync
