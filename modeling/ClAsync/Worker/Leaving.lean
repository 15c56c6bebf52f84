/-
# How a worker leaves its loop

The shutdown loop ends when no task runs after the ready ones have run. The
channel was empty some steps before, and nothing looks at it again: a task
sent in between is accepted and dropped with the receiver. A worker that
fails to set up its signal descriptor drops what it was sent before.

`Closes` says that a worker does neither: no task is in its channel when it
leaves its loop, and none is sent to it until its end of the channel is gone.

Key definitions: `Closes`, `Kept`.
Key theorems: `kept_step`, one step, and `perm_finished`, a worker that has
returned has finished every task it was sent.
-/
import ClAsync.Worker.Wakeups

namespace ClAsync
namespace Tasks

open Executor

variable {F : Type}

/-- The futures of the tasks in the channel. -/
def State.waiting (s : State F) : List F := s.channel.flatMap Message.futures

/-- The worker is not killed; no task waits in the channel when it leaves its
loop, and none is sent while it leaves. -/
def Closes (s : State F) (a : Act F) : Prop :=
  a ≠ .send .kill ∧
    match s.pc, a with
    | .start, .started false => s.waiting = []
    | .check .shutdown, .next => s.executor.hasRunningTasks = false → s.waiting = []
    | .leaving, .send msg => msg.futures = []
    | _, _ => True

instance [DecidableEq F] (s : State F) (a : Act F) : Decidable (Closes s a) := by
  unfold Closes
  refine @instDecidableAnd _ _ inferInstance ?_
  split <;> infer_instance

/-- What is known to be empty where. -/
def Quiet (s : State F) : Prop :=
  match s.pc with
  | .start => s.executor.owned = []
  | .check _ => s.executor.readyTasks = []
  | .leaving | .returned | .stopped => s.executor.owned = [] ∧ s.waiting = []
  | _ => True

/-- What was sent has been spawned or is in the channel. -/
structure Kept (s : State F) : Prop where
  sent : s.history.sent.Perm (s.history.spawned.map LocalTask.future ++ s.waiting)
  kill : .kill ∉ s.channel
  quiet : Quiet s

theorem kept_init : Kept (State.init : State F) := ⟨.refl _, fun h => (by cases h), rfl⟩

theorem map_future_tasks (newId : TaskId) (msg : Message F) :
    (msg.tasks newId).map LocalTask.future = msg.futures := by
  cases msg with
  | spawnTasks tasks => exact List.map_map
  | _ => rfl

theorem sent_step {s s' : State F} {a : Act F} (hs : Kept s) (h : step s a = some s') :
    s'.history.sent.Perm (s'.history.spawned.map LocalTask.future ++ s'.waiting) := by
  have hsent := hs.sent
  unfold State.waiting at hsent ⊢
  cases step_effect h with
  | keep _ hchannel _ hhistory _ _ => rwa [hhistory, hchannel]
  | send msg _ _ hs' =>
    subst hs'
    simp only [send, List.flatMap_append, List.flatMap_singleton]
    rw [← List.append_assoc]
    exact hsent.append_right _
  | receive l newId msg channel _ hpc hchannel hs' =>
    obtain ⟨hsame, hhistory, -⟩ := receive_executor { s with channel } l newId msg
    rw [hs', hhistory, hsame, List.map_append, map_future_tasks, List.append_assoc, ← List.flatMap_cons]
    rwa [hchannel] at hsent
  | beginPoll l task readyTasks _ _ _ _ hchannel _ hhistory => rwa [hhistory, hchannel]
  | endPoll l task result _ _ _ hchannel _ hhistory =>
    rw [hhistory, hchannel]
    cases result <;> exact hsent

theorem kill_step {s s' : State F} {a : Act F} (hs : Kept s) (hc : Closes s a) (h : step s a = some s') :
    .kill ∉ s'.channel := by
  have hkill := hs.kill
  cases step_effect h with
  | keep _ hchannel => rwa [hchannel]
  | send msg ha _ hs' =>
    subst hs'
    simp only [send, List.mem_append, List.mem_singleton, not_or]
    exact ⟨hkill, fun hm => hc.1 (by rw [ha, ← hm])⟩
  | receive l newId msg channel _ hpc hchannel hs' =>
    obtain ⟨hsame, -, -⟩ := receive_executor { s with channel } l newId msg
    rw [hs', hsame]
    rw [hchannel] at hkill
    exact fun hm => hkill (List.mem_cons_of_mem _ hm)
  | beginPoll l task readyTasks _ _ _ _ hchannel => rwa [hchannel]
  | endPoll l task result _ _ _ hchannel => rwa [hchannel]

/-- A worker that leaves its loop is sent no task. -/
theorem quiet_send {s : State F} {msg : Message F} (hs : Quiet s) (hc : Closes s (.send msg))
    (hpc : ¬ s.pc.isReturned = true) : Quiet (send s msg) := by
  have hleaving : s.pc = .leaving → msg.futures = [] := fun hl => by simpa [Closes, hl] using hc.2
  simp only [Quiet, send, State.waiting, List.flatMap_append, List.flatMap_singleton] at hs ⊢
  cases hp : s.pc with
  | leaving =>
    rw [hp] at hs
    rw [hleaving hp, List.append_nil]
    exact hs
  | returned => exact absurd (by rw [hp]; rfl) hpc
  | stopped => exact absurd (by rw [hp]; rfl) hpc
  | start => rw [hp] at hs; exact hs
  | check l => rw [hp] at hs; exact hs
  | _ => trivial

theorem quiet_step {s s' : State F} {a : Act F} (hs : Kept s) (hc : Closes s a) (h : step s a = some s') :
    Quiet s' := by
  have hquiet := hs.quiet
  cases goes_of_step h with
  | send msg hpc => exact quiet_send hquiet hc (Bool.eq_false_iff.mp hpc)
  | notStarted hpc =>
    simp only [Quiet, hpc] at hquiet
    simp only [Closes, hpc] at hc
    exact ⟨hquiet, hc.2⟩
  | interrupted hpc => simp only [Quiet, hpc]
  | receive l newId msg channel hpc hchannel =>
    have hmsg : msg ≠ .kill := fun hm => hs.kill (by rw [hchannel, hm]; exact List.mem_cons_self)
    have hpc' : (receive { s with channel } l newId msg).pc = .recv l := by
      cases msg with
      | kill => exact absurd rfl hmsg
      | shutdown => cases l <;> exact hpc
      | _ => exact hpc
    simp only [Quiet, hpc']
  | polledAll l hpc hready => exact hready
  | finish hpc hrunning =>
    simp only [Quiet, hpc] at hquiet
    simp only [Closes, hpc] at hc
    have hnone : s.executor.runningTasks = [] := by simpa [hasRunningTasks] using hrunning
    exact ⟨by rw [owned, hquiet, hnone, List.append_nil], hc.2 hrunning⟩
  | leave hpc | stop hpc =>
    simp only [Quiet, hpc] at hquiet
    exact hquiet
  | started | events | polled | drained | beginPoll | shutdown | sleep | goOn => trivial

theorem kept_step {s s' : State F} {a : Act F} (hs : Kept s) (hc : Closes s a) (h : step s a = some s') :
    Kept s' :=
  ⟨sent_step hs h, kill_step hs hc h, quiet_step hs hc h⟩

/-- A worker that has returned has an empty channel, and has finished all it
was sent. -/
theorem perm_finished {s : State F} (hsane : Sane s) (hs : Kept s) (hpc : s.pc.isReturned = true) :
    s.waiting = [] ∧ s.history.sent.Perm (s.history.finished.map LocalTask.future) := by
  have hquiet : s.executor.owned = [] ∧ s.waiting = [] := by
    have hquiet := hs.quiet
    unfold Quiet at hquiet
    cases hp : s.pc with
    | returned => rw [hp] at hquiet; exact hquiet
    | stopped => rw [hp] at hquiet; exact hquiet
    | _ => rw [hp] at hpc; cases hpc
  have htask : s.pc.task = [] := by
    cases hp : s.pc with
    | polling l task => rw [hp] at hpc; cases hpc
    | _ => rfl
  have hperm := hsane.perm
  rw [htask, hquiet.1, List.append_nil, List.append_nil] at hperm
  have hsent := hs.sent
  rw [hquiet.2, List.append_nil] at hsent
  exact ⟨hquiet.2, hsent.trans (hperm.map _).symm⟩

end Tasks
end ClAsync
