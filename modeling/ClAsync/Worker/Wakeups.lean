/-
# No lost task and no lost wake-up

`wake_task` ignores a wake-up of a task that is ready, and a task that is
being polled is not there to be woken. That is right because a `WakeTask`
message is only received while no task is polled: a task woken since its
latest poll began is ready, or the message is still in the channel, and the
message finds the task in the map of those that run if it is not ready.

Key definitions: `Sane`, the invariant, and `Sound`, what it is for.
Key theorems: `sane_step`, one step, and `sound_of_distinct`, every run.
-/
import ClAsync.Worker.Tasks
import ClAsync.Lib.Runs

namespace ClAsync
namespace Tasks

open Executor Runs

variable {F : Type}

/-- The tasks spawned are those finished, the one being polled and those the
executor holds; and a wake-up that a task has not seen is on its way. -/
structure Sane (s : State F) : Prop where
  nodup : (ids s.history.spawned).Nodup
  perm : (s.history.finished ++ (s.pc.task ++ s.executor.owned)).Perm s.history.spawned
  cache : ∀ id, id ∈ s.executor.wakerCache ↔ id ∈ s.history.polled ∧ id ∉ ids s.history.finished
  polled : ∀ id ∈ s.history.polled, id ∈ ids s.history.spawned
  woken : ∀ task ∈ s.pc.task ++ s.executor.runningTasks, task.id ∈ s.history.woken →
    .wakeTask task.id ∈ s.channel

/-- The ids of the tasks the message makes the worker spawn are new, and
distinct. -/
def Distinct (s : State F) : Act F → Prop
  | .receive newId => ∀ msg ∈ s.channel.head?, (ids (s.history.spawned ++ msg.tasks newId)).Nodup
  | _ => True

instance (s : State F) : ∀ a, Decidable (Distinct s a)
  | .receive _ => by dsimp only [Distinct]; infer_instance
  | .send _ | .started _ | .interrupted | .events _ _ | .polled _ | .next => instDecidableTrue

theorem ids_append (l l' : List (LocalTask F)) : ids (l ++ l') = ids l ++ ids l' := List.map_append

theorem ids_perm {l l' : List (LocalTask F)} (h : l.Perm l') : (ids l).Perm (ids l') := h.map _

section Sane

variable {s s' : State F} (hs : Sane s)

include hs

/-- No task is in two places. -/
theorem Sane.places : (ids s.history.finished ++ (ids s.pc.task ++ ids s.executor.owned)).Nodup := by
  rw [← ids_append, ← ids_append]
  exact (ids_perm hs.perm).nodup_iff.mpr hs.nodup

theorem Sane.not_finished {id : TaskId} (h : id ∈ ids s.pc.task ++ ids s.executor.owned) :
    id ∉ ids s.history.finished :=
  fun hf => (List.nodup_append.mp hs.places).2.2 id hf id h rfl

theorem Sane.running_nodup : (ids s.executor.runningTasks).Nodup := by
  have hplaces := hs.places
  rw [owned, ids_append] at hplaces
  exact (List.nodup_append.mp (List.nodup_append.mp (List.nodup_append.mp hplaces).2.1).2.1).2.1

theorem Sane.task_not_running {task : LocalTask F} (h : task ∈ s.pc.task) :
    task.id ∉ ids s.executor.runningTasks := by
  have hplaces := (List.nodup_append.mp hs.places).2.1
  intro hrun
  refine (List.nodup_append.mp hplaces).2.2 task.id (mem_ids h) task.id ?_ rfl
  rw [owned, ids_append]
  exact List.mem_append_right _ hrun

/-- A message other than `WakeTask` only spawns. -/
theorem Sane.receive_spawn {l : Loop} {msg : Message F} {newId : TaskId}
    (hpc : s.pc = .recv l) (htask : s'.pc.task = []) (hmsg : ∀ id, msg ≠ .wakeTask id)
    (hchannel : s.channel = msg :: s'.channel)
    (hnodup : (ids (s.history.spawned ++ msg.tasks newId)).Nodup)
    (hhistory : s'.history = { s.history with spawned := s.history.spawned ++ msg.tasks newId })
    (hexecutor : s'.executor = { s.executor with readyTasks := s.executor.readyTasks ++ msg.tasks newId }) :
    Sane s' := by
  have htask₀ : s.pc.task = [] := by rw [hpc]; rfl
  have hperm := hs.perm
  rw [htask₀, owned] at hperm
  refine ⟨by rw [hhistory]; exact hnodup, ?_, ?_, ?_, ?_⟩
  · rw [htask, hhistory, hexecutor, owned]
    have hmove : (s.executor.readyTasks ++ msg.tasks newId ++ s.executor.runningTasks).Perm
        (s.executor.readyTasks ++ s.executor.runningTasks ++ msg.tasks newId) := by
      rw [List.append_assoc, List.append_assoc]
      exact List.perm_append_comm.append_left _
    refine (hmove.append_left s.history.finished).trans ?_
    rw [← List.append_assoc]
    exact hperm.append_right _
  · rw [hexecutor, hhistory]
    exact hs.cache
  · intro id hid
    rw [hhistory] at hid ⊢
    rw [ids_append]
    exact List.mem_append_left _ (hs.polled id hid)
  · intro task htaskmem hwoken
    rw [htask, hexecutor] at htaskmem
    rw [hhistory] at hwoken
    have hmem := hs.woken task (by rwa [htask₀]) hwoken
    rw [hchannel] at hmem
    exact (List.mem_cons.mp hmem).resolve_left (hmsg task.id).symm

/-- `WakeTask` makes a task that runs ready. -/
theorem Sane.receive_wake {l : Loop} {id : TaskId} (hpc : s.pc = .recv l) (htask : s'.pc.task = [])
    (hchannel : s.channel = .wakeTask id :: s'.channel) (hhistory : s'.history = s.history)
    (hexecutor : s'.executor = s.executor.wakeTask id) : Sane s' := by
  have htask₀ : s.pc.task = [] := by rw [hpc]; rfl
  have hother : ∀ task ∈ s.executor.runningTasks, task.id ≠ id → task.id ∈ s.history.woken →
      .wakeTask task.id ∈ s'.channel := by
    intro task hmem hne hwoken
    have hmem := hs.woken task (List.mem_append_right _ hmem) hwoken
    rw [hchannel, List.mem_cons] at hmem
    exact hmem.resolve_left fun h => hne (Message.wakeTask.inj h)
  have hperm := hs.perm
  rw [htask₀] at hperm
  refine ⟨by rw [hhistory]; exact hs.nodup, ?_, ?_, by rw [hhistory]; exact hs.polled, ?_⟩
  · rw [htask, hhistory, hexecutor]
    exact ((owned_wakeTask s.executor id hs.running_nodup).append_left _).trans hperm
  · rw [hhistory, hexecutor]
    rcases wakeTask_cases s.executor id hs.running_nodup with ⟨-, he⟩ | ⟨_, -, -, he, -⟩
    · rw [he]
      exact hs.cache
    · rw [he]
      exact hs.cache
  · rw [htask, hhistory, hexecutor]
    intro task hmem hwoken
    rcases wakeTask_cases s.executor id hs.running_nodup with ⟨hid, he⟩ | ⟨_, -, -, he, -⟩
    · rw [he] at hmem
      refine hother task hmem (fun h => hid ?_) hwoken
      rw [← h]
      exact mem_ids hmem
    · rw [he] at hmem
      have hmem : task ∈ s.executor.runningTasks.filter fun task => task.id ≠ id := hmem
      obtain ⟨hmem, hne⟩ := List.mem_filter.mp hmem
      exact hother task hmem (of_decide_eq_true hne) hwoken

/-- A task that is ready begins to be polled. -/
theorem Sane.beginPoll {l : Loop} {task : LocalTask F} {readyTasks : List (LocalTask F)} (hpc : s.pc = .run l)
    (hready : s.executor.readyTasks = task :: readyTasks) (hpc' : s'.pc = .polling l task)
    (hchannel : s'.channel = s.channel) (hexecutor : s'.executor = { s.executor with readyTasks }.beginPoll task)
    (hhistory : s'.history = s.history.beginPoll task) : Sane s' := by
  have htask₀ : s.pc.task = [] := by rw [hpc]; rfl
  have hmem : task ∈ s.executor.owned := by
    rw [owned, hready]
    exact List.mem_append_left _ List.mem_cons_self
  have hperm := hs.perm
  rw [htask₀, owned, hready] at hperm
  refine ⟨by rw [hhistory]; exact hs.nodup, ?_, ?_, ?_, ?_⟩
  · rw [hpc', hhistory, hexecutor]
    exact hperm
  · intro id
    rw [hexecutor, hhistory]
    simp only [Executor.beginPoll, History.beginPoll, Finset.mem_insert, hs.cache]
    constructor
    · rintro (rfl | ⟨hp, hf⟩)
      · exact ⟨Or.inl rfl, hs.not_finished (List.mem_append_right _ (mem_ids hmem))⟩
      · exact ⟨Or.inr hp, hf⟩
    · rintro ⟨h | h, hf⟩
      · exact Or.inl h
      · exact Or.inr ⟨h, hf⟩
  · intro id hid
    rw [hhistory] at hid ⊢
    rcases Finset.mem_insert.mp hid with rfl | hid
    · refine (ids_perm hs.perm).mem_iff.mp (mem_ids ?_)
      exact List.mem_append_right _ (List.mem_append_right _ hmem)
    · exact hs.polled id hid
  · rw [hpc', hhistory, hexecutor, hchannel]
    intro t ht hwoken
    obtain ⟨hne, hwoken⟩ := Finset.mem_erase.mp hwoken
    rcases List.mem_append.mp ht with ht | ht
    · exact absurd (congrArg LocalTask.id (List.mem_singleton.mp ht)) hne
    · exact hs.woken t (List.mem_append_right _ ht) hwoken

/-- A task that was polled is finished, or runs. -/
theorem Sane.endPoll {l : Loop} {task : LocalTask F} {result : Poll Unit} (hpc : s.pc = .polling l task)
    (hpc' : s'.pc = .run l) (hchannel : s'.channel = s.channel)
    (hexecutor : s'.executor = s.executor.endPoll task result)
    (hhistory : s'.history = s.history.endPoll task result) : Sane s' := by
  have htask₀ : s.pc.task = [task] := by rw [hpc]; rfl
  have hmem : task ∈ s.pc.task := by
    rw [htask₀]
    exact List.mem_cons_self
  have hnot := hs.task_not_running hmem
  have hperm := hs.perm
  rw [htask₀] at hperm
  cases result with
  | pending =>
    have hrunning : s'.executor.runningTasks = task :: s.executor.runningTasks := by
      rw [hexecutor, Executor.endPoll, filter_id_eq_self hnot]
    refine ⟨by rw [hhistory]; exact hs.nodup, ?_, ?_, by rw [hhistory]; exact hs.polled, ?_⟩
    · rw [hpc', hhistory, hexecutor]
      exact ((owned_endPoll_pending s.executor hnot).append_left _).trans hperm
    · rw [hhistory, hexecutor]
      exact hs.cache
    · rw [hpc', hhistory, hchannel, hrunning]
      rw [← List.singleton_append, ← htask₀]
      exact hs.woken
  | ready u =>
    refine ⟨by rw [hhistory]; exact hs.nodup, ?_, ?_, by rw [hhistory]; exact hs.polled, ?_⟩
    · rw [hpc', hhistory, hexecutor]
      have hassoc : s.history.finished ++ [task] ++ s.executor.owned =
          s.history.finished ++ ([task] ++ s.executor.owned) := List.append_assoc ..
      exact hassoc ▸ hperm
    · intro id
      rw [hhistory, hexecutor]
      simp only [Executor.endPoll, History.endPoll, Finset.mem_erase, hs.cache, ids_append, List.mem_append]
      constructor
      · rintro ⟨hne, hp, hf⟩
        refine ⟨hp, ?_⟩
        rintro (h | h)
        · exact hf h
        · exact hne (List.mem_singleton.mp h)
      · rintro ⟨hp, hf⟩
        exact ⟨fun h => hf (Or.inr (List.mem_singleton.mpr h)), hp, fun h => hf (Or.inl h)⟩
    · rw [hpc', hhistory, hexecutor, hchannel]
      intro t ht hwoken
      exact hs.woken t (List.mem_append_right _ ht) hwoken

/-- A message is sent; a task is not touched. -/
theorem Sane.send (msg : Message F) : Sane (Tasks.send s msg) := by
  refine ⟨hs.nodup, hs.perm, hs.cache, hs.polled, ?_⟩
  intro task htask hwoken
  have hold : task.id ∈ s.history.woken → .wakeTask task.id ∈ s.channel ++ [msg] := fun h =>
    List.mem_append_left _ (hs.woken task htask h)
  cases msg with
  | wakeTask id =>
    rcases Finset.mem_insert.mp hwoken with rfl | hwoken
    · exact List.mem_append_right _ List.mem_cons_self
    · exact hold hwoken
  | _ => exact hold hwoken

end Sane

theorem sane_init : Sane (State.init : State F) :=
  ⟨List.nodup_nil, .refl _, fun id => by simp [State.init, Executor.new], fun id h => by simp [State.init] at h,
    fun task h => by simp [State.init, Executor.new, Pc.task] at h⟩

theorem sane_step {s s' : State F} {a : Act F} (hs : Sane s) (hnew : Distinct s a) (h : step s a = some s') :
    Sane s' := by
  cases step_effect h with
  | keep _ hchannel hexecutor hhistory htask htask' =>
    refine ⟨by rw [hhistory]; exact hs.nodup, ?_, ?_, by rw [hhistory]; exact hs.polled, ?_⟩
    · rw [htask', hhistory, hexecutor, ← htask]
      exact hs.perm
    · rw [hhistory, hexecutor]
      exact hs.cache
    · rw [htask', hhistory, hexecutor, hchannel, ← htask]
      exact hs.woken
  | send msg _ _ hs' =>
    subst hs'
    exact hs.send msg
  | receive l newId msg channel ha hpc hchannel hs' =>
    obtain ⟨hsame, hhistory, hexecutor⟩ := receive_executor { s with channel } l newId msg
    rw [← hs'] at hsame hhistory hexecutor
    have htask : s'.pc.task = [] := by
      rcases receive_task { s with channel } l newId msg hpc with hpc' | hpc' <;> rw [hs', hpc'] <;> rfl
    have hchannel : s.channel = msg :: s'.channel := by rw [hsame, hchannel]
    cases msg with
    | wakeTask id =>
      have hhistory : s'.history = s.history := by
        rw [hhistory]
        simp [Message.tasks]
      exact hs.receive_wake hpc htask hchannel hhistory hexecutor
    | _ =>
      rw [ha, Distinct, hchannel] at hnew
      exact hs.receive_spawn hpc htask (fun _ => by simp) hchannel (hnew _ rfl) hhistory hexecutor
  | beginPoll l task readyTasks _ hpc hready hpc' hchannel hexecutor hhistory =>
    exact hs.beginPoll hpc hready hpc' hchannel hexecutor hhistory
  | endPoll l task result _ hpc hpc' hchannel hexecutor hhistory =>
    exact hs.endPoll hpc hpc' hchannel hexecutor hhistory

/-! ### What it is for -/

/-- No task and no wake-up is lost. -/
structure Sound (s : State F) : Prop where
  /-- A task spawned, not finished and not being polled is in one place, once. -/
  inOne : ∀ id ∈ ids s.history.spawned, id ∉ ids s.history.finished → id ∉ ids s.pc.task →
    (ids s.executor.readyTasks).count id + (ids s.executor.runningTasks).count id = 1
  /-- No task is polled that has finished. -/
  notAgain : ∀ id ∈ ids s.pc.task, id ∉ ids s.history.finished
  /-- A task not finished and woken since its latest poll began is ready, or the
  message is in the channel. -/
  wakes : ∀ id ∈ ids s.history.spawned, id ∉ ids s.history.finished → id ∈ s.history.woken →
    id ∈ ids s.executor.readyTasks ∨ .wakeTask id ∈ s.channel
  /-- The wakers are those of the tasks not finished that have been polled. -/
  wakers : ∀ id, id ∈ s.executor.wakerCache ↔
    id ∈ ids s.history.spawned ∧ id ∉ ids s.history.finished ∧ id ∈ s.history.polled

theorem Sane.sound {s : State F} (hs : Sane s) : Sound s where
  inOne id hid hfinished htask := by
    have hone : (ids (s.history.finished ++ (s.pc.task ++ s.executor.owned))).count id = 1 := by
      rw [(ids_perm hs.perm).count_eq]
      exact List.count_eq_one_of_mem hs.nodup hid
    rw [owned, ids_append, ids_append, ids_append, List.count_append, List.count_append, List.count_append,
      List.count_eq_zero_of_not_mem hfinished, List.count_eq_zero_of_not_mem htask] at hone
    omega
  notAgain id hid := hs.not_finished (List.mem_append_left _ hid)
  wakes id hid hfinished hwoken := by
    obtain ⟨task, htask, rfl⟩ := List.mem_map.mp hid
    have hwhere := hs.perm.mem_iff.mpr htask
    rw [List.mem_append, List.mem_append, owned, List.mem_append] at hwhere
    rcases hwhere with h | h | h | h
    · exact absurd (mem_ids h) hfinished
    · exact Or.inr (hs.woken task (List.mem_append_left _ h) hwoken)
    · exact Or.inl (mem_ids h)
    · exact Or.inr (hs.woken task (List.mem_append_right _ h) hwoken)
  wakers id := by
    rw [hs.cache]
    constructor
    · intro h
      exact ⟨hs.polled id h.1, h.2, h.1⟩
    · intro h
      exact ⟨h.2.2, h.2.1⟩

/-- **In every run in which tasks have distinct ids, no task and no wake-up is
lost.** -/
theorem sound_of_distinct (as : List (Act F)) (h : Taken step Distinct State.init as) :
    Along step Sound (State.init : State F) as :=
  along_of_invariant (fun _ _ _ hs hnew h => sane_step hs hnew h) (fun _ hs => hs.sound) sane_init h

/-- A task is spawned and polled; it is woken while it is polled and stays
pending, and is polled again when the worker has received the message. -/
def wokenWhilePolled : List (Act Unit) :=
  [.started true, .send (.taskSpawner ()), .events true false, .receive 7, .next, .next, .send (.wakeTask 7),
    .polled .pending, .next, .next, .events true false, .receive 0, .next, .next, .polled (.ready ())]

theorem sound_wokenWhilePolled : Along step Sound State.init wokenWhilePolled :=
  sound_of_distinct wokenWhilePolled (by decide)

end Tasks
end ClAsync
