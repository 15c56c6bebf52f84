/-
# Fairness of the executor

`ready_tasks` is a queue, and the channel that wakes go through is one too. A
task that has been woken waits behind what was in them, and both are emptied
in turn: the loops receive until the channel is empty, and then poll until no
task is ready. So no other task is polled more than twice before it
(`overtaken`), and it comes after everything that was ahead (`polled_first`).
`YieldFuture` is built on this: the task wakes itself and returns.

Key definitions: `polls`, what a run polls, `budget`, how often a task can
still be polled before another, and `Ahead`.
Key theorems: `count_begun_le` and `ahead_step`, one step; `overtaken`,
`polled_first` and `yields`, every run.
-/
import ClAsync.Worker.Wakeups
import Mathlib.Data.List.TakeWhile

namespace ClAsync
namespace Tasks

open Executor Runs

variable {F : Type}

/-! ### What a run polls -/

/-- The task whose poll the step begins. -/
def begun (s : State F) : Act F → List (LocalTask F)
  | .next =>
    match s.pc, s.executor.readyTasks with
    | .run _, task :: _ => [task]
    | _, _ => []
  | _ => []

/-- The tasks the run polls, in order. -/
def polls : State F → List (Act F) → List (LocalTask F)
  | _, [] => []
  | s, a :: as =>
    match step s a with
    | some s' => begun s a ++ polls s' as
    | none => []

theorem polls_cons {s s' : State F} {a : Act F} (as : List (Act F)) (h : step s a = some s') :
    polls s (a :: as) = begun s a ++ polls s' as := by
  rw [polls, h]

/-! ### The phases of the loops -/

/-- Where the worker is in a round. `between` is from the end of the tasks to
the first message; nothing is ready there. -/
inductive Phase
  | between
  | receiving
  | running
  | ended
  deriving DecidableEq, Repr

def State.phase (s : State F) : Phase :=
  match s.pc with
  | .start | .poll | .check _ => .between
  | .recv .main => if s.shouldRecv then .receiving else .between
  | .recv .shutdown => .receiving
  | .run _ | .polling _ _ => .running
  | .leaving | .returned | .stopped => .ended

/-- What a step does, as far as the order of the polls goes. -/
inductive Moves (a : Act F) (s s' : State F) : Prop
  | send (msg : Message F) (hbegun : begun s a = []) (hs' : s' = Tasks.send s msg)
  | receive (l : Loop) (newId : TaskId) (msg : Message F) (channel : List (Message F)) (ha : a = .receive newId)
      (hbegun : begun s a = []) (hpc : s.pc = .recv l) (hphase : s.phase = .receiving)
      (hphase' : s'.phase = .receiving ∨ s'.phase = .ended) (hchannel : s.channel = msg :: channel)
      (hs' : s' = Tasks.receive { s with channel } l newId msg)
  /-- The loop goes on: from receiving when the channel is empty, from running
  when no task is ready. -/
  | turn (hbegun : begun s a = []) (hchannel : s'.channel = s.channel) (hexecutor : s'.executor = s.executor)
      (hhistory : s'.history = s.history) (htask : s.pc.task = []) (htask' : s'.pc.task = [])
      (hreceived : s.phase = .receiving → s.channel = [] ∧ s'.phase = .running)
      (hran : s.phase = .running → s.executor.readyTasks = []) (hover : s.phase = .ended → s'.phase = .ended)
  | beginPoll (l : Loop) (task : LocalTask F) (readyTasks : List (LocalTask F)) (hbegun : begun s a = [task])
      (hpc : s.pc = .run l) (hready : s.executor.readyTasks = task :: readyTasks) (hpc' : s'.pc = .polling l task)
      (hchannel : s'.channel = s.channel) (hexecutor : s'.executor = { s.executor with readyTasks }.beginPoll task)
      (hhistory : s'.history = s.history.beginPoll task)
  | endPoll (l : Loop) (task : LocalTask F) (result : Poll Unit) (hbegun : begun s a = [])
      (hpc : s.pc = .polling l task) (hpc' : s'.pc = .run l) (hchannel : s'.channel = s.channel)
      (hexecutor : s'.executor = s.executor.endPoll task result)
      (hhistory : s'.history = s.history.endPoll task result)

section Phase

variable {s s' : State F}

theorem phase_run {l : Loop} (h : s.pc = .run l) : s.phase = .running := by
  rw [State.phase, h]

theorem phase_polling {l : Loop} {task : LocalTask F} (h : s.pc = .polling l task) : s.phase = .running := by
  rw [State.phase, h]

theorem phase_check {l : Loop} (h : s.pc = .check l) : s.phase = .between := by
  rw [State.phase, h]

/-- The loop receives if it has not `drained` the channel. -/
theorem phase_recv {l : Loop} (h : s.pc = .recv l) :
    s.phase = .receiving ∧ (s.drained l = true → s.channel = []) ∨ s.phase = .between ∧ s.drained l = true := by
  cases l with
  | main =>
    by_cases hrecv : s.shouldRecv = true
    · refine Or.inl ⟨by simp [State.phase, h, hrecv], fun hdrained => ?_⟩
      simpa [State.drained, hrecv] using hdrained
    · exact Or.inr ⟨by simp [State.phase, h, hrecv], by simp [State.drained, hrecv]⟩
  | shutdown => exact Or.inl ⟨by simp [State.phase, h], fun hdrained => by simpa [State.drained] using hdrained⟩

/-- Receiving goes on with every message but `Kill`. -/
theorem receive_phase {l : Loop} (newId : TaskId) (msg : Message F) (h : s.pc = .recv l)
    (hphase : s.phase = .receiving) :
    (receive s l newId msg).phase = .receiving ∨ (receive s l newId msg).phase = .ended := by
  cases msg with
  | shutdown => cases l <;> exact Or.inl hphase
  | kill => cases l <;> exact Or.inr rfl
  | _ => exact Or.inl hphase

/-- A step between the rounds, or out of the loop. -/
theorem Moves.of_between {a : Act F} (hbegun : begun s a = []) (hphase : s.phase = .between ∨ s'.phase = .ended)
    (hchannel : s'.channel = s.channel) (hexecutor : s'.executor = s.executor) (hhistory : s'.history = s.history)
    (htask : s.pc.task = []) (htask' : s'.pc.task = []) (hover : s.phase = .between ∨ s.phase = .ended) :
    Moves a s s' := by
  refine .turn hbegun hchannel hexecutor hhistory htask htask' ?_ ?_ ?_
  · intro h
    rcases hover with h' | h' <;> rw [h'] at h <;> cases h
  · intro h
    rcases hover with h' | h' <;> rw [h'] at h <;> cases h
  · intro h
    rcases hphase with h' | h'
    · rw [h'] at h
      cases h
    · exact h'

theorem step_moves {a : Act F} (h : step s a = some s') : Moves a s s' := by
  cases goes_of_step h with
  | send msg => exact .send msg rfl rfl
  | started hpc | notStarted hpc | events _ _ hpc =>
    have hphase : s.phase = .between := by rw [State.phase, hpc]
    exact .of_between rfl (Or.inl hphase) rfl rfl rfl (by rw [hpc]; rfl) rfl (Or.inl hphase)
  | interrupted hpc =>
    have hphase : s.phase = .between := by rw [State.phase, hpc]
    exact .of_between rfl (Or.inl hphase) rfl rfl rfl (by rw [hpc]; rfl) (by rw [hpc]; rfl) (Or.inl hphase)
  | receive l newId msg channel hpc hchannel hdrained =>
    have hphase : s.phase = .receiving := by
      rcases phase_recv hpc with ⟨hphase, -⟩ | ⟨-, h⟩
      · exact hphase
      · exact absurd (hdrained.symm.trans h) Bool.false_ne_true
    have hphase' : ({ s with channel } : State F).phase = .receiving := hphase
    exact .receive l newId msg channel rfl rfl hpc hphase (receive_phase newId msg hpc hphase') hchannel rfl
  | polled l task result hpc => exact .endPoll l task result rfl hpc rfl rfl rfl rfl
  | drained l hpc hdrained =>
    have hbegun : begun s .next = [] := by simp [begun, hpc]
    have htask : s.pc.task = [] := by rw [hpc]; rfl
    rcases phase_recv hpc with ⟨hphase, hchannel⟩ | ⟨hphase, -⟩
    · exact .turn hbegun rfl rfl rfl htask rfl (fun _ => ⟨hchannel hdrained, rfl⟩)
        (fun h => by rw [hphase] at h; cases h)
        (fun h => by rw [hphase] at h; cases h)
    · exact .of_between hbegun (Or.inl hphase) rfl rfl rfl htask rfl (Or.inl hphase)
  | polledAll l hpc hready =>
    have hphase := phase_run hpc
    exact .turn (by simp [begun, hpc, hready]) rfl rfl rfl (by rw [hpc]; rfl) rfl
      (fun h => by rw [hphase] at h; cases h) (fun _ => hready) (fun h => by rw [hphase] at h; cases h)
  | beginPoll l task readyTasks hpc hready =>
    exact .beginPoll l task readyTasks (by simp [begun, hpc, hready]) hpc hready rfl rfl rfl rfl
  | shutdown hpc | sleep hpc | goOn hpc | finish hpc =>
    have hphase := phase_check hpc
    exact .of_between (by simp [begun, hpc]) (Or.inl hphase) rfl rfl rfl (by rw [hpc]; rfl) rfl (Or.inl hphase)
  | leave hpc | stop hpc =>
    exact .of_between (by simp [begun, hpc]) (Or.inr rfl) rfl rfl rfl (by rw [hpc]; rfl) rfl
      (Or.inr (by rw [State.phase, hpc]))

end Phase

/-! ### At most two polls -/

/-- Nothing is ready between two rounds. -/
def Ordered (s : State F) : Prop := s.phase = .between → s.executor.readyTasks = []

/-- The task is not finished, and was woken since its latest poll began. -/
structure Pending (id : TaskId) (s : State F) : Prop where
  spawned : id ∈ ids s.history.spawned
  woken : id ∈ s.history.woken
  notFinished : id ∉ ids s.history.finished

/-- The ready tasks in front of the task `id`. -/
def front (id : TaskId) (ready : List (LocalTask F)) : List (LocalTask F) := ready.takeWhile fun task => task.id ≠ id

/-- How often the task `other` can still be polled before the task `id`, which
is woken. -/
def budget (id other : TaskId) (s : State F) : ℕ :=
  if s.phase = .ended then 0
  else if id ∈ ids s.executor.readyTasks then (ids (front id s.executor.readyTasks)).count other
  else if s.phase = .running then (ids s.executor.readyTasks).count other + 1
  else 1

theorem front_cons {id : TaskId} {task : LocalTask F} (ready : List (LocalTask F)) (h : task.id ≠ id) :
    front id (task :: ready) = task :: front id ready :=
  List.takeWhile_cons_of_pos (decide_eq_true h)

theorem front_of_not_mem {id : TaskId} {ready : List (LocalTask F)} (h : id ∉ ids ready) :
    front id ready = ready := by
  refine List.takeWhile_eq_self_iff.mpr fun task htask => decide_eq_true fun hid => h ?_
  rw [← hid]
  exact mem_ids htask

/-- What comes behind a task does not matter to it. -/
theorem front_append {id : TaskId} {ready : List (LocalTask F)} (tasks : List (LocalTask F)) (h : id ∈ ids ready) :
    front id (ready ++ tasks) = front id ready := by
  induction ready with
  | nil => cases h
  | cons task ready ih =>
    by_cases hid : task.id = id
    · have hneg : ∀ l : List (LocalTask F), front id (task :: l) = [] := fun l =>
        List.takeWhile_cons_of_neg (by simpa using hid)
      rw [List.cons_append, hneg, hneg]
    · rw [List.cons_append, front_cons _ hid, front_cons _ hid]
      rcases List.mem_cons.mp h with h | h
      · exact absurd h.symm hid
      · rw [ih h]

theorem front_sublist (id : TaskId) (ready : List (LocalTask F)) : (front id ready).Sublist ready :=
  List.takeWhile_sublist _

/-- A message only adds to the queue. -/
theorem receive_ready (s : State F) (l : Loop) (newId : TaskId) (msg : Message F) :
    ∃ tasks, (receive s l newId msg).executor.readyTasks = s.executor.readyTasks ++ tasks := by
  rw [(receive_executor s l newId msg).2.2]
  cases msg with
  | wakeTask id =>
    dsimp only
    unfold Executor.wakeTask
    split
    · exact ⟨_, rfl⟩
    · exact ⟨[], (List.append_nil _).symm⟩
  | _ => exact ⟨_, rfl⟩

section Step

variable {s s' : State F} {a : Act F} {id other : TaskId}

theorem Sane.ready_nodup (hs : Sane s) : (ids s.executor.readyTasks).Nodup := by
  have hplaces := hs.places
  rw [owned, ids_append] at hplaces
  exact (List.nodup_append.mp (List.nodup_append.mp (List.nodup_append.mp hplaces).2.1).2.1).1

/-- A task that is woken is ready, or the message is in the channel. -/
theorem Pending.where (hp : Pending id s) (hs : Sane s) (hready : id ∉ ids s.executor.readyTasks) :
    .wakeTask id ∈ s.channel :=
  (hs.sound.wakes id hp.spawned hp.notFinished hp.woken).resolve_left hready

theorem count_front_le (id other : TaskId) (hs : Sane s) :
    (ids (front id s.executor.readyTasks)).count other ≤ (ids s.executor.readyTasks).count other ∧
      (ids s.executor.readyTasks).count other ≤ 1 :=
  ⟨((front_sublist id s.executor.readyTasks).map LocalTask.id).count_le other,
    List.nodup_iff_count_le_one.mp hs.ready_nodup other⟩

theorem budget_le_two (hs : Sane s) : budget id other s ≤ 2 := by
  obtain ⟨hfront, hone⟩ := count_front_le id other hs
  unfold budget
  split_ifs <;> omega

/-- While no task is polled, a woken task has at most one poll of another to
wait for. -/
theorem budget_le_one (hs : Sane s) (h : s.phase = .running → s.executor.readyTasks = []) :
    budget id other s ≤ 1 := by
  obtain ⟨hfront, hone⟩ := count_front_le id other hs
  unfold budget
  split_ifs with _ _ hrunning
  · exact Nat.zero_le 1
  · exact hfront.trans hone
  · rw [h hrunning]
    exact Nat.le_refl 1
  · exact Nat.le_refl 1

theorem budget_of_mem (hphase : s.phase ≠ .ended) (h : id ∈ ids s.executor.readyTasks) :
    budget id other s = (ids (front id s.executor.readyTasks)).count other := by
  rw [budget, if_neg hphase, if_pos h]

theorem budget_of_running (hphase : s.phase = .running) (h : id ∉ ids s.executor.readyTasks) :
    budget id other s = (ids s.executor.readyTasks).count other + 1 := by
  rw [budget, if_neg (by simp [hphase]), if_neg h, if_pos hphase]

theorem budget_of_nil (h : s.executor.readyTasks = []) (hphase : s.phase ≠ .ended) : budget id other s = 1 := by
  rw [budget, if_neg hphase, h, if_neg (by simp [ids])]
  split <;> rfl

theorem ordered_step (ho : Ordered s) (h : step s a = some s') : Ordered s' := by
  cases step_moves h with
  | send msg _ hs' =>
    subst hs'
    exact ho
  | receive l newId msg channel _ _ _ _ hphase' _ _ =>
    intro hphase
    rcases hphase' with h | h <;> rw [h] at hphase <;> cases hphase
  | turn _ _ hexecutor _ _ _ hreceived hran hover =>
    intro hphase
    rw [hexecutor]
    cases hold : s.phase with
    | between => exact ho hold
    | receiving => rw [(hreceived hold).2] at hphase; cases hphase
    | running => exact hran hold
    | ended => rw [hover hold] at hphase; cases hphase
  | beginPoll l task readyTasks _ _ _ hpc' _ _ _ =>
    intro hphase
    rw [phase_polling hpc'] at hphase
    cases hphase
  | endPoll l task result _ _ hpc' _ _ _ =>
    intro hphase
    rw [phase_run hpc'] at hphase
    cases hphase

/-- **Each poll of another task is paid for, until the woken task is polled.** -/
theorem count_begun_le (other : TaskId) (hs : Sane s) (hs' : Sane s') (ho : Ordered s) (hp : Pending id s)
    (h : step s a = some s')
    (hnot : id ∉ ids (begun s a)) : (ids (begun s a)).count other + budget id other s' ≤ budget id other s := by
  cases step_moves h with
  | send msg hbegun hs' =>
    subst hs'
    rw [hbegun]
    exact (Nat.zero_add _).le
  | receive l newId msg channel _ hbegun _ hphase hphase' _ hreceive =>
    rw [hbegun]
    refine (Nat.zero_add _).le.trans ?_
    have hnotover : s.phase ≠ .ended := by simp [hphase]
    have hnotrunning : s.phase ≠ .running := by simp [hphase]
    have hrest : budget id other s' ≤ 1 := by
      refine budget_le_one hs' fun hrunning => ?_
      rcases hphase' with h | h <;> rw [h] at hrunning <;> cases hrunning
    by_cases hready : id ∈ ids s.executor.readyTasks
    · obtain ⟨tasks, htasks⟩ := receive_ready { s with channel } l newId msg
      rw [← hreceive] at htasks
      have hready' : id ∈ ids s'.executor.readyTasks := by
        rw [htasks, ids_append]
        exact List.mem_append_left _ hready
      rw [budget_of_mem hnotover hready, budget, if_pos hready', htasks, front_append tasks hready]
      split
      · exact Nat.zero_le _
      · exact Nat.le_refl _
    · rw [budget.eq_def id other s, if_neg hnotover, if_neg hready, if_neg hnotrunning]
      exact hrest
  | turn hbegun hchannel hexecutor _ _ _ hreceived hran hover =>
    rw [hbegun]
    refine (Nat.zero_add _).le.trans ?_
    cases hold : s.phase with
    | ended =>
      rw [budget, if_pos (hover hold)]
      exact Nat.zero_le _
    | receiving =>
      have hready : id ∈ ids s.executor.readyTasks := by
        by_contra hready
        have hmem := hp.where hs hready
        rw [(hreceived hold).1] at hmem
        cases hmem
      rw [budget_of_mem (by simp [hold]) hready, budget_of_mem (by simp [(hreceived hold).2]) (hexecutor ▸ hready),
        hexecutor]
    | running =>
      rw [budget_of_nil (hran hold) (by simp [hold])]
      exact budget_le_one hs' fun _ => by rw [hexecutor, hran hold]
    | between =>
      rw [budget_of_nil (ho hold) (by simp [hold])]
      exact budget_le_one hs' fun _ => by rw [hexecutor, ho hold]
  | beginPoll l task readyTasks hbegun hpc hready hpc' _ hexecutor _ =>
    have hne : task.id ≠ id := by
      intro heq
      rw [hbegun] at hnot
      exact hnot (List.mem_singleton.mpr heq.symm)
    have hready' : s'.executor.readyTasks = readyTasks := by rw [hexecutor]; rfl
    have hids : id ∈ ids s.executor.readyTasks ↔ id ∈ ids readyTasks := by
      rw [hready]
      refine ⟨fun h => (List.mem_cons.mp h).resolve_left hne.symm, List.mem_cons_of_mem _⟩
    have hcount : ∀ tasks : List (LocalTask F),
        (ids [task]).count other + (ids tasks).count other = (ids (task :: tasks)).count other := fun tasks =>
      List.count_append.symm
    have hphase := phase_run hpc
    have hphase' := phase_polling hpc'
    rw [hbegun]
    by_cases hmem : id ∈ ids readyTasks
    · rw [budget_of_mem (by simp [hphase']) (by rwa [hready']), budget_of_mem (by simp [hphase]) (hids.mpr hmem),
        hready', hready, front_cons _ hne]
      exact (hcount _).le
    · rw [budget_of_running hphase' (by rwa [hready']), budget_of_running hphase (fun h => hmem (hids.mp h)),
        hready', hready, ← Nat.add_assoc, hcount]
  | endPoll l task result hbegun hpc hpc' _ hexecutor _ =>
    have hready : s'.executor.readyTasks = s.executor.readyTasks := by
      rw [hexecutor]
      cases result <;> rfl
    rw [hbegun, budget, budget, phase_run hpc', phase_polling hpc, hready]
    exact (Nat.zero_add _).le

/-- A task that has finished stays so. -/
theorem finished_step (h : step s a = some s') : ∃ tasks, s'.history.finished = s.history.finished ++ tasks := by
  cases step_moves h with
  | send msg _ hs' =>
    subst hs'
    exact ⟨[], (List.append_nil _).symm⟩
  | receive l newId msg channel _ _ _ _ _ _ hs' =>
    rw [hs', (receive_executor { s with channel } l newId msg).2.1]
    exact ⟨[], (List.append_nil _).symm⟩
  | turn _ _ _ hhistory => exact ⟨[], by rw [hhistory, List.append_nil]⟩
  | beginPoll l task readyTasks _ _ _ _ _ _ hhistory => exact ⟨[], by rw [hhistory, List.append_nil]; rfl⟩
  | endPoll l task result _ _ _ _ _ hhistory =>
    rw [hhistory]
    cases result with
    | ready u => exact ⟨[task], rfl⟩
    | pending => exact ⟨[], (List.append_nil _).symm⟩

theorem spawned_step (h : step s a = some s') (hid : id ∈ ids s.history.spawned) : id ∈ ids s'.history.spawned := by
  cases step_moves h with
  | send msg _ hs' =>
    subst hs'
    exact hid
  | receive l newId msg channel _ _ _ _ _ _ hs' =>
    rw [hs', (receive_executor { s with channel } l newId msg).2.1, ids_append]
    exact List.mem_append_left _ hid
  | turn _ _ _ hhistory => rwa [hhistory]
  | beginPoll l task readyTasks _ _ _ _ _ _ hhistory => rwa [hhistory]
  | endPoll l task result _ _ _ _ _ hhistory =>
    rw [hhistory]
    cases result <;> exact hid

/-- A task that is woken stays so until it is polled. -/
theorem woken_step (h : step s a = some s') (hnot : id ∉ ids (begun s a)) (hid : id ∈ s.history.woken) :
    id ∈ s'.history.woken := by
  cases step_moves h with
  | send msg _ hs' =>
    subst hs'
    cases msg with
    | wakeTask id' => exact Finset.mem_insert_of_mem hid
    | _ => exact hid
  | receive l newId msg channel _ _ _ _ _ _ hs' =>
    rw [hs', (receive_executor { s with channel } l newId msg).2.1]
    exact hid
  | turn _ _ _ hhistory => rwa [hhistory]
  | beginPoll l task readyTasks hbegun _ _ _ _ _ hhistory =>
    rw [hhistory]
    refine Finset.mem_erase.mpr ⟨fun heq => hnot ?_, hid⟩
    rw [hbegun]
    exact List.mem_singleton.mpr heq
  | endPoll l task result _ _ _ _ _ hhistory =>
    rw [hhistory]
    cases result <;> exact hid

end Step

theorem finished_run : ∀ {s s' : State F} {as : List (Act F)} {id : TaskId}, run step s as = some s' →
    id ∉ ids s'.history.finished → id ∉ ids s.history.finished
  | s, s', [], id, h, hid => Option.some.inj h ▸ hid
  | s, s', a :: as, id, h, hid => by
    obtain ⟨s₁, hs₁, h⟩ := Option.bind_eq_some_iff.mp h
    obtain ⟨tasks, htasks⟩ := finished_step hs₁
    have hid := finished_run h hid
    rw [htasks, ids_append] at hid
    exact fun hmem => hid (List.mem_append_left _ hmem)

theorem begun_cases {s s' : State F} {a : Act F} (h : step s a = some s') :
    begun s a = [] ∨ ∃ task ∈ s.executor.readyTasks, begun s a = [task] := by
  cases step_moves h with
  | send _ hbegun => exact Or.inl hbegun
  | receive _ _ _ _ _ hbegun => exact Or.inl hbegun
  | turn hbegun => exact Or.inl hbegun
  | beginPoll l task readyTasks hbegun _ hready =>
    refine Or.inr ⟨task, ?_, hbegun⟩
    rw [hready]
    exact List.mem_cons_self
  | endPoll _ _ _ hbegun => exact Or.inl hbegun

/-- A task that is polled later has not finished. -/
theorem not_finished_of_polled {id : TaskId} : ∀ {s : State F} {as : List (Act F)}, Sane s →
    Taken step Distinct s as →
    id ∈ ids (polls s as) → id ∉ ids s.history.finished
  | _, [], _, _, hmem => by cases hmem
  | s, a :: as, hs, hnew, hmem => by
    cases h : step s a with
    | none =>
      rw [polls, h] at hmem
      cases hmem
    | some s₁ =>
      rw [polls_cons as h, ids_append] at hmem
      rcases List.mem_append.mp hmem with hmem | hmem
      · rcases begun_cases h with hbegun | ⟨task, hready, hbegun⟩
        · rw [hbegun] at hmem
          cases hmem
        · rw [hbegun] at hmem
          obtain rfl := List.mem_singleton.mp hmem
          exact hs.not_finished (List.mem_append_right _ (mem_ids (List.mem_append_left _ hready)))
      · have hid := not_finished_of_polled (sane_step hs (hnew s₁ h).1 h) (hnew s₁ h).2 hmem
        obtain ⟨tasks, htasks⟩ := finished_step h
        rw [htasks, ids_append] at hid
        exact fun hmem => hid (List.mem_append_left _ hmem)

theorem front_append_of_not_mem {id : TaskId} {tasks : List (LocalTask F)} (rest : List (LocalTask F))
    (h : id ∉ ids tasks) : front id (tasks ++ rest) = tasks ++ front id rest :=
  List.takeWhile_append_of_pos fun _ htask => decide_eq_true fun heq => h (heq ▸ mem_ids htask)

/-- The polls before that of a woken task are within the budget. -/
theorem count_polls_le {id : TaskId} (other : TaskId) : ∀ {s s' : State F} {as : List (Act F)}, Sane s → Ordered s →
    Taken step Distinct s as → run step s as = some s' → id ∈ ids s.history.spawned → id ∈ s.history.woken →
    id ∈ ids (polls s as) ∨ id ∉ ids s'.history.finished →
    (ids (front id (polls s as))).count other ≤ budget id other s
  | s, s', [], _, _, _, h, _, _, _ => Nat.zero_le _
  | s, s', a :: as, hs, ho, hnew, h, hspawned, hwoken, hlives => by
    have hfinished : id ∉ ids s.history.finished := hlives.elim (not_finished_of_polled hs hnew) (finished_run h)
    obtain ⟨s₁, hs₁, h⟩ := Option.bind_eq_some_iff.mp h
    rw [polls_cons as hs₁] at hlives ⊢
    by_cases hbegun : id ∈ ids (begun s a)
    · rcases begun_cases hs₁ with hnil | ⟨task, -, hone⟩
      · rw [hnil] at hbegun
        cases hbegun
      · rw [hone] at hbegun ⊢
        have heq : id = task.id := List.mem_singleton.mp hbegun
        rw [List.singleton_append, front, List.takeWhile_cons_of_neg (by simpa using heq.symm)]
        exact Nat.zero_le _
    · have hs₁' := sane_step hs (hnew s₁ hs₁).1 hs₁
      have hhead := count_begun_le other hs hs₁' ho ⟨hspawned, hwoken, hfinished⟩ hs₁ hbegun
      rw [ids_append, List.mem_append] at hlives
      have htail := count_polls_le other hs₁' (ordered_step ho hs₁) (hnew s₁ hs₁).2 h (spawned_step hs₁ hspawned)
        (woken_step hs₁ hbegun hwoken) (hlives.imp_left (Or.resolve_left · hbegun))
      rw [front_append_of_not_mem _ hbegun, ids_append, List.count_append]
      omega

theorem ordered_init : Ordered (State.init : State F) := fun _ => rfl

/-- What holds in a state that a run with distinct ids passes through. -/
theorem reached {s : State F} {as bs : List (Act F)} (hnew : Taken step Distinct State.init (as ++ bs))
    (h : run step State.init as = some s) : (Sane s ∧ Ordered s) ∧ Taken step Distinct s bs := by
  refine ⟨?_, hnew.of_run h⟩
  have hall : Along step (fun s => Sane s ∧ Ordered s) State.init (as ++ bs) :=
    along_of_taken (fun s a s' hs hnew h => ⟨sane_step hs.1 hnew h, ordered_step hs.2 h⟩)
      ⟨sane_init, ordered_init⟩ hnew
  exact (hall.of_run h).head

/-- **From the moment a task is woken until it is polled or finished, no other
is polled more than twice.** -/
theorem overtaken {s s' : State F} {as bs : List (Act F)} (hnew : Taken step Distinct State.init (as ++ bs))
    (hs : run step State.init as = some s) (hbs : run step s bs = some s') {id : TaskId}
    (hspawned : id ∈ ids s.history.spawned) (hwoken : id ∈ s.history.woken)
    (hlives : id ∈ ids (polls s bs) ∨ id ∉ ids s'.history.finished) (other : TaskId) :
    (ids (front id (polls s bs))).count other ≤ 2 := by
  obtain ⟨⟨hsane, hordered⟩, hnew⟩ := reached hnew hs
  exact (count_polls_le other hsane hordered hnew hbs hspawned hwoken hlives).trans (budget_le_two hsane)

/-- Task 1 is polled; task 2 is ready and was woken once more, and task 3 is on its
way. -/
def untilPoll : List (Act Unit) :=
  [.started true, .send (.spawnTasks [⟨(), 1⟩, ⟨(), 2⟩]), .events true false, .receive 0, .next, .next,
    .send (.spawnTask ⟨(), 3⟩), .send (.wakeTask 2)]

def duringPoll : State Unit := (run step State.init untilPoll).getD .init

/-- Task 2 is polled, and in the next round tasks 3, 2 and 1. -/
def nextRound : List (Act Unit) :=
  [.next, .polled .pending, .next, .next, .events true false, .receive 0, .receive 0, .receive 0, .next, .next,
    .polled .pending, .next, .polled .pending, .next]

/-- The wake-up of task 1 is behind one of task 2. -/
def wokenInPoll : State Unit := (run step duringPoll [.send (.wakeTask 1), .polled .pending]).getD .init

theorem overtaken_nextRound : (ids (front 1 (polls wokenInPoll nextRound))).count 2 ≤ 2 :=
  overtaken (by decide)
    (show run step State.init (untilPoll ++ [.send (.wakeTask 1), .polled .pending]) = some wokenInPoll from rfl)
    (show run step wokenInPoll nextRound = some ((run step wokenInPoll nextRound).getD .init) from rfl)
    (by decide) (by decide) (by decide) 2

example : (ids (front 1 (polls wokenInPoll nextRound))).count 2 = 2 := by decide

/-! ### What comes first -/

def Message.wakes (id : TaskId) : Message F → Bool
  | wakeTask id' => id' = id
  | _ => false

/-- The messages in front of the wake-ups of the task `id`. -/
def sooner (id : TaskId) (channel : List (Message F)) : List (Message F) := channel.takeWhile fun msg => !msg.wakes id

/-- A task with `P` is ready, or a message in the channel makes it so. -/
inductive Due (P : LocalTask F → Prop) (s : State F) : Prop
  | ready (task : LocalTask F) (hmem : task ∈ s.executor.readyTasks) (hP : P task)
  | wake (task : LocalTask F) (hrunning : task ∈ s.executor.runningTasks) (hmem : .wakeTask task.id ∈ s.channel)
      (hP : P task)
  | spawn (msg : Message F) (hmem : msg ∈ s.channel) (hP : ∀ newId, ∃ task ∈ msg.tasks newId, P task)

/-- A task with `P` is in front of the task `id`, in the queue or in the
channel. -/
inductive Ahead (P : LocalTask F → Prop) (id : TaskId) (s : State F) : Prop
  | ready (task : LocalTask F) (hmem : task ∈ front id s.executor.readyTasks) (hP : P task)
  | wake (hready : id ∉ ids s.executor.readyTasks) (task : LocalTask F) (hrunning : task ∈ s.executor.runningTasks)
      (hmem : .wakeTask task.id ∈ sooner id s.channel) (hP : P task)
  | spawn (hready : id ∉ ids s.executor.readyTasks) (msg : Message F) (hmem : msg ∈ sooner id s.channel)
      (hP : ∀ newId, ∃ task ∈ msg.tasks newId, P task)

theorem mem_takeWhile_append {α : Type} {p : α → Bool} {x : α} {l : List α} (l' : List α) (h : x ∈ l.takeWhile p) :
    x ∈ (l ++ l').takeWhile p := by
  rw [List.takeWhile_append]
  split
  · exact List.mem_append_left _ (List.takeWhile_subset p h)
  · exact h

section Ahead

variable {s s' : State F} {a : Act F} {id : TaskId} {P : LocalTask F → Prop}

/-- Without a wake-up on its way, a task comes after all that is due. -/
theorem Due.ahead (h : Due P s) (hready : id ∉ ids s.executor.readyTasks) (hwake : .wakeTask id ∉ s.channel) :
    Ahead P id s := by
  have hsooner : sooner id s.channel = s.channel := by
    refine List.takeWhile_eq_self_iff.mpr fun msg hmsg => ?_
    cases msg with
    | wakeTask id' =>
      rw [Message.wakes, Bool.not_eq_true', decide_eq_false_iff_not]
      rintro rfl
      exact hwake hmsg
    | _ => rfl
  cases h with
  | ready task hmem hP => exact .ready task (by rwa [front_of_not_mem hready]) hP
  | wake task hrunning hmem hP => exact .wake hready task hrunning (by rwa [hsooner]) hP
  | spawn msg hmem hP => exact .spawn hready msg (by rwa [hsooner]) hP

/-- A message spawns what it brings, or wakes a task that runs. -/
theorem receive_cases (hs : Sane s) (l : Loop) (newId : TaskId) (msg : Message F) (channel : List (Message F)) :
    ((receive { s with channel } l newId msg).executor =
        ⟨s.executor.readyTasks ++ msg.tasks newId, s.executor.runningTasks, s.executor.wakerCache⟩ ∧
      ∀ task ∈ s.executor.runningTasks, msg ≠ .wakeTask task.id) ∨
    ∃ woken ∈ s.executor.runningTasks, msg = .wakeTask woken.id ∧
      (receive { s with channel } l newId msg).executor = ⟨s.executor.readyTasks ++ [woken],
        s.executor.runningTasks.filter fun task => task.id ≠ woken.id, s.executor.wakerCache⟩ ∧
      s.executor.runningTasks.Perm (woken :: s.executor.runningTasks.filter fun task => task.id ≠ woken.id) := by
  have hexecutor := (receive_executor { s with channel } l newId msg).2.2
  cases msg with
  | wakeTask id' =>
    rcases wakeTask_cases s.executor id' hs.running_nodup with ⟨hid, he⟩ | ⟨woken, hwoken, rfl, he, hperm⟩
    · refine Or.inl ⟨hexecutor.trans (he.trans ?_), fun task htask h => hid ?_⟩
      · rw [Message.tasks, List.append_nil]
      · rw [Message.wakeTask.inj h]
        exact mem_ids htask
    · exact Or.inr ⟨woken, hwoken, rfl, hexecutor.trans he, hperm⟩
  | _ => exact Or.inl ⟨hexecutor, by simp⟩

/-- A message that does not wake a task does not make it ready. -/
theorem not_ready_receive {l : Loop} {newId : TaskId} {msg : Message F} {channel : List (Message F)} (hs : Sane s)
    (hnew : (ids (s.history.spawned ++ msg.tasks newId)).Nodup) (hspawned : id ∈ ids s.history.spawned)
    (hready : id ∉ ids s.executor.readyTasks) (hmsg : msg.wakes id = false) :
    id ∉ ids (receive { s with channel } l newId msg).executor.readyTasks := by
  rcases receive_cases hs l newId msg channel with ⟨he, -⟩ | ⟨woken, -, rfl, he, -⟩
  · rw [ids_append] at hnew
    rw [he, ids_append]
    exact fun h => (List.mem_append.mp h).elim hready fun h => (List.nodup_append.mp hnew).2.2 id hspawned id h rfl
  · rw [he, ids_append]
    refine fun h => (List.mem_append.mp h).elim hready fun h => ?_
    have heq : id = woken.id := List.mem_singleton.mp h
    rw [Message.wakes, decide_eq_false_iff_not] at hmsg
    exact hmsg heq.symm

/-- A task that runs goes on, or is made ready. -/
theorem running_receive {task : LocalTask F} (hs : Sane s) (hrunning : task ∈ s.executor.runningTasks) (l : Loop)
    (newId : TaskId) (msg : Message F) (channel : List (Message F)) :
    (task ∈ (receive { s with channel } l newId msg).executor.runningTasks ∧ msg ≠ .wakeTask task.id) ∨
      task ∈ (receive { s with channel } l newId msg).executor.readyTasks := by
  rcases receive_cases hs l newId msg channel with ⟨he, hnone⟩ | ⟨woken, -, rfl, he, hperm⟩
  · rw [he]
    exact Or.inl ⟨hrunning, hnone task hrunning⟩
  · rw [he]
    rcases List.mem_cons.mp (hperm.mem_iff.mp hrunning) with rfl | hmem
    · exact Or.inr (List.mem_append_right _ List.mem_cons_self)
    · refine Or.inl ⟨hmem, fun h => ?_⟩
      have hne := of_decide_eq_true (List.mem_filter.mp hmem).2
      exact hne (Message.wakeTask.inj h).symm

/-- What is ahead in the channel or in the queue stays ahead when a message is
received. -/
theorem Ahead.receive {l : Loop} {newId : TaskId} {msg : Message F} {channel : List (Message F)} (hs : Sane s)
    (hchannel : s.channel = msg :: channel) (hnew : (ids (s.history.spawned ++ msg.tasks newId)).Nodup)
    (hspawned : id ∈ ids s.history.spawned) (ha : Ahead P id s) :
    Ahead P id (Tasks.receive { s with channel } l newId msg) := by
  have hsame : (Tasks.receive { s with channel } l newId msg).channel = channel :=
    (receive_executor { s with channel } l newId msg).1
  have hhead : ∀ {msg'}, msg' ∈ sooner id s.channel →
      msg.wakes id = false ∧ (msg' = msg ∨ msg' ∈ sooner id channel) := by
    intro msg' hmem
    rw [hchannel, sooner, List.takeWhile_cons] at hmem
    split at hmem
    · rename_i hwakes
      exact ⟨by simpa using hwakes, List.mem_cons.mp hmem⟩
    · cases hmem
  cases ha with
  | ready task hmem hP =>
    obtain ⟨tasks, htasks⟩ := receive_ready { s with channel } l newId msg
    refine .ready task ?_ hP
    rw [htasks]
    exact mem_takeWhile_append tasks hmem
  | wake hready task hrunning hmem hP =>
    obtain ⟨hmsg, hwhere⟩ := hhead hmem
    have hready' : id ∉ ids (Tasks.receive { s with channel } l newId msg).executor.readyTasks :=
      not_ready_receive hs hnew hspawned hready hmsg
    rcases running_receive hs hrunning l newId msg channel with ⟨hrunning', hne⟩ | hmem'
    · refine .wake hready' task hrunning' ?_ hP
      rw [hsame]
      exact hwhere.resolve_left hne.symm
    · exact .ready task (by rwa [front_of_not_mem hready']) hP
  | spawn hready msg' hmem hP =>
    obtain ⟨hmsg, hwhere⟩ := hhead hmem
    have hready' : id ∉ ids (Tasks.receive { s with channel } l newId msg).executor.readyTasks :=
      not_ready_receive hs hnew hspawned hready hmsg
    rcases hwhere with rfl | hmem'
    · obtain ⟨task, htask, hP⟩ := hP newId
      refine .ready task ?_ hP
      rw [front_of_not_mem hready']
      rcases receive_cases hs l newId msg' channel with ⟨he, -⟩ | ⟨woken, -, rfl, -, -⟩
      · rw [he]
        exact List.mem_append_right _ htask
      · cases htask
    · refine .spawn hready' msg' ?_ hP
      rwa [hsame]

/-- **What is ahead of a task stays ahead of it until it is polled.** -/
theorem ahead_step (hs : Sane s) (hnew : Distinct s a) (hspawned : id ∈ ids s.history.spawned) (ha : Ahead P id s)
    (h : step s a = some s') :
    id ∉ ids (begun s a) ∧ ((∃ task ∈ begun s a, P task) ∨ Ahead P id s') := by
  cases step_moves h with
  | send msg hbegun hs' =>
    subst hs'
    rw [hbegun]
    refine ⟨List.not_mem_nil, Or.inr ?_⟩
    cases ha with
    | ready task hmem hP => exact .ready task hmem hP
    | wake hready task hrunning hmem hP => exact .wake hready task hrunning (mem_takeWhile_append [msg] hmem) hP
    | spawn hready msg' hmem hP => exact .spawn hready msg' (mem_takeWhile_append [msg] hmem) hP
  | receive l newId msg channel ha' hbegun _ _ _ hchannel hs' =>
    subst ha'
    rw [hbegun, hs']
    refine ⟨List.not_mem_nil, Or.inr (ha.receive hs hchannel ?_ hspawned)⟩
    rw [Distinct, hchannel] at hnew
    exact hnew msg rfl
  | turn hbegun hchannel hexecutor _ _ _ _ _ _ =>
    rw [hbegun]
    refine ⟨List.not_mem_nil, Or.inr ?_⟩
    cases ha with
    | ready task hmem hP => exact .ready task (by rwa [hexecutor]) hP
    | wake hready task hrunning hmem hP =>
      exact .wake (by rwa [hexecutor]) task (by rwa [hexecutor]) (by rwa [hchannel]) hP
    | spawn hready msg hmem hP => exact .spawn (by rwa [hexecutor]) msg (by rwa [hchannel]) hP
  | beginPoll l polled readyTasks hbegun hpc hready hpc' hchannel hexecutor _ =>
    have hready' : s'.executor.readyTasks = readyTasks := by rw [hexecutor]; rfl
    have hrunning' : s'.executor.runningTasks = s.executor.runningTasks := by rw [hexecutor]; rfl
    have hrest : id ∉ ids s.executor.readyTasks → polled.id ≠ id ∧ id ∉ ids s'.executor.readyTasks := by
      rw [hready, hready']
      exact fun h => ⟨fun heq => h (List.mem_cons.mpr (Or.inl heq.symm)), fun hmem => h (List.mem_cons_of_mem _ hmem)⟩
    rw [hbegun]
    have hnotBegun : polled.id ≠ id → id ∉ ids [polled] := fun hne hmem => hne (List.mem_singleton.mp hmem).symm
    cases ha with
    | ready task hmem hP =>
      have hne : polled.id ≠ id := by
        intro heq
        rw [hready, front, List.takeWhile_cons_of_neg (by simpa using heq)] at hmem
        cases hmem
      refine ⟨hnotBegun hne, ?_⟩
      rw [hready, front_cons _ hne] at hmem
      rcases List.mem_cons.mp hmem with rfl | hmem
      · exact Or.inl ⟨task, List.mem_cons_self, hP⟩
      · exact Or.inr (.ready task (by rwa [hready']) hP)
    | wake hnot task hrunning hmem hP =>
      obtain ⟨hne, hnot'⟩ := hrest hnot
      exact ⟨hnotBegun hne, Or.inr (.wake hnot' task (by rwa [hrunning']) (by rwa [hchannel]) hP)⟩
    | spawn hnot msg hmem hP =>
      obtain ⟨hne, hnot'⟩ := hrest hnot
      exact ⟨hnotBegun hne, Or.inr (.spawn hnot' msg (by rwa [hchannel]) hP)⟩
  | endPoll l polled result hbegun hpc hpc' hchannel hexecutor _ =>
    have hready' : s'.executor.readyTasks = s.executor.readyTasks := by
      rw [hexecutor]
      cases result <;> rfl
    rw [hbegun]
    refine ⟨List.not_mem_nil, Or.inr ?_⟩
    cases ha with
    | ready task hmem hP => exact .ready task (by rwa [hready']) hP
    | wake hready task hrunning hmem hP =>
      refine .wake (by rwa [hready']) task ?_ (by rwa [hchannel]) hP
      have hnot : polled.id ∉ ids s.executor.runningTasks :=
        hs.task_not_running (by rw [hpc]; exact List.mem_cons_self)
      rw [hexecutor]
      cases result with
      | ready u => exact hrunning
      | pending =>
        rw [Executor.endPoll, filter_id_eq_self hnot]
        exact List.mem_cons_of_mem _ hrunning
    | spawn hready msg hmem hP => exact .spawn (by rwa [hready']) msg (by rwa [hchannel]) hP

end Ahead

/-- What is ahead of a task is polled before it. -/
theorem ahead_polls {P : LocalTask F → Prop} {id : TaskId} : ∀ {s : State F} {as : List (Act F)}, Sane s →
    Taken step Distinct s as → id ∈ ids s.history.spawned → Ahead P id s → id ∈ ids (polls s as) →
    ∃ task ∈ front id (polls s as), P task
  | _, [], _, _, _, _, hmem => by cases hmem
  | s, a :: as, hs, hnew, hspawned, ha, hmem => by
    cases h : step s a with
    | none =>
      rw [polls, h] at hmem
      cases hmem
    | some s₁ =>
      rw [polls_cons as h] at hmem ⊢
      obtain ⟨hnot, hnext⟩ := ahead_step hs (hnew s₁ h).1 hspawned ha h
      rw [front_append_of_not_mem _ hnot]
      rcases hnext with ⟨task, htask, hP⟩ | ha₁
      · exact ⟨task, List.mem_append_left _ htask, hP⟩
      · rw [ids_append] at hmem
        obtain ⟨task, htask, hP⟩ := ahead_polls (sane_step hs (hnew s₁ h).1 h) (hnew s₁ h).2 (spawned_step h hspawned)
          ha₁ ((List.mem_append.mp hmem).resolve_left hnot)
        exact ⟨task, List.mem_append_right _ htask, hP⟩

/-- **A task that is not ready and has no wake-up on its way comes after all that
is due: what is ready, and what the messages in the channel make ready.** -/
theorem polled_first {s : State F} {as bs : List (Act F)} (hnew : Taken step Distinct State.init (as ++ bs))
    (hs : run step State.init as = some s) {id : TaskId} (hspawned : id ∈ ids s.history.spawned)
    (hready : id ∉ ids s.executor.readyTasks) (hwake : .wakeTask id ∉ s.channel) (hpolled : id ∈ ids (polls s bs))
    {P : LocalTask F → Prop} (hdue : Due P s) : ∃ task ∈ front id (polls s bs), P task := by
  obtain ⟨⟨hsane, -⟩, hnew⟩ := reached hnew hs
  exact ahead_polls hsane hnew hspawned (hdue.ahead hready hwake) hpolled

theorem polled_first_nextRound :
    ∃ task ∈ front 1 (polls duringPoll ([.send (.wakeTask 1), .polled .pending] ++ nextRound)), task.id = 3 :=
  polled_first (by decide) (show run step State.init untilPoll = some duringPoll from rfl)
    (by decide) (by decide) (by decide) (by decide)
    (.spawn (.spawnTask ⟨(), 3⟩) (by decide) fun _ => ⟨⟨(), 3⟩, List.mem_cons_self, rfl⟩)

/-! ### Yielding -/

/-- `compare_exchange` of an `AtomicBool`: its result, and the value it leaves. -/
def compareExchange (value current new : Bool) : Except Bool Bool × Bool :=
  if value = current then (.ok value, new) else (.error value, value)

structure YieldFuture where
  yielded : Bool
  deriving DecidableEq, Repr

namespace YieldFuture

def new : YieldFuture := ⟨false⟩

/-- `poll`, with whether it wakes the task. -/
def poll (y : YieldFuture) : Poll Unit × Bool × YieldFuture :=
  match compareExchange y.yielded false true with
  | (.ok false, yielded) => (.pending, true, ⟨yielded⟩)
  | (.error true, yielded) => (.ready (), false, ⟨yielded⟩)
  | (_, yielded) => if yielded then (.ready (), false, ⟨yielded⟩) else (.pending, true, ⟨yielded⟩)

/-- What a task does in a poll from where it awaits the future: if that is
pending, so is the task. -/
def acts (y : YieldFuture) (id : TaskId) : List (Act F) :=
  match y.poll with
  | (.pending, woken, _) => (if woken then [.send (.wakeTask id)] else []) ++ [.polled .pending]
  | (.ready (), _, _) => []

end YieldFuture

theorem unfinished_step {s s' : State F} {a : Act F} {id : TaskId} (h : step s a = some s')
    (hnot : id ∉ ids (begun s a)) (htask : id ∉ ids s.pc.task) (hid : id ∉ ids s.history.finished) :
    id ∉ ids s'.pc.task ∧ id ∉ ids s'.history.finished := by
  cases step_moves h with
  | send msg _ hs' =>
    subst hs'
    exact ⟨htask, hid⟩
  | receive l newId msg channel _ _ hpc _ _ _ hs' =>
    refine ⟨?_, ?_⟩
    · rcases receive_task { s with channel } l newId msg hpc with hpc' | hpc' <;>
        rw [hs', hpc'] <;> exact List.not_mem_nil
    · rwa [hs', (receive_executor { s with channel } l newId msg).2.1]
  | turn _ _ _ hhistory _ htask' =>
    rw [htask', hhistory]
    exact ⟨List.not_mem_nil, hid⟩
  | beginPoll l task readyTasks hbegun _ _ hpc' _ _ hhistory =>
    rw [hbegun] at hnot
    rw [hpc', hhistory]
    exact ⟨hnot, hid⟩
  | endPoll l task result _ hpc hpc' _ _ hhistory =>
    rw [hpc', hhistory]
    refine ⟨List.not_mem_nil, ?_⟩
    cases result with
    | pending => exact hid
    | ready u =>
      rw [hpc] at htask
      rw [History.endPoll, ids_append]
      exact fun h => (List.mem_append.mp h).elim hid htask

theorem unfinished_run {id : TaskId} : ∀ {s s' : State F} {as : List (Act F)}, run step s as = some s' →
    id ∉ ids (polls s as) → id ∉ ids s.pc.task → id ∉ ids s.history.finished → id ∉ ids s'.history.finished
  | s, s', [], h, _, _, hid => Option.some.inj h ▸ hid
  | s, s', a :: as, h, hnot, htask, hid => by
    obtain ⟨s₁, hs₁, h⟩ := Option.bind_eq_some_iff.mp h
    rw [polls_cons as hs₁, ids_append, List.mem_append, not_or] at hnot
    obtain ⟨htask, hid⟩ := unfinished_step hs₁ hnot.1 htask hid
    exact unfinished_run h hnot.2 htask hid

/-- The worker when the task has yielded. -/
def afterYield (s : State F) (l : Loop) (task : LocalTask F) : State F :=
  { send s (.wakeTask task.id) with pc := .run l, executor := s.executor.endPoll task .pending }

section Yield

variable {s : State F} {l : Loop} {task : LocalTask F} (hpc : s.pc = .polling l task)

include hpc

theorem step_wakeSelf : step s (.send (.wakeTask task.id)) = some (send s (.wakeTask task.id)) := by
  rw [step, hpc]
  exact if_neg Bool.false_ne_true

theorem step_yield : step (send s (.wakeTask task.id)) (.polled .pending) = some (afterYield s l task) := by
  have hpc' : (send s (.wakeTask task.id)).pc = .polling l task := hpc
  simp only [step, hpc']
  rfl

theorem run_new_acts (bs : List (Act F)) :
    run step s (YieldFuture.new.acts task.id ++ bs) = run step (afterYield s l task) bs := by
  show run step s (.send (.wakeTask task.id) :: .polled .pending :: bs) = _
  rw [run, step_wakeSelf hpc, Option.bind_some, run, step_yield hpc, Option.bind_some]

theorem polls_new_acts (bs : List (Act F)) :
    polls s (YieldFuture.new.acts task.id ++ bs) = polls (afterYield s l task) bs := by
  show polls s (.send (.wakeTask task.id) :: .polled .pending :: bs) = _
  rw [polls_cons _ (step_wakeSelf hpc), polls_cons _ (step_yield hpc)]
  rfl

end Yield

/-- **A task that awaits a `YieldFuture` goes on at its next poll. Whatever was due
when it yielded is polled before that, and nothing more than twice.** -/
theorem yields {s s' : State F} {as bs : List (Act F)} {l : Loop} {task : LocalTask F}
    (hnew : Taken step Distinct State.init (as ++ (YieldFuture.new.acts task.id ++ bs)))
    (hs : run step State.init as = some s) (hpc : s.pc = .polling l task) (hwake : .wakeTask task.id ∉ s.channel)
    (hbs : run step s (YieldFuture.new.acts task.id ++ bs) = some s') :
    (YieldFuture.new.poll.2.2.poll).1 = .ready () ∧
      (∀ other, (ids (front task.id (polls s (YieldFuture.new.acts task.id ++ bs)))).count other ≤ 2) ∧
      (task.id ∈ ids (polls s (YieldFuture.new.acts task.id ++ bs)) → ∀ P : LocalTask F → Prop, Due P s →
        ∃ t ∈ front task.id (polls s (YieldFuture.new.acts task.id ++ bs)), P t) := by
  obtain ⟨⟨hsane, -⟩, htaken⟩ := reached hnew hs
  have hmem : task ∈ s.pc.task := by rw [hpc]; exact List.mem_cons_self
  have hspawned : task.id ∈ ids s.history.spawned :=
    (ids_perm hsane.perm).mem_iff.mp (mem_ids (List.mem_append_right _ (List.mem_append_left _ hmem)))
  have hready : task.id ∉ ids s.executor.readyTasks := by
    have hplaces := (List.nodup_append.mp hsane.places).2.1
    rw [owned, ids_append] at hplaces
    exact fun h => (List.nodup_append.mp hplaces).2.2 _ (mem_ids hmem) _ (List.mem_append_left _ h) rfl
  rw [run_new_acts hpc] at hbs
  refine ⟨rfl, fun other => ?_,
    fun hpolled P hdue => ahead_polls hsane htaken hspawned (hdue.ahead hready hwake) hpolled⟩
  have hrun : run step State.init (as ++ YieldFuture.new.acts task.id) = some (afterYield s l task) := by
    have hacts := run_new_acts hpc []
    rw [List.append_nil] at hacts
    rw [run_append, hs]
    exact hacts
  rw [← List.append_assoc] at hnew
  obtain ⟨⟨hsane', hordered⟩, hnew⟩ := reached hnew hrun
  have hfinished : task.id ∉ ids (afterYield s l task).history.finished :=
    hsane.not_finished (List.mem_append_left _ (mem_ids hmem))
  have hlives : task.id ∈ ids (polls (afterYield s l task) bs) ∨ task.id ∉ ids s'.history.finished := by
    by_cases hpolled : task.id ∈ ids (polls (afterYield s l task) bs)
    · exact Or.inl hpolled
    · exact Or.inr (unfinished_run hbs hpolled List.not_mem_nil hfinished)
  rw [polls_new_acts hpc]
  exact (count_polls_le other hsane' hordered hnew hbs hspawned (Finset.mem_insert_self _ _) hlives).trans
    (budget_le_two hsane')

theorem yields_nextRound :
    (YieldFuture.new.poll.2.2.poll).1 = .ready () ∧
      (∀ other, (ids (front 1 (polls duringPoll (YieldFuture.new.acts 1 ++ nextRound)))).count other ≤ 2) ∧
      (1 ∈ ids (polls duringPoll (YieldFuture.new.acts 1 ++ nextRound)) →
        ∀ P : LocalTask Unit → Prop, Due P duringPoll →
        ∃ t ∈ front 1 (polls duringPoll (YieldFuture.new.acts 1 ++ nextRound)), P t) :=
  yields (by decide) (show run step State.init untilPoll = some duringPoll from rfl)
    (show duringPoll.pc = .polling .main ⟨(), 1⟩ from rfl) (by decide)
    (show run step duringPoll (YieldFuture.new.acts 1 ++ nextRound) =
      some ((run step duringPoll (YieldFuture.new.acts 1 ++ nextRound)).getD .init) from rfl)

end Tasks
end ClAsync
