/-
# Back-pressure

A submission that finds the ring full waits in `waiting_submissions`. The
loop retries it when it handles completions, and `submit` empties the ring at
the end of every iteration that pushed something. So a worker that blocks in
`poll_events` with a submission waiting has a ring with room for it: nothing
but an unrelated completion will get it pushed.

That happens after every iteration that receives more than 256 `SubmitIO`
messages, and only then.

Key definitions: `Unstranded`, `Backlog`, `Fits`.
Key theorems: `backlog_step`, one step, and `unstranded_iff`, every run.
-/
import ClAsync.Worker.Loop
import ClAsync.Lib.Runs

namespace ClAsync
namespace Worker

variable {τ κ φ : Type}

/-- When the worker is about to block, no submission waits while the ring has
room. -/
def Unstranded (s : State τ κ φ) : Prop :=
  s.pc = .poll → s.waitingSubmissions = [] ∨ s.ctx.submission.length = ringEntries

/-- The iteration that ends received no more `SubmitIO` messages than the ring
has entries, or it is the last one. -/
def Fits (s : State τ κ φ) (a : Act τ) : Prop :=
  match s.pc, a with
  | .check, .tasks _ => s.status = .stopping ∨ s.batch ≤ ringEntries
  | _, _ => True

/-- What is on the ring and what waits, at every point of the main loop. -/
def Backlog (s : State τ κ φ) : Prop :=
  match s.pc with
  | .poll | .complete | .retry =>
    s.ctx.submission = [] ∧ s.waitingSubmissions = [] ∧ s.shouldSubmitIo = false ∧ s.batch = 0
  | .recv | .submit =>
    s.ctx.submission.length = min s.batch ringEntries ∧
      s.waitingSubmissions.length = s.batch - ringEntries ∧ (s.shouldSubmitIo = true ∨ s.batch = 0)
  | .check => s.ctx.submission = [] ∧ s.waitingSubmissions.length = s.batch - ringEntries
  | _ => True

/-- A message received goes to the ring while it has room, then to the
submissions that wait. -/
theorem backlog_receive {s : State τ κ φ} (hpc : s.pc = .recv) (hs : Backlog s) (msg : Message τ) :
    Backlog (receive s msg) := by
  cases msg with
  | submitIo submission =>
    simp only [Backlog, hpc] at hs
    obtain ⟨hring, hwaiting, -⟩ := hs
    simp only [receive, Backlog, hpc, prepareIoSubmission]
    rcases Nat.lt_or_ge s.ctx.submission.length ringEntries with hlt | hge
    · rw [IoContext.prepareSubmission_of_lt submission hlt]
      simp only [IoContext.push, List.length_append, List.length_singleton]
      refine ⟨?_, ?_, Or.inl trivial⟩ <;> omega
    · rw [IoContext.prepareSubmission_of_ge submission hge]
      simp only [List.length_append, List.length_singleton]
      refine ⟨?_, ?_, Or.inl trivial⟩ <;> omega
  | shutdown => simpa only [receive, Backlog, hpc] using hs
  | kill => trivial
  | other => exact hs

theorem backlog_next {s s' : State τ κ φ} (hs : Backlog s) (h : next s = some s') : Backlog s' := by
  cases next_cases h with
  | complete hpc =>
    simp only [Backlog, hpc] at hs
    obtain ⟨hring, hwaiting, hsubmit, hbatch⟩ := hs
    cases s.shouldCompleteIo <;> simp [Backlog, hring, hwaiting, hsubmit, hbatch]
  | retryNone hpc =>
    simp only [Backlog, hpc] at hs
    obtain ⟨hring, hwaiting, hsubmit, hbatch⟩ := hs
    simp [Backlog, hring, hwaiting, hbatch]
  | retryPush submission waiting hpc hwaiting | retryFull submission waiting hpc hwaiting =>
    simp only [Backlog, hpc] at hs
    cases hwaiting.symm.trans hs.2.1
  | receive msg channel hpc =>
    refine backlog_receive (s := { s with channel }) hpc ?_ msg
    simpa only [Backlog, hpc] using hs
  | recvNone hpc =>
    simp only [Backlog, hpc] at hs
    exact hs
  | submit hpc =>
    simp only [Backlog, hpc] at hs
    obtain ⟨hring, hwaiting, hsubmit⟩ := hs
    refine ⟨?_, hwaiting⟩
    by_cases hyes : s.shouldSubmitIo = true
    · rw [if_pos hyes]
      rfl
    · rw [if_neg hyes]
      have hbatch : s.batch = 0 := hsubmit.resolve_left hyes
      rw [hbatch, Nat.zero_min] at hring
      exact List.length_eq_zero_iff.mp hring
  | shutdownReceive msg channel hpc => cases msg <;> simp [shutdownReceive, Backlog, hpc]
  | _ => trivial

variable [CompletableOperation τ κ φ]

/-- Every step but the end of an iteration that received too much keeps the
backlog. -/
theorem backlog_step {s s' : State τ κ φ} {a : Act τ} (hs : Backlog s) (hfits : Fits s a)
    (h : step s a = some s') : Backlog s' := by
  cases step_cases h with
  | send => exact hs
  | pollKey => exact hs
  | interrupted hpc =>
    simp only [Backlog, hpc] at hs
    exact ⟨hs.1, hs.2.1, rfl, rfl⟩
  | events _ _ _ hpc =>
    simp only [Backlog, hpc] at hs
    exact hs
  | item _ _ _ _ _ hctx =>
    obtain ⟨-, traffic, -, rfl⟩ := IoContext.completeItem_cases hctx
    exact hs
  | loop running hpc hst =>
    simp only [Backlog, hpc] at hs
    obtain ⟨hring, hwaiting⟩ := hs
    simp only [Fits, hpc] at hfits
    have hle := hfits.resolve_left hst
    exact ⟨hring, List.length_eq_zero_iff.mp (hwaiting.trans (by omega)), rfl, rfl⟩
  | enter | stay | leave => trivial
  | next _ hnext => exact backlog_next hs hnext

/-- The end of an iteration that received too much leaves a submission waiting
next to an empty ring. -/
theorem not_unstranded {s s' : State τ κ φ} {a : Act τ} (hs : Backlog s) (hfits : ¬ Fits s a)
    (h : step s a = some s') : ¬ Unstranded s' := by
  obtain ⟨running, hpc, rfl⟩ : ∃ running, s.pc = .check ∧ a = .tasks running := by
    unfold Fits at hfits
    split at hfits
    · exact ⟨_, ‹_›, rfl⟩
    · exact absurd trivial hfits
  simp only [Fits, hpc, not_or, Nat.not_le] at hfits
  obtain ⟨hst, hgt⟩ := hfits
  simp only [Backlog, hpc] at hs
  obtain ⟨hring, hwaiting⟩ := hs
  simp only [step, hpc, if_neg hst, Option.some.injEq] at h
  subst h
  intro hun
  rcases hun rfl with hnil | hfull
  · have hlen := hwaiting.symm.trans (congrArg List.length hnil)
    rw [List.length_nil] at hlen
    omega
  · have hfull : s.ctx.submission.length = ringEntries := hfull
    rw [hring] at hfull
    cases hfull

omit [CompletableOperation τ κ φ] in
theorem Backlog.unstranded {s : State τ κ φ} (hs : Backlog s) : Unstranded s := by
  intro hpc
  simp only [Backlog, hpc] at hs
  exact Or.inl hs.2.1

/-- **In every run, no submission waits next to a ring with room when the
worker is about to block if and only if no iteration of its loop but the last
receives more than 256 `SubmitIO` messages.** -/
theorem unstranded_iff (as : List (Act τ)) :
    Runs.Along step Unstranded (State.init : State τ κ φ) as ↔ Runs.Taken step Fits State.init as :=
  Runs.along_iff_taken
    (fun _ _ _ hs _ hfits h => ⟨backlog_step hs hfits h, (backlog_step hs hfits h).unstranded⟩)
    (fun _ _ _ hs _ hfits h => not_unstranded hs hfits h)
    ⟨rfl, rfl, rfl, rfl⟩ fun _ => Or.inl rfl

/-! ### A batch that does not fit -/

/-- Other threads send `submissions` while the worker sleeps; the worker wakes
up, receives them and ends its iteration. -/
def batchOf (submissions : List (IoSubmission τ)) : List (Act τ) :=
  submissions.map (fun submission => .send (.submitIo submission)) ++
    ([.events true false false, .next] ++ (List.replicate submissions.length .next ++
      ([.next, .next] ++ [.tasks false])))

theorem run_sends : ∀ (submissions : List (IoSubmission τ)) (s : State τ κ φ),
    Runs.run step s (submissions.map fun submission => .send (.submitIo submission)) =
      some { s with channel := s.channel ++ submissions.map .submitIo }
  | [], s => by rw [List.map_nil, List.map_nil, List.append_nil]; rfl
  | submission :: submissions, s => by
    have ih := run_sends submissions { s with channel := s.channel ++ [.submitIo submission] }
    rw [List.append_assoc, List.singleton_append] at ih
    exact ih

/-- Receiving a batch leaves the worker at the end of its channel. -/
theorem run_receive : ∀ (submissions : List (IoSubmission τ)) (s : State τ κ φ), s.pc = .recv →
    s.shouldRecv = true → s.channel = submissions.map .submitIo → Backlog s →
    ∃ s', Runs.run step s (List.replicate submissions.length .next) = some s' ∧ s'.pc = .recv ∧
      s'.status = s.status ∧ s'.channel = [] ∧ s'.batch = s.batch + submissions.length ∧ Backlog s'
  | [], s, hpc, _, hchannel, hs => ⟨s, rfl, hpc, rfl, hchannel, rfl, hs⟩
  | submission :: submissions, s, hpc, hrecv, hchannel, hs => by
    let s₁ := receive { s with channel := submissions.map .submitIo } (.submitIo submission)
    have hnext : step s .next = some s₁ := by
      rw [step, next]
      split <;> simp_all [s₁]
    obtain ⟨s', hrun, hpc', hst', hchannel', hbatch, hs'⟩ :=
      run_receive submissions s₁ hpc hrecv rfl (backlog_next hs hnext)
    refine ⟨s', ?_, hpc', hst', hchannel', ?_, hs'⟩
    · rw [List.length_cons, List.replicate_succ, Runs.run, hnext]
      exact hrun
    · rw [hbatch, List.length_cons, Nat.add_comm submissions.length, ← Nat.add_assoc]
      rfl

/-- A batch of more submissions than the ring has entries strands one. -/
theorem batchOf_strands {submissions : List (IoSubmission τ)} (h : ringEntries < submissions.length) :
    ¬ Runs.Along step Unstranded (State.init : State τ κ φ) (batchOf submissions) := by
  intro halong
  -- The worker wakes up with the whole batch in its channel.
  have halong := halong.of_run (run_sends submissions State.init)
  let woken : State τ κ φ :=
    { State.init with
      pc := .recv, status := .busy, channel := submissions.map .submitIo, shouldRecv := true }
  have hwoken : Runs.run step { State.init with channel := submissions.map .submitIo }
      [.events true false false, .next] = some woken := by
    simp [Runs.run, step, next, State.init, woken]
  have halong := halong.of_run hwoken
  obtain ⟨s', hrun, hpc, hst, hchannel, hbatch, hs⟩ :=
    run_receive submissions woken rfl rfl rfl
      ⟨(Nat.zero_min _).symm, (Nat.zero_sub _).symm, Or.inr rfl⟩
  have halong := halong.of_run hrun
  -- It submits what is on the ring and goes back to sleep.
  let checked : State τ κ φ :=
    { s' with pc := .check, ctx := if s'.shouldSubmitIo then s'.ctx.submit else s'.ctx }
  have hchecked : Runs.run step s' [.next, .next] = some checked := by
    simp [Runs.run, step, next, hpc, hchannel, checked]
  have hbacklog : Backlog checked := by
    have hsubmit : next { s' with pc := .submit } = some checked := rfl
    refine backlog_next ?_ hsubmit
    simpa only [Backlog, hpc] using hs
  have hfits : ¬ Fits checked (.tasks false) := by
    have hlen : s'.batch = submissions.length := hbatch.trans (Nat.zero_add _)
    rintro (hstop | hle)
    · cases hst.symm.trans hstop
    · exact absurd h (Nat.not_lt.mpr (hlen ▸ hle))
  exact not_unstranded hbacklog hfits rfl ((halong.of_run hchecked).2 _ rfl)

/-- 257 forgotten closes are submitted while the worker sleeps. -/
theorem unstranded_fails :
    ¬ Runs.Along step Unstranded (State.init : State IoCloseData Empty Empty)
      (batchOf ((List.range 257).map fun key => ⟨key, .closeForget, none⟩)) :=
  batchOf_strands (by rw [List.length_map, List.length_range]; decide)

end Worker

end ClAsync
