/-
# What a graceful shutdown does with the submissions

A submission that a worker receives is accepted: it goes on the ring, or it
waits in `waiting_submissions` for the ring to have room. The main loop
retries what waits when it handles completions. The shutdown loop does not:
it calls `prepare_io_submission` for what it receives, which makes a
submission wait when the ring is full, and never looks at what waits again.
`broadcast_and_wake` and the tasks have their turn, the loop ends when no
task runs, and what still waits is dropped with the worker.

So a worker that leaves `worker_loop` through the shutdown loop has pushed
each submission it received exactly once if and only if none waits when it
enters the shutdown loop, and none that it receives there finds the ring
full.

Key definitions: `received`, `Retries`.
Key theorems: `accepted_run`, no submission is lost or doubled between the
channel and the ring or the queue of those that wait, and
`gracefulPushes_iff`.
-/
import ClAsync.Worker.Submissions
import ClAsync.Worker.Backpressure

namespace ClAsync
namespace Worker

open Runs

variable {τ κ φ : Type}

/-! ### What is received -/

/-- The message the worker takes from its channel in the step `a`. -/
def takes (s : State τ κ φ) : Act τ → Option (Message τ)
  | .next => if s.pc = .recv ∧ s.shouldRecv = true ∨ s.pc = .shutdownRecv then s.channel.head? else none
  | _ => none

/-- The operations of the `SubmitIO` message, if it is one, the step takes. -/
def takesEntry (s : State τ κ φ) (a : Act τ) : List (IoEntry τ) :=
  ((takes s a).bind Message.submission?).toList.map IoSubmission.entry

/-- The operations the worker has accepted and keeps: those on the ring and
in the kernel, and those that wait. -/
def State.accepted (s : State τ κ φ) : List (IoEntry τ) :=
  s.waitingSubmissions.map IoSubmission.entry ++ s.ctx.pushed

@[simp] theorem channel_receive (s : State τ κ φ) (msg : Message τ) : (receive s msg).channel = s.channel := by
  cases msg <;> rfl

@[simp] theorem channel_shutdownReceive (s : State τ κ φ) (msg : Message τ) :
    (shutdownReceive s msg).channel = s.channel := by
  cases msg <;> rfl

theorem channel_next {s s' : State τ κ φ} (h : next s = some s') :
    s.channel = (takes s .next).toList ++ s'.channel := by
  cases next_cases h with
  | receive msg channel hpc hrecv hchannel => simp [takes, hpc, hrecv, hchannel]
  | recvNone hpc hnone =>
    cases hrecv : s.shouldRecv with
    | false => simp [takes, hpc, hrecv]
    | true => simp [takes, hnone hrecv]
  | shutdownReceive msg channel hpc hchannel => simp [takes, hpc, hchannel]
  | shutdownRecvNone hpc hchannel => simp [takes, hchannel]
  | complete hpc | retryNone hpc | retryPush _ _ hpc | retryFull _ _ hpc => simp [takes, hpc]
  | submit hpc | blockingSubmit hpc | shutdownComplete hpc | stop hpc => simp [takes, hpc]

variable [CompletableOperation τ κ φ]

/-- The channel is a queue: a step takes its first message, or sends one. -/
theorem channel_step {s s' : State τ κ φ} {a : Act τ} (h : step s a = some s') :
    (∃ msg, a = .send msg) ∧ takes s a = none ∨ s.channel = (takes s a).toList ++ s'.channel := by
  cases step_cases h with
  | send msg => exact Or.inl ⟨⟨msg, rfl⟩, rfl⟩
  | next _ hnext => exact Or.inr (channel_next hnext)
  | pollKey | interrupted | events | item | enter | loop | stay | leave => exact Or.inr rfl

theorem takes_eq_none {s s' : State τ κ φ} {a : Act τ} (h : step s a = some s')
    (hchannel : s'.channel = s.channel) : takes s a = none := by
  rcases channel_step h with ⟨-, htakes⟩ | htakes
  · exact htakes
  · rw [hchannel] at htakes
    cases ht : takes s a with
    | none => rfl
    | some msg =>
      rw [ht] at htakes
      have := congrArg List.length htakes
      simp at this

theorem takes_eq_some {s s' : State τ κ φ} {a : Act τ} {msg : Message τ} (h : step s a = some s')
    (hchannel : s.channel = msg :: s'.channel) : takes s a = some msg := by
  rcases channel_step h with ⟨⟨sent, rfl⟩, -⟩ | htakes
  · cases h
    have := congrArg List.length hchannel
    simp only [List.length_cons, List.length_append, List.length_nil] at this
    omega
  · rw [hchannel] at htakes
    have hone : [msg] = (takes s a).toList := List.append_cancel_right htakes
    cases ht : takes s a with
    | none => rw [ht] at hone; cases hone
    | some taken => rw [ht] at hone; exact congrArg some (List.cons.inj hone).1.symm

/-- What a step accepts is what it takes from the channel. -/
theorem accepted_step {s s' : State τ κ φ} {a : Act τ} (h : step s a = some s') :
    s'.accepted.Perm (takesEntry s a ++ s.accepted) := by
  have hnone : s'.channel = s.channel → takesEntry s a = [] := fun hc => by
    rw [takesEntry, takes_eq_none h hc]
    rfl
  have hsome : ∀ msg, s.channel = msg :: s'.channel → takesEntry s a =
      (msg.submission?).toList.map IoSubmission.entry := fun msg hc => by
    rw [takesEntry, takes_eq_some h hc]
    rfl
  have hsame : s'.waitingSubmissions = s.waitingSubmissions → s'.ctx.pushed = s.ctx.pushed →
      s'.accepted = s.accepted := fun hw hp => by rw [State.accepted, State.accepted, hw, hp]
  cases step_moves h with
  | keep hchannel hwaiting hctx => rw [hnone hchannel, hsame hwaiting (by rw [hctx])]; rfl
  | send msg ha hchannel hwaiting hctx =>
    have hsend : takesEntry s a = [] := by rw [ha]; rfl
    rw [hsend, hsame hwaiting (by rw [hctx])]
    rfl
  | receive msg hmsg hchannel hwaiting hctx =>
    rw [hsome msg hchannel, submission?_eq_none hmsg, hsame hwaiting (by rw [hctx])]
    rfl
  | receivePush submission hchannel hwaiting hctx =>
    rw [hsome _ hchannel, State.accepted, State.accepted, hwaiting, hctx, pushed_push, ← List.append_assoc]
    exact List.perm_append_singleton submission.entry _
  | receiveFull submission hchannel hwaiting hctx =>
    rw [hsome _ hchannel, State.accepted, State.accepted, hwaiting, hctx, List.map_append]
    exact (List.perm_append_singleton submission.entry _).append_right _
  | retryPush submission hchannel hwaiting hctx =>
    rw [hnone hchannel, State.accepted, State.accepted, hwaiting, hctx, pushed_push, ← List.append_assoc]
    exact List.perm_append_singleton submission.entry _
  | retryFull submission waiting hchannel hwaiting hwaiting' hctx =>
    rw [hnone hchannel, State.accepted, State.accepted, hwaiting, hwaiting', hctx, List.map_append]
    exact (List.perm_append_singleton submission.entry _).append_right _
  | submit hchannel hwaiting hctx =>
    rw [hnone hchannel, hsame hwaiting (by rw [hctx, IoContext.pushed_submit])]
    rfl
  | item key resultCode more hchannel hwaiting hctx =>
    obtain ⟨-, traffic, -, hctx⟩ := IoContext.completeItem_cases hctx
    rw [hnone hchannel, hsame hwaiting (by rw [hctx]; rfl)]
    rfl
  | poll key w ha hchannel hwaiting hctx =>
    rw [hnone hchannel, hsame hwaiting (by rw [hctx]; rfl)]
    rfl

/-- The operations of all `SubmitIO` messages the worker takes from its
channel in a run, in order. -/
def received : State τ κ φ → List (Act τ) → List (IoEntry τ)
  | _, [] => []
  | s, a :: as => takesEntry s a ++ match step s a with
    | some s' => received s' as
    | none => []

/-- In every run the operations accepted are those received. -/
theorem accepted_run : ∀ {s s' : State τ κ φ} {as : List (Act τ)}, run step s as = some s' →
    s'.accepted.Perm (received s as ++ s.accepted)
  | s, _, [], h => by cases h; exact .refl _
  | s, s', a :: as, h => by
    obtain ⟨s₁, hs₁, h⟩ := Option.bind_eq_some_iff.mp h
    have hstep := accepted_step hs₁
    have hrun := accepted_run h
    rw [received, hs₁]
    refine hrun.trans ((hstep.append_left _).trans ?_)
    rw [← List.append_assoc]
    exact List.perm_append_comm.append_right _

/-! ### The shutdown loop -/

def Pc.isShutdown : Pc → Bool
  | shutdownRecv | blockingSubmit | shutdownComplete | shutdownCheck => true
  | _ => false

/-- The worker has left `worker_loop`. -/
def Pc.isHalted : Pc → Bool
  | returned | stopped => true
  | _ => false

/-- Nothing waits when the worker enters the shutdown loop, and a submission
received there finds the ring with room. -/
def Retries (s : State τ κ φ) (a : Act τ) : Prop :=
  match s.pc, a with
  | .check, .tasks _ => s.status = .stopping → s.waitingSubmissions = []
  | .shutdownRecv, .next => takesEntry s .next ≠ [] → s.ctx.submission.length < ringEntries
  | _, _ => True

instance (s : State τ κ φ) (a : Act τ) : Decidable (Retries s a) := by
  unfold Retries
  split <;> infer_instance

/-- What a step does to the submissions that wait, by the loop it is in. -/
inductive Turn (a : Act τ) (s s' : State τ κ φ) : Prop
  | main (hpc : s.pc.isShutdown = false) (hpc' : s'.pc.isShutdown = false) (hretries : Retries s a)
  | enter (hpc : s.pc.isShutdown = false) (hpc' : s'.pc.isShutdown = true)
      (hwaiting : s'.waitingSubmissions = s.waitingSubmissions)
      (hretries : Retries s a ↔ s.waitingSubmissions = [])
  | keep (hpc : s.pc.isShutdown = true) (hpc' : s'.pc.isShutdown = true ∨ s'.pc.isHalted = true)
      (hwaiting : s'.waitingSubmissions = s.waitingSubmissions) (hretries : Retries s a)
  | park (hpc : s.pc.isShutdown = true) (hpc' : s'.pc.isShutdown = true) (submission : IoSubmission τ)
      (hwaiting : s'.waitingSubmissions = s.waitingSubmissions ++ [submission]) (hretries : ¬ Retries s a)

omit [CompletableOperation τ κ φ] in
/-- A message of the shutdown loop. -/
theorem turn_shutdownReceive {s : State τ κ φ} {msg : Message τ} {channel : List (Message τ)}
    (hpc : s.pc = .shutdownRecv) (hchannel : s.channel = msg :: channel) :
    Turn .next s (shutdownReceive { s with channel } msg) := by
  have hshut : s.pc.isShutdown = true := by rw [hpc]; rfl
  have htakes : takesEntry s .next = (msg.submission?).toList.map IoSubmission.entry := by
    simp [takesEntry, takes, hpc, hchannel]
  cases msg with
  | submitIo submission =>
    have hpc' : (shutdownReceive { s with channel } (.submitIo submission)).pc.isShutdown = true := hshut
    rcases Nat.lt_or_ge s.ctx.submission.length ringEntries with hlt | hge
    · refine .keep hshut (Or.inl hpc') ?_ ?_
      · simp only [shutdownReceive, prepareIoSubmission, IoContext.prepareSubmission_of_lt submission hlt]
      · simp only [Retries, hpc]
        exact fun _ => hlt
    · refine .park hshut hpc' submission ?_ ?_
      · simp only [shutdownReceive, prepareIoSubmission, IoContext.prepareSubmission_of_ge submission hge]
      · simp only [Retries, hpc, htakes]
        exact fun h => absurd (h (by simp [Message.submission?])) (Nat.not_lt.mpr hge)
  | kill =>
    refine .keep hshut (Or.inr rfl) rfl ?_
    simp only [Retries, hpc, htakes]
    exact fun h => absurd rfl h
  | shutdown =>
    refine .keep hshut (Or.inl hshut) rfl ?_
    simp only [Retries, hpc, htakes]
    exact fun h => absurd rfl h
  | other =>
    refine .keep hshut (Or.inl hshut) rfl ?_
    simp only [Retries, hpc, htakes]
    exact fun h => absurd rfl h

omit [CompletableOperation τ κ φ] in
theorem turn_next {s s' : State τ κ φ} (h : next s = some s') : Turn .next s s' := by
  cases next_cases h with
  | complete hpc =>
    refine .main (by rw [hpc]; rfl) (by cases s.shouldCompleteIo <;> rfl) ?_
    simp only [Retries, hpc]
  | retryNone hpc | retryFull _ _ hpc | recvNone hpc | submit hpc | stop hpc =>
    exact .main (by rw [hpc]; rfl) rfl (by simp only [Retries, hpc])
  | retryPush _ _ hpc => exact .main (by rw [hpc]; rfl) (by rw [hpc]; rfl) (by simp only [Retries, hpc])
  | receive msg channel hpc =>
    refine .main (by rw [hpc]; rfl) ?_ (by simp only [Retries, hpc])
    cases msg <;> simp [receive, hpc, Pc.isShutdown]
  | shutdownReceive msg channel hpc hchannel => exact turn_shutdownReceive hpc hchannel
  | shutdownRecvNone hpc hchannel =>
    refine .keep (by rw [hpc]; rfl) (Or.inl rfl) rfl ?_
    simp [Retries, hpc, takesEntry, takes, hchannel]
  | blockingSubmit hpc | shutdownComplete hpc =>
    exact .keep (by rw [hpc]; rfl) (Or.inl rfl) rfl (by simp only [Retries, hpc])

omit [CompletableOperation τ κ φ] in
theorem turn_of_same {s s' : State τ κ φ} {a : Act τ} (hpc : s'.pc = s.pc)
    (hwaiting : s'.waitingSubmissions = s.waitingSubmissions) (hretries : Retries s a) : Turn a s s' := by
  cases hs : s.pc.isShutdown with
  | false => exact .main hs (hpc ▸ hs) hretries
  | true => exact .keep hs (Or.inl (hpc ▸ hs)) hwaiting hretries

theorem step_turn {s s' : State τ κ φ} {a : Act τ} (h : step s a = some s') : Turn a s s' := by
  have hother : a ≠ .next → (∀ running, a ≠ .tasks running) → Retries s a := by
    intro hnext htasks
    unfold Retries
    split
    · exact absurd rfl (htasks _)
    · exact absurd rfl hnext
    · trivial
  cases step_cases h with
  | send => exact turn_of_same rfl rfl (hother (by simp) (by simp))
  | pollKey => exact turn_of_same rfl rfl (hother (by simp) (by simp))
  | item => exact turn_of_same rfl rfl (hother (by simp) (by simp))
  | interrupted hpc => exact .main (by rw [hpc]; rfl) rfl (hother (by simp) (by simp))
  | events _ _ _ hpc => exact .main (by rw [hpc]; rfl) rfl (hother (by simp) (by simp))
  | enter running hpc hst =>
    refine .enter (by rw [hpc]; rfl) rfl rfl ?_
    simp only [Retries, hpc]
    exact ⟨fun h => h hst, fun h _ => h⟩
  | loop running hpc hst =>
    refine .main (by rw [hpc]; rfl) rfl ?_
    simp only [Retries, hpc]
    exact fun h => absurd h hst
  | stay hpc => exact .keep (by rw [hpc]; rfl) (Or.inl rfl) rfl (by simp only [Retries, hpc])
  | leave hpc => exact .keep (by rw [hpc]; rfl) (Or.inr rfl) rfl (by simp only [Retries, hpc])
  | next _ hnext => exact turn_next hnext

/-- In the shutdown loop nothing waits. -/
def NoneWaits (s : State τ κ φ) : Prop := s.pc.isShutdown = true → s.waitingSubmissions = []

theorem noneWaits_step {s s' : State τ κ φ} {a : Act τ} (hs : NoneWaits s) (h : step s a = some s') :
    Retries s a → NoneWaits s' := by
  intro hr
  cases step_turn h with
  | main _ hpc' _ => exact fun hshut => by cases hpc'.symm.trans hshut
  | enter hpc _ hwaiting hretries => exact fun _ => hwaiting.trans (hretries.mp hr)
  | keep hpc _ hwaiting _ => exact fun _ => hwaiting.trans (hs hpc)
  | park _ _ _ _ hretries => exact absurd hr hretries

theorem not_noneWaits_step {s s' : State τ κ φ} {a : Act τ} (h : step s a = some s') (hr : ¬ Retries s a) :
    ¬ NoneWaits s' := by
  cases step_turn h with
  | main _ _ hretries => exact absurd hretries hr
  | enter hpc hpc' hwaiting hretries =>
    intro hs'
    exact hr (hretries.mpr (hwaiting.symm.trans (hs' hpc')))
  | keep _ _ _ hretries => exact absurd hretries hr
  | park _ hpc' submission hwaiting _ =>
    intro hs'
    have := hwaiting.symm.trans (hs' hpc')
    simp at this

/-! ### Runs -/

theorem halted_step {s s' : State τ κ φ} {a : Act τ} (hpc : s.pc.isHalted = true) (h : step s a = some s') :
    s'.pc.isHalted = true ∧ s'.waitingSubmissions = s.waitingSubmissions := by
  cases step_cases h with
  | send => exact ⟨hpc, rfl⟩
  | pollKey => exact ⟨hpc, rfl⟩
  | item => exact ⟨hpc, rfl⟩
  | interrupted hat => rw [hat] at hpc; cases hpc
  | events _ _ _ hat => rw [hat] at hpc; cases hpc
  | enter _ hat _ => rw [hat] at hpc; cases hpc
  | loop _ hat _ => rw [hat] at hpc; cases hpc
  | stay hat => rw [hat] at hpc; cases hpc
  | leave hat => rw [hat] at hpc; cases hpc
  | next _ hnext =>
    cases hat : s.pc with
    | returned =>
      simp only [next, hat] at hnext
      cases hnext
      exact ⟨rfl, rfl⟩
    | stopped => simp only [next, hat] at hnext; cases hnext
    | _ => rw [hat] at hpc; cases hpc

/-- Once something waits in the shutdown loop, it waits for ever. -/
def Stuck (s : State τ κ φ) : Prop :=
  (s.pc.isShutdown = true ∨ s.pc.isHalted = true) ∧ s.waitingSubmissions ≠ []

theorem stuck_step {s s' : State τ κ φ} {a : Act τ} (hs : Stuck s) (h : step s a = some s') : Stuck s' := by
  obtain ⟨hshut | hhalted, hwaits⟩ := hs
  · cases step_turn h with
    | main hpc _ _ => cases hpc.symm.trans hshut
    | enter hpc _ _ _ => cases hpc.symm.trans hshut
    | keep _ hpc' hwaiting _ => exact ⟨hpc', by rwa [hwaiting]⟩
    | park _ hpc' submission hwaiting _ => exact ⟨Or.inl hpc', by rw [hwaiting]; simp⟩
  · obtain ⟨hpc', hwaiting⟩ := halted_step hhalted h
    exact ⟨Or.inr hpc', by rwa [hwaiting]⟩

/-- If nothing waits in the end, nothing ever waited in the shutdown loop. -/
theorem along_noneWaits_of_run {s s' : State τ κ φ} {as : List (Act τ)} (h : run step s as = some s')
    (hwaiting : s'.waitingSubmissions = []) : Along step NoneWaits s as := by
  induction as generalizing s with
  | nil =>
    cases h
    exact fun _ => hwaiting
  | cons a as ih =>
    refine ⟨fun hshut => ?_, fun s₁ hs₁ => ih ?_⟩
    · by_contra hwaits
      have hstuck : Stuck s' := invariant_of_run (C := fun _ => True) (fun _ _ _ hs _ h => stuck_step hs h)
        ⟨Or.inl hshut, hwaits⟩ (fun _ _ => trivial) h
      exact hstuck.2 hwaiting
    · obtain ⟨s₂, hs₂, h⟩ := Option.bind_eq_some_iff.mp h
      cases hs₁.symm.trans hs₂
      exact h

theorem along_noneWaits_iff (as : List (Act τ)) :
    Along step NoneWaits (State.init : State τ κ φ) as ↔ Taken step Retries State.init as :=
  along_iff_taken (I := fun _ => True) (fun _ _ _ _ hs hr h => ⟨trivial, noneWaits_step hs h hr⟩)
    (fun _ _ _ _ _ hr h => not_noneWaits_step h hr) trivial (fun hshut => by cases hshut)

/-- What is received but not pushed still waits. -/
theorem pushes_iff_nil {as : List (Act τ)} {s : State τ κ φ} (h : run step State.init as = some s) :
    (received (State.init : State τ κ φ) as).Perm s.ctx.pushed ↔ s.waitingSubmissions = [] := by
  have haccepted := accepted_run h
  rw [show (State.init : State τ κ φ).accepted = [] from rfl, List.append_nil] at haccepted
  constructor
  · intro hp
    have hlen := (haccepted.trans hp).length_eq
    rw [State.accepted, List.length_append, List.length_map] at hlen
    exact List.length_eq_zero_iff.mp (by omega)
  · intro hnil
    have hsame : s.accepted = s.ctx.pushed := by rw [State.accepted, hnil]; rfl
    exact hsame ▸ haccepted.symm

/-- The worker leaves the shutdown loop because no task runs. -/
theorem returned_of_tasks {s s' : State τ κ φ} (h : step s (.tasks false) = some s') (hpc' : s'.pc = .returned) :
    s.pc = .shutdownCheck ∧ s'.waitingSubmissions = s.waitingSubmissions := by
  cases step_cases h with
  | enter => cases hpc'
  | loop => cases hpc'
  | leave hpc => exact ⟨hpc, rfl⟩

/-- **A worker that leaves its loop through the shutdown loop has pushed every
submission it received exactly once if and only if nothing waited when it
entered that loop and nothing it received there found the ring full.** -/
theorem gracefulPushes_iff (as : List (Act τ)) (s : State τ κ φ)
    (h : run step State.init (as ++ [.tasks false]) = some s) (hpc : s.pc = .returned) :
    (received State.init (as ++ [.tasks false])).Perm s.ctx.pushed ↔
      Taken step Retries (State.init : State τ κ φ) (as ++ [.tasks false]) := by
  rw [pushes_iff_nil h, ← along_noneWaits_iff]
  constructor
  · exact along_noneWaits_of_run h
  · intro halong
    rw [run_append] at h
    obtain ⟨s₀, hs₀, h⟩ := Option.bind_eq_some_iff.mp h
    obtain ⟨s₁, hs₁, h⟩ := Option.bind_eq_some_iff.mp h
    cases h
    obtain ⟨hpc₀, hsame⟩ := returned_of_tasks hs₁ hpc
    rw [hsame]
    exact (halong.of_run hs₀).head (by rw [hpc₀]; rfl)

/-- A close is sent to a worker, which is told to shut down once it has it. -/
def shutdownAfterClose : List (Act IoCloseData) :=
  [.send (.submitIo ⟨0, .closeForget, none⟩), .events true false false, .next, .next, .send .shutdown, .next,
    .next, .next, .tasks false, .next, .next, .next]

theorem gracefulPushes_shutdownAfterClose :
    ∃ s, run step State.init (shutdownAfterClose ++ [.tasks false]) = some s ∧ s.pc = .returned ∧
      (received State.init (shutdownAfterClose ++ [.tasks false])).Perm s.ctx.pushed := by
  obtain ⟨s, hs, hpc⟩ : ∃ s ∈ run step State.init (shutdownAfterClose ++ [.tasks false]), s.pc = .returned := by
    decide
  exact ⟨s, hs, hpc, (gracefulPushes_iff shutdownAfterClose s hs hpc).mpr (by decide)⟩

/-! ### A batch that does not fit -/

/-- Other threads tell the worker to shut down while it sleeps, and send
`submissions`. It wakes up, receives all of it, and does. -/
def shutdownWith (submissions : List (IoSubmission τ)) : List (Act τ) :=
  .send .shutdown :: submissions.map (fun submission => .send (.submitIo submission)) ++
    ([.events true false false, .next, .next] ++ (List.replicate submissions.length .next ++
      [.next, .next, .tasks false, .next, .next, .next, .tasks false]))

/-- The worker after it has left both loops. -/
def State.leave (s : State τ κ φ) : State τ κ φ :=
  { s with pc := .returned, ctx := (if s.shouldSubmitIo then s.ctx.submit else s.ctx).submit }

/-- A worker that has received everything leaves both loops. -/
theorem run_leave {s : State τ κ φ} (hpc : s.pc = .recv) (hst : s.status = .stopping) (hchannel : s.channel = []) :
    run step s [.next, .next, .tasks false, .next, .next, .next, .tasks false] = some s.leave := by
  obtain ⟨pc, status, channel, ctx, waiting, shouldRecv, shouldCompleteIo, shouldSubmitIo, batch⟩ := s
  dsimp only at hpc hst hchannel
  subst hpc hst hchannel
  cases shouldRecv <;> rfl

/-- It drops what waits when the batch is larger than the ring. -/
theorem shutdownWith_drops {submissions : List (IoSubmission τ)} (h : ringEntries < submissions.length) :
    ∃ s : State τ κ φ, run step State.init (shutdownWith submissions) = some s ∧ s.pc = .returned ∧
      ¬ (received State.init (shutdownWith submissions)).Perm s.ctx.pushed := by
  let told : State τ κ φ := { State.init with channel := [.shutdown] }
  let woken : State τ κ φ :=
    { State.init with
      pc := .recv, status := .stopping, channel := submissions.map .submitIo, shouldRecv := true }
  have hwoken : run step { told with channel := told.channel ++ submissions.map .submitIo }
      [.events true false false, .next, .next] = some woken := rfl
  obtain ⟨s', hrun, hpc, hst, hchannel, hbatch, hs⟩ := run_receive submissions woken rfl rfl rfl
    ⟨(Nat.zero_min _).symm, (Nat.zero_sub _).symm, Or.inr rfl⟩
  have hwaits : s'.waitingSubmissions ≠ [] := by
    simp only [Backlog, hpc] at hs
    have hlen := hs.2.1
    rw [hbatch] at hlen
    intro hnil
    rw [hnil, List.length_nil] at hlen
    have : woken.batch = 0 := rfl
    omega
  have hst : s'.status = .stopping := hst
  have hreturned := run_leave hpc hst hchannel
  have hall : run step State.init (shutdownWith submissions) = some s'.leave := by
    have htold : run step State.init (.send .shutdown :: submissions.map fun submission =>
        Act.send (.submitIo submission)) =
        some { told with channel := told.channel ++ submissions.map .submitIo } :=
      run_sends submissions told
    rw [shutdownWith, run_append, htold, Option.bind_some, run_append, hwoken, Option.bind_some, run_append, hrun,
      Option.bind_some, hreturned]
  exact ⟨s'.leave, hall, rfl, fun hp => hwaits ((pushes_iff_nil hall).mp hp)⟩

/-- 257 forgotten closes and a shutdown are sent while the worker sleeps. -/
theorem gracefulPushes_fails :
    ∃ s : State IoCloseData Empty Empty,
      run step State.init (shutdownWith ((List.range 257).map fun key => ⟨key, .closeForget, none⟩)) = some s ∧
      s.pc = .returned ∧
      ¬ (received State.init (shutdownWith ((List.range 257).map fun key => ⟨key, .closeForget, none⟩))).Perm
        s.ctx.pushed :=
  shutdownWith_drops (by rw [List.length_map, List.length_range]; decide)

end Worker
end ClAsync
