/-
# The worker loop

`worker_loop` step by step: the main loop around `poll_events` with its three
flags, and the shutdown loop. A step of the worker is one message received,
one completion consumed, one submission retried, or a call (`poll_events`,
`submit`, `blocking_submit`); between any two of them, other threads send
messages and poll the completion queue.

Of the messages only those the I/O path and the loop's end depend on are told
apart; tasks send and poll like any other thread. `poll_events` returns with
any events, and `blocking_submit` returns at some time, if it does.

Key definitions: `Pc`, `State`, `Act`, `step`.
Key theorems: `step_cases`, the steps one by one; `step_traffic`, a step of the
worker is at most one event of the completion queue.
-/
import ClAsync.Io.Context

namespace ClAsync

/-- `WorkerState`. -/
inductive WorkerState
  | none
  | starting
  | idle
  | busy
  | stopping
  | stopped
  deriving DecidableEq, Repr

/-- `Message`; `other` is any message that has no part in the I/O path. -/
inductive Message (τ : Type)
  | submitIo (submission : IoSubmission τ)
  | shutdown
  | kill
  | other
  deriving DecidableEq, Repr

namespace Worker

/-- Where the worker is. The first six are the main loop, `check` being its
last test; the next five are the shutdown loop. -/
inductive Pc
  | poll
  | complete
  | retry
  | recv
  | submit
  | check
  | shutdownRecv
  | blockingSubmit
  | shutdownComplete
  | shutdownCheck
  | returned
  | stopped
  deriving DecidableEq, Repr

/-- A worker with its channel and its ring. -/
structure State (τ κ φ : Type) where
  pc : Pc
  status : WorkerState
  channel : List (Message τ)
  ctx : IoContext τ κ φ
  waitingSubmissions : List (IoSubmission τ)
  shouldRecv : Bool
  shouldCompleteIo : Bool
  shouldSubmitIo : Bool
  /-- The `SubmitIO` messages received since the last `poll_events`. -/
  batch : ℕ

variable {τ κ φ : Type}

/-- A worker that has started and entered its loop. -/
def State.init : State τ κ φ := ⟨.poll, .idle, [], .new, [], false, false, false, 0⟩

/-- `Worker::prepare_io_submission`. -/
def prepareIoSubmission (ctx : IoContext τ κ φ) (submission : IoSubmission τ)
    (backupQueue : List (IoSubmission τ)) : IoContext τ κ φ × List (IoSubmission τ) :=
  match ctx.prepareSubmission submission with
  | (ctx, some submission) => (ctx, backupQueue ++ [submission])
  | (ctx, none) => (ctx, backupQueue)

/-- What the worker does, and what others send to it. -/
inductive Act (τ : Type)
  /-- Another thread sends a message. -/
  | send (msg : Message τ)
  /-- Another thread polls the completion queue. -/
  | pollKey (key : Key) (w : Waker)
  /-- `poll_events` is interrupted. -/
  | interrupted
  /-- `poll_events` returns with events of the message channel, the I/O
  channel and a signal to shut down, or without. -/
  | events (message io shutdown : Bool)
  /-- `IoContext::complete` consumes a completion. -/
  | item (key : Key) (resultCode : ℤ) (more : Bool)
  /-- The tasks have run; some are still pending. -/
  | tasks (running : Bool)
  /-- The next step of the loop. -/
  | next
  deriving DecidableEq, Repr

/-- The steps that neither submit an operation nor poll one. -/
def Act.isInner : Act τ → Bool
  | send (.submitIo _) | pollKey _ _ => false
  | _ => true

/-- Back to `poll_events`. -/
def State.loop (s : State τ κ φ) : State τ κ φ :=
  { s with
    pc := .poll, status := .idle, shouldRecv := false, shouldCompleteIo := false
    shouldSubmitIo := false, batch := 0 }

/-- One message of the main loop. -/
def receive (s : State τ κ φ) : Message τ → State τ κ φ
  | .submitIo submission =>
    let (ctx, waitingSubmissions) := prepareIoSubmission s.ctx submission s.waitingSubmissions
    { s with ctx, waitingSubmissions, shouldSubmitIo := true, batch := s.batch + 1 }
  | .shutdown => { s with status := .stopping }
  | .kill => { s with pc := .returned }
  | .other => s

/-- One message of the shutdown loop. -/
def shutdownReceive (s : State τ κ φ) : Message τ → State τ κ φ
  | .submitIo submission =>
    let (ctx, waitingSubmissions) := prepareIoSubmission s.ctx submission s.waitingSubmissions
    { s with ctx, waitingSubmissions }
  | .kill => { s with pc := .returned, status := .stopped }
  | .shutdown | .other => s

/-- The steps the worker takes by itself. -/
def next (s : State τ κ φ) : Option (State τ κ φ) :=
  match s.pc with
  | .complete => some { s with pc := if s.shouldCompleteIo then .retry else .recv }
  | .retry =>
    match s.waitingSubmissions with
    | [] => some { s with pc := .recv }
    | submission :: waiting =>
      match s.ctx.prepareSubmission submission with
      | (ctx, some submission) =>
        some { s with pc := .recv, ctx, waitingSubmissions := waiting ++ [submission] }
      | (ctx, none) => some { s with ctx, waitingSubmissions := waiting, shouldSubmitIo := true }
  | .recv =>
    match s.shouldRecv, s.channel with
    | true, msg :: channel => some (receive { s with channel } msg)
    | _, _ => some { s with pc := .submit }
  | .submit => some { s with pc := .check, ctx := if s.shouldSubmitIo then s.ctx.submit else s.ctx }
  | .shutdownRecv =>
    match s.channel with
    | msg :: channel => some (shutdownReceive { s with channel } msg)
    | [] => some { s with pc := .blockingSubmit }
  | .blockingSubmit => some { s with pc := .shutdownComplete, ctx := s.ctx.submit }
  | .shutdownComplete => some { s with pc := .shutdownCheck }
  | .returned => some { s with pc := .stopped, status := .stopped }
  | .poll | .check | .shutdownCheck | .stopped => none

variable [CompletableOperation τ κ φ]

/-- One act. -/
def step (s : State τ κ φ) : Act τ → Option (State τ κ φ)
  | .send msg => some { s with channel := s.channel ++ [msg] }
  | .pollKey key w => some { s with ctx := { s.ctx with traffic := (s.ctx.traffic.poll key w).2 } }
  | .interrupted => if s.pc = .poll then some s.loop else none
  | .events message io shutdown =>
    if s.pc = .poll then
      some { s with
        pc := .complete, status := if shutdown then .stopping else .busy
        shouldRecv := message, shouldCompleteIo := io }
    else none
  | .item key resultCode more =>
    if s.pc = .complete ∧ s.shouldCompleteIo ∨ s.pc = .shutdownComplete then
      (s.ctx.completeItem key resultCode more).map fun ctx => { s with ctx }
    else none
  | .tasks running =>
    match s.pc with
    | .check => some (if s.status = .stopping then { s with pc := .shutdownRecv } else s.loop)
    | .shutdownCheck => some { s with pc := if running then .shutdownRecv else .returned }
    | _ => none
  | .next => next s

/-- The steps of the worker one by one, each with what it requires. -/
inductive Stepped (s : State τ κ φ) : Act τ → State τ κ φ → Prop
  | send (msg : Message τ) : Stepped s (.send msg) { s with channel := s.channel ++ [msg] }
  | pollKey (key : Key) (w : Waker) :
      Stepped s (.pollKey key w) { s with ctx := { s.ctx with traffic := (s.ctx.traffic.poll key w).2 } }
  | interrupted (hpc : s.pc = .poll) : Stepped s .interrupted s.loop
  | events (message io shutdown : Bool) (hpc : s.pc = .poll) :
      Stepped s (.events message io shutdown)
        { s with
          pc := .complete, status := if shutdown then .stopping else .busy
          shouldRecv := message, shouldCompleteIo := io }
  | item (key : Key) (resultCode : ℤ) (more : Bool) (ctx : IoContext τ κ φ)
      (hpc : s.pc = .complete ∧ s.shouldCompleteIo = true ∨ s.pc = .shutdownComplete)
      (hctx : s.ctx.completeItem key resultCode more = some ctx) :
      Stepped s (.item key resultCode more) { s with ctx }
  | enter (running : Bool) (hpc : s.pc = .check) (hst : s.status = .stopping) :
      Stepped s (.tasks running) { s with pc := .shutdownRecv }
  | loop (running : Bool) (hpc : s.pc = .check) (hst : s.status ≠ .stopping) : Stepped s (.tasks running) s.loop
  | stay (hpc : s.pc = .shutdownCheck) : Stepped s (.tasks true) { s with pc := .shutdownRecv }
  | leave (hpc : s.pc = .shutdownCheck) : Stepped s (.tasks false) { s with pc := .returned }
  | next (s' : State τ κ φ) (h : Worker.next s = some s') : Stepped s .next s'

theorem step_cases {s s' : State τ κ φ} {a : Act τ} (h : step s a = some s') : Stepped s a s' := by
  cases a with
  | send msg => cases h; exact .send msg
  | pollKey key w => cases h; exact .pollKey key w
  | interrupted =>
    simp only [step] at h
    split at h <;> cases h
    rename_i hpc
    exact .interrupted hpc
  | events message io shutdown =>
    simp only [step] at h
    split at h <;> cases h
    rename_i hpc
    exact .events message io shutdown hpc
  | item key resultCode more =>
    simp only [step] at h
    split at h
    · rename_i hpc
      obtain ⟨ctx, hctx, rfl⟩ := Option.map_eq_some_iff.mp h
      exact .item key resultCode more ctx hpc hctx
    · cases h
  | tasks running =>
    cases hpc : s.pc with
    | check =>
      simp only [step, hpc] at h
      cases h
      by_cases hst : s.status = .stopping
      · rw [if_pos hst]
        exact .enter running hpc hst
      · rw [if_neg hst]
        exact .loop running hpc hst
    | shutdownCheck =>
      simp only [step, hpc] at h
      cases h
      cases running with
      | true => exact .stay hpc
      | false => exact .leave hpc
    | _ =>
      simp only [step, hpc] at h
      cases h
  | next => exact .next s' h

/-- The steps that the worker takes by itself, each with what it requires. -/
inductive Goes (s : State τ κ φ) : State τ κ φ → Prop
  | complete (hpc : s.pc = .complete) : Goes s { s with pc := if s.shouldCompleteIo then .retry else .recv }
  | retryNone (hpc : s.pc = .retry) (hwaiting : s.waitingSubmissions = []) : Goes s { s with pc := .recv }
  | retryPush (submission : IoSubmission τ) (waiting : List (IoSubmission τ)) (hpc : s.pc = .retry)
      (hwaiting : s.waitingSubmissions = submission :: waiting) (hlt : s.ctx.submission.length < ringEntries) :
      Goes s { s with ctx := s.ctx.push submission, waitingSubmissions := waiting, shouldSubmitIo := true }
  | retryFull (submission : IoSubmission τ) (waiting : List (IoSubmission τ)) (hpc : s.pc = .retry)
      (hwaiting : s.waitingSubmissions = submission :: waiting) (hge : ringEntries ≤ s.ctx.submission.length) :
      Goes s { s with pc := .recv, waitingSubmissions := waiting ++ [submission] }
  | receive (msg : Message τ) (channel : List (Message τ)) (hpc : s.pc = .recv) (hrecv : s.shouldRecv = true)
      (hchannel : s.channel = msg :: channel) : Goes s (receive { s with channel } msg)
  | recvNone (hpc : s.pc = .recv) (hnone : s.shouldRecv = true → s.channel = []) : Goes s { s with pc := .submit }
  | submit (hpc : s.pc = .submit) :
      Goes s { s with pc := .check, ctx := if s.shouldSubmitIo then s.ctx.submit else s.ctx }
  | shutdownReceive (msg : Message τ) (channel : List (Message τ)) (hpc : s.pc = .shutdownRecv)
      (hchannel : s.channel = msg :: channel) : Goes s (shutdownReceive { s with channel } msg)
  | shutdownRecvNone (hpc : s.pc = .shutdownRecv) (hchannel : s.channel = []) : Goes s { s with pc := .blockingSubmit }
  | blockingSubmit (hpc : s.pc = .blockingSubmit) : Goes s { s with pc := .shutdownComplete, ctx := s.ctx.submit }
  | shutdownComplete (hpc : s.pc = .shutdownComplete) : Goes s { s with pc := .shutdownCheck }
  | stop (hpc : s.pc = .returned) : Goes s { s with pc := .stopped, status := .stopped }

omit [CompletableOperation τ κ φ] in
theorem next_cases {s s' : State τ κ φ} (h : next s = some s') : Goes s s' := by
  obtain ⟨pc, status, channel, ctx, waiting, shouldRecv, shouldCompleteIo, shouldSubmitIo, batch⟩ := s
  cases pc with
  | complete => cases h; exact .complete rfl
  | retry =>
    cases waiting with
    | nil => cases h; exact .retryNone rfl rfl
    | cons submission waiting =>
      rcases Nat.lt_or_ge ctx.submission.length ringEntries with hlt | hge
      · simp only [next, IoContext.prepareSubmission_of_lt submission hlt] at h
        cases h
        exact .retryPush submission waiting rfl rfl hlt
      · simp only [next, IoContext.prepareSubmission_of_ge submission hge] at h
        cases h
        exact .retryFull submission waiting rfl rfl hge
  | recv =>
    cases shouldRecv with
    | false => cases h; exact .recvNone rfl fun hrecv => nomatch hrecv
    | true =>
      cases channel with
      | nil => cases h; exact .recvNone rfl fun _ => rfl
      | cons msg channel => cases h; exact .receive msg channel rfl rfl rfl
  | submit => cases h; exact .submit rfl
  | shutdownRecv =>
    cases channel with
    | nil => cases h; exact .shutdownRecvNone rfl rfl
    | cons msg channel => cases h; exact .shutdownReceive msg channel rfl rfl
  | blockingSubmit => cases h; exact .blockingSubmit rfl
  | shutdownComplete => cases h; exact .shutdownComplete rfl
  | returned => cases h; exact .stop rfl
  | poll | check | shutdownCheck | stopped => cases h

/-- What the step `a` does to the messages, the submissions that wait and the
I/O context. -/
inductive Moves (a : Act τ) (s s' : State τ κ φ) : Prop
  | keep (hchannel : s'.channel = s.channel)
      (hwaiting : s'.waitingSubmissions = s.waitingSubmissions) (hctx : s'.ctx = s.ctx)
  | send (msg : Message τ) (ha : a = .send msg) (hchannel : s'.channel = s.channel ++ [msg])
      (hwaiting : s'.waitingSubmissions = s.waitingSubmissions) (hctx : s'.ctx = s.ctx)
  | receive (msg : Message τ) (hmsg : ∀ submission, msg ≠ .submitIo submission)
      (hchannel : s.channel = msg :: s'.channel)
      (hwaiting : s'.waitingSubmissions = s.waitingSubmissions) (hctx : s'.ctx = s.ctx)
  | receivePush (submission : IoSubmission τ) (hchannel : s.channel = .submitIo submission :: s'.channel)
      (hwaiting : s'.waitingSubmissions = s.waitingSubmissions) (hctx : s'.ctx = s.ctx.push submission)
  | receiveFull (submission : IoSubmission τ) (hchannel : s.channel = .submitIo submission :: s'.channel)
      (hwaiting : s'.waitingSubmissions = s.waitingSubmissions ++ [submission]) (hctx : s'.ctx = s.ctx)
  | retryPush (submission : IoSubmission τ) (hchannel : s'.channel = s.channel)
      (hwaiting : s.waitingSubmissions = submission :: s'.waitingSubmissions)
      (hctx : s'.ctx = s.ctx.push submission)
  | retryFull (submission : IoSubmission τ) (waiting : List (IoSubmission τ))
      (hchannel : s'.channel = s.channel) (hwaiting : s.waitingSubmissions = submission :: waiting)
      (hwaiting' : s'.waitingSubmissions = waiting ++ [submission]) (hctx : s'.ctx = s.ctx)
  | submit (hchannel : s'.channel = s.channel)
      (hwaiting : s'.waitingSubmissions = s.waitingSubmissions) (hctx : s'.ctx = s.ctx.submit)
  | item (key : Key) (resultCode : ℤ) (more : Bool) (hchannel : s'.channel = s.channel)
      (hwaiting : s'.waitingSubmissions = s.waitingSubmissions)
      (hctx : s.ctx.completeItem key resultCode more = some s'.ctx)
  | poll (key : Key) (w : Waker) (ha : a = .pollKey key w) (hchannel : s'.channel = s.channel)
      (hwaiting : s'.waitingSubmissions = s.waitingSubmissions)
      (hctx : s'.ctx = { s.ctx with traffic := (s.ctx.traffic.poll key w).2 })

omit [CompletableOperation τ κ φ] in
theorem prepareIoSubmission_cases (ctx : IoContext τ κ φ) (submission : IoSubmission τ)
    (waiting : List (IoSubmission τ)) :
    prepareIoSubmission ctx submission waiting = (ctx.push submission, waiting) ∨
      prepareIoSubmission ctx submission waiting = (ctx, waiting ++ [submission]) := by
  unfold prepareIoSubmission
  rcases Nat.lt_or_ge ctx.submission.length ringEntries with h | h
  · rw [IoContext.prepareSubmission_of_lt submission h]
    exact Or.inl rfl
  · rw [IoContext.prepareSubmission_of_ge submission h]
    exact Or.inr rfl

/-- Both loops hand a submission they receive to `prepareIoSubmission`. -/
theorem prepare_moves {a : Act τ} {s s' : State τ κ φ} {submission : IoSubmission τ}
    (hchannel : s.channel = .submitIo submission :: s'.channel)
    (hprepare : prepareIoSubmission s.ctx submission s.waitingSubmissions = (s'.ctx, s'.waitingSubmissions)) :
    Moves a s s' := by
  rcases prepareIoSubmission_cases s.ctx submission s.waitingSubmissions with hp | hp
  · obtain ⟨hctx, hwaiting⟩ := Prod.mk.inj (hprepare.symm.trans hp)
    exact .receivePush submission hchannel hwaiting hctx
  · obtain ⟨hctx, hwaiting⟩ := Prod.mk.inj (hprepare.symm.trans hp)
    exact .receiveFull submission hchannel hwaiting hctx

theorem receive_moves {a : Act τ} {s : State τ κ φ} {msg : Message τ} {channel : List (Message τ)}
    (h : s.channel = msg :: channel) : Moves a s (receive { s with channel } msg) := by
  cases msg with
  | submitIo submission => exact prepare_moves h rfl
  | shutdown => exact .receive .shutdown (fun _ => nofun) h rfl rfl
  | kill => exact .receive .kill (fun _ => nofun) h rfl rfl
  | other => exact .receive .other (fun _ => nofun) h rfl rfl

theorem shutdownReceive_moves {a : Act τ} {s : State τ κ φ} {msg : Message τ} {channel : List (Message τ)}
    (h : s.channel = msg :: channel) : Moves a s (shutdownReceive { s with channel } msg) := by
  cases msg with
  | submitIo submission => exact prepare_moves h rfl
  | shutdown => exact .receive .shutdown (fun _ => nofun) h rfl rfl
  | kill => exact .receive .kill (fun _ => nofun) h rfl rfl
  | other => exact .receive .other (fun _ => nofun) h rfl rfl

theorem next_moves {a : Act τ} {s s' : State τ κ φ} (h : next s = some s') : Moves a s s' := by
  cases next_cases h with
  | retryPush submission waiting _ hwaiting => exact .retryPush submission rfl hwaiting rfl
  | retryFull submission waiting _ hwaiting => exact .retryFull submission waiting rfl hwaiting rfl rfl
  | receive msg channel _ _ hchannel => exact receive_moves hchannel
  | shutdownReceive msg channel _ hchannel => exact shutdownReceive_moves hchannel
  | submit =>
    by_cases hsubmit : s.shouldSubmitIo = true
    · exact .submit rfl rfl (if_pos hsubmit)
    · exact .keep rfl rfl (if_neg hsubmit)
  | blockingSubmit => exact .submit rfl rfl rfl
  | _ => exact .keep rfl rfl rfl

/-- The moves of every step. -/
theorem step_moves {s s' : State τ κ φ} {a : Act τ} (h : step s a = some s') : Moves a s s' := by
  cases step_cases h with
  | send msg => exact .send msg rfl rfl rfl rfl
  | pollKey key w => exact .poll key w rfl rfl rfl rfl
  | item key resultCode more ctx _ hctx => exact .item key resultCode more rfl rfl hctx
  | next _ hnext => exact next_moves hnext
  | interrupted | events | enter | loop | stay | leave => exact .keep rfl rfl rfl

/-- To the completion queue a step of the worker is one event, or none. -/
theorem step_traffic {s s' : State τ κ φ} {a : Act τ} (h : step s a = some s') :
    s'.ctx.traffic = s.ctx.traffic ∨
      ∃ e, Traffic.step s.ctx.traffic e = some s'.ctx.traffic := by
  cases step_moves h with
  | receivePush submission _ _ hctx =>
    exact Or.inr ⟨.addEntry submission.key submission.op submission.waker, by rw [hctx]; rfl⟩
  | retryPush submission _ _ hctx =>
    exact Or.inr ⟨.addEntry submission.key submission.op submission.waker, by rw [hctx]; rfl⟩
  | item key resultCode more _ _ hctx =>
    obtain ⟨-, traffic, htraffic, hctx⟩ := IoContext.completeItem_cases hctx
    exact Or.inr ⟨.complete key resultCode more, by rw [hctx]; exact htraffic⟩
  | poll key w _ _ _ hctx => exact Or.inr ⟨.poll key w, by rw [hctx]; rfl⟩
  | submit _ _ hctx => exact Or.inl (by rw [hctx]; rfl)
  | keep _ _ hctx => exact Or.inl (by rw [hctx])
  | send _ _ _ _ hctx => exact Or.inl (by rw [hctx])
  | receive _ _ _ _ hctx => exact Or.inl (by rw [hctx])
  | receiveFull _ _ _ hctx => exact Or.inl (by rw [hctx])
  | retryFull _ _ _ _ _ hctx => exact Or.inl (by rw [hctx])

theorem ok_step {s s' : State τ κ φ} {a : Act τ} (hs : Traffic.Ok s.ctx.traffic)
    (h : step s a = some s') : Traffic.Ok s'.ctx.traffic := by
  rcases step_traffic h with he | ⟨e, he⟩
  · rwa [he]
  · exact Traffic.ok_step he hs

end Worker

end ClAsync
