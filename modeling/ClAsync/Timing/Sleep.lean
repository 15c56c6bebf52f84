/-
# Sleeping

A `SleepFuture` and its event handler, as two threads that share the state of
the sleep. The first poll submits: it creates a timer, sets it, registers the
handler, which owns the waker of that poll, and then stores `Pending`. The
handler waits for an event, reads the timer, closes it, stores the final
state and wakes its waker.

Nothing orders the store of `Pending` and the handler. `Inv` says what holds
where the handler is.

Key definitions: `step`, `Inv`.
Key theorem: `inv_step`.
-/
import ClAsync.Lib.Runs
import ClAsync.Io.Completion

namespace ClAsync
namespace Sleep

open Runs

/-- `SleepState`. -/
inductive SleepState
  | notSubmitted
  | pending
  | failure
  | complete
  deriving DecidableEq, Repr

/-- The sleep is over. -/
def SleepState.isFinal : SleepState → Bool
  | .failure | .complete => true
  | .notSubmitted | .pending => false

/-- `SleepError`. -/
inductive SleepError
  | timerCreateError
  | timerSetError
  | timerCloseError
  | timerPollError
  deriving DecidableEq, Repr

/-- `Poll<Result<(), SleepError>>`. -/
inductive Poll
  | pending
  | readyOk
  | readyErr (e : SleepError)
  deriving DecidableEq, Repr

/-- Where the poll under way is; one that submits has the waker it was
called with. -/
inductive Pc
  | idle
  | create (waker : Waker)
  | settime (waker : Waker)
  | register (waker : Waker)
  | store (waker : Waker)
  deriving DecidableEq, Repr

/-- Where the handler is: it has been sent to a worker, waits for its event,
reads the timer, closes it, sets the state, wakes its waker. -/
inductive HandlerPc
  | unregistered
  | spawned
  | waiting
  | read
  | readFailed
  | close
  | closed (newState : SleepState)
  | wake
  | done
  /-- The interest in the timer could not be registered. -/
  | lost
  deriving DecidableEq, Repr

/-- A sleep and its handler. -/
structure State where
  state : SleepState
  pc : Pc
  handler : HandlerPc
  /-- The waker that the handler owns. -/
  waker : Option Waker
  /-- The calls of `close` on the timer, once it is created. -/
  closes : Option ℕ
  /-- `submit` has returned this error. -/
  submitError : Option SleepError
  /-- The waker of the latest poll that returned `Pending`. -/
  lastPending : Option Waker
  /-- The waker that the handler has woken. -/
  woken : Option Waker
  /-- What the polls returned that began after the handler had set the
  state. -/
  latePolls : List Poll
  deriving DecidableEq, Repr

/-- `SleepFuture::new`. -/
def State.init : State := ⟨.notSubmitted, .idle, .unregistered, none, none, none, none, none, []⟩

/-- What the owner of the sleep does, its worker, and the kernel. -/
inductive Act
  /-- A poll with this waker locks and reads the state. -/
  | poll (waker : Waker)
  | create (ok : Bool)
  | settime (ok : Bool)
  | register (ok : Bool)
  | store
  /-- The worker runs the handler: it registers the interest. -/
  | interest (ok : Bool)
  /-- The timer has expired, or the worker broadcasts `SHUTDOWN` or `KILL`. -/
  | event
  | read (ok : Bool)
  | close (ok : Bool)
  | set
  | wake
  deriving DecidableEq, Repr

/-- The handler has set the state. -/
def State.isSet (s : State) : Bool :=
  match s.handler with
  | .wake | .done => true
  | _ => false

/-- The poll with `waker` that has read the state returns. -/
def State.returns (s : State) (waker : Waker) (result : Poll) : State :=
  { s with
    lastPending := if result = .pending then some waker else s.lastPending
    latePolls := if s.isSet then s.latePolls ++ [result] else s.latePolls }

/-- `submit` returns an error by `?`. -/
def State.fails (s : State) (e : SleepError) : State := { s with pc := .idle, submitError := some e }

/-- A poll that has not been preceded by an error of `submit`. -/
def State.poll (s : State) (waker : Waker) : State :=
  match s.state with
  | .notSubmitted => { s with pc := .create waker }
  | .pending => s.returns waker .pending
  | .complete => s.returns waker .readyOk
  | .failure => s.returns waker (.readyErr .timerPollError)

/-- One act. -/
def step (s : State) : Act → Option State
  | .poll waker =>
    if s.pc = .idle ∧ s.submitError = none then some (s.poll waker) else none
  | .create ok =>
    match s.pc with
    | .create waker =>
      some (if ok then { s with pc := .settime waker, closes := some 0 } else s.fails .timerCreateError)
    | _ => none
  | .settime ok =>
    match s.pc with
    | .settime waker => some (if ok then { s with pc := .register waker } else s.fails .timerSetError)
    | _ => none
  | .register ok =>
    match s.pc with
    | .register waker =>
      some (if ok then { s with pc := .store waker, handler := .spawned, waker := some waker }
        else s.fails .timerPollError)
    | _ => none
  | .store =>
    match s.pc with
    | .store waker => some { s with pc := .idle, state := .pending, lastPending := some waker }
    | _ => none
  | .interest ok =>
    match s.handler with
    | .spawned => some { s with handler := if ok then .waiting else .lost }
    | _ => none
  | .event =>
    match s.handler with
    | .waiting => some { s with handler := .read }
    | _ => none
  | .read ok =>
    match s.handler with
    | .read => some { s with handler := if ok then .close else .readFailed }
    | _ => none
  | .close ok =>
    match s.handler with
    | .close =>
      some { s with closes := s.closes.map (· + 1), handler := .closed (if ok then .complete else .failure) }
    | _ => none
  | .set =>
    match s.handler with
    | .readFailed => some { s with state := .failure, handler := .wake }
    | .closed newState => some { s with state := newState, handler := .wake }
    | _ => none
  | .wake =>
    match s.handler with
    | .wake => some { s with handler := .done, woken := s.waker }
    | _ => none

/-- What each step finds, and what it does. -/
theorem step_cases {s s' : State} {a : Act} (h : step s a = some s') :
    match a with
    | .poll waker => s.pc = .idle ∧ s.submitError = none ∧ s' = s.poll waker
    | .create ok => ∃ waker, s.pc = .create waker ∧
        s' = if ok then { s with pc := .settime waker, closes := some 0 } else s.fails .timerCreateError
    | .settime ok => ∃ waker, s.pc = .settime waker ∧
        s' = if ok then { s with pc := .register waker } else s.fails .timerSetError
    | .register ok => ∃ waker, s.pc = .register waker ∧
        s' = if ok then { s with pc := .store waker, handler := .spawned, waker := some waker }
          else s.fails .timerPollError
    | .store => ∃ waker, s.pc = .store waker ∧
        s' = { s with pc := .idle, state := .pending, lastPending := some waker }
    | .interest ok => s.handler = .spawned ∧ s' = { s with handler := if ok then .waiting else .lost }
    | .event => s.handler = .waiting ∧ s' = { s with handler := .read }
    | .read ok => s.handler = .read ∧ s' = { s with handler := if ok then .close else .readFailed }
    | .close ok => s.handler = .close ∧
        s' = { s with closes := s.closes.map (· + 1), handler := .closed (if ok then .complete else .failure) }
    | .set => s.handler = .readFailed ∧ s' = { s with state := .failure, handler := .wake } ∨
        ∃ newState, s.handler = .closed newState ∧ s' = { s with state := newState, handler := .wake }
    | .wake => s.handler = .wake ∧ s' = { s with handler := .done, woken := s.waker } := by
  cases a with
  | poll waker =>
    simp only [step] at h
    split at h
    · rename_i hcan
      exact ⟨hcan.1, hcan.2, (Option.some.inj h).symm⟩
    · cases h
  | create ok | settime ok | register ok =>
    simp only [step] at h
    split at h
    · rename_i waker hpc
      exact ⟨waker, hpc, (Option.some.inj h).symm⟩
    · cases h
  | store =>
    simp only [step] at h
    split at h
    · rename_i waker hpc
      exact ⟨waker, hpc, (Option.some.inj h).symm⟩
    · cases h
  | set =>
    simp only [step] at h
    split at h
    · rename_i hhandler
      exact .inl ⟨hhandler, (Option.some.inj h).symm⟩
    · rename_i newState hhandler
      exact .inr ⟨newState, hhandler, (Option.some.inj h).symm⟩
    · cases h
  | interest ok | read ok | close ok =>
    simp only [step] at h
    split at h
    · rename_i hhandler
      exact ⟨hhandler, (Option.some.inj h).symm⟩
    · cases h
  | event | wake =>
    simp only [step] at h
    split at h
    · rename_i hhandler
      exact ⟨hhandler, (Option.some.inj h).symm⟩
    · cases h

/-! ### What happens when -/

/-- The poll has yet to register the handler. -/
def Pc.submits : Pc → Bool
  | .create _ | .settime _ | .register _ => true
  | .idle | .store _ => false

/-- `submit` has not registered the handler. -/
structure Submitting (s : State) : Prop where
  state : s.state = .notSubmitted
  late : s.latePolls = []
  noError : s.pc.submits = true → s.submitError = none
  opened : ∀ waker, s.pc = .settime waker ∨ s.pc = .register waker → s.closes = some 0
  notStored : ∀ waker, s.pc ≠ .store waker

/-- The handler has not set the state, and has closed the timer `n` times. -/
structure Running (s : State) (n : ℕ) : Prop where
  late : s.latePolls = []
  noError : s.submitError = none
  closes : s.closes = some n
  stored : (∃ waker, s.pc = .store waker) ∧ s.state = .notSubmitted ∨ s.pc = .idle ∧ s.state = .pending

/-- The handler has set the state. -/
structure Finished (s : State) : Prop where
  noError : s.submitError = none
  submitted : s.state ≠ .notSubmitted
  stored : (∃ waker, s.pc = .store waker) ∨ s.pc = .idle

/-- The calls of `close` that the handler has made, while it runs. -/
def HandlerPc.closes : HandlerPc → Option ℕ
  | .spawned | .waiting | .read | .readFailed | .close | .lost => some 0
  | .closed _ => some 1
  | .unregistered | .wake | .done => none

/-- What holds where the handler is. -/
structure Inv (s : State) : Prop where
  submitting : s.handler = .unregistered → Submitting s
  running : ∀ n, s.handler.closes = some n → Running s n
  finished : s.isSet = true → Finished s
  final : ∀ newState, s.handler = .closed newState → newState.isFinal = true
  woken : s.handler = .done → s.woken = s.waker

/-! ### Polls -/

section Polls

variable {s : State} (waker : Waker)

theorem poll_of_notSubmitted (h : s.state = .notSubmitted) : s.poll waker = { s with pc := .create waker } := by
  rw [State.poll, h]

theorem poll_of_pending (h : s.state = .pending) : s.poll waker = s.returns waker .pending := by
  rw [State.poll, h]

theorem poll_of_final (h : s.state.isFinal = true) :
    ∃ result, result ≠ .pending ∧ s.poll waker = s.returns waker result := by
  cases hstate : s.state with
  | complete => exact ⟨.readyOk, by decide, by rw [State.poll, hstate]⟩
  | failure => exact ⟨.readyErr .timerPollError, by decide, by rw [State.poll, hstate]⟩
  | _ =>
    rw [hstate] at h
    cases h

/-- A poll of a sleep that is submitted returns. -/
theorem poll_of_submitted (h : s.state ≠ .notSubmitted) : ∃ result, s.poll waker = s.returns waker result := by
  cases hstate : s.state with
  | notSubmitted => exact absurd hstate h
  | pending => exact ⟨.pending, poll_of_pending waker hstate⟩
  | _ => exact (poll_of_final waker (by rw [hstate]; rfl)).imp fun _ h => h.2

end Polls

theorem poll_handler (s : State) (waker : Waker) :
    (s.poll waker).handler = s.handler ∧ (s.poll waker).woken = s.woken ∧ (s.poll waker).waker = s.waker := by
  unfold State.poll
  cases s.state <;> exact ⟨rfl, rfl, rfl⟩

/-! ### What every step keeps -/

theorem not_set_of_closes {s : State} {n : ℕ} (h : s.handler.closes = some n) : s.isSet = false := by
  unfold State.isSet
  cases hhandler : s.handler <;> first | rfl | (rw [hhandler] at h; cases h)

/-- Before the handler has set the state, a poll finds `Pending`. -/
theorem Running.poll {s : State} {n : ℕ} (h : Running s n) (hset : s.isSet = false) (hidle : s.pc = .idle)
    (waker : Waker) : Running (s.poll waker) n := by
  obtain ⟨⟨w, hw⟩, -⟩ | ⟨-, hpending⟩ := h.stored
  · rw [hidle] at hw
    cases hw
  · rw [poll_of_pending waker hpending, State.returns, hset]
    exact ⟨h.late, h.noError, h.closes, .inr ⟨hidle, hpending⟩⟩

theorem Submitting.poll {s : State} (h : Submitting s) (herror : s.submitError = none) (waker : Waker) :
    Submitting (s.poll waker) := by
  rw [poll_of_notSubmitted waker h.state]
  refine ⟨h.state, h.late, fun _ => herror, fun w hw => ?_, fun w hw => by cases hw⟩
  obtain hw | hw := hw <;> cases hw

theorem Finished.poll {s : State} (h : Finished s) (waker : Waker) : Finished (s.poll waker) := by
  obtain ⟨result, hresult⟩ := poll_of_submitted waker h.submitted
  rw [hresult]
  exact ⟨h.noError, h.submitted, h.stored⟩

theorem inv_poll {s : State} (hs : Inv s) (hidle : s.pc = .idle) (herror : s.submitError = none) (waker : Waker) :
    Inv (s.poll waker) := by
  obtain ⟨hhandler, hwoken, hwaker⟩ := poll_handler s waker
  have hset : (s.poll waker).isSet = s.isSet := by rw [State.isSet, hhandler, State.isSet]
  refine ⟨fun h => ?_, fun n h => ?_, fun h => ?_, fun newState h => ?_, fun h => ?_⟩
  · exact (hs.submitting (hhandler ▸ h)).poll herror waker
  · rw [hhandler] at h
    exact (hs.running n h).poll (not_set_of_closes h) hidle waker
  · exact (hs.finished (hset ▸ h)).poll waker
  · exact hs.final newState (hhandler ▸ h)
  · rw [hwoken, hwaker]
    exact hs.woken (hhandler ▸ h)

/-- A step of `submit` before the handler is registered. -/
theorem inv_of_submitting {s' : State} (hhandler : s'.handler = .unregistered) (h : Submitting s') : Inv s' := by
  refine ⟨fun _ => h, fun n hn => ?_, fun hset => ?_, fun newState hc => ?_, fun hd => ?_⟩
  · rw [hhandler] at hn
    cases hn
  · rw [State.isSet, hhandler] at hset
    cases hset
  · rw [hhandler] at hc
    cases hc
  · rw [hhandler] at hd
    cases hd

theorem inv_init : Inv State.init := by
  refine inv_of_submitting rfl ⟨rfl, rfl, fun _ => rfl, fun waker h => ?_, fun waker h => (by cases h)⟩
  obtain h | h := h <;> cases h

/-- A step of the handler before it has set the state. -/
theorem inv_of_running {s' : State} {n : ℕ} (hhandler : s'.handler.closes = some n) (h : Running s' n)
    (hfinal : ∀ newState, s'.handler = .closed newState → newState.isFinal = true) : Inv s' := by
  have hset := not_set_of_closes hhandler
  refine ⟨fun hu => ?_, fun m hm => ?_, fun hs => ?_, hfinal, fun hd => ?_⟩
  · rw [hu] at hhandler
    cases hhandler
  · obtain rfl := Option.some.inj (hhandler.symm.trans hm)
    exact h
  · rw [hset] at hs
    cases hs
  · rw [hd] at hhandler
    cases hhandler

/-- The handler has set the state. -/
theorem inv_of_finished {s' : State} (hset : s'.isSet = true) (h : Finished s')
    (hwoken : s'.handler = .done → s'.woken = s'.waker) : Inv s' := by
  refine ⟨fun hu => ?_, fun n hn => ?_, fun _ => h, fun newState hc => ?_, hwoken⟩
  · rw [State.isSet, hu] at hset
    cases hset
  · rw [not_set_of_closes hn] at hset
    cases hset
  · rw [State.isSet, hc] at hset
    cases hset

/-- Where `submit` is, the handler is not registered. -/
theorem submitting_of_pc {s : State} (hs : Inv s) (hpc : s.pc.submits = true) :
    s.handler = .unregistered ∧ Submitting s := by
  have hne : ¬ ((∃ waker, s.pc = .store waker) ∨ s.pc = .idle) := by
    rintro (⟨waker, h⟩ | h) <;> rw [h] at hpc <;> cases hpc
  have hhandler : s.handler = .unregistered := by
    cases hhandler : s.handler with
    | unregistered => rfl
    | wake => exact absurd (hs.finished (by rw [State.isSet, hhandler])).stored hne
    | done => exact absurd (hs.finished (by rw [State.isSet, hhandler])).stored hne
    | closed newState =>
      have h := (hs.running 1 (by rw [hhandler]; rfl)).stored
      exact absurd (h.imp And.left And.left) hne
    | _ =>
      have h := (hs.running 0 (by rw [hhandler]; rfl)).stored
      exact absurd (h.imp And.left And.left) hne
  exact ⟨hhandler, hs.submitting hhandler⟩

/-- An error of `submit` leaves the rest as it was. -/
theorem Submitting.fails {s : State} (h : Submitting s) (e : SleepError) : Submitting (s.fails e) := by
  refine ⟨h.state, h.late, fun hne => (by cases hne), fun w hw => ?_, fun w hw => (by cases hw)⟩
  obtain hw | hw := hw <;> cases hw

/-- The handler goes on, and the timer with it. -/
theorem Running.goesOn {s s' : State} {n m : ℕ} (h : Running s n) (hcloses : s'.closes = some m)
    (hlate : s'.latePolls = s.latePolls) (herror : s'.submitError = s.submitError) (hpc : s'.pc = s.pc)
    (hstate : s'.state = s.state) : Running s' m := by
  refine ⟨hlate.trans h.late, herror.trans h.noError, hcloses, ?_⟩
  rw [hpc, hstate]
  exact h.stored

/-- When the handler has set the state. -/
theorem Running.finished {s s' : State} {n : ℕ} (h : Running s n) (herror : s'.submitError = s.submitError)
    (hpc : s'.pc = s.pc) (hfinal : s'.state.isFinal = true) : Finished s' := by
  refine ⟨herror.trans h.noError, fun hstate => ?_, ?_⟩
  · rw [hstate] at hfinal
    cases hfinal
  · rw [hpc]
    exact h.stored.imp And.left And.left

/-- A call of `submit` is made before the handler is registered. -/
theorem submitting_of_step {s : State} (hs : Inv s) {pc : Pc} (hpc : s.pc = pc) (hsubmits : pc.submits = true) :
    s.handler = .unregistered ∧ s.submitError = none ∧ Submitting s := by
  rw [← hpc] at hsubmits
  obtain ⟨hhandler, hsub⟩ := submitting_of_pc hs hsubmits
  exact ⟨hhandler, hsub.noError hsubmits, hsub⟩

theorem inv_step {s s' : State} {a : Act} (hs : Inv s) (h : step s a = some s') : Inv s' := by
  cases a with
  | poll waker =>
    obtain ⟨hidle, herror, rfl⟩ := step_cases h
    exact inv_poll hs hidle herror waker
  | create ok =>
    obtain ⟨waker, hpc, rfl⟩ := step_cases h
    obtain ⟨hhandler, herror, hsub⟩ := submitting_of_step hs hpc rfl
    split
    · exact inv_of_submitting hhandler
        ⟨hsub.state, hsub.late, fun _ => herror, fun _ _ => rfl, fun w hw => by cases hw⟩
    · exact inv_of_submitting hhandler (hsub.fails _)
  | settime ok =>
    obtain ⟨waker, hpc, rfl⟩ := step_cases h
    obtain ⟨hhandler, herror, hsub⟩ := submitting_of_step hs hpc rfl
    split
    · exact inv_of_submitting hhandler
        ⟨hsub.state, hsub.late, fun _ => herror, fun _ _ => hsub.opened waker (.inl hpc), fun w hw => by cases hw⟩
    · exact inv_of_submitting hhandler (hsub.fails _)
  | register ok =>
    obtain ⟨waker, hpc, rfl⟩ := step_cases h
    obtain ⟨hhandler, herror, hsub⟩ := submitting_of_step hs hpc rfl
    split
    · exact @inv_of_running _ 0 rfl ⟨hsub.late, herror, hsub.opened waker (.inr hpc),
        .inl ⟨⟨waker, rfl⟩, hsub.state⟩⟩ fun _ hc => by cases hc
    · exact inv_of_submitting hhandler (hsub.fails _)
  | store =>
    obtain ⟨waker, hpc, rfl⟩ := step_cases h
    refine ⟨fun hu => absurd hpc ((hs.submitting hu).notStored waker), fun n hn => ?_, fun hset => ?_, hs.final,
      hs.woken⟩
    · have hrun := hs.running n hn
      exact ⟨hrun.late, hrun.noError, hrun.closes, .inr ⟨rfl, rfl⟩⟩
    · exact ⟨(hs.finished hset).noError, fun hstate => (by cases hstate), .inr rfl⟩
  | interest ok | read ok =>
    obtain ⟨hhandler, rfl⟩ := step_cases h
    have hrun := hs.running 0 (by rw [hhandler]; rfl)
    refine @inv_of_running _ 0 ?_ (hrun.goesOn hrun.closes rfl rfl rfl rfl) ?_
    · cases ok <;> rfl
    · intro newState hc
      cases ok <;> cases hc
  | event =>
    obtain ⟨hhandler, rfl⟩ := step_cases h
    have hrun := hs.running 0 (by rw [hhandler]; rfl)
    exact @inv_of_running _ 0 rfl (hrun.goesOn hrun.closes rfl rfl rfl rfl) fun _ hc => by cases hc
  | close ok =>
    obtain ⟨hhandler, rfl⟩ := step_cases h
    have hrun := hs.running 0 (by rw [hhandler]; rfl)
    refine @inv_of_running _ 1 rfl (hrun.goesOn ?_ rfl rfl rfl rfl) ?_
    · show s.closes.map (· + 1) = some 1
      rw [hrun.closes]
      rfl
    · intro newState hc
      obtain rfl := HandlerPc.closed.inj hc
      cases ok <;> rfl
  | set =>
    obtain ⟨hhandler, rfl⟩ | ⟨newState, hhandler, rfl⟩ := step_cases h
    · have hrun := hs.running 0 (by rw [hhandler]; rfl)
      exact inv_of_finished rfl (hrun.finished rfl rfl rfl) fun hd => by cases hd
    · have hrun := hs.running 1 (by rw [hhandler]; rfl)
      exact inv_of_finished rfl (hrun.finished rfl rfl (hs.final newState hhandler)) fun hd => by cases hd
  | wake =>
    obtain ⟨hhandler, rfl⟩ := step_cases h
    have hfin := hs.finished (by rw [State.isSet, hhandler])
    exact inv_of_finished rfl ⟨hfin.noError, hfin.submitted, hfin.stored⟩ fun _ => rfl

/-! ### Before the state is set -/

/-- Before the handler has set the state nothing is late. -/
theorem Inv.late {s : State} (hs : Inv s) (hset : s.isSet = false) : s.latePolls = [] := by
  cases hhandler : s.handler with
  | unregistered => exact (hs.submitting hhandler).late
  | closed newState => exact (hs.running 1 (by rw [hhandler]; rfl)).late
  | wake =>
    rw [State.isSet, hhandler] at hset
    cases hset
  | done =>
    rw [State.isSet, hhandler] at hset
    cases hset
  | _ => exact (hs.running 0 (by rw [hhandler]; rfl)).late

/-- The state is not final. -/
theorem Inv.unresolved {s : State} (hs : Inv s) (hset : s.isSet = false) : s.state.isFinal = false := by
  have hrunning : ∀ n, s.handler.closes = some n → s.state.isFinal = false := by
    intro n hn
    obtain ⟨-, hstate⟩ | ⟨-, hstate⟩ := (hs.running n hn).stored <;> rw [hstate] <;> rfl
  cases hhandler : s.handler with
  | unregistered =>
    rw [(hs.submitting hhandler).state]
    rfl
  | closed newState => exact hrunning 1 (by rw [hhandler]; rfl)
  | wake =>
    rw [State.isSet, hhandler] at hset
    cases hset
  | done =>
    rw [State.isSet, hhandler] at hset
    cases hset
  | _ => exact hrunning 0 (by rw [hhandler]; rfl)

/-- The steps before the handler sets the state, polls apart. -/
def Act.isEarly : Act → Bool
  | .create _ | .settime _ | .register _ | .interest _ | .event | .read _ | .close _ => true
  | .poll _ | .store | .set | .wake => false

theorem not_set_of_early {s s' : State} {a : Act} (hs : Inv s) (ha : a.isEarly = true) (h : step s a = some s') :
    s'.isSet = false := by
  cases a with
  | create ok | settime ok | register ok =>
    obtain ⟨waker, hpc, rfl⟩ := step_cases h
    have hhandler := (submitting_of_step hs hpc rfl).1
    cases ok <;> simp [State.isSet, State.fails, hhandler]
  | interest ok | read ok =>
    obtain ⟨-, rfl⟩ := step_cases h
    cases ok <;> rfl
  | event =>
    obtain ⟨-, rfl⟩ := step_cases h
    rfl
  | close ok =>
    obtain ⟨-, rfl⟩ := step_cases h
    rfl
  | _ => cases ha

end Sleep
end ClAsync
