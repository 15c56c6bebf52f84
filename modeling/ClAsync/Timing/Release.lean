/-
# The timer of a sleep is closed

`Released` says that the timer is closed by the time the sleep has resolved,
and that an error of `submit` leaves the state `Failure`. `submit` means to
see to both in the branch for an error of its block, but the `?` in the block
return from the function, so the branch is never taken; and the handler
returns without closing the timer when it fails to read it.

Key definitions: `Released`, `Succeeds`.
Key theorem: `released_iff_succeeds`.
-/
import ClAsync.Timing.Sleep

namespace ClAsync
namespace Sleep

open Runs

/-- A poll returns `Ready` for the state, or has for the error of `submit`. -/
def State.resolved (s : State) : Bool := s.state.isFinal || s.submitError.isSome

/-- Once the sleep has resolved, its timer has been closed exactly once, and
when `submit` has returned an error the state is `Failure`. -/
structure Released (s : State) : Prop where
  closed : s.resolved = true → ∀ n ∈ s.closes, n = 1
  failed : s.submitError.isSome = true → s.state = .failure

instance (s : State) : Decidable (Released s) :=
  decidable_of_iff ((s.resolved = true → ∀ n ∈ s.closes, n = 1) ∧ (s.submitError.isSome = true → s.state = .failure))
    ⟨fun h => ⟨h.1, h.2⟩, fun h => ⟨h.closed, h.failed⟩⟩

/-- No call of `submit` fails, and the handler has not failed to read the
timer when it sets the state. -/
def Succeeds (s : State) : Act → Prop
  | .create ok | .settime ok | .register ok => ok = true
  | .set => s.handler ≠ .readFailed
  | _ => True

/-! ### When the timer is released -/

theorem released_of_unresolved {s : State} (hstate : s.state.isFinal = false) (herror : s.submitError = none) :
    Released s := by
  refine ⟨fun h => ?_, fun h => ?_⟩
  · rw [State.resolved, hstate, herror] at h
    cases h
  · rw [herror] at h
    cases h

/-- An error of `submit` leaves `NotSubmitted`. -/
theorem Released.noError {s : State} (hs : Inv s) (hr : Released s) : s.submitError = none := by
  by_contra hne
  have hfailure := hr.failed (Option.isSome_iff_ne_none.mpr hne)
  cases hset : s.isSet with
  | true => exact hne (hs.finished hset).noError
  | false =>
    have hunresolved := hs.unresolved hset
    rw [hfailure] at hunresolved
    cases hunresolved

theorem not_released_fails {s : State} (hs : Inv s) (hpc : s.pc.submits = true) (e : SleepError) :
    ¬ Released (s.fails e) := by
  intro hr
  have hstate := (submitting_of_pc hs hpc).2.state
  have hfailure : s.state = .failure := hr.failed rfl
  rw [hstate] at hfailure
  cases hfailure

/-- A poll has nothing to do with the timer. -/
theorem released_poll {s : State} (hr : Released s) (waker : Waker) : Released (s.poll waker) := by
  cases hstate : s.state with
  | notSubmitted =>
    rw [poll_of_notSubmitted waker hstate]
    exact ⟨hr.closed, hr.failed⟩
  | _ =>
    obtain ⟨result, hresult⟩ := poll_of_submitted waker (by rw [hstate]; exact fun h => by cases h)
    rw [hresult]
    exact ⟨hr.closed, hr.failed⟩

/-- A call of `submit` that does not fail releases nothing. -/
theorem released_submit {s s' : State} {a : Act} {ok : Bool} {pc : Pc} (hs : Inv s) (hr : Released s)
    (h : step s a = some s') (ha : a.isEarly = true) (hpc : s.pc = pc) (hsubmits : pc.submits = true)
    (hok : ok = true → s'.submitError = s.submitError) (hfails : ok = false → ∃ e, s' = s.fails e) :
    Released s' ↔ ok = true := by
  cases ok with
  | true =>
    have hunresolved := (inv_step hs h).unresolved (not_set_of_early hs ha h)
    exact iff_of_true (released_of_unresolved hunresolved ((hok rfl).trans (hr.noError hs))) rfl
  | false =>
    obtain ⟨e, rfl⟩ := hfails rfl
    exact iff_of_false (not_released_fails hs (hpc ▸ hsubmits) e) Bool.false_ne_true

/-- A step fails to release the timer if and only if it is a call of `submit`
that fails, or the handler sets the state after it failed to read the
timer. -/
theorem released_step {s s' : State} {a : Act} (hs : Inv s) (hr : Released s) (h : step s a = some s') :
    Released s' ↔ Succeeds s a := by
  have herror := hr.noError hs
  have hs' := inv_step hs h
  cases a with
  | poll waker =>
    obtain ⟨-, -, rfl⟩ := step_cases h
    exact iff_of_true (released_poll hr waker) trivial
  | create ok | settime ok | register ok =>
    obtain ⟨waker, hpc, hs₁⟩ := step_cases h
    refine released_submit hs hr h rfl hpc rfl (fun hok => ?_) (fun hok => ?_)
    · rw [hs₁, if_pos hok]
    · exact ⟨_, by rw [hs₁, hok, if_neg Bool.false_ne_true]⟩
  | store =>
    obtain ⟨waker, -, rfl⟩ := step_cases h
    exact iff_of_true (released_of_unresolved rfl herror) trivial
  | set =>
    obtain ⟨hhandler, rfl⟩ | ⟨newState, hhandler, rfl⟩ := step_cases h
    · have hcloses := (hs.running 0 (by rw [hhandler]; rfl)).closes
      refine iff_of_false (fun hr' => ?_) (fun hne => hne hhandler)
      have hone := hr'.closed rfl 0 hcloses
      cases hone
    · have hcloses := (hs.running 1 (by rw [hhandler]; rfl)).closes
      refine iff_of_true ⟨fun _ n hn => ?_, fun h => ?_⟩ fun hfailed => ?_
      · exact (Option.some.inj (hcloses.symm.trans hn)).symm
      · rw [herror] at h
        cases h
      · rw [hhandler] at hfailed
        cases hfailed
  | wake =>
    obtain ⟨-, rfl⟩ := step_cases h
    exact iff_of_true ⟨hr.closed, hr.failed⟩ trivial
  | interest | event | read | close =>
    -- The handler has yet to set the state.
    have hunresolved := hs'.unresolved (not_set_of_early hs rfl h)
    obtain ⟨-, rfl⟩ := step_cases h
    exact iff_of_true (released_of_unresolved hunresolved herror) trivial

/-- **The timer is closed exactly once by the time the sleep has resolved, and
an error of `submit` leaves `Failure`, if and only if** no call of `submit`
fails and the handler reads the timer before it sets the state. -/
theorem released_iff_succeeds (as : List Act) :
    Along step Released State.init as ↔ Taken step Succeeds State.init as := by
  refine along_iff_taken (fun s a s' hs hr ha h => ⟨inv_step hs h, (released_step hs hr h).mpr ha⟩)
    (fun s a s' hs hr ha h hr' => ha ((released_step hs hr h).mp hr')) inv_init ?_
  exact released_of_unresolved rfl rfl

/-- The timer cannot be set. -/
def unset : List Act := [.poll 0, .create true, .settime false]

/-- The handler is woken by a `SHUTDOWN` before the timer has expired, and
reads it. -/
def interrupted : List Act :=
  [.poll 0, .create true, .settime true, .register true, .store, .interest true, .event, .read false, .set, .wake]

theorem released_fails :
    ¬ Along step Released State.init unset ∧ ¬ Along step Released State.init interrupted := by
  decide

end Sleep
end ClAsync
