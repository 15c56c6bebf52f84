/-
# A finished sleep is not lost

`Kept` says that the sleep is not lost once its handler has set the state.
It can be in two ways. `submit` stores `Pending` after it has registered the
handler, so a handler that is done by then is undone. And the waker of a
later poll is kept nowhere, so a future that moves to another task is not
woken there.

Key definitions: `Kept`, `Waits`.
Key theorem: `kept_iff_waits`.
-/
import ClAsync.Timing.Sleep

namespace ClAsync
namespace Sleep

open Runs

/-- Once the handler has set the state it stays final; once it has woken its
waker, that is the waker of the latest poll that returned `Pending`; and no
poll that began after the state was set returned `Pending`. -/
structure Kept (s : State) : Prop where
  final : s.isSet = true → s.state.isFinal = true
  woken : s.handler = .done → ∀ waker ∈ s.lastPending, s.woken = some waker
  ready : ∀ result ∈ s.latePolls, result ≠ .pending

instance (s : State) : Decidable (Kept s) :=
  decidable_of_iff ((s.isSet = true → s.state.isFinal = true) ∧
      (s.handler = .done → ∀ waker ∈ s.lastPending, s.woken = some waker) ∧ ∀ result ∈ s.latePolls, result ≠ .pending)
    ⟨fun h => ⟨h.1, h.2.1, h.2.2⟩, fun h => ⟨h.final, h.woken, h.ready⟩⟩

/-- The handler waits for the store of `Pending`, and the latest poll that
returned `Pending` had the waker of the first. -/
def Waits (s : State) : Act → Prop
  | .store => s.isSet = false
  | .wake => ∀ waker ∈ s.lastPending, s.waker = some waker
  | _ => True

/-! ### When the sleep is kept -/

theorem kept_of_unset {s : State} (hs : Inv s) (hset : s.isSet = false) : Kept s := by
  refine ⟨fun h => ?_, fun hdone => ?_, fun result hresult => ?_⟩
  · rw [hset] at h
    cases h
  · rw [State.isSet, hdone] at hset
    cases hset
  · rw [hs.late hset] at hresult
    cases hresult

theorem kept_poll {s : State} {waker : Waker} (hk : Kept s) (hs' : Inv (s.poll waker)) : Kept (s.poll waker) := by
  obtain ⟨hhandler, -, -⟩ := poll_handler s waker
  cases hset : s.isSet with
  | false => exact kept_of_unset hs' (by rw [State.isSet, hhandler]; exact hset)
  | true =>
    obtain ⟨result, hready, hpoll⟩ := poll_of_final waker (hk.final hset)
    rw [hpoll, State.returns, if_neg hready, if_pos hset]
    refine ⟨fun _ => hk.final hset, hk.woken, fun r hr => ?_⟩
    obtain hr | hr := List.mem_append.mp hr
    · exact hk.ready r hr
    · rw [List.mem_singleton.mp hr]
      exact hready

/-- A step loses a sleep if and only if it is the store of `Pending` after the
handler has set the state, or wakes another waker than that of the latest
poll. -/
theorem kept_step {s s' : State} {a : Act} (hs : Inv s) (hk : Kept s) (h : step s a = some s') :
    Kept s' ↔ Waits s a := by
  have hs' := inv_step hs h
  cases a with
  | poll waker =>
    obtain ⟨-, -, rfl⟩ := step_cases h
    exact iff_of_true (kept_poll hk hs') trivial
  | store =>
    obtain ⟨waker, -, rfl⟩ := step_cases h
    constructor
    · intro hk'
      by_contra hset
      have hfinal := hk'.final (Bool.not_eq_false _ ▸ hset)
      cases hfinal
    · exact fun hset => kept_of_unset hs' hset
  | set =>
    refine iff_of_true ?_ trivial
    -- The state set is final, and no poll has come late.
    have hset : ∀ n newState, s.handler.closes = some n → newState.isFinal = true →
        Kept { s with state := newState, handler := .wake } := by
      intro n newState hcloses hfinal
      refine ⟨fun _ => hfinal, fun hdone => (by cases hdone), fun result hresult => ?_⟩
      rw [show s.latePolls = [] from (hs.running n hcloses).late] at hresult
      cases hresult
    obtain ⟨hhandler, rfl⟩ | ⟨newState, hhandler, rfl⟩ := step_cases h
    · exact hset 0 .failure (by rw [hhandler]; rfl) rfl
    · exact hset 1 newState (by rw [hhandler]; rfl) (hs.final newState hhandler)
  | wake =>
    obtain ⟨hhandler, rfl⟩ := step_cases h
    constructor
    · exact fun hk' => hk'.woken rfl
    · exact fun hwaker => ⟨fun _ => hk.final (by rw [State.isSet, hhandler]), fun _ => hwaker, hk.ready⟩
  | _ => exact iff_of_true (kept_of_unset hs' (not_set_of_early hs rfl h)) trivial

/-- **A finished sleep is not lost if and only if** the handler sets the state
only after `submit` has stored `Pending`, and wakes the waker of the latest
poll that returned `Pending`. -/
theorem kept_iff_waits (as : List Act) : Along step Kept State.init as ↔ Taken step Waits State.init as := by
  refine along_iff_taken (fun s a s' hs hk hw h => ⟨inv_step hs h, (kept_step hs hk h).mpr hw⟩)
    (fun s a s' hs hk hw h hk' => hw ((kept_step hs hk h).mp hk')) inv_init ?_
  exact kept_of_unset inv_init rfl

/-- The timer expires before `Pending` is stored, which undoes `Complete`, and
the next poll, with another waker, returns `Pending`. -/
def overtaken : List Act :=
  [.poll 0, .create true, .settime true, .register true, .interest true, .event, .read true, .close true, .set,
    .wake, .store, .poll 1]

/-- The future is polled by another task before the timer expires. -/
def handedOver : List Act :=
  [.poll 0, .create true, .settime true, .register true, .store, .poll 1, .interest true, .event, .read true,
    .close true, .set, .wake]

theorem kept_fails : ¬ Along step Kept State.init overtaken ∧ ¬ Along step Kept State.init handedOver := by
  decide

end Sleep
end ClAsync
