/-
# The waker queue of the semaphore

A poll that returns `Pending` has pushed its waker, and the entry is popped
only to wake the future: one that sleeps finds its waker in the queue
(`inQueue_step`). Both accounts of who is left asleep, the lock's and the
semaphore's, rest on it, and in both the poll that goes wrong is one whose
exchange fails after it has pushed its waker (`doomed`).
-/
import ClAsync.Sync.Semaphore

namespace ClAsync
namespace Semaphore

open Wakers

/-- The poll has pushed its waker. -/
def queuedPc : Pc → Bool
  | .load queued => queued
  | .exchangeNeeded queued _ => queued
  | .exchangeAll queued _ => queued
  | .push => false

/-- The future's latest poll has pushed its waker. -/
def queued (f : SemaphoreFuture) : Bool :=
  match f.phase with
  | .pending => true
  | .polling pc => queuedPc pc
  | _ => false

/-- The poll has queued its waker, and its exchange will fail: the counter is
no longer what it read. It ends in `Pending`. -/
def doomedPc (permits : ℕ) : Pc → Bool
  | .exchangeNeeded true read => decide (permits ≠ read)
  | .exchangeAll true read => decide (permits ≠ read)
  | _ => false

def doomed (permits : ℕ) (f : SemaphoreFuture) : Bool :=
  match f.phase with
  | .polling pc => doomedPc permits pc
  | _ => false

/-- A future that pushed its waker and was not woken finds it in the queue. -/
def InQueue (s : State) : Prop := ∀ f ∈ s.futures, queued f = true → f.woken = false → f.waker ∈ s.wakerQueue

/-- A poll gets past its push by pushing. -/
theorem queued_advance {f : SemaphoreFuture} {permits permits' : ℕ} {st st' : SemaphoreFutureState}
    {desired : ℕ} {pc : Pc} {next : Next} (hs : semFut desired st permits pc = (permits', st', next))
    (h : queued (advance f st' next) = true) : queuedPc pc = true ∨ pc = .push := by
  have horH : ∀ st q read, queued (advance f st' (orHungry st q read)) = true → q = true := by
    intro st q read h
    rcases orHungry_cases st q read with ⟨hgoto, -⟩ | ⟨hwait, -⟩
    · rw [hgoto] at h
      exact h
    · rw [hwait] at h
      cases q with
      | true => rfl
      | false => cases h
  cases polled_of_semFut hs with
  | enough queued => exact Or.inl h
  | short queued => exact Or.inl (horH _ _ _ h)
  | goOn | wait => exact Or.inl rfl
  | take | retry | retryAll => cases h
  | takeAll queued =>
    cases queued with
    | true => exact Or.inl rfl
    | false => cases h
  | push => exact Or.inr rfl

theorem queued_of_queuedPc {f : SemaphoreFuture} {pc : Pc} (hp : f.phase = .polling pc)
    (h : queuedPc pc = true) : queued f = true := by
  simp [queued, hp, h]

theorem advance_waker (f : SemaphoreFuture) (st : SemaphoreFutureState) (next : Next) :
    (advance f st next).waker = f.waker := by
  cases next <;> rfl

theorem advance_woken (f : SemaphoreFuture) (st : SemaphoreFutureState) (next : Next) :
    (advance f st next).woken = f.woken := by
  cases next <;> rfl

theorem inQueue_step {s s' : State} {a : Act} (hI : InQueue s) (h : step s a = some s') : InQueue s' := by
  cases step_cases h with
  | create n st => exact List.forall_mem_append.mpr ⟨hI, List.forall_mem_singleton.mpr fun hq => by cases hq⟩
  | poll i w f hf hp => exact forall_mem_set hI fun hq => by cases hq
  | step i f pc permits st next hf hp hs =>
    have hsub : ∀ w ∈ s.wakerQueue, w ∈ pushed f.waker s.wakerQueue pc := by
      intro w hw
      cases pc with
      | push => exact List.mem_append_left _ hw
      | _ => exact hw
    refine forall_mem_set (fun g hg hq hw => hsub _ (hI g hg hq hw)) fun hq hw => ?_
    rw [advance_waker]
    rw [advance_woken] at hw
    rcases queued_advance hs hq with hpc | rfl
    · exact hsub _ (hI f (List.mem_of_getElem? hf) (queued_of_queuedPc hp hpc) hw)
    · exact List.mem_append_right _ (List.mem_singleton_self _)
  | dropEmpty i f => exact forall_mem_set hI fun hq => by cases hq
  | dropHoard i f => exact forall_mem_set hI fun hq => by cases hq
  | dropPermit i f w hf => exact forall_mem_set hI (hI f (List.mem_of_getElem? hf))
  | wakeNone => exact hI
  | wakeOne r left w queue hr hq =>
    unfold InQueue at hI
    rw [hq] at hI
    exact mem_queue_of_wake (fun f => by simp only [queued, Future.wakeBy_phase]) hI

/-- The pops left, after call `r` of `add_permits` has made some of its own. -/
theorem sum_set_releases {rs : List ℕ} {r x : ℕ} (h : rs[r]? = some x) (y : ℕ) :
    (rs.set r y).sum + x = rs.sum + y := by
  simpa using sum_map_set id h y

theorem count_collect_le (st : SemaphoreFutureState) (n : ℕ) : (collect st n).count ≤ st.count + n := by
  cases st with
  | polite => exact Nat.zero_le _
  | hungry count => exact Nat.mod_le _ _

end Semaphore
end ClAsync
