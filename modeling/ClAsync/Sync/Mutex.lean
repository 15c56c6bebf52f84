/-
# The mutex

`MutexFuture::poll` tries the lock, pushes its waker and tries again; a
`MutexGuard` that is dropped stores `false` and then pops one waker and
wakes it. Each of these is one step here.

The waker popped may belong to a future that no longer waits: one that got
the lock at its second try, or was dropped. Then the wake-up is lost, and
with it a future that sleeps behind (`noLostWakeup_fails`). This is all that
goes wrong: `noLostWakeup_of_wakeKept` says that no wake-up is lost in the
runs in which, while a future sleeps, the popped wakers are of futures that
wait and no woken future is dropped before its next poll.

`MutexGuard` derives `Clone`, and a clone is a guard that no acquisition
stands behind: `exclusive_iff_uncloned` says that this is all that breaks exclusion.
-/
import ClAsync.Lib.Runs
import ClAsync.Lib.Wakers

namespace ClAsync
namespace Mutex

open Wakers Runs

/-- The next atomic step of a poll: the first try, the push of the waker, the
second try. -/
inductive Pc
  | firstTry
  | push
  | secondTry
  deriving DecidableEq, Repr

/-- `MutexFuture`. -/
abbrev MutexFuture := Future Pc Unit

/-- `locked` and `waker_queue` are the fields of `MutexInner`; the value it
guards plays no part. -/
structure State where
  locked : Bool
  wakerQueue : List ℕ
  futures : List MutexFuture
  /-- The live guards. -/
  guards : ℕ
  /-- The drops of guards between their store and their pop. -/
  drops : ℕ
  deriving DecidableEq, Repr

/-- `Mutex::new`. -/
def new : State := ⟨false, [], [], 0, 0⟩

/-- What the tasks do with the lock, its futures and its guards. -/
inductive Act
  /-- `Mutex::clone`, another handle to the same `MutexInner`. -/
  | cloneMutex
  /-- `Mutex::lock` -/
  | lock
  /-- A poll of future `i` begins, with the waker `w`. -/
  | poll (i w : ℕ)
  /-- The poll of future `i` makes its next atomic step. -/
  | step (i : ℕ)
  | dropFuture (i : ℕ)
  | cloneGuard
  /-- `Deref` and `DerefMut` of a guard. -/
  | deref
  /-- The store of `MutexGuard::drop`. -/
  | dropGuard
  /-- The pop of `MutexGuard::drop`, and the wake-up. -/
  | popWaker
  deriving DecidableEq, Repr

/-- One atomic step of `MutexFuture::poll`. -/
def pollStep (s : State) (i : ℕ) (f : MutexFuture) : Pc → State
  | .firstTry =>
    if s.locked then { s with futures := s.futures.set i { f with phase := .polling .push } }
    else { s with locked := true, futures := s.futures.set i { f with phase := .ready }, guards := s.guards + 1 }
  | .push => { s with
      wakerQueue := s.wakerQueue ++ [f.waker]
      futures := s.futures.set i { f with phase := .polling .secondTry } }
  | .secondTry =>
    if s.locked then { s with futures := s.futures.set i { f with phase := .pending } }
    else { s with locked := true, futures := s.futures.set i { f with phase := .ready }, guards := s.guards + 1 }

/-- One act. -/
def step (s : State) : Act → Option State
  | .cloneMutex => some s
  | .lock => some { s with futures := s.futures ++ [.new ()] }
  | .poll i w => s.futures[i]?.bind fun f =>
      if f.phase.canPoll then some { s with futures := s.futures.set i (f.poll w .firstTry) } else none
  | .step i => s.futures[i]?.bind fun f =>
      match f.phase with
      | .polling pc => some (pollStep s i f pc)
      | _ => none
  | .dropFuture i => s.futures[i]?.bind fun f =>
      if f.phase.canDrop then some { s with futures := s.futures.set i f.drop } else none
  | .cloneGuard => if 0 < s.guards then some { s with guards := s.guards + 1 } else none
  | .deref => if 0 < s.guards then some s else none
  | .dropGuard =>
    if 0 < s.guards then some { s with locked := false, guards := s.guards - 1, drops := s.drops + 1 } else none
  | .popWaker =>
    if 0 < s.drops then
      match s.wakerQueue with
      | [] => some { s with drops := s.drops - 1 }
      | w :: queue => some { s with wakerQueue := queue, futures := wake w s.futures, drops := s.drops - 1 }
    else none

/-- Everything an action can do, as one relation. -/
inductive Step (s : State) : Act → State → Prop
  | same (a : Act) (ha : a = .cloneMutex ∨ a = .deref) : Step s a s
  | lock : Step s .lock { s with futures := s.futures ++ [.new ()] }
  | poll (i w : ℕ) (f : MutexFuture) (hf : s.futures[i]? = some f) (hp : f.phase.canPoll = true) :
      Step s (.poll i w) { s with futures := s.futures.set i (f.poll w .firstTry) }
  | step (i : ℕ) (f : MutexFuture) (pc : Pc) (hf : s.futures[i]? = some f) (hp : f.phase = .polling pc) :
      Step s (.step i) (pollStep s i f pc)
  | dropFuture (i : ℕ) (f : MutexFuture) (hf : s.futures[i]? = some f) (hp : f.phase.canDrop = true) :
      Step s (.dropFuture i) { s with futures := s.futures.set i f.drop }
  | cloneGuard (hg : 0 < s.guards) : Step s .cloneGuard { s with guards := s.guards + 1 }
  | dropGuard (hg : 0 < s.guards) :
      Step s .dropGuard { s with locked := false, guards := s.guards - 1, drops := s.drops + 1 }
  | popNone (hd : 0 < s.drops) (hq : s.wakerQueue = []) : Step s .popWaker { s with drops := s.drops - 1 }
  | popOne (hd : 0 < s.drops) (w : ℕ) (queue : List ℕ) (hq : s.wakerQueue = w :: queue) :
      Step s .popWaker { s with wakerQueue := queue, futures := wake w s.futures, drops := s.drops - 1 }

theorem step_cases {s s' : State} {a : Act} (h : step s a = some s') : Step s a s' := by
  cases a with
  | cloneMutex =>
    cases h
    exact .same _ (Or.inl rfl)
  | lock =>
    cases h
    exact .lock
  | poll i w =>
    obtain ⟨f, hf, h⟩ := Option.bind_eq_some_iff.mp h
    simp only [Option.ite_none_right_eq_some, Option.some.injEq] at h
    obtain ⟨hp, rfl⟩ := h
    exact .poll i w f hf hp
  | step i =>
    obtain ⟨f, hf, h⟩ := Option.bind_eq_some_iff.mp h
    cases hp : f.phase with
    | polling pc =>
      rw [hp] at h
      cases h
      exact .step i f pc hf hp
    | _ => rw [hp] at h; cases h
  | dropFuture i =>
    obtain ⟨f, hf, h⟩ := Option.bind_eq_some_iff.mp h
    simp only [Option.ite_none_right_eq_some, Option.some.injEq] at h
    obtain ⟨hp, rfl⟩ := h
    exact .dropFuture i f hf hp
  | cloneGuard =>
    simp only [step, Option.ite_none_right_eq_some, Option.some.injEq] at h
    obtain ⟨hg, rfl⟩ := h
    exact .cloneGuard hg
  | deref =>
    simp only [step, Option.ite_none_right_eq_some, Option.some.injEq] at h
    obtain ⟨-, rfl⟩ := h
    exact .same _ (Or.inr rfl)
  | dropGuard =>
    simp only [step, Option.ite_none_right_eq_some, Option.some.injEq] at h
    obtain ⟨hg, rfl⟩ := h
    exact .dropGuard hg
  | popWaker =>
    simp only [step, Option.ite_none_right_eq_some] at h
    obtain ⟨hd, h⟩ := h
    cases hq : s.wakerQueue with
    | nil =>
      simp only [hq, Option.some.injEq] at h
      subst h
      simpa only [hq] using Step.popNone hd hq
    | cons w queue =>
      simp only [hq, Option.some.injEq] at h
      subst h
      exact .popOne hd w queue hq

/-! ### Who is in the waker queue -/

/-- The future's latest poll has pushed its waker. -/
def queued (f : MutexFuture) : Bool :=
  match f.phase with
  | .pending => true
  | .polling .secondTry => true
  | _ => false

/-- A future that pushed its waker and was not woken finds it in the queue. -/
def InQueue (s : State) : Prop := ∀ f ∈ s.futures, queued f = true → f.woken = false → f.waker ∈ s.wakerQueue

theorem inQueue_step {s s' : State} {a : Act} (hI : InQueue s) (h : step s a = some s') : InQueue s' := by
  cases step_cases h with
  | same => exact hI
  | lock => exact List.forall_mem_append.mpr ⟨hI, List.forall_mem_singleton.mpr fun hq => by cases hq⟩
  | poll i w f hf hp => exact forall_mem_set hI fun hq => by cases hq
  | step i f pc hf hp =>
    have hfI := hI f (List.mem_of_getElem? hf)
    cases pc with
    | firstTry =>
      unfold pollStep
      cases s.locked with
      | true => exact forall_mem_set hI fun hq => by cases hq
      | false => exact forall_mem_set hI fun hq => by cases hq
    | push =>
      refine forall_mem_set (fun g hg hq hw => List.mem_append_left _ (hI g hg hq hw)) fun _ _ => ?_
      exact List.mem_append_right _ (List.mem_singleton_self _)
    | secondTry =>
      unfold pollStep
      cases s.locked with
      | true => exact forall_mem_set hI fun _ hw => hfI (by simp [queued, hp]) hw
      | false => exact forall_mem_set hI fun hq => by cases hq
  | dropFuture i f => exact forall_mem_set hI fun hq => by cases hq
  | cloneGuard => exact hI
  | dropGuard => exact hI
  | popNone => exact hI
  | popOne hd w queue hq =>
    unfold InQueue at hI
    rw [hq] at hI
    exact mem_queue_of_wake (fun f => by simp only [queued, Future.wakeBy_phase]) hI

/-! ### Lost wake-ups -/

/-- If a future sleeps, the mutex is locked, a guard that was dropped has its
pop to make, or a future is under poll or woken and still to be polled. -/
def Settled (locked : Bool) (fs : List MutexFuture) (drops : ℕ) : Prop :=
  (∃ f ∈ fs, f.Asleep) → locked = true ∨ 0 < drops ∨ ∃ f ∈ fs, f.phase.isPolling = true ∨ f.Roused

instance (locked : Bool) (fs : List MutexFuture) (drops : ℕ) : Decidable (Settled locked fs drops) :=
  inferInstanceAs (Decidable (_ → _))

/-- No poll and no drop of a guard is in progress, and every future woken
while pending has been polled since. -/
def AtRest (s : State) : Prop :=
  (∀ f ∈ s.futures, f.phase.isPolling = false ∧ (f.phase = .pending → f.woken = false)) ∧ s.drops = 0

/-- At rest the mutex is not unlocked while a future is pending. -/
def NoLostWakeup (s : State) : Prop := AtRest s → ¬ (s.locked = false ∧ ∃ f ∈ s.futures, f.phase = .pending)

instance (s : State) : Decidable (AtRest s) := inferInstanceAs (Decidable (_ ∧ _))

instance (s : State) : Decidable (NoLostWakeup s) := inferInstanceAs (Decidable (_ → ¬ _))

theorem noLostWakeup_iff_settled {s : State} : NoLostWakeup s ↔ Settled s.locked s.futures s.drops := by
  constructor
  · rintro h ⟨f, hf, hp, -⟩
    by_contra hstir
    simp only [not_or, not_exists, not_and, Bool.not_eq_true] at hstir
    obtain ⟨hlocked, hdrops, hquiet⟩ := hstir
    refine h ⟨fun g hg => ⟨(hquiet g hg).1, fun hgp => ?_⟩, by omega⟩ ⟨hlocked, f, hf, hp⟩
    by_contra hw
    exact (hquiet g hg).2 ⟨by rw [hgp]; rfl, by simpa using hw⟩
  · rintro h ⟨hquiet, hdrops⟩ ⟨hlocked, f, hf, hp⟩
    rcases h ⟨f, hf, hp, (hquiet f hf).2 hp⟩ with h | h | ⟨g, hg, h | h⟩
    · rw [hlocked] at h
      cases h
    · omega
    · rw [(hquiet g hg).1] at h
      cases h
    · have hpoll := (hquiet g hg).1
      cases hgp : g.phase with
      | pending =>
        rw [Future.Roused, (hquiet g hg).2 hgp] at h
        exact absurd h.2 (by simp)
      | polling pc =>
        rw [hgp] at hpoll
        cases hpoll
      | _ =>
        rw [Future.Roused, hgp] at h
        exact absurd h.1 (by simp [Phase.isWaiting])

/-- While a future sleeps, no wake-up is spent on one that waits no more: a
waker that is popped belongs to a future that still waits, and a future that
is dropped has not been woken since its last poll. -/
def WakeKept (s : State) : Act → Prop
  | .dropFuture i => (∃ g ∈ s.futures, g.Asleep) → ∀ f ∈ s.futures[i]?, ¬ f.Roused
  | .popWaker => (∃ g ∈ s.futures, g.Asleep) →
      ∀ w ∈ s.wakerQueue.head?, ∃ f ∈ s.futures, f.waker = w ∧ f.phase.isWaiting = true
  | _ => True

instance (s : State) (a : Act) : Decidable (WakeKept s a) := by
  cases a <;> (dsimp only [WakeKept]; infer_instance)

section Settled

variable {locked : Bool} {fs : List MutexFuture} {drops i : ℕ} {f g : MutexFuture}

theorem settled_of_polling (hf : f ∈ fs) (h : f.phase.isPolling = true) : Settled locked fs drops :=
  fun _ => Or.inr (Or.inr ⟨f, hf, Or.inl h⟩)

/-- Who sleeps beside a dropped future slept before. -/
theorem asleep_of_drop (h : ∃ g ∈ fs.set i f.drop, g.Asleep) : ∃ g ∈ fs, g.Asleep := by
  obtain ⟨x, hx, hxs⟩ := h
  rcases List.mem_or_eq_of_mem_set hx with hx | rfl
  · exact ⟨x, hx, hxs⟩
  · cases hxs.1

/-- Dropping a future that nobody has woken keeps the table settled. -/
theorem Settled.drop (h : Settled locked fs drops) (hf : fs[i]? = some f)
    (hp : f.phase.canDrop = true) (hr : ¬ f.Roused) : Settled locked (fs.set i f.drop) drops := by
  intro hasleep
  rcases h (asleep_of_drop hasleep) with h | h | ⟨y, hy, hys⟩
  · exact Or.inl h
  · exact Or.inr (Or.inl h)
  · rcases mem_set_or_eq (y := f.drop) hf hy with rfl | hy
    · rcases hys with hys | hys
      · rw [Phase.isPolling_of_canDrop hp] at hys
        cases hys
      · exact absurd hys hr
    · exact Or.inr (Or.inr ⟨y, hy, hys⟩)

end Settled

/-- A try that fails finds the mutex locked, one that succeeds locks it. -/
theorem locked_of_try (s : State) (i : ℕ) (f : MutexFuture) {pc : Pc} (h : pc ≠ .push) :
    (pollStep s i f pc).locked = true := by
  cases pc with
  | push => exact absurd rfl h
  | _ => cases hl : s.locked <;> simp [pollStep, hl]

/-- A step that spends no wake-up keeps the table settled. -/
theorem settled_step {s s' : State} {a : Act} (hI : InQueue s) (hS : Settled s.locked s.futures s.drops)
    (hk : WakeKept s a) (h : step s a = some s') : Settled s'.locked s'.futures s'.drops := by
  cases step_cases h with
  | same => exact hS
  | lock =>
    rintro ⟨f, hf, hfs⟩
    have hold : f ∈ s.futures := by
      rcases List.mem_append.mp hf with hf | hf
      · exact hf
      · rw [List.mem_singleton.mp hf] at hfs
        cases hfs.1
    exact (hS ⟨f, hold, hfs⟩).imp_right (Or.imp_right fun ⟨g, hg, h⟩ => ⟨g, List.mem_append_left _ hg, h⟩)
  | poll i w f hf hp => exact settled_of_polling (mem_set_self hf) rfl
  | step i f pc hf hp =>
    cases pc with
    | push => exact settled_of_polling (mem_set_self hf) rfl
    | firstTry => exact fun _ => Or.inl (locked_of_try s i f (by decide))
    | secondTry => exact fun _ => Or.inl (locked_of_try s i f (by decide))
  | dropFuture i f hf hp =>
    intro hasleep
    have hr : ¬ f.Roused := hk (asleep_of_drop hasleep) f hf
    exact hS.drop hf hp hr hasleep
  | cloneGuard => exact hS
  | dropGuard => exact fun _ => Or.inr (Or.inl (Nat.succ_pos _))
  | popNone hd hq =>
    rintro ⟨f, hf, hfs⟩
    have := hI f hf (by simp [queued, hfs.1]) hfs.2
    rw [hq] at this
    cases this
  | popOne hd w queue hq =>
    rintro ⟨x, hx, hxs⟩
    obtain ⟨y, hy, rfl⟩ := mem_wake.mp hx
    obtain ⟨f, hf, hfw, hwait⟩ := hk ⟨y, hy, (asleep_wakeBy.mp hxs).1⟩ w (by rw [hq]; rfl)
    refine Or.inr (Or.inr ⟨f.wakeBy w, mem_wake.mpr ⟨f, hf, rfl⟩, Or.inr ?_⟩)
    exact roused_wakeBy.mpr (Or.inr ⟨hwait, hfw⟩)

/-- **No wake-up is lost in the runs that spend none, while a future sleeps,
on a future that waits no more.** -/
theorem noLostWakeup_of_wakeKept {as : List Act} (h : Taken step WakeKept new as) :
    Along step NoLostWakeup new as := by
  refine along_of_invariant (I := fun s => InQueue s ∧ Settled s.locked s.futures s.drops) ?_ ?_ ?_ h
  · exact fun s a s' hI hk h => ⟨inQueue_step hI.1 h, settled_step hI.1 hI.2 hk h⟩
  · exact fun s hI => noLostWakeup_iff_settled.mpr hI.2
  · exact ⟨fun f hf => by simp [new] at hf, fun ⟨f, hf, _⟩ => by simp [new] at hf⟩

/-- Tasks 1 and 2 wait for the guard of task 0. Its drop wakes task 1, which
gets the lock; task 2 is woken by the drop of that guard, and a third guard
is dropped when nobody sleeps. -/
theorem noLostWakeup_threeTasks : Along step NoLostWakeup new
    [.lock, .poll 0 0, .step 0, .lock, .poll 1 1, .step 1, .step 1, .step 1, .lock, .poll 2 2, .step 2,
      .step 2, .step 2, .dropGuard, .popWaker, .poll 1 1, .step 1, .dropGuard, .popWaker, .poll 2 2, .step 2,
      .dropGuard, .popWaker] :=
  noLostWakeup_of_wakeKept (by decide)

/-- Task 0 holds the lock, task 1 waits, task 2 gets the lock at its second
try while the guard of task 0 is dropped. The wake-up goes to task 1, which
finds the mutex locked; the next one goes to task 2, which waits no more. -/
def secondTryWins : List Act :=
  [.lock, .poll 0 0, .step 0, .lock, .poll 1 1, .step 1, .step 1, .step 1, .lock, .poll 2 2, .step 2,
    .step 2, .dropGuard, .step 2, .popWaker, .poll 1 1, .step 1, .step 1, .step 1, .dropGuard, .popWaker]

theorem noLostWakeup_fails : ¬ Along step NoLostWakeup new secondTryWins := by
  decide

/-! ### Exclusion -/

/-- At most one guard is alive, and the flag is set exactly while one is. -/
def Exclusive (s : State) : Prop := s.guards ≤ 1 ∧ (s.locked = true ↔ 0 < s.guards)

instance (s : State) : Decidable (Exclusive s) := inferInstanceAs (Decidable (_ ∧ _))

/-- A poll locks the mutex only when it was unlocked, and makes the one guard. -/
theorem exclusive_pollStep {s : State} (hE : Exclusive s) (i : ℕ) (f : MutexFuture) (pc : Pc) :
    Exclusive (pollStep s i f pc) := by
  obtain ⟨hone, hflag⟩ := hE
  have hfree : s.locked = false → s.guards = 0 := fun hl => by
    rw [hl] at hflag
    have : ¬ 0 < s.guards := fun hg => absurd (hflag.mpr hg) (by simp)
    omega
  cases pc with
  | push => exact ⟨hone, hflag⟩
  | _ =>
    cases hl : s.locked with
    | true => simpa [pollStep, hl, Exclusive] using ⟨hone, hflag.mp hl⟩
    | false => simp [pollStep, hl, Exclusive, hfree hl]

theorem exclusive_step {s s' : State} {a : Act} (hE : Exclusive s) (ha : a ≠ .cloneGuard)
    (h : step s a = some s') : Exclusive s' := by
  cases step_cases h with
  | cloneGuard => exact absurd rfl ha
  | step i f pc => exact exclusive_pollStep hE i f pc
  | dropGuard hg =>
    have hlast : s.guards - 1 = 0 := by have := hE.1; omega
    simp [Exclusive, hlast]
  | _ => exact hE

/-- The clone of a guard is a second guard. -/
theorem not_exclusive_cloneGuard {s s' : State} (h : step s .cloneGuard = some s') : ¬ Exclusive s' := by
  cases step_cases h with
  | same _ ha => simp at ha
  | cloneGuard hg =>
    intro hE
    have := hE.1
    simp only at this
    omega

/-- **The mutex excludes in exactly the runs in which no guard is cloned.** -/
theorem exclusive_iff_uncloned (as : List Act) :
    Along step Exclusive new as ↔ Taken step (fun _ a => a ≠ .cloneGuard) new as := by
  refine along_iff_taken (I := fun _ => True) ?_ ?_ trivial (by decide)
  · exact fun s a s' _ hE ha h => ⟨trivial, exclusive_step hE ha h⟩
  · intro s a s' _ _ ha h
    rw [ne_eq, not_not] at ha
    subst ha
    exact not_exclusive_cloneGuard h

/-- A task locks the mutex and clones its guard. -/
theorem exclusive_fails_cloned : ¬ Along step Exclusive new [.lock, .poll 0 0, .step 0, .cloneGuard] := by
  decide

end Mutex
end ClAsync
