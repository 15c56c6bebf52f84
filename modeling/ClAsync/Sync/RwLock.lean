/-
# The reader-writer lock over the semaphore

`RwLock` has no state of its own: `read` awaits one permit, `write` awaits
all of them hungrily, and a guard is the permit. Its runs are therefore runs
of the semaphore in which only these two kinds of future are made, and in
which an awaited future is dropped as soon as it is `Ready`, inside the
`await`, before the guard exists.

Exclusion fails with the conservation of the permits: the drop inside the
`await` of a `write()` that collected in several rounds returns permits the
write guard still holds (`exclusive_fails`). In the runs whose steps hand the
hoards over once it holds, for every number of readers (`exclusive_of_handsOver`).
-/
import ClAsync.Sync.Conservation

namespace ClAsync

open Wakers Runs

/-- `RwLock`: a semaphore, with one permit for each reader there may be. -/
structure RwLock where
  maxPermits : ℕ
  semaphore : Semaphore.State
  deriving DecidableEq, Repr

namespace RwLock

open Semaphore (SemaphoreFuture SemaphoreFutureState)

/-- `with_max_readers`. -/
def withMaxReaders (maxReaders : ℕ) : RwLock := ⟨maxReaders, Semaphore.new maxReaders⟩

/-- The guard of a call exists: its permit is alive and the `await` has
dropped the future. -/
def isGuard (f : SemaphoreFuture) : Bool := f.phase == .dropped && f.data.permit.isSome

def isWrite : SemaphoreFutureState → Bool
  | .polite => false
  | .hungry _ => true

/-- A guard of `read`. -/
def isReadGuard (f : SemaphoreFuture) : Bool := isGuard f && !isWrite f.data.state

/-- A guard of `write`. -/
def isWriteGuard (f : SemaphoreFuture) : Bool := isGuard f && isWrite f.data.state

/-- What the callers of the lock do, and what their futures do. -/
inductive Act
  /-- A call of `read()`. -/
  | read
  /-- A call of `write()`. -/
  | write
  | poll (i w : ℕ)
  | step (i : ℕ)
  /-- The `await` of call `i` drops the future that returned `Ready`. -/
  | finish (i : ℕ)
  /-- Call `i` is dropped while pending. -/
  | cancel (i : ℕ)
  | dropGuard (i : ℕ)
  | wakeNext (r : ℕ)
  deriving DecidableEq, Repr

/-- What the lock does to its semaphore. -/
def lower (l : RwLock) : Act → Semaphore.Act
  | .read => .acquire 1
  | .write => .acquireHungry l.maxPermits
  | .poll i w => .poll i w
  | .step i => .step i
  | .finish i => .dropFuture i
  | .cancel i => .dropFuture i
  | .dropGuard i => .dropPermit i
  | .wakeNext r => .wakeNext r

/-- A future is dropped by its `await` when it is ready, or with its call
while it is pending; a guard is dropped once it exists. -/
def enabled (l : RwLock) : Act → Bool
  | .finish i => (l.semaphore.futures[i]?).any fun f => f.phase == .ready
  | .cancel i => (l.semaphore.futures[i]?).any fun f => f.phase.canPoll
  | .dropGuard i => (l.semaphore.futures[i]?).any isGuard
  | _ => true

/-- One act, if it is possible. -/
def step (l : RwLock) (a : Act) : Option RwLock :=
  if enabled l a then (Semaphore.step l.semaphore (lower l a)).map fun s => { l with semaphore := s }
  else none

/-- A step of the lock is a step of its semaphore. -/
theorem step_lower {l l' : RwLock} {a : Act} (h : step l a = some l') :
    Semaphore.step l.semaphore (lower l a) = some l'.semaphore ∧ l'.maxPermits = l.maxPermits := by
  unfold step at h
  split at h
  · obtain ⟨s, hs, rfl⟩ := Option.map_eq_some_iff.mp h
    exact ⟨hs, rfl⟩
  · cases h

/-- The read guards alive. -/
def readGuards (l : RwLock) : ℕ := l.semaphore.futures.countP isReadGuard

/-- The write guards alive. -/
def writeGuards (l : RwLock) : ℕ := l.semaphore.futures.countP isWriteGuard

/-- While a write guard is alive it is the only guard, and there are never
more read guards than the lock admits. -/
def Exclusive (l : RwLock) : Prop :=
  (0 < writeGuards l → writeGuards l = 1 ∧ readGuards l = 0) ∧ readGuards l ≤ l.maxPermits

instance (l : RwLock) : Decidable (Exclusive l) := inferInstanceAs (Decidable (_ ∧ _))

/-! ### The calls of the lock -/

/-- A call wants one permit if it reads and all of them if it writes, and its
guard has what it wanted. -/
structure CallOk (max : ℕ) (f : SemaphoreFuture) : Prop where
  desired : f.data.desired = if isWrite f.data.state then max else 1
  guard : ∀ w, f.data.permit = some w → w = f.data.desired

theorem isWrite_semFut {desired permits permits' : ℕ} {st st' : SemaphoreFutureState}
    {pc : Semaphore.Pc} {next : Semaphore.Next}
    (hs : Semaphore.semFut desired st permits pc = (permits', st', next)) : isWrite st' = isWrite st := by
  cases Semaphore.polled_of_semFut hs with
  | takeAll queued => cases st <;> rfl
  | _ => rfl

theorem callOk_inv (max : ℕ) : Semaphore.FutureInv (CallOk max) where
  poll _ _ _ hf := ⟨hf.desired, hf.guard⟩
  advance f pc permits permits' st next _ hs hf := by
    have hst := isWrite_semFut hs
    cases next with
    | goto pc' => exact ⟨by simpa [Semaphore.advance, hst] using hf.desired, hf.guard⟩
    | ready =>
      refine ⟨by simpa [Semaphore.advance, hst] using hf.desired, fun w hw => ?_⟩
      simp only [Semaphore.advance, Option.some.injEq] at hw
      exact hw.symm
    | pending => exact ⟨by simpa [Semaphore.advance, hst] using hf.desired, hf.guard⟩
  drop _ _ hf := ⟨hf.desired, hf.guard⟩
  dropPermit _ _ _ hf := ⟨hf.desired, fun w hw => by simp [Semaphore.dropPermit] at hw⟩
  wake f w hf := ⟨by simpa using hf.desired, by simpa using hf.guard⟩

/-- The calls are those of a lock made for `max` readers. -/
def Calls (max : ℕ) (l : RwLock) : Prop :=
  l.maxPermits = max ∧ ∀ f ∈ l.semaphore.futures, CallOk max f

theorem calls_new (max : ℕ) : Calls max (withMaxReaders max) :=
  ⟨rfl, fun f hf => by simp [withMaxReaders, Semaphore.new] at hf⟩

theorem calls_step {max : ℕ} {l l' : RwLock} {a : Act} (hl : Calls max l) (h : step l a = some l') :
    Calls max l' := by
  obtain ⟨hs, hmax⟩ := step_lower h
  refine ⟨hmax.trans hl.1, (callOk_inv max).step (fun n st ha => ?_) hl.2 hs⟩
  cases a <;> simp only [lower, reduceCtorEq, false_and, false_or, or_false, Semaphore.Act.acquire.injEq,
    Semaphore.Act.acquireHungry.injEq, or_self] at ha
  · obtain ⟨rfl, rfl⟩ := ha
    exact ⟨rfl, fun w hw => by simp [Future.new] at hw⟩
  · obtain ⟨rfl, rfl⟩ := ha
    exact ⟨hl.1, fun w hw => by simp [Future.new] at hw⟩

/-- The guards weigh what the calls asked for. -/
theorem guards_le {max : ℕ} : ∀ {fs : List SemaphoreFuture}, (∀ f ∈ fs, CallOk max f) →
    fs.countP isWriteGuard * max + fs.countP isReadGuard ≤ (fs.map Semaphore.weight).sum
  | [], _ => by simp
  | f :: fs, h => by
    have ih := guards_le fun g hg => h g (List.mem_cons_of_mem f hg)
    have hf := h f List.mem_cons_self
    have hw : (if isWriteGuard f then max else 0) + (if isReadGuard f then 1 else 0) ≤
        Semaphore.weight f := by
      unfold isWriteGuard isReadGuard
      cases hg : isGuard f with
      | false => simp
      | true =>
        simp only [isGuard, Bool.and_eq_true] at hg
        obtain ⟨w, hw⟩ := Option.isSome_iff_exists.mp hg.2
        have hweight : Semaphore.weight f = f.data.desired := by
          rw [Semaphore.weight, hw]
          exact hf.guard w hw
        rw [hweight, hf.desired]
        cases isWrite f.data.state <;> simp
    simp only [List.countP_cons, List.map_cons, List.sum_cons]
    rw [Nat.add_mul, ite_mul, one_mul, zero_mul]
    omega

/-! ### Exclusion -/

/-- The step hands the hoards over once (`Semaphore.HandsOver`): no call
completes with more collected than it wants, and none has a count left when
its `await` drops its future. -/
def HandsOver (l : RwLock) (a : Act) : Prop := Semaphore.HandsOver l.semaphore (lower l a)

instance (l : RwLock) (a : Act) : Decidable (HandsOver l a) :=
  inferInstanceAs (Decidable (Semaphore.HandsOver l.semaphore (lower l a)))

/-- The guards weigh no more than all the permits, and a write guard weighs
as much. -/
theorem exclusive_of_conserved {max : ℕ} {l : RwLock} (hmax : 0 < max) (hl : Calls max l)
    (hs : Semaphore.Conserved max l.semaphore) : Exclusive l := by
  have hle : writeGuards l * max + readGuards l ≤ max := (guards_le hl.2).trans hs.2
  refine ⟨fun hw => ?_, by rw [hl.1]; omega⟩
  have h1 : max ≤ writeGuards l * max := Nat.le_mul_of_pos_left max hw
  have h2 : writeGuards l < 2 := by
    by_contra h
    have : 2 * max ≤ writeGuards l * max := Nat.mul_le_mul_right max (by omega)
    omega
  omega

/-- **Mutual exclusion**, in every run whose steps hand the hoards over once,
for any number of readers the lock is made for. -/
theorem exclusive_of_handsOver {max : ℕ} (hmax : 0 < max) (hlt : max < Semaphore.usizeCount)
    {as : List Act} (h : Taken step HandsOver (withMaxReaders max) as) :
    Along step Exclusive (withMaxReaders max) as := by
  refine along_of_invariant (I := fun l => Calls max l ∧ Semaphore.Kept max l.semaphore) ?_ ?_
    ⟨calls_new max, Semaphore.kept_new max⟩ h
  · intro l a l' hl hok hs
    exact ⟨calls_step hl.1 hs, hl.2.step hlt hok (step_lower hs).1⟩
  · intro l hl
    exact exclusive_of_conserved hmax hl.1 hl.2.conserved

/-- A reader holds one of two permits; a writer collects the other and waits. -/
def writerWaits : List Act :=
  [.read, .poll 0 0, .step 0, .step 0, .finish 0, .write, .poll 1 1, .step 1, .step 1, .step 1, .step 1]

/-- The reader leaves, and the writer gets the second permit. -/
def writerCollects : List Act :=
  writerWaits ++ [.dropGuard 0, .wakeNext 0, .poll 1 1, .step 1, .step 1]

theorem exclusive_writerCollects : Along step Exclusive (withMaxReaders 2) writerCollects :=
  exclusive_of_handsOver (by decide) (by decide) (by decide)

/-- The `await` of the writer gives back what it collected first, and a
reader takes it while the write guard is alive. -/
theorem exclusive_fails : ¬ Along step Exclusive (withMaxReaders 2)
    (writerCollects ++ [.finish 1, .read, .poll 2 2, .step 2, .step 2, .finish 2]) := by
  decide

end RwLock
end ClAsync
