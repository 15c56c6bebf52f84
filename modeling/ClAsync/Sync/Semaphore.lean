/-
# The semaphore

`sem_fut`, the loop both kinds of semaphore future poll with, one atomic
step at a time: a load, a `compare_exchange` or a push of the waker. Around
it the semaphore as a system: any number of futures, each at most once under
poll, the permits they handed out, and the calls of `add_permits` under way,
each with the pops it still has to make.

`SemaphoreFuture` and `OwnedSemaphoreFuture` differ in how they hold the
`SemaphoreInner` only; a future here is either. Sizes are `usize` values of
a 64-bit host, and their additions wrap.

Key definitions: `semFut`, `State`, `Act`, `step`.
Key theorems: `polled_of_semFut`, what one atomic step of a poll can do,
`step_cases`, what one step of the system can do, and `FutureInv.step`, the
rule for invariants of single futures.
-/
import ClAsync.Lib.Runs
import ClAsync.Lib.Wakers

namespace ClAsync
namespace Semaphore

open Wakers

/-- The number of `usize` values. -/
def usizeCount : ℕ := 2 ^ 64

/-! ### One poll -/

inductive SemaphoreFutureState
  | polite
  | hungry (count : ℕ)
  deriving DecidableEq, Repr

/-- The permits a future has collected and not handed out. -/
def SemaphoreFutureState.count : SemaphoreFutureState → ℕ
  | .polite => 0
  | .hungry count => count

/-- The next atomic step of a poll. The exchanges carry the value of the
counter that `load` read; `queued` tells that the waker has been pushed. -/
inductive Pc
  | load (queued : Bool)
  | exchangeNeeded (queued : Bool) (permits : ℕ)
  | exchangeAll (queued : Bool) (permits : ℕ)
  | push
  deriving DecidableEq, Repr

/-- What follows an atomic step: another one, or the end of the poll. -/
inductive Next
  | goto (pc : Pc)
  | ready
  | pending
  deriving DecidableEq, Repr

/-- `desired_permits.saturating_sub(count)`. -/
def needed (desired : ℕ) (st : SemaphoreFutureState) : ℕ := desired - st.count

/-- The end of the loop's body: push the waker and go round once more, or
return `Pending`. -/
def queueOrWait (queued : Bool) : Next := if queued then .pending else .goto .push

/-- The `if let Hungry(count)` part, reached with the value `permits` read. -/
def orHungry (st : SemaphoreFutureState) (queued : Bool) (permits : ℕ) : Next :=
  match st with
  | .polite => queueOrWait queued
  | .hungry _ => if 0 < permits then .goto (.exchangeAll queued permits) else queueOrWait queued

/-- `*count += n`. -/
def collect (st : SemaphoreFutureState) (n : ℕ) : SemaphoreFutureState :=
  match st with
  | .polite => .polite
  | .hungry count => .hungry ((count + n) % usizeCount)

/-- One atomic step of `sem_fut` on the counter `permits`: the new counter,
the future's new state and what comes next. The push itself is made by the
system, which holds the queue. -/
def semFut (desired : ℕ) (st : SemaphoreFutureState) (permits : ℕ) :
    Pc → ℕ × SemaphoreFutureState × Next
  | .load queued =>
    (permits, st,
      if needed desired st ≤ permits then .goto (.exchangeNeeded queued permits)
      else orHungry st queued permits)
  | .exchangeNeeded queued read =>
    if permits = read then (read - needed desired st, st, .ready)
    else (permits, st, if queued then orHungry st queued read else .goto (.load queued))
  | .exchangeAll queued read =>
    if permits = read then (0, collect st read, queueOrWait queued)
    else (permits, st, if queued then queueOrWait queued else .goto (.load queued))
  | .push => (permits, st, .goto (.load true))

theorem queueOrWait_ne_ready (queued : Bool) : queueOrWait queued ≠ .ready := by
  cases queued <;> simp [queueOrWait]

/-- A hungry poll that has read something goes on to take it; any other poll
queues or waits. -/
theorem orHungry_cases (st : SemaphoreFutureState) (queued : Bool) (read : ℕ) :
    (orHungry st queued read = .goto (.exchangeAll queued read) ∧ (∃ count, st = .hungry count) ∧ 0 < read) ∨
      (orHungry st queued read = queueOrWait queued ∧ (st = .polite ∨ read = 0)) := by
  cases st with
  | polite => exact Or.inr ⟨rfl, Or.inl rfl⟩
  | hungry count =>
    by_cases hread : 0 < read
    · exact Or.inl ⟨if_pos hread, ⟨count, rfl⟩, hread⟩
    · exact Or.inr ⟨if_neg hread, Or.inr (by omega)⟩

theorem orHungry_ne_ready (st : SemaphoreFutureState) (queued : Bool) (read : ℕ) :
    orHungry st queued read ≠ .ready := by
  rcases orHungry_cases st queued read with ⟨h, -⟩ | ⟨h, -⟩
  · rw [h]
    exact fun h => by cases h
  · rw [h]
    exact queueOrWait_ne_ready queued

/-- The atomic steps of a poll one by one: what each finds, and what it leaves. -/
inductive Polled (desired : ℕ) (st : SemaphoreFutureState) (permits : ℕ) :
    Pc → ℕ → SemaphoreFutureState → Next → Prop
  | enough (queued : Bool) (hle : needed desired st ≤ permits) :
      Polled desired st permits (.load queued) permits st (.goto (.exchangeNeeded queued permits))
  | short (queued : Bool) (hlt : permits < needed desired st) :
      Polled desired st permits (.load queued) permits st (orHungry st queued permits)
  | take (queued : Bool) :
      Polled desired st permits (.exchangeNeeded queued permits) (permits - needed desired st) st .ready
  | retry (read : ℕ) (hne : permits ≠ read) :
      Polled desired st permits (.exchangeNeeded false read) permits st (.goto (.load false))
  | goOn (read : ℕ) (hne : permits ≠ read) :
      Polled desired st permits (.exchangeNeeded true read) permits st (orHungry st true read)
  | takeAll (queued : Bool) :
      Polled desired st permits (.exchangeAll queued permits) 0 (collect st permits) (queueOrWait queued)
  | retryAll (read : ℕ) (hne : permits ≠ read) :
      Polled desired st permits (.exchangeAll false read) permits st (.goto (.load false))
  | wait (read : ℕ) (hne : permits ≠ read) :
      Polled desired st permits (.exchangeAll true read) permits st .pending
  | push : Polled desired st permits .push permits st (.goto (.load true))

theorem polled_of_semFut {desired permits permits' : ℕ} {st st' : SemaphoreFutureState} {pc : Pc} {next : Next}
    (h : semFut desired st permits pc = (permits', st', next)) : Polled desired st permits pc permits' st' next := by
  cases pc with
  | load queued =>
    simp only [semFut, Prod.mk.injEq] at h
    obtain ⟨rfl, rfl, rfl⟩ := h
    by_cases hle : needed desired st ≤ permits
    · rw [if_pos hle]
      exact .enough queued hle
    · rw [if_neg hle]
      exact .short queued (Nat.not_le.mp hle)
  | exchangeNeeded queued read =>
    by_cases hread : permits = read
    · subst hread
      simp only [semFut, if_true, Prod.mk.injEq] at h
      obtain ⟨rfl, rfl, rfl⟩ := h
      exact .take queued
    · simp only [semFut, if_neg hread, Prod.mk.injEq] at h
      obtain ⟨rfl, rfl, rfl⟩ := h
      cases queued with
      | false => exact .retry read hread
      | true => exact .goOn read hread
  | exchangeAll queued read =>
    by_cases hread : permits = read
    · subst hread
      simp only [semFut, if_true, Prod.mk.injEq] at h
      obtain ⟨rfl, rfl, rfl⟩ := h
      exact .takeAll queued
    · simp only [semFut, if_neg hread, Prod.mk.injEq] at h
      obtain ⟨rfl, rfl, rfl⟩ := h
      cases queued with
      | false => exact .retryAll read hread
      | true => exact .wait read hread
  | push =>
    simp only [semFut, Prod.mk.injEq] at h
    obtain ⟨rfl, rfl, rfl⟩ := h
    exact .push

/-- An atomic step leaves the counter and the future's state as they are, or
it is an exchange of the value read. -/
theorem semFut_cases (desired : ℕ) (st : SemaphoreFutureState) (permits : ℕ) (pc : Pc) :
    (∃ next, semFut desired st permits pc = (permits, st, next) ∧ next ≠ .ready) ∨
    (∃ queued, pc = .exchangeNeeded queued permits ∧
      semFut desired st permits pc = (permits - needed desired st, st, .ready)) ∨
    (∃ queued, pc = .exchangeAll queued permits ∧
      semFut desired st permits pc = (0, collect st permits, queueOrWait queued)) := by
  obtain ⟨result, hresult⟩ : ∃ result, semFut desired st permits pc = result := ⟨_, rfl⟩
  obtain ⟨permits', st', next⟩ := result
  rw [hresult]
  cases polled_of_semFut hresult with
  | enough | retry | retryAll | wait | push => exact Or.inl ⟨_, rfl, fun h => by cases h⟩
  | short queued => exact Or.inl ⟨_, rfl, orHungry_ne_ready st queued permits⟩
  | goOn read => exact Or.inl ⟨_, rfl, orHungry_ne_ready st true read⟩
  | take queued => exact Or.inr (Or.inl ⟨queued, rfl, rfl⟩)
  | takeAll queued => exact Or.inr (Or.inr ⟨queued, rfl, rfl⟩)

/-- What a poll has read when it is about to exchange: enough for what it
needs, or, if it is hungry, something. -/
def PcOk (desired : ℕ) (st : SemaphoreFutureState) : Pc → Prop
  | .exchangeNeeded _ read => needed desired st ≤ read
  | .exchangeAll _ read => (∃ count, st = .hungry count) ∧ 0 < read
  | _ => True

theorem orHungry_pcOk {desired : ℕ} {st : SemaphoreFutureState} {queued : Bool} {read : ℕ} {pc : Pc}
    (h : orHungry st queued read = .goto pc) : PcOk desired st pc := by
  rcases orHungry_cases st queued read with ⟨hgoto, hhungry⟩ | ⟨hwait, -⟩
  · cases hgoto.symm.trans h
    exact hhungry
  · cases queued with
    | true => cases hwait.symm.trans h
    | false =>
      cases hwait.symm.trans h
      trivial

theorem semFut_pcOk {desired : ℕ} {st st' : SemaphoreFutureState} {permits permits' : ℕ} {pc pc' : Pc}
    (h : semFut desired st permits pc = (permits', st', .goto pc')) : PcOk desired st' pc' := by
  generalize hnext : Next.goto pc' = next at h
  cases polled_of_semFut h with
  | enough queued hle =>
    cases hnext
    exact hle
  | short | goOn => exact orHungry_pcOk hnext.symm
  | take | wait => cases hnext
  | retry | retryAll | push =>
    cases hnext
    trivial
  | takeAll queued =>
    cases queued with
    | true => cases hnext
    | false =>
      cases hnext
      trivial

/-! ### The system -/

/-- What a semaphore future carries, and the weight of the permit it handed
out while that permit is alive. -/
structure Acquire where
  desired : ℕ
  state : SemaphoreFutureState
  permit : Option ℕ
  deriving DecidableEq, Repr

abbrev SemaphoreFuture := Future Pc Acquire

/-- `permits` and `waker_queue` are the fields of `SemaphoreInner`. -/
structure State where
  permits : ℕ
  wakerQueue : List ℕ
  futures : List SemaphoreFuture
  /-- The calls of `add_permits` past their `fetch_add`: the pops left. -/
  releases : List ℕ
  deriving DecidableEq, Repr

/-- `SemaphoreInner::new`. -/
def new (permits : ℕ) : State := ⟨permits, [], [], []⟩

inductive Act
  /-- `SemaphoreFuture::new` -/
  | acquire (n : ℕ)
  /-- `SemaphoreFuture::new_hungry` -/
  | acquireHungry (n : ℕ)
  /-- A poll of future `i` begins, with the waker `w`. -/
  | poll (i w : ℕ)
  /-- The poll of future `i` makes its next atomic step. -/
  | step (i : ℕ)
  | dropFuture (i : ℕ)
  | dropPermit (i : ℕ)
  /-- The call `r` of `add_permits` pops the next waker and wakes it. -/
  | wakeNext (r : ℕ)
  deriving DecidableEq, Repr

/-- The `fetch_add` of `SemaphoreInner::add_permits`; the pops follow. -/
def addPermits (s : State) (n : ℕ) : State :=
  { s with permits := (s.permits + n) % usizeCount, releases := s.releases ++ [n] }

/-- Creates a future. -/
def create (s : State) (n : ℕ) (st : SemaphoreFutureState) : Option State :=
  if n < usizeCount then some { s with futures := s.futures ++ [.new ⟨n, st, none⟩] } else none

/-- The future after an atomic step of its poll. `Ready` hands out a permit
of the desired weight, whatever the state says. -/
def advance (f : SemaphoreFuture) (st : SemaphoreFutureState) : Next → SemaphoreFuture
  | .goto pc => { f with phase := .polling pc, data := { f.data with state := st } }
  | .ready => { f with phase := .ready, data := { f.data with state := st, permit := some f.data.desired } }
  | .pending => { f with phase := .pending, data := { f.data with state := st } }

/-- The permit the future handed out is no more. -/
def dropPermit (f : SemaphoreFuture) : SemaphoreFuture := { f with data := { f.data with permit := none } }

/-- The waker queue after the atomic step `pc` of a poll with the waker `w`. -/
def pushed (w : ℕ) (queue : List ℕ) : Pc → List ℕ
  | .push => queue ++ [w]
  | _ => queue

def step (s : State) : Act → Option State
  | .acquire n => create s n .polite
  | .acquireHungry n => create s n (.hungry 0)
  | .poll i w => s.futures[i]?.bind fun f =>
      if f.phase.canPoll then some { s with futures := s.futures.set i (f.poll w (.load false)) } else none
  | .step i => s.futures[i]?.bind fun f =>
      match f.phase with
      | .polling pc =>
        let (permits, st, next) := semFut f.data.desired f.data.state s.permits pc
        some { s with
          permits := permits
          wakerQueue := pushed f.waker s.wakerQueue pc
          futures := s.futures.set i (advance f st next) }
      | _ => none
  | .dropFuture i => s.futures[i]?.bind fun f =>
      if f.phase.canDrop then
        let s' := { s with futures := s.futures.set i f.drop }
        some (if 0 < f.data.state.count then addPermits s' f.data.state.count else s')
      else none
  | .dropPermit i => s.futures[i]?.bind fun f =>
      f.data.permit.map fun weight =>
        addPermits { s with futures := s.futures.set i (dropPermit f) } weight
  | .wakeNext r => s.releases[r]?.bind fun left =>
      match left, s.wakerQueue with
      | 0, _ => none
      | _ + 1, [] => some { s with releases := s.releases.set r 0 }
      | left + 1, w :: queue => some { s with
          wakerQueue := queue
          futures := wake w s.futures
          releases := s.releases.set r left }

/-- Everything an action can do, as one relation: the case analysis of
`step`, made once. -/
inductive Step (s : State) : Act → State → Prop
  | create (n : ℕ) (st : SemaphoreFutureState) (a : Act)
      (ha : (a = .acquire n ∧ st = .polite) ∨ (a = .acquireHungry n ∧ st = .hungry 0))
      (hn : n < usizeCount) :
      Step s a { s with futures := s.futures ++ [.new ⟨n, st, none⟩] }
  | poll (i w : ℕ) (f : SemaphoreFuture) (hf : s.futures[i]? = some f) (hp : f.phase.canPoll = true) :
      Step s (.poll i w) { s with futures := s.futures.set i (f.poll w (.load false)) }
  | step (i : ℕ) (f : SemaphoreFuture) (pc : Pc) (permits : ℕ) (st : SemaphoreFutureState) (next : Next)
      (hf : s.futures[i]? = some f) (hp : f.phase = .polling pc)
      (hs : semFut f.data.desired f.data.state s.permits pc = (permits, st, next)) :
      Step s (.step i) { s with
        permits := permits
        wakerQueue := pushed f.waker s.wakerQueue pc
        futures := s.futures.set i (advance f st next) }
  | dropEmpty (i : ℕ) (f : SemaphoreFuture) (hf : s.futures[i]? = some f) (hp : f.phase.canDrop = true)
      (hc : f.data.state.count = 0) :
      Step s (.dropFuture i) { s with futures := s.futures.set i f.drop }
  | dropHoard (i : ℕ) (f : SemaphoreFuture) (hf : s.futures[i]? = some f) (hp : f.phase.canDrop = true)
      (hc : 0 < f.data.state.count) :
      Step s (.dropFuture i)
        (addPermits { s with futures := s.futures.set i f.drop } f.data.state.count)
  | dropPermit (i : ℕ) (f : SemaphoreFuture) (weight : ℕ) (hf : s.futures[i]? = some f)
      (hw : f.data.permit = some weight) :
      Step s (.dropPermit i)
        (addPermits { s with futures := s.futures.set i (dropPermit f) }
          weight)
  | wakeNone (r left : ℕ) (hr : s.releases[r]? = some (left + 1)) (hq : s.wakerQueue = []) :
      Step s (.wakeNext r) { s with releases := s.releases.set r 0 }
  | wakeOne (r left w : ℕ) (queue : List ℕ) (hr : s.releases[r]? = some (left + 1))
      (hq : s.wakerQueue = w :: queue) :
      Step s (.wakeNext r) { s with
        wakerQueue := queue
        futures := wake w s.futures
        releases := s.releases.set r left }

theorem step_cases {s s' : State} {a : Act} (h : step s a = some s') : Step s a s' := by
  cases a with
  | acquire n =>
    simp only [step, create, Option.ite_none_right_eq_some, Option.some.injEq] at h
    obtain ⟨hn, rfl⟩ := h
    exact .create n .polite _ (Or.inl ⟨rfl, rfl⟩) hn
  | acquireHungry n =>
    simp only [step, create, Option.ite_none_right_eq_some, Option.some.injEq] at h
    obtain ⟨hn, rfl⟩ := h
    exact .create n (.hungry 0) _ (Or.inr ⟨rfl, rfl⟩) hn
  | poll i w =>
    obtain ⟨f, hf, h⟩ := Option.bind_eq_some_iff.mp h
    simp only [Option.ite_none_right_eq_some, Option.some.injEq] at h
    obtain ⟨hp, rfl⟩ := h
    exact .poll i w f hf hp
  | step i =>
    obtain ⟨f, hf, h⟩ := Option.bind_eq_some_iff.mp h
    cases hp : f.phase with
    | polling pc =>
      rw [hp] at h
      rcases hs : semFut f.data.desired f.data.state s.permits pc with ⟨permits, st, next⟩
      simp only [hs, Option.some.injEq] at h
      subst h
      exact .step i f pc permits st next hf hp hs
    | _ => rw [hp] at h; simp at h
  | dropFuture i =>
    obtain ⟨f, hf, h⟩ := Option.bind_eq_some_iff.mp h
    simp only [Option.ite_none_right_eq_some, Option.some.injEq] at h
    obtain ⟨hp, rfl⟩ := h
    by_cases hc : 0 < f.data.state.count
    · rw [if_pos hc]
      exact .dropHoard i f hf hp hc
    · rw [if_neg hc]
      exact .dropEmpty i f hf hp (by omega)
  | dropPermit i =>
    obtain ⟨f, hf, h⟩ := Option.bind_eq_some_iff.mp h
    obtain ⟨weight, hw, rfl⟩ := Option.map_eq_some_iff.mp h
    exact .dropPermit i f weight hf hw
  | wakeNext r =>
    obtain ⟨left, hr, h⟩ := Option.bind_eq_some_iff.mp h
    cases left with
    | zero => simp at h
    | succ left =>
      cases hq : s.wakerQueue with
      | nil =>
        simp only [hq, Option.some.injEq] at h
        subst h
        simpa only [hq] using Step.wakeNone r left hr hq
      | cons w queue =>
        simp only [hq, Option.some.injEq] at h
        subst h
        exact .wakeOne r left w queue hr hq

/-! ### Invariants of single futures -/

/-- A property of single futures that their own steps keep. -/
structure FutureInv (P : SemaphoreFuture → Prop) : Prop where
  poll : ∀ f w, f.phase.canPoll = true → P f → P (f.poll w (.load false))
  advance : ∀ f pc permits permits' st next, f.phase = .polling pc →
    semFut f.data.desired f.data.state permits pc = (permits', st, next) → P f → P (advance f st next)
  drop : ∀ f, f.phase.canDrop = true → P f → P f.drop
  dropPermit : ∀ f weight, f.data.permit = some weight → P f →
    P (Semaphore.dropPermit f)
  wake : ∀ f w, P f → P (f.wakeBy w)

/-- Such a property holds of the whole table after a step, if it holds of the
future the step creates. -/
theorem FutureInv.step {P : SemaphoreFuture → Prop} (hP : FutureInv P) {s s' : State} {a : Act}
    (hnew : ∀ n st, ((a = .acquire n ∧ st = .polite) ∨ (a = .acquireHungry n ∧ st = .hungry 0)) →
      P (.new ⟨n, st, none⟩))
    (hI : ∀ f ∈ s.futures, P f) (h : step s a = some s') : ∀ f ∈ s'.futures, P f := by
  have hmem : ∀ {i : ℕ} {f : SemaphoreFuture}, s.futures[i]? = some f → P f :=
    fun hf => hI _ (List.mem_of_getElem? hf)
  cases step_cases h with
  | create n st _ ha =>
    exact List.forall_mem_append.mpr ⟨hI, List.forall_mem_singleton.mpr (hnew n st ha)⟩
  | poll i w f hf hp => exact forall_mem_set hI (hP.poll f w hp (hmem hf))
  | step i f pc permits st next hf hp hs =>
    exact forall_mem_set hI (hP.advance f pc _ _ st next hp hs (hmem hf))
  | dropEmpty i f hf hp => exact forall_mem_set hI (hP.drop f hp (hmem hf))
  | dropHoard i f hf hp => exact forall_mem_set hI (hP.drop f hp (hmem hf))
  | dropPermit i f weight hf hw => exact forall_mem_set hI (hP.dropPermit f weight hw (hmem hf))
  | wakeNone => exact hI
  | wakeOne r left w => exact forall_mem_wake fun f hf => hP.wake f w (hI f hf)

/-- What holds of every future: its poll has read what the next exchange
relies on, it has handed out nothing before it is ready, and its count is a
`usize`. -/
structure FutureOk (f : SemaphoreFuture) : Prop where
  read : ∀ pc, f.phase = .polling pc → PcOk f.data.desired f.data.state pc
  fresh : f.phase.isOpen = true → f.data.permit = none
  bounded : f.data.state.count < usizeCount

theorem count_collect_lt {st : SemaphoreFutureState} (n : ℕ) : (collect st n).count < usizeCount := by
  cases st with
  | polite => simp [collect, SemaphoreFutureState.count, usizeCount]
  | hungry count => exact Nat.mod_lt _ (by simp [usizeCount])

/-- The count of a future after an atomic step of its poll is a `usize`. -/
theorem semFut_count_lt {desired permits permits' : ℕ} {st st' : SemaphoreFutureState} {pc : Pc}
    {next : Next} (hs : semFut desired st permits pc = (permits', st', next))
    (hst : st.count < usizeCount) : st'.count < usizeCount := by
  cases polled_of_semFut hs with
  | takeAll queued => exact count_collect_lt permits
  | _ => exact hst

theorem futureOk_inv : FutureInv FutureOk where
  poll f w hp hf := by
    refine ⟨fun pc h => ?_, fun _ => hf.fresh (Phase.isOpen_of_canPoll hp), hf.bounded⟩
    simp only [Future.poll, Phase.polling.injEq] at h
    subst h
    trivial
  advance f pc permits permits' st next hp hs hf := by
    have hopen : f.phase.isOpen = true := by rw [hp]; rfl
    have hlt := semFut_count_lt hs hf.bounded
    cases next with
    | goto pc₁ =>
      refine ⟨fun pc' h => ?_, fun _ => hf.fresh hopen, hlt⟩
      simp only [Semaphore.advance, Phase.polling.injEq] at h
      subst h
      exact semFut_pcOk hs
    | ready =>
      exact ⟨fun pc' h => by simp [Semaphore.advance] at h,
        fun h => by simp [Semaphore.advance, Phase.isOpen] at h, hlt⟩
    | pending =>
      exact ⟨fun pc' h => by simp [Semaphore.advance] at h, fun _ => hf.fresh hopen, hlt⟩
  drop f _ hf :=
    ⟨fun pc h => by simp [Future.drop] at h, fun h => by simp [Future.drop, Phase.isOpen] at h, hf.bounded⟩
  dropPermit f _ _ hf := ⟨hf.read, fun _ => rfl, hf.bounded⟩
  wake f w hf := by
    refine ⟨?_, ?_, ?_⟩
    · simpa using hf.read
    · simpa using hf.fresh
    · simpa using hf.bounded

theorem futureOk_new (n : ℕ) {st : SemaphoreFutureState} (h : st = .polite ∨ st = .hungry 0) :
    FutureOk (.new ⟨n, st, none⟩) := by
  refine ⟨fun pc hp => by simp [Future.new] at hp, fun _ => rfl, ?_⟩
  rcases h with rfl | rfl <;> simp [Future.new, SemaphoreFutureState.count, usizeCount]

theorem futureOk_step {s s' : State} {a : Act} (hI : ∀ f ∈ s.futures, FutureOk f)
    (h : step s a = some s') : ∀ f ∈ s'.futures, FutureOk f :=
  futureOk_inv.step (fun n _ ha => futureOk_new n (ha.imp (·.2) (·.2))) hI h

end Semaphore
end ClAsync
