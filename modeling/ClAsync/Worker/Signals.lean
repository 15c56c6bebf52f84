/-
# Signals

Every worker blocks the signals that can be handled and reads them from a
signalfd of its own, which its poller watches edge-triggered. The signals
sent to the process are pending for all of them: a signal that was not pending
is an event for every worker, one that was is none for anybody, and a read
takes one of those that are pending then, whichever. A worker reads once for
an event.

So a signal is handled by one worker: one that stops its worker stops no
other. And signals that are pending together share their events. When no
worker has stopped and all of them sleep, nothing is pending if the workers
are more than the signals that stop none, of which there are six.

Key definitions: `mask`, `step`, `Accounted`, `Settled`.
Key theorems: `accounted_run`, every signal is handled once, and
`settled_iff`, how many workers it takes to leave none behind.
-/
import ClAsync.Lib.Runs
import ClAsync.Lib.Wakers
import ClAsync.Worker.Announce
import Mathlib.Algebra.Order.BigOperators.Group.List
import Mathlib.Data.Finset.Card
import Mathlib.Data.Multiset.Filter
import Mathlib.Tactic.IntervalCases

namespace ClAsync

/-! ### The signals -/

namespace Announce.Signal

/-- `Signal::from` of a `c_int`; the numbers are Linux's. -/
def ofInt (signal : ℤ) : Signal :=
  match signal with
  | 1 => hangup
  | 2 => interrupt
  | 3 => quit
  | 9 => kill
  | 5 => trap
  | 6 => abort
  | 7 => busError
  | 8 => floatingPointError
  | 11 => segmentationFault
  | 13 => brokenPipe
  | 14 => alarm
  | 15 => terminate
  | 17 => childStopped
  | 18 => .continue
  | 19 => stop
  | 20 => terminalStop
  | 21 => ttyIn
  | 22 => ttyOut
  | 10 => userDefined 10
  | 12 => userDefined 12
  | _ => unknown signal

/-- `c_int::from` of a signal. -/
def toInt : Signal → ℤ
  | hangup => 1
  | interrupt => 2
  | quit => 3
  | kill => 9
  | trap => 5
  | abort => 6
  | busError => 7
  | floatingPointError => 8
  | segmentationFault => 11
  | brokenPipe => 13
  | alarm => 14
  | terminate => 15
  | childStopped => 17
  | .continue => 18
  | stop => 19
  | terminalStop => 20
  | ttyIn => 21
  | ttyOut => 22
  | userDefined signal => signal
  | unknown signal => signal

/-- `Signal::handleable`. -/
def handleable : List Signal :=
  [hangup, interrupt, quit, alarm, terminate, childStopped, .continue, ttyIn, ttyOut, userDefined 10, userDefined 12]

end Announce.Signal

namespace Signals

open Announce (Signal)

/-- The mask of `block_async_signals`. -/
def mask : Finset ℤ := (Signal.handleable.map Signal.toInt).toFinset

/-- The signal stops the worker that reads it. -/
def stops (signal : ℤ) : Bool := (Signal.ofInt signal).notification = some .shutdown

/-- The signals of the mask that stop no worker. -/
def harmless : Finset ℤ := mask.filter fun signal => !stops signal

example : mask.card = 11 ∧ harmless.card = 6 := by decide

/-! ### The workers -/

/-- Where a worker is: in `epoll_wait`; before its read for an event of its
signalfd; at the rest of the iteration; out of its main loop. -/
inductive Pc
  | poll
  | read
  | rest
  | left
  deriving DecidableEq, Repr

/-- `ready` says whether the poller has an event for the signalfd, and `asked`
whether the worker was stopped by a message. -/
structure Worker where
  pc : Pc
  ready : Bool
  stopping : Bool
  asked : Bool
  deriving DecidableEq, Repr

/-- `arrived` are the signals that became pending, in order, and `handled`
those that were read, each with the worker that read it. -/
structure State where
  pending : Finset ℤ
  workers : List Worker
  arrived : List ℤ
  handled : List (ℕ × ℤ)
  deriving DecidableEq

/-- Workers that sleep, and no signal. -/
def State.init (n : ℕ) : State := ⟨∅, List.replicate n ⟨.poll, false, false, false⟩, [], []⟩

/-- What the kernel and the workers do. -/
inductive Act
  | arrive (signal : ℤ)
  | poll (w : ℕ)
  | wake (w : ℕ)
  | read (w : ℕ) (signal : ℤ)
  | ask (w : ℕ)
  | iterate (w : ℕ)
  deriving DecidableEq, Repr

namespace Worker

/-- An event of the signalfd comes to the poller of a worker. -/
def notify (worker : Worker) : Worker := { worker with ready := true }

/-- The worker has read a signal. -/
def handle (worker : Worker) (signal : ℤ) : Worker :=
  { worker with pc := .rest, stopping := worker.stopping || stops signal }

end Worker

namespace State

/-- The worker `w` is replaced. -/
def setWorker (s : State) (w : ℕ) (worker : Worker) : State := { s with workers := s.workers.set w worker }

/-- The kernel sends a signal of the mask to the process. -/
def arrive (s : State) (signal : ℤ) : State :=
  if signal ∈ s.pending then s
  else
    { s with
      pending := insert signal s.pending
      workers := s.workers.map Worker.notify
      arrived := s.arrived ++ [signal] }

/-- The worker `w` reads a signal. -/
def read (s : State) (w : ℕ) (worker : Worker) (signal : ℤ) : State :=
  { s with
    pending := s.pending.erase signal
    workers := s.workers.set w (worker.handle signal)
    handled := s.handled ++ [(w, signal)] }

end State

/-- A poll looks whether something is pending before it reports the event; a
worker also wakes up for its other events, and may then receive a message that
asks it to stop. -/
def step (s : State) : Act → Option State
  | .arrive signal => if signal ∈ mask then some (s.arrive signal) else none
  | .poll w =>
    match s.workers[w]? with
    | some worker =>
      if worker.pc = .poll ∧ worker.ready = true then
        some (s.setWorker w { worker with pc := if s.pending = ∅ then .poll else .read, ready := false })
      else none
    | none => none
  | .read w signal =>
    match s.workers[w]? with
    | some worker =>
      if worker.pc = .read then
        if s.pending = ∅ then some (s.setWorker w { worker with pc := .rest })
        else if signal ∈ s.pending then some (s.read w worker signal)
        else none
      else none
    | none => none
  | .wake w =>
    match s.workers[w]? with
    | some worker => if worker.pc = .poll then some (s.setWorker w { worker with pc := .rest }) else none
    | none => none
  | .ask w =>
    match s.workers[w]? with
    | some worker =>
      if worker.pc = .rest then some (s.setWorker w { worker with stopping := true, asked := true }) else none
    | none => none
  | .iterate w =>
    match s.workers[w]? with
    | some worker =>
      if worker.pc = .rest then some (s.setWorker w { worker with pc := if worker.stopping then .left else .poll })
      else none
    | none => none

/-! ### The steps one by one -/

/-- `Goes s a s'`: the step `a` from `s`, with what it found. -/
inductive Goes (s : State) : Act → State → Prop
  | again {signal : ℤ} (hpending : signal ∈ s.pending) : Goes s (.arrive signal) s
  | arrive {signal : ℤ} (hmask : signal ∈ mask) (hnew : signal ∉ s.pending) :
      Goes s (.arrive signal)
        { s with
          pending := insert signal s.pending
          workers := s.workers.map Worker.notify
          arrived := s.arrived ++ [signal] }
  | spurious {w : ℕ} {worker : Worker} (hw : s.workers[w]? = some worker) (hpc : worker.pc = .poll)
      (hready : worker.ready = true) (hnone : s.pending = ∅) :
      Goes s (.poll w) (s.setWorker w { worker with pc := .poll, ready := false })
  | poll {w : ℕ} {worker : Worker} (hw : s.workers[w]? = some worker) (hpc : worker.pc = .poll)
      (hready : worker.ready = true) (hsome : s.pending ≠ ∅) :
      Goes s (.poll w) (s.setWorker w { worker with pc := .read, ready := false })
  | readNone {w : ℕ} {worker : Worker} {signal : ℤ} (hw : s.workers[w]? = some worker) (hpc : worker.pc = .read)
      (hnone : s.pending = ∅) : Goes s (.read w signal) (s.setWorker w { worker with pc := .rest })
  | read {w : ℕ} {worker : Worker} {signal : ℤ} (hw : s.workers[w]? = some worker) (hpc : worker.pc = .read)
      (hpending : signal ∈ s.pending) : Goes s (.read w signal) (s.read w worker signal)
  | wake {w : ℕ} {worker : Worker} (hw : s.workers[w]? = some worker) (hpc : worker.pc = .poll) :
      Goes s (.wake w) (s.setWorker w { worker with pc := .rest })
  | ask {w : ℕ} {worker : Worker} (hw : s.workers[w]? = some worker) (hpc : worker.pc = .rest) :
      Goes s (.ask w) (s.setWorker w { worker with stopping := true, asked := true })
  | iterate {w : ℕ} {worker : Worker} (hw : s.workers[w]? = some worker) (hpc : worker.pc = .rest) :
      Goes s (.iterate w) (s.setWorker w { worker with pc := if worker.stopping then .left else .poll })

theorem step_cases {s s' : State} {a : Act} (h : step s a = some s') : Goes s a s' := by
  cases a with
  | arrive signal =>
    simp only [step, State.arrive] at h
    split_ifs at h with hmask hpending <;> cases h
    · exact .again hpending
    · exact .arrive hmask hpending
  | poll w =>
    simp only [step] at h
    split at h
    · split_ifs at h with hpoll hnone <;> cases h
      · exact .spurious ‹_› hpoll.1 hpoll.2 hnone
      · exact .poll ‹_› hpoll.1 hpoll.2 hnone
    · cases h
  | read w signal =>
    simp only [step] at h
    split at h
    · split_ifs at h with hpc hnone hpending <;> cases h
      · exact .readNone ‹_› hpc hnone
      · exact .read ‹_› hpc hpending
    · cases h
  | wake w =>
    simp only [step] at h
    split at h
    · split at h <;> cases h
      exact .wake ‹_› ‹_›
    · cases h
  | ask w =>
    simp only [step] at h
    split at h
    · split at h <;> cases h
      exact .ask ‹_› ‹_›
    · cases h
  | iterate w =>
    simp only [step] at h
    split at h
    · split at h <;> cases h
      exact .iterate ‹_› ‹_›
    · cases h

/-! ### Every signal is handled once -/

/-- A worker that a signal has stopped. -/
def Worker.stopped (worker : Worker) : Bool := worker.stopping && !worker.asked

/-- Each signal that arrived is pending or was handled once, and a worker that
was not asked to stop was stopped by a signal that stopped no other. -/
structure Accounted (s : State) : Prop where
  once : s.pending.val + ↑(s.handled.map Prod.snd) = (↑s.arrived : Multiset ℤ)
  stopped : s.workers.countP Worker.stopped ≤ (s.handled.map Prod.snd).countP stops

/-- A worker that a signal stops no more than before keeps the account. -/
theorem Accounted.setWorker {s : State} (hs : Accounted s) {w : ℕ} {worker worker' : Worker}
    (hw : s.workers[w]? = some worker) (h : worker'.stopped = true → worker.stopped = true) :
    Accounted (s.setWorker w worker') := by
  refine ⟨hs.once, ?_⟩
  have hset := Wakers.countP_set_add Worker.stopped hw worker'
  have hle : (if worker'.stopped then 1 else 0) ≤ if worker.stopped then 1 else 0 := by
    split_ifs <;> first | omega | exact absurd (h ‹_›) ‹_›
  have hstopped := hs.stopped
  simp only [State.setWorker]
  omega

theorem accounted_step {s s' : State} {a : Act} (hs : Accounted s) (h : step s a = some s') : Accounted s' := by
  cases step_cases h with
  | again => exact hs
  | @arrive signal hmask hnew =>
    refine ⟨?_, ?_⟩
    · rw [Finset.insert_val_of_notMem hnew, Multiset.cons_add, hs.once, Multiset.cons_coe, Multiset.coe_eq_coe]
      exact (List.perm_append_singleton _ _).symm
    · have hsame : (s.workers.map Worker.notify).countP Worker.stopped = s.workers.countP Worker.stopped := by
        rw [List.countP_map]
        rfl
      rw [hsame]
      exact hs.stopped
  | spurious hw | poll hw | readNone hw | wake hw | iterate hw => exact hs.setWorker hw id
  | ask hw => exact hs.setWorker hw (fun h => by simp [Worker.stopped] at h)
  | @read w worker signal hw hpc hpending =>
    refine ⟨?_, ?_⟩
    · -- What is erased from the pending signals is added to those handled.
      have herase : (s.pending.erase signal).val + {signal} = s.pending.val := by
        rw [Finset.erase_val, add_comm, Multiset.singleton_add, Multiset.cons_erase hpending]
      calc (s.pending.erase signal).val + ↑((s.handled ++ [(w, signal)]).map Prod.snd)
          = (s.pending.erase signal).val + {signal} + ↑(s.handled.map Prod.snd) := by
            rw [List.map_append, ← Multiset.coe_add, add_assoc, add_comm (Multiset.ofList _)]
            rfl
        _ = ↑s.arrived := by rw [herase, hs.once]
    · have hset := Wakers.countP_set_add Worker.stopped hw (worker.handle signal)
      have hstopped := hs.stopped
      have hle : (if (worker.handle signal).stopped then 1 else 0) ≤
          (if worker.stopped then 1 else 0) + if stops signal then 1 else 0 := by
        have hbools : ∀ a b c : Bool, (if (a || c) && !b then 1 else 0) ≤
            (if a && !b then 1 else 0) + if c then 1 else 0 := by decide
        exact hbools _ _ _
      simp only [State.read, List.map_append, List.map_singleton, List.countP_append, List.countP_singleton]
      omega

/-- **In every run, each signal that arrived is handled by one worker, or is
pending; and the workers that stop without being asked are at most as many as
the signals handled that stop a worker.** -/
theorem accounted_run (n : ℕ) (as : List Act) : Runs.Along step Accounted (.init n) as :=
  Runs.along_of_step (fun _ _ _ => accounted_step) (fun _ hs => hs) as
    ⟨rfl, by simp [State.init, List.countP_replicate, Worker.stopped]⟩

/-! ### Signals that are left behind -/

/-- Every worker is in its main loop and sleeps, with no event for it. -/
def Sleeping (s : State) : Prop := ∀ worker ∈ s.workers, worker.pc = .poll ∧ worker.ready = false

instance (s : State) : Decidable (Sleeping s) := inferInstanceAs (Decidable (∀ worker ∈ s.workers, _))

/-- No signal is left pending while all workers sleep. -/
def Settled (s : State) : Prop := Sleeping s → s.pending = ∅

instance (s : State) : Decidable (Settled s) := inferInstanceAs (Decidable (_ → _))

/-- The reads that a worker is still to make. -/
def Worker.owes (worker : Worker) : ℕ :=
  (if worker.ready then 1 else 0) + if worker.pc = .read then 1 else 0

theorem Worker.owes_of_read {worker : Worker} (h : worker.pc = .read) :
    worker.owes = (if worker.ready then 1 else 0) + 1 := by
  rw [owes, if_pos h]

theorem Worker.owes_of_ne {worker : Worker} (h : worker.pc ≠ .read) :
    worker.owes = if worker.ready then 1 else 0 := by
  rw [owes, if_neg h, Nat.add_zero]

/-- What all the workers owe. -/
def owed (s : State) : ℕ := (s.workers.map Worker.owes).sum

/-- As long as no worker stops, each has read since the last signal arrived or
is still to read, and what was read was harmless. -/
structure Owing (n : ℕ) (s : State) : Prop where
  length : s.workers.length = n
  masked : s.pending ⊆ mask
  stopping : ∀ worker ∈ s.workers, worker.stopping = true → worker.pc = .rest ∨ worker.pc = .left
  owing : (∃ worker ∈ s.workers, worker.stopping = true) ∨ s.pending = ∅ ∨
    n + (s.pending ∩ harmless).card ≤ owed s + 6

theorem owing_init (n : ℕ) : Owing n (.init n) :=
  ⟨List.length_replicate, Finset.empty_subset _,
    fun _ h hstopping => (by cases List.eq_of_mem_replicate h; cases hstopping), .inr (.inl rfl)⟩

/-- A step of one worker that leaves the pending signals alone and keeps what
the worker owes, unless it stops it. -/
theorem Owing.setWorker {n : ℕ} {s : State} (hs : Owing n s) {w : ℕ} {worker worker' : Worker}
    (hw : s.workers[w]? = some worker) (hstays : worker.stopping = true → worker'.stopping = true)
    (hstopping : worker'.stopping = true → worker'.pc = .rest ∨ worker'.pc = .left)
    (howes : worker'.stopping = true ∨ s.pending = ∅ ∨ worker'.owes = worker.owes) :
    Owing n (s.setWorker w worker') := by
  refine ⟨(List.length_set ..).trans hs.length, hs.masked, Wakers.forall_mem_set hs.stopping hstopping, ?_⟩
  have hmem : worker' ∈ s.workers.set w worker' := Wakers.mem_set_self hw
  obtain hstop | hnone | howes := howes
  · exact .inl ⟨worker', hmem, hstop⟩
  · exact .inr (.inl hnone)
  · obtain ⟨worker₀, hmem₀, hstop₀⟩ | hnone | howing := hs.owing
    · obtain rfl | hmem₀ := Wakers.mem_set_or_eq hw hmem₀
      · exact .inl ⟨worker', hmem, hstays hstop₀⟩
      · exact .inl ⟨worker₀, hmem₀, hstop₀⟩
    · exact .inr (.inl hnone)
    · have hsum := Wakers.sum_map_set Worker.owes hw worker'
      refine .inr (.inr ?_)
      unfold owed at howing ⊢
      simp only [State.setWorker]
      omega

theorem owing_arrive {n : ℕ} {s : State} (hs : Owing n s) {signal : ℤ} (hmask : signal ∈ mask)
    (hnew : signal ∉ s.pending) : Owing n (s.arrive signal) := by
  rw [State.arrive, if_neg hnew]
  refine ⟨(List.length_map _).trans hs.length, Finset.insert_subset hmask hs.masked, ?_, .inr (.inr ?_)⟩
  · intro worker hmem hstopping
    obtain ⟨worker₀, hmem₀, rfl⟩ := List.mem_map.mp hmem
    exact hs.stopping worker₀ hmem₀ hstopping
  · have howes : n ≤ ((s.workers.map Worker.notify).map Worker.owes).sum := by
      rw [List.map_map, ← hs.length, ← @List.length_map _ _ s.workers (Worker.owes ∘ Worker.notify)]
      refine List.length_le_sum_of_one_le _ fun k hk => ?_
      obtain ⟨worker, -, rfl⟩ := List.mem_map.mp hk
      exact Nat.le_add_right 1 _
    have hsix : (insert signal s.pending ∩ harmless).card ≤ 6 := Finset.card_le_card Finset.inter_subset_right
    unfold owed
    simp only
    omega

theorem owing_read {n : ℕ} {s : State} (hs : Owing n s) {w : ℕ} {worker : Worker} {signal : ℤ}
    (hw : s.workers[w]? = some worker) (hpc : worker.pc = .read) (hpending : signal ∈ s.pending) :
    Owing n (s.read w worker signal) := by
  have hmem : worker.handle signal ∈ s.workers.set w (worker.handle signal) := Wakers.mem_set_self hw
  refine ⟨(List.length_set ..).trans hs.length, (Finset.erase_subset _ _).trans hs.masked,
    Wakers.forall_mem_set hs.stopping (fun _ => .inl rfl), ?_⟩
  cases hstop : stops signal with
  | true => exact .inl ⟨_, hmem, by rw [Worker.handle, hstop, Bool.or_true]⟩
  | false =>
    obtain ⟨worker₀, hmem₀, hstop₀⟩ | hnone | howing := hs.owing
    · obtain rfl | hmem₀ := Wakers.mem_set_or_eq hw hmem₀
      · exact .inl ⟨_, hmem, by rw [Worker.handle, hstop₀, Bool.true_or]⟩
      · exact .inl ⟨worker₀, hmem₀, hstop₀⟩
    · exact absurd hpending (hnone ▸ Finset.notMem_empty _)
    · -- One harmless signal less is pending, and one read less is owed.
      refine .inr (.inr ?_)
      have hharmless : signal ∈ s.pending ∩ harmless := by
        simp [harmless, hpending, hs.masked hpending, hstop]
      have hcard := Finset.card_erase_add_one hharmless
      rw [← Finset.erase_inter] at hcard
      have hsum := Wakers.sum_map_set Worker.owes hw (worker.handle signal)
      have howes : (worker.handle signal).owes + 1 = worker.owes := by
        rw [Worker.owes_of_read hpc, Worker.owes_of_ne (by simp [Worker.handle])]
        rfl
      unfold owed at howing ⊢
      simp only [State.read]
      omega

theorem owing_step {n : ℕ} {s s' : State} {a : Act} (hs : Owing n s) (h : step s a = some s') : Owing n s' := by
  have hstopping : ∀ {w : ℕ} {worker : Worker}, s.workers[w]? = some worker → worker.stopping = true →
      worker.pc = .rest ∨ worker.pc = .left := fun hw => hs.stopping _ (List.mem_of_getElem? hw)
  cases step_cases h with
  | again => exact hs
  | arrive hmask hnew =>
    have harrive := owing_arrive hs hmask hnew
    rwa [State.arrive, if_neg hnew] at harrive
  | spurious hw hpc hready hnone =>
    refine hs.setWorker hw id (fun hstop => ?_) (.inr (.inl hnone))
    have hwhere := hstopping hw hstop
    simp [hpc] at hwhere
  | poll hw hpc hready =>
    refine hs.setWorker hw id (fun hstop => ?_) (.inr (.inr (by simp [Worker.owes, hpc, hready])))
    have hwhere := hstopping hw hstop
    simp [hpc] at hwhere
  | readNone hw hpc hnone => exact hs.setWorker hw id (fun _ => .inl rfl) (.inr (.inl hnone))
  | read hw hpc hpending => exact owing_read hs hw hpc hpending
  | wake hw hpc => exact hs.setWorker hw id (fun _ => .inl rfl) (.inr (.inr (by simp [Worker.owes, hpc])))
  | ask hw => exact hs.setWorker hw (fun _ => rfl) (fun _ => .inl ‹_›) (.inl rfl)
  | @iterate w worker hw hpc =>
    refine hs.setWorker hw id (fun hstop => .inr (if_pos hstop)) (.inr (.inr ?_))
    have hne : (if worker.stopping then Pc.left else Pc.poll) ≠ .read := by split <;> decide
    rw [Worker.owes_of_ne hne, Worker.owes_of_ne (hpc ▸ by decide)]

theorem Owing.settled {n : ℕ} {s : State} (hn : 7 ≤ n) (hs : Owing n s) : Settled s := by
  intro hsleeping
  obtain ⟨worker, hmem, hstop⟩ | hnone | howing := hs.owing
  · have hwhere := hs.stopping worker hmem hstop
    simp [(hsleeping worker hmem).1] at hwhere
  · exact hnone
  · have hzero : owed s = 0 := List.sum_eq_zero fun k hk => by
      obtain ⟨worker, hmem, rfl⟩ := List.mem_map.mp hk
      simp [Worker.owes, hsleeping worker hmem]
    omega

/-- All harmless signals arrive with one that stops a worker, and each of `n`
workers reads a harmless one. -/
def strand (n : ℕ) : List Act :=
  [.arrive 17, .arrive 18, .arrive 21, .arrive 22, .arrive 10, .arrive 12, .arrive 15] ++
    ((List.range n).zip [17, 18, 21, 22, 10, 12]).flatMap fun (w, signal) => [.poll w, .read w signal, .iterate w]

theorem strand_strands {n : ℕ} (h : n < 7) : ¬ Runs.Along step Settled (.init n) (strand n) := by
  interval_cases n <;> decide

/-- **No run of `n` workers leaves a signal pending while all of them are in
their main loops and sleep, if and only if `n` is at least 7.** -/
theorem settled_iff (n : ℕ) : (∀ as, Runs.Along step Settled (.init n) as) ↔ 7 ≤ n := by
  constructor
  · intro h
    by_contra hn
    exact strand_strands (Nat.lt_of_not_le hn) (h _)
  · exact fun hn as => Runs.along_of_step (fun _ _ _ => owing_step) (fun _ => Owing.settled hn) as (owing_init n)

end Signals
end ClAsync
