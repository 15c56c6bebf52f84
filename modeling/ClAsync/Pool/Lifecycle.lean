/-
# The pool, from its start to its end

`POOL` is a `OnceCell` that `init` fills, or else the first use of the pool.
`init` looks whether it is full, starts a pool and then sets the cell, so two
calls can both start one; the pool of the call that comes second is dropped,
and its threads go on with nobody to stop them (`owned_iff`).

`join` takes the handle of every worker and waits for its thread. A worker
whose handle another call has taken is passed by, so of two calls that overlap
one can return while threads still run (`joined`); calls that take turns wait
for all of them (`joined_of_inTurn`). Calls may come from the workers
themselves. A thread cannot wait for itself, or for one that waits for it: the
call panics, and its thread is gone.

Key definitions: `step`, `Inv`, `Owned`, `Keeps`, `HasJoined`, `InTurn`.
Key theorems: `goes_of_step`, `inv_step`; `initialized`, `owned_iff`, `joined`
and `joined_of_inTurn`, every run.
-/
import ClAsync.Lib.Runs
import ClAsync.Lib.Wakers

namespace ClAsync
namespace Lifecycle

open Wakers

/-- A worker as far as its pool goes: whether `handle` has its `JoinHandle`, was
`Shutdown` sent to it, has its thread ended. -/
structure Worker where
  handle : Bool
  told : Bool
  ended : Bool
  deriving DecidableEq, Repr

namespace Worker

/-- `shutdown`, which fails for a worker that does not run. -/
def tell (worker : Worker) : Worker := { worker with told := worker.told || !worker.ended }

/-- `take_join_handle`. -/
def take (worker : Worker) : Worker := { worker with handle := false }

/-- The thread of the worker has ended. -/
def stop (worker : Worker) : Worker := { worker with ended := true }

end Worker

/-- A pool, with the call that starts it. -/
structure ThreadPool where
  starter : ℕ
  nThreads : ℕ
  workers : List Worker
  deriving DecidableEq, Repr

/-- `POOL`. -/
inductive Cell
  | empty
  | initializing
  | full (pool : ℕ)
  deriving DecidableEq, Repr

/-- The errors of the calls. -/
inductive Error
  | alreadyInitialized
  | lockError
  deriving DecidableEq, Repr

/-- What a call does; `other` is a use of the pool that is none of these. -/
inductive Kind
  | init (nThreads : ℕ)
  | join
  | shutdown
  | other
  deriving DecidableEq, Repr

/-- The call joins the threads. -/
def Kind.joins : Kind → Bool
  | join | shutdown => true
  | init _ | other => false

/-- Where a call is. -/
inductive Pc
  /-- `POOL.get().is_some()`. -/
  | check
  /-- `ThreadPool::start`. -/
  | start (pool : ℕ)
  /-- `POOL.set`. -/
  | set (pool : ℕ)
  /-- `POOL.get_or_init`. -/
  | get
  /-- `shutdown`, at a worker. -/
  | tell (pool worker : ℕ)
  /-- `join`, before a worker and while it waits for one. -/
  | join (pool worker : ℕ)
  | wait (pool worker : ℕ)
  | returned (result : Except Error Unit)
  /-- The call panicked, with the handle of a worker that it waited for or
  without. -/
  | panicked (waited : Option (ℕ × ℕ))
  deriving DecidableEq, Repr

/-- The call has returned. -/
def Pc.isOver : Pc → Bool
  | returned _ | panicked _ => true
  | _ => false

/-- A call, and the worker in whose thread it is if it is one's. -/
structure Call where
  kind : Kind
  caller : Option (ℕ × ℕ)
  pc : Pc
  deriving DecidableEq, Repr

/-- The cell of the pool, the pools that were built, and the calls. -/
structure State where
  cell : Cell
  pools : List ThreadPool
  calls : List Call
  deriving DecidableEq, Repr

/-- Nothing has been called. -/
def State.init : State := ⟨.empty, [], []⟩

/-- The worker `i` of the pool `p`. -/
def State.worker (s : State) (p i : ℕ) : Option Worker := (s.pools[p]?).bind fun pool => pool.workers[i]?

/-- The thread of the worker runs no call. -/
def State.free (s : State) (p i : ℕ) : Bool := s.calls.all fun call => call.caller != some (p, i) || call.pc.isOver

/-- Something happens to it. -/
def State.modifyWorker (s : State) (p i : ℕ) (f : Worker → Worker) : State :=
  { s with pools := s.pools.modify p fun pool => { pool with workers := pool.workers.modify i f } }

/-- The call `k` goes on. -/
def State.setPc (s : State) (k : ℕ) (call : Call) (pc : Pc) : State :=
  { s with calls := s.calls.set k { call with pc } }

/-- The cell is written. -/
def State.setCell (s : State) (cell : Cell) : State := { s with cell }

/-- A panic ends the thread of the worker it is in. -/
def State.panic (s : State) (k : ℕ) (call : Call) (waited : Option (ℕ × ℕ)) : State :=
  match call.caller with
  | none => s.setPc k call (.panicked waited)
  | some (p, i) => (s.modifyWorker p i Worker.stop).setPc k call (.panicked waited)

/-- A call is made or goes on, or a thread ends. -/
inductive Act
  | call (kind : Kind) (caller : Option (ℕ × ℕ))
  /-- The next step of a call. -/
  | next (k : ℕ)
  /-- `Worker::new` fails. -/
  | fails (k : ℕ)
  /-- Waiting for the thread would be a deadlock. -/
  | deadlock (k : ℕ)
  /-- The thread of a worker ends. -/
  | ends (p i : ℕ)
  deriving DecidableEq, Repr

/-- What a call does first. -/
def Kind.first : Kind → Pc
  | init _ => .check
  | join | shutdown | other => .get

/-- What a call goes on with when it has the pool. -/
def Kind.use (kind : Kind) (p : ℕ) : Pc :=
  match kind with
  | .init _ | .other => .returned (.ok ())
  | .join => .join p 0
  | .shutdown => .tell p 0

/-- `ThreadPool::new`, for the call `k`. -/
def State.newPool (s : State) (k nThreads : ℕ) (call : Call) : State :=
  { s with pools := s.pools ++ [⟨k, nThreads, []⟩], calls := s.calls.set k { call with pc := .start s.pools.length } }

/-- `start` of one more worker. -/
def State.push (s : State) (p : ℕ) (pool : ThreadPool) : State :=
  { s with pools := s.pools.set p { pool with workers := pool.workers ++ [⟨true, false, false⟩] } }

/-- `cpus` is `num_cpus::get()`. -/
def next (cpus : ℕ) (s : State) (k : ℕ) (call : Call) : Option State :=
  match call.pc with
  | .check =>
    match s.cell, call.kind with
    | .full _, _ => some (s.setPc k call (.returned (.error .alreadyInitialized)))
    | _, .init nThreads => some (s.newPool k nThreads call)
    | _, _ => none
  | .start p => (s.pools[p]?).bind fun pool =>
    if pool.workers.length < pool.nThreads then
      some (s.push p pool)
    else
      match call.kind with
      | .init _ => some (s.setPc k call (.set p))
      | kind => some ((s.setPc k call (kind.use p)).setCell (.full p))
  | .set p =>
    match s.cell with
    | .empty => some ((s.setPc k call (.returned (.ok ()))).setCell (.full p))
    | .initializing => none
    | .full _ => some (s.setPc k call (.returned (.error .lockError)))
  | .get =>
    match s.cell with
    | .empty => some ((s.newPool k cpus call).setCell .initializing)
    | .initializing => none
    | .full p => some (s.setPc k call (call.kind.use p))
  | .tell p i =>
    match s.worker p i with
    | some _ => some ((s.modifyWorker p i Worker.tell).setPc k call (.tell p (i + 1)))
    | none => some (s.setPc k call (.join p 0))
  | .join p i => (s.pools[p]?).bind fun pool =>
    if i < pool.nThreads then
      match s.worker p i with
      | some ⟨true, _, _⟩ =>
        some ((s.modifyWorker p i Worker.take).setPc k call (.wait p i))
      | _ => some (s.setPc k call (.join p (i + 1)))
    else some (s.setPc k call (.returned (.ok ())))
  | .wait p i => (s.worker p i).bind fun worker =>
    if worker.ended then some (s.setPc k call (.join p (i + 1))) else none
  | .returned _ | .panicked _ => none

/-- The worker waits for the thread `c`, or is it. -/
def State.waitsFor (s : State) (p i : ℕ) (c : ℕ × ℕ) : Bool :=
  c == (p, i) || s.calls.any fun call => call.caller == some (p, i) && call.pc == .wait c.1 c.2

/-- One act. -/
def step (cpus : ℕ) (s : State) : Act → Option State
  | .call kind caller =>
    match caller with
    | none => some { s with calls := s.calls ++ [⟨kind, none, kind.first⟩] }
    | some (p, i) => (s.worker p i).bind fun worker =>
      if s.cell = .full p ∧ worker.ended = false ∧ s.free p i then
        some { s with calls := s.calls ++ [⟨kind, some (p, i), kind.first⟩] }
      else none
  | .next k => (s.calls[k]?).bind fun call => next cpus s k call
  | .fails k => (s.calls[k]?).bind fun call =>
    match call.pc with
    | .start p => (s.pools[p]?).bind fun pool =>
      if pool.workers.length < pool.nThreads then
        match call.kind with
        | .init _ => some (s.panic k call none)
        | _ => some ((s.panic k call none).setCell .empty)
      else none
    | _ => none
  | .deadlock k => (s.calls[k]?).bind fun call =>
    match call.pc, call.caller with
    | .wait p i, some c => if s.waitsFor p i c then some (s.panic k call (some (p, i))) else none
    | _, _ => none
  | .ends p i => (s.worker p i).bind fun worker =>
    if worker.ended = false ∧ s.free p i then
      some (s.modifyWorker p i Worker.stop)
    else none

/-! ### What a step does -/

/-- The call that starts the pool, how many threads it is to have and how many it
has. -/
def State.shape (s : State) (p : ℕ) : Option (ℕ × ℕ × ℕ) :=
  (s.pools[p]?).map fun pool => (pool.starter, pool.nThreads, pool.workers.length)

/-- The steps of a call that change nothing but where it is. -/
inductive Turn (s : State) (call : Call) : Pc → Prop
  | already {p : ℕ} (hpc : call.pc = .check) (hcell : s.cell = .full p) :
      Turn s call (.returned (.error .alreadyInitialized))
  | started {p m n t len : ℕ} (hpc : call.pc = .start p) (hkind : call.kind = .init n)
      (hshape : s.shape p = some (m, t, len)) (hle : t ≤ len) : Turn s call (.set p)
  | late {p q : ℕ} (hpc : call.pc = .set p) (hcell : s.cell = .full q) : Turn s call (.returned (.error .lockError))
  | use {p : ℕ} (hpc : call.pc = .get) (hcell : s.cell = .full p) : Turn s call (call.kind.use p)
  | toldAll {p i : ℕ} (hpc : call.pc = .tell p i) (hworker : s.worker p i = none) : Turn s call (.join p 0)
  | pass {p i : ℕ} (hpc : call.pc = .join p i) (hnone : ∀ worker ∈ s.worker p i, worker.handle = false) :
      Turn s call (.join p (i + 1))
  | joinedAll {p i m t len : ℕ} (hpc : call.pc = .join p i) (hshape : s.shape p = some (m, t, len)) (hle : t ≤ i) :
      Turn s call (.returned (.ok ()))
  | awaited {p i : ℕ} {worker : Worker} (hpc : call.pc = .wait p i) (hworker : s.worker p i = some worker)
      (hended : worker.ended = true) : Turn s call (.join p (i + 1))

/-- What a step does. -/
inductive Goes (cpus : ℕ) (s : State) : Act → State → Prop
  | call (kind : Kind) (caller : Option (ℕ × ℕ)) :
      Goes cpus s (.call kind caller) { s with calls := s.calls ++ [⟨kind, caller, kind.first⟩] }
  | turn {k : ℕ} {call : Call} {pc : Pc} (hk : s.calls[k]? = some call) (hturn : Turn s call pc) :
      Goes cpus s (.next k) (s.setPc k call pc)
  | begin {k n : ℕ} {call : Call} (hk : s.calls[k]? = some call) (hpc : call.pc = .check)
      (hkind : call.kind = .init n) :
      Goes cpus s (.next k) (s.newPool k n call)
  | open {k : ℕ} {call : Call} (hk : s.calls[k]? = some call) (hpc : call.pc = .get) (hcell : s.cell = .empty) :
      Goes cpus s (.next k) ((s.newPool k cpus call).setCell .initializing)
  | start {k p : ℕ} {call : Call} {pool : ThreadPool} (hk : s.calls[k]? = some call) (hpc : call.pc = .start p)
      (hpool : s.pools[p]? = some pool) (hlt : pool.workers.length < pool.nThreads) :
      Goes cpus s (.next k) (s.push p pool)
  | fill {k p m t len : ℕ} {call : Call} (hk : s.calls[k]? = some call) (hpc : call.pc = .start p)
      (hkind : ∀ n, call.kind ≠ .init n) (hshape : s.shape p = some (m, t, len)) (hle : t ≤ len) :
      Goes cpus s (.next k) ((s.setPc k call (call.kind.use p)).setCell (.full p))
  | set {k p : ℕ} {call : Call} (hk : s.calls[k]? = some call) (hpc : call.pc = .set p) (hcell : s.cell = .empty) :
      Goes cpus s (.next k) ((s.setPc k call (.returned (.ok ()))).setCell (.full p))
  | tell {k p i : ℕ} {call : Call} (hk : s.calls[k]? = some call) (hpc : call.pc = .tell p i) :
      Goes cpus s (.next k) ((s.modifyWorker p i Worker.tell).setPc k call (.tell p (i + 1)))
  | take {k p i : ℕ} {call : Call} {worker : Worker} (hk : s.calls[k]? = some call) (hpc : call.pc = .join p i)
      (hworker : s.worker p i = some worker) (hhandle : worker.handle = true) :
      Goes cpus s (.next k) ((s.modifyWorker p i Worker.take).setPc k call (.wait p i))
  | failsInit {k p n : ℕ} {call : Call} (hk : s.calls[k]? = some call) (hpc : call.pc = .start p)
      (hkind : call.kind = .init n) : Goes cpus s (.fails k) (s.panic k call none)
  | failsUse {k p : ℕ} {call : Call} (hk : s.calls[k]? = some call) (hpc : call.pc = .start p)
      (hkind : ∀ n, call.kind ≠ .init n) : Goes cpus s (.fails k) ((s.panic k call none).setCell .empty)
  | deadlock {k p i : ℕ} {call : Call} (hk : s.calls[k]? = some call) (hpc : call.pc = .wait p i) :
      Goes cpus s (.deadlock k) (s.panic k call (some (p, i)))
  | ends {p i : ℕ} {worker : Worker} (hworker : s.worker p i = some worker) :
      Goes cpus s (.ends p i) (s.modifyWorker p i Worker.stop)

theorem goes_of_next {cpus : ℕ} {s s' : State} {k : ℕ} {call : Call} (hk : s.calls[k]? = some call)
    (h : next cpus s k call = some s') : Goes cpus s (.next k) s' := by
  cases hpc : call.pc with
  | check =>
    simp only [next, hpc] at h
    split at h
    · rename_i p kind hcell
      cases h
      exact .turn hk (.already hpc hcell)
    · rename_i n hkind _
      cases h
      exact .begin hk hpc hkind
    · cases h
  | start p =>
    simp only [next, hpc] at h
    obtain ⟨pool, hpool, h⟩ := Option.bind_eq_some_iff.mp h
    have hshape : s.shape p = some (pool.starter, pool.nThreads, pool.workers.length) := by
      rw [State.shape, hpool]
      rfl
    split at h
    · rename_i hlt
      cases h
      exact .start hk hpc hpool hlt
    · rename_i hge
      split at h
      · rename_i n hkind
        cases h
        exact .turn hk (.started hpc hkind hshape (Nat.le_of_not_lt hge))
      · rename_i hkind
        cases h
        exact .fill hk hpc (fun n hn => hkind n hn) hshape (Nat.le_of_not_lt hge)
  | set p =>
    simp only [next, hpc] at h
    split at h
    · rename_i hcell
      cases h
      exact .set hk hpc hcell
    · cases h
    · rename_i q hcell
      cases h
      exact .turn hk (.late hpc hcell)
  | get =>
    simp only [next, hpc] at h
    split at h
    · rename_i hcell
      cases h
      exact .open hk hpc hcell
    · cases h
    · rename_i p hcell
      cases h
      exact .turn hk (.use hpc hcell)
  | tell p i =>
    simp only [next, hpc] at h
    split at h
    · cases h
      exact .tell hk hpc
    · rename_i hworker
      cases h
      exact .turn hk (.toldAll hpc hworker)
  | join p i =>
    simp only [next, hpc] at h
    obtain ⟨pool, hpool, h⟩ := Option.bind_eq_some_iff.mp h
    split at h
    · split at h
      · rename_i told ended hworker
        cases h
        exact .take hk hpc hworker rfl
      · rename_i hnone
        cases h
        refine .turn hk (.pass hpc fun worker hworker => ?_)
        obtain ⟨handle, told, ended⟩ := worker
        cases handle with
        | false => rfl
        | true => exact absurd hworker (hnone told ended)
    · rename_i hge
      cases h
      have hshape : s.shape p = some (pool.starter, pool.nThreads, pool.workers.length) := by
        rw [State.shape, hpool]
        rfl
      exact .turn hk (.joinedAll hpc hshape (Nat.le_of_not_lt hge))
  | wait p i =>
    simp only [next, hpc] at h
    obtain ⟨worker, hworker, h⟩ := Option.bind_eq_some_iff.mp h
    split at h <;> cases h
    rename_i hended
    exact .turn hk (.awaited hpc hworker hended)
  | returned | panicked =>
    simp only [next, hpc] at h
    cases h

theorem goes_of_step {cpus : ℕ} {s s' : State} {a : Act} (h : step cpus s a = some s') : Goes cpus s a s' := by
  cases a with
  | call kind caller =>
    cases caller with
    | none =>
      cases h
      exact .call kind none
    | some c =>
      obtain ⟨worker, -, h⟩ := Option.bind_eq_some_iff.mp h
      split at h <;> cases h
      exact .call kind _
  | next k =>
    obtain ⟨call, hk, h⟩ := Option.bind_eq_some_iff.mp h
    exact goes_of_next hk h
  | fails k =>
    obtain ⟨call, hk, h⟩ := Option.bind_eq_some_iff.mp h
    split at h
    · rename_i p hpc
      obtain ⟨pool, hpool, h⟩ := Option.bind_eq_some_iff.mp h
      split at h
      · split at h
        · rename_i n hkind
          cases h
          exact .failsInit hk hpc hkind
        · rename_i hkind
          cases h
          exact .failsUse hk hpc fun n hn => hkind n hn
      · cases h
    · cases h
  | deadlock k =>
    obtain ⟨call, hk, h⟩ := Option.bind_eq_some_iff.mp h
    split at h
    · split at h <;> cases h
      rename_i hpc _ _
      exact .deadlock hk hpc
    · cases h
  | ends p i =>
    obtain ⟨worker, hworker, h⟩ := Option.bind_eq_some_iff.mp h
    split at h <;> cases h
    exact .ends hworker

/-! ### Workers and shapes -/

section Workers

variable {s : State} {p i : ℕ} {f : Worker → Worker}

theorem worker_modifyWorker (q j : ℕ) :
    (s.modifyWorker p i f).worker q j = if q = p ∧ j = i then (s.worker p i).map f else s.worker q j := by
  unfold State.worker State.modifyWorker
  simp only [List.getElem?_modify]
  by_cases hq : q = p
  · subst hq
    by_cases hj : j = i
    · subst hj
      cases s.pools[q]? <;> simp
    · cases s.pools[q]? <;> simp [hj, Ne.symm hj]
  · simp [hq, Ne.symm hq]

@[simp] theorem shape_modifyWorker (q : ℕ) : (s.modifyWorker p i f).shape q = s.shape q := by
  unfold State.shape State.modifyWorker
  simp only [List.getElem?_modify]
  by_cases hq : q = p
  · subst hq
    cases s.pools[q]? <;> simp
  · simp [Ne.symm hq]

/-- A worker whose thread may have been stopped. -/
theorem worker_stop {q j : ℕ} {worker : Worker} (h : (s.modifyWorker p i Worker.stop).worker q j = some worker) :
    worker.ended = true ∨ s.worker q j = some worker := by
  rw [worker_modifyWorker] at h
  split at h
  · obtain ⟨old, -, rfl⟩ := Option.map_eq_some_iff.mp h
    exact Or.inl rfl
  · exact Or.inr h

theorem worker_modifyWorker_ne {q j : ℕ} (h : ¬ (q = p ∧ j = i)) :
    (s.modifyWorker p i f).worker q j = s.worker q j := by
  rw [worker_modifyWorker, if_neg h]

variable {k : ℕ} {call : Call}

theorem worker_panic {waited : Option (ℕ × ℕ)} {q j : ℕ} {worker : Worker}
    (h : (s.panic k call waited).worker q j = some worker) : worker.ended = true ∨ s.worker q j = some worker := by
  unfold State.panic at h
  split at h
  · exact Or.inr h
  · exact worker_stop h

/-- A panic ends no thread but its own. -/
theorem worker_panic_of_ne {waited : Option (ℕ × ℕ)} {q j : ℕ} (h : call.caller ≠ some (q, j)) :
    (s.panic k call waited).worker q j = s.worker q j := by
  unfold State.panic
  split
  · rfl
  · rename_i p i hcaller
    refine worker_modifyWorker_ne fun heq => h ?_
    rw [hcaller, heq.1, heq.2]

theorem caller_ne_of_panic {waited : Option (ℕ × ℕ)} {q j : ℕ} {worker : Worker}
    (h : (s.panic k call waited).worker q j = some worker) (hended : worker.ended = false) :
    call.caller ≠ some (q, j) := by
  intro hcaller
  unfold State.panic at h
  rw [hcaller] at h
  have hmod := (worker_modifyWorker (f := Worker.stop) (s := s) q j).symm.trans h
  rw [if_pos ⟨rfl, rfl⟩] at hmod
  obtain ⟨old, -, rfl⟩ := Option.map_eq_some_iff.mp hmod
  cases hended

@[simp] theorem shape_panic (waited : Option (ℕ × ℕ)) (q : ℕ) : (s.panic k call waited).shape q = s.shape q := by
  unfold State.panic
  split
  · rfl
  · exact shape_modifyWorker q

theorem calls_panic (waited : Option (ℕ × ℕ)) :
    (s.panic k call waited).calls = s.calls.set k { call with pc := .panicked waited } := by
  unfold State.panic
  split <;> rfl

theorem cell_panic (waited : Option (ℕ × ℕ)) : (s.panic k call waited).cell = s.cell := by
  unfold State.panic
  split <;> rfl

theorem worker_newPool (k n : ℕ) (call : Call) (q j : ℕ) : (s.newPool k n call).worker q j = s.worker q j := by
  unfold State.worker State.newPool
  by_cases hq : q < s.pools.length
  · rw [List.getElem?_append_left hq]
  · rw [List.getElem?_append_right (Nat.le_of_not_lt hq), List.getElem?_eq_none (Nat.le_of_not_lt hq)]
    cases q - s.pools.length <;> simp

theorem shape_newPool (k n : ℕ) (call : Call) {q : ℕ} {shape : ℕ × ℕ × ℕ} (h : s.shape q = some shape) :
    (s.newPool k n call).shape q = some shape := by
  obtain ⟨pool, hpool, rfl⟩ := Option.map_eq_some_iff.mp h
  rw [State.shape, State.newPool, List.getElem?_append_left (List.getElem?_eq_some_iff.mp hpool).1, hpool]
  rfl

theorem shape_newPool_self (k n : ℕ) (call : Call) : (s.newPool k n call).shape s.pools.length = some (k, n, 0) := by
  simp [State.shape, State.newPool]

variable {pool : ThreadPool} (hpool : s.pools[p]? = some pool)

include hpool

theorem shape_of_pool : s.shape p = some (pool.starter, pool.nThreads, pool.workers.length) := by
  rw [State.shape, hpool]
  rfl

theorem shape_push : (s.push p pool).shape p = some (pool.starter, pool.nThreads, pool.workers.length + 1) := by
  unfold State.shape State.push
  rw [List.getElem?_set_self (List.getElem?_eq_some_iff.mp hpool).1]
  simp

omit hpool in
theorem shape_push_ne {q : ℕ} (hq : q ≠ p) : (s.push p pool).shape q = s.shape q := by
  unfold State.shape State.push
  rw [List.getElem?_set_ne (Ne.symm hq)]

/-- A worker is as it was, or it is the one that was just started. -/
theorem worker_push {q j : ℕ} {worker : Worker} (h : (s.push p pool).worker q j = some worker) :
    s.worker q j = some worker ∨ q = p ∧ worker = ⟨true, false, false⟩ := by
  unfold State.worker State.push at h
  by_cases hq : q = p
  · subst hq
    rw [List.getElem?_set_self (List.getElem?_eq_some_iff.mp hpool).1, Option.bind_some] at h
    rcases getElem?_append_cases h with rfl | h
    · exact Or.inr ⟨rfl, rfl⟩
    · left
      rw [State.worker, hpool]
      exact h
  · rw [List.getElem?_set_ne (Ne.symm hq)] at h
    exact Or.inl h

end Workers

/-! ### The invariant -/

/-- The worker's handle has been taken, if it is started. -/
def Took (s : State) (p i : ℕ) : Prop := ∀ worker ∈ s.worker p i, worker.handle = false

/-- What a call knows, by where it is. -/
def CallOk (cpus : ℕ) (s : State) (k : ℕ) (call : Call) : Prop :=
  match call.pc with
  | .check => ∃ n, call.kind = .init n
  | .get => ∀ n, call.kind ≠ .init n
  | .start p => s.cell ≠ .full p ∧ ((∃ n len, call.kind = .init n ∧ len ≤ n ∧ s.shape p = some (k, n, len)) ∨
      (∀ n, call.kind ≠ .init n) ∧ s.cell = .initializing ∧ ∃ len ≤ cpus, s.shape p = some (k, cpus, len))
  | .set p => s.cell ≠ .full p ∧ ∃ n, call.kind = .init n ∧ s.shape p = some (k, n, n)
  | .tell p _ => s.cell = .full p ∧ call.kind = .shutdown
  | .join p i => s.cell = .full p ∧ call.kind.joins = true ∧ ∀ j < i, Took s p j
  | .wait p i => s.cell = .full p ∧ call.kind.joins = true ∧ ∀ j < i + 1, Took s p j
  | .returned (.ok ()) =>
    match call.kind with
    | .init n => ∃ p, s.cell = .full p ∧ s.shape p = some (k, n, n)
    | .join | .shutdown => ∃ p, s.cell = .full p ∧ ∀ j, Took s p j
    | .other => True
  | .panicked (some _) => call.kind.joins = true
  | .returned (.error _) | .panicked none => True

/-- The call fills the cell in `get_or_init`. -/
def Filler (s : State) (k : ℕ) : Prop :=
  ∃ (call : Call) (p : ℕ), s.calls[k]? = some call ∧ call.pc = .start p ∧ ∀ n, call.kind ≠ .init n

/-- A call waits for the thread of the worker, or panicked when it did. -/
def Stuck (s : State) (p i : ℕ) : Prop :=
  ∃ (k : ℕ) (call : Call), s.calls[k]? = some call ∧ (call.pc = .wait p i ∨ call.pc = .panicked (some (p, i)))

/-- What every reachable state is like. -/
structure Inv (cpus : ℕ) (s : State) : Prop where
  /-- The pool in the cell is complete. -/
  cell : ∀ p, s.cell = .full p → ∃ m n, s.shape p = some (m, n, n)
  calls : ∀ k call, s.calls[k]? = some call → CallOk cpus s k call
  fillers : ∀ k k', Filler s k → Filler s k' → k = k'
  handles : ∀ p i worker, s.worker p i = some worker → worker.handle = false → worker.ended = true ∨ Stuck s p i

/-- What a step leaves of what the calls `O` know. -/
structure Frame (O : ℕ → Prop) (s s' : State) : Prop where
  cell : ∀ p, s.cell = .full p → s'.cell = .full p
  shape : ∀ p m n len, O m → s.shape p = some (m, n, len) → s'.shape p = some (m, n, len)
  took : ∀ p i, s.cell = .full p → Took s p i → Took s' p i
  started : ∀ p m n len, O m → s.shape p = some (m, n, len) → s.cell ≠ .full p → s'.cell ≠ .full p
  filler : ∀ k, O k → Filler s k → s.cell = .initializing → s'.cell = .initializing

section Frame

variable {cpus : ℕ} {O : ℕ → Prop} {s s' : State}

theorem CallOk.frame {k : ℕ} {call : Call} (h : CallOk cpus s k call) (hk : s.calls[k]? = some call) (ho : O k)
    (hf : Frame O s s') : CallOk cpus s' k call := by
  cases hpc : call.pc with
  | check | get => simpa only [CallOk, hpc] using h
  | start p =>
    simp only [CallOk, hpc] at h ⊢
    rcases h with ⟨hcell, ⟨n, len, hkind, hle, hshape⟩ | ⟨hkind, hinit, len, hle, hshape⟩⟩
    · exact ⟨hf.started _ _ _ _ ho hshape hcell, Or.inl ⟨n, len, hkind, hle, hf.shape _ _ _ _ ho hshape⟩⟩
    · exact ⟨hf.started _ _ _ _ ho hshape hcell, Or.inr ⟨hkind, hf.filler k ho ⟨call, p, hk, hpc, hkind⟩ hinit,
        len, hle, hf.shape _ _ _ _ ho hshape⟩⟩
  | set p =>
    simp only [CallOk, hpc] at h ⊢
    obtain ⟨hcell, n, hkind, hshape⟩ := h
    exact ⟨hf.started _ _ _ _ ho hshape hcell, n, hkind, hf.shape _ _ _ _ ho hshape⟩
  | tell p i =>
    simp only [CallOk, hpc] at h ⊢
    exact ⟨hf.cell p h.1, h.2⟩
  | join p i | wait p i =>
    simp only [CallOk, hpc] at h ⊢
    exact ⟨hf.cell p h.1, h.2.1, fun j hj => hf.took p j h.1 (h.2.2 j hj)⟩
  | returned result =>
    cases result with
    | error e => simp only [CallOk, hpc]
    | ok =>
      cases hkind : call.kind with
      | init n =>
        simp only [CallOk, hpc, hkind] at h ⊢
        obtain ⟨p, hcell, hshape⟩ := h
        exact ⟨p, hf.cell p hcell, hf.shape _ _ _ _ ho hshape⟩
      | join | shutdown =>
        simp only [CallOk, hpc, hkind] at h ⊢
        obtain ⟨p, hcell, htook⟩ := h
        exact ⟨p, hf.cell p hcell, fun j => hf.took p j hcell (htook j)⟩
      | other => simp only [CallOk, hpc, hkind]
  | panicked waited =>
    cases waited with
    | none => simp only [CallOk, hpc]
    | some c => simpa only [CallOk, hpc] using h

/-- The calls that a step leaves alone, and the one that it moves. -/
theorem calls_of_frame (hs : Inv cpus s) (hf : Frame O s s')
    (hcalls : ∀ k call, s'.calls[k]? = some call → O k ∧ s.calls[k]? = some call ∨ CallOk cpus s' k call) :
    ∀ k call, s'.calls[k]? = some call → CallOk cpus s' k call := by
  intro k call hk
  rcases hcalls k call hk with ⟨ho, hold⟩ | hok
  · exact (hs.calls k call hold).frame hold ho hf
  · exact hok

theorem frame_refl (hcell : s'.cell = s.cell) (hpools : s'.pools = s.pools) : Frame O s s' := by
  have hworker : ∀ p i, s'.worker p i = s.worker p i := fun p i => by rw [State.worker, hpools]; rfl
  have hshape : ∀ p, s'.shape p = s.shape p := fun p => by rw [State.shape, hpools]; rfl
  refine ⟨fun p h => hcell.trans h, fun p m n len _ h => (hshape p).trans h, fun p i _ h => ?_,
    fun p m n len _ _ h => ?_, fun k _ _ h => hcell.trans h⟩
  · intro worker hmem
    rw [hworker] at hmem
    exact h worker hmem
  · rwa [hcell]

/-- What a step does to one worker, if it gives it no handle back. -/
theorem frame_modifyWorker {p i : ℕ} {f : Worker → Worker}
    (hf : ∀ worker, worker.handle = false → (f worker).handle = false)
    (hcell : s'.cell = s.cell) (hpools : s'.pools = (s.modifyWorker p i f).pools) : Frame O s s' := by
  have hworker : ∀ q j, s'.worker q j = if q = p ∧ j = i then (s.worker p i).map f else s.worker q j := fun q j => by
    rw [← worker_modifyWorker, State.worker, hpools]
    rfl
  have hshape : ∀ q, s'.shape q = s.shape q := fun q => by
    rw [← shape_modifyWorker (f := f) (p := p) (i := i) (s := s), State.shape, hpools]
    rfl
  refine ⟨fun p h => hcell.trans h, fun p m n len _ h => (hshape p).trans h, fun q j _ h => ?_,
    fun p m n len _ _ h => ?_, fun k _ _ h => hcell.trans h⟩
  · intro worker hmem
    rw [hworker] at hmem
    split at hmem
    · rename_i heq
      obtain ⟨rfl, rfl⟩ := heq
      obtain ⟨old, hold, rfl⟩ := Option.map_eq_some_iff.mp hmem
      exact hf old (h old hold)
    · exact h worker hmem
  · rwa [hcell]

theorem frame_panic {k : ℕ} {call : Call} {waited : Option (ℕ × ℕ)} (hcell : s'.cell = s.cell)
    (hpools : s'.pools = (s.panic k call waited).pools) : Frame O s s' := by
  unfold State.panic at hpools
  split at hpools
  · exact frame_refl hcell hpools
  · exact frame_modifyWorker (f := Worker.stop) (fun _ h => h) hcell hpools

theorem lt_of_worker {p j m n len : ℕ} {worker : Worker} (h : s.worker p j = some worker)
    (hshape : s.shape p = some (m, n, len)) : j < len := by
  obtain ⟨pool, hpool, heq⟩ := Option.map_eq_some_iff.mp hshape
  cases heq
  rw [State.worker, hpool] at h
  exact (List.getElem?_eq_some_iff.mp h).1

/-- A call knows what it should where it gets by itself. -/
theorem turn_ok {k : ℕ} {call : Call} {pc : Pc} (hs : Inv cpus s) (hok : CallOk cpus s k call) (h : Turn s call pc) :
    CallOk cpus s k { call with pc } := by
  unfold CallOk at hok
  cases h with
  | already | late => trivial
  | @started p m n t len hpc hkind hshape hle =>
    simp only [hpc] at hok
    rcases hok with ⟨hcell, ⟨n', len', hkind', hle', hshape'⟩ | ⟨hkind', -⟩⟩
    · cases hkind.symm.trans hkind'
      cases hshape.symm.trans hshape'
      obtain rfl := Nat.le_antisymm hle hle'
      exact ⟨hcell, _, hkind, hshape⟩
    · exact absurd hkind (hkind' n)
  | @use p hpc hcell =>
    simp only [hpc] at hok
    unfold CallOk Kind.use
    cases hkind : call.kind with
    | init n => exact absurd hkind (hok n)
    | join => exact ⟨hcell, rfl, fun j hj => absurd hj (Nat.not_lt_zero j)⟩
    | shutdown => exact ⟨hcell, rfl⟩
    | other => trivial
  | toldAll hpc _ =>
    simp only [hpc] at hok
    exact ⟨hok.1, by rw [hok.2]; rfl, fun j hj => absurd hj (Nat.not_lt_zero j)⟩
  | @pass p i hpc hnone =>
    simp only [hpc] at hok
    refine ⟨hok.1, hok.2.1, fun j hj => ?_⟩
    rcases Nat.lt_succ_iff_lt_or_eq.mp hj with hj | rfl
    · exact hok.2.2 j hj
    · exact hnone
  | @joinedAll p i m t len hpc hshape hle =>
    simp only [hpc] at hok
    obtain ⟨hcell, hjoins, htook⟩ := hok
    obtain ⟨m', n', hshape'⟩ := hs.cell p hcell
    cases hshape.symm.trans hshape'
    have hall : ∀ j, Took s p j := fun j worker hworker =>
      htook j ((lt_of_worker hworker hshape).trans_le hle) worker hworker
    unfold CallOk
    cases hkind : call.kind with
    | init n => rw [hkind] at hjoins; cases hjoins
    | join => exact ⟨p, hcell, hall⟩
    | shutdown => exact ⟨p, hcell, hall⟩
    | other => trivial
  | awaited hpc _ _ =>
    simp only [hpc] at hok
    exact hok

/-- A worker that a call has left is not waited for by it any more. -/
theorem Stuck.set {p i k : ℕ} {call call' : Call} (h : Stuck s p i) (hk : s.calls[k]? = some call)
    (hcalls : s'.calls = s.calls.set k call') (hwait : call.pc ≠ .wait p i)
    (hpanicked : call.pc ≠ .panicked (some (p, i))) : Stuck s' p i := by
  obtain ⟨j, other, hj, hpc⟩ := h
  refine ⟨j, other, ?_, hpc⟩
  have hne : k ≠ j := by
    rintro rfl
    cases hk.symm.trans hj
    exact hpc.elim hwait hpanicked
  rw [hcalls, List.getElem?_set_ne hne]
  exact hj

theorem Filler.of_set {k j : ℕ} {call' : Call} (h : Filler s' j) (hcalls : s'.calls = s.calls.set k call')
    (hnot : ∀ p, call'.pc = .start p → ∃ n, call'.kind = .init n) : j ≠ k ∧ Filler s j := by
  obtain ⟨call, p, hj, hpc, hkind⟩ := h
  rw [hcalls] at hj
  rcases Wakers.getElem?_set_cases hj with ⟨-, rfl⟩ | ⟨hne, hj⟩
  · obtain ⟨n, hn⟩ := hnot p hpc
    exact absurd hn (hkind n)
  · exact ⟨hne, call, p, hj, hpc, hkind⟩

/-- While a call fills the cell, the cell says so. -/
theorem Filler.initializing {k : ℕ} (hs : Inv cpus s) (h : Filler s k) : s.cell = .initializing := by
  obtain ⟨call, p, hk, hpc, hkind⟩ := h
  have hok := hs.calls k call hk
  simp only [CallOk, hpc] at hok
  rcases hok.2 with ⟨n, _, hinit, -⟩ | ⟨-, hcell, -⟩
  · exact absurd hinit (hkind n)
  · exact hcell

/-- The calls after the one of call `k`. -/
theorem calls_set {k : ℕ} {call' : Call} (hs : Inv cpus s) (hf : Frame (· ≠ k) s s')
    (hcalls : s'.calls = s.calls.set k call') (hok : CallOk cpus s' k call') :
    ∀ j call, s'.calls[j]? = some call → CallOk cpus s' j call := by
  refine calls_of_frame hs hf fun j call hj => ?_
  rw [hcalls] at hj
  rcases Wakers.getElem?_set_cases hj with ⟨rfl, rfl⟩ | ⟨hne, hj⟩
  · exact Or.inr hok
  · exact Or.inl ⟨hne, hj⟩

theorem starter_ne {k p q m n n' len len' : ℕ} (hp : s.shape p = some (k, n, len))
    (hq : s.shape q = some (m, n', len')) (hne : m ≠ k) : q ≠ p := by
  rintro rfl
  cases hp.symm.trans hq
  exact hne rfl

/-- When the call that fills the cell leaves it, nobody else does. -/
theorem frame_leave {k p n len : ℕ} (hs : Inv cpus s) (hfiller : Filler s k) (hshape : s.shape p = some (k, n, len))
    (hcell : s'.cell = .full p ∨ s'.cell = .empty) (hshapes : ∀ q, s'.shape q = s.shape q) : Frame (· ≠ k) s s' := by
  have hnot : ∀ q, s.cell ≠ .full q := by simp [hfiller.initializing hs]
  refine ⟨fun q h => absurd h (hnot q), fun q m n len _ h => (hshapes q).trans h, fun q i h => absurd h (hnot q),
    fun q m n' len' hm hq _ => ?_, fun j hj h => absurd (hs.fillers j k h hfiller) hj⟩
  rcases hcell with hcell | hcell <;> rw [hcell]
  · exact fun h => starter_ne hshape hq hm (Cell.full.inj h).symm
  · simp

theorem frame_newPool {k n : ℕ} {call : Call} : Frame O s (s.newPool k n call) := by
  refine ⟨fun _ h => h, fun _ _ _ _ _ h => shape_newPool k n call h, fun p i _ h worker hworker => ?_,
    fun _ _ _ _ _ _ h => h, fun _ _ _ h => h⟩
  rw [worker_newPool] at hworker
  exact h worker hworker

theorem frame_open {k n : ℕ} {call : Call} (hcell : s.cell = .empty) :
    Frame O s ((s.newPool k n call).setCell .initializing) := by
  have hnot : ∀ q, s.cell ≠ .full q := by simp [hcell]
  exact ⟨fun q h => absurd h (hnot q), fun q _ _ _ _ h => shape_newPool k n call h, fun q _ h => absurd h (hnot q),
    fun _ _ _ _ _ _ _ => by simp [State.setCell], fun _ _ _ _ => rfl⟩

theorem frame_push {p : ℕ} {pool : ThreadPool} (hcell : s.cell ≠ .full p) (hpool : s.pools[p]? = some pool) :
    Frame (· ≠ pool.starter) s (s.push p pool) := by
  refine ⟨fun _ h => h, fun q m n len hm h => ?_, fun q i hq h worker hworker => ?_, fun _ _ _ _ _ _ h => h,
    fun _ _ _ h => h⟩
  · rwa [shape_push_ne (starter_ne (shape_of_pool hpool) h hm)]
  · rcases worker_push hpool hworker with hworker | ⟨rfl, -⟩
    · exact h worker hworker
    · exact absurd hq hcell

/-- The call that sets the cell takes it from nobody. -/
theorem frame_set {k p n len : ℕ} {call : Call} {pc : Pc} (hcell : s.cell = .empty)
    (hshape : s.shape p = some (k, n, len)) : Frame (· ≠ k) s ((s.setPc k call pc).setCell (.full p)) := by
  have hnot : ∀ q, s.cell ≠ .full q := by simp [hcell]
  refine ⟨fun q h => absurd h (hnot q), fun _ _ _ _ _ h => h, fun q _ h => absurd h (hnot q),
    fun q m n' len hm hq _ h => ?_, fun _ _ _ h => by rw [hcell] at h; cases h⟩
  exact starter_ne hshape hq hm (Cell.full.inj h).symm

/-- What the call that starts a pool knows of it. -/
theorem start_ok {k p : ℕ} {call : Call} {pool : ThreadPool} (hs : Inv cpus s) (hk : s.calls[k]? = some call)
    (hpc : call.pc = .start p) (hpool : s.pools[p]? = some pool) : s.cell ≠ .full p ∧ pool.starter = k ∧
      (call.kind = .init pool.nThreads ∨
        (∀ n, call.kind ≠ .init n) ∧ s.cell = .initializing ∧ pool.nThreads = cpus) := by
  have hok := hs.calls k call hk
  simp only [CallOk, hpc] at hok
  have hshape := shape_of_pool hpool
  obtain ⟨hcell, ⟨n, len, hkind, -, h⟩ | ⟨hkind, hinit, len, -, h⟩⟩ := hok
  all_goals
    have h := hshape.symm.trans h
    simp only [Option.some.injEq, Prod.mk.injEq] at h
  · exact ⟨hcell, h.1, Or.inl (hkind.trans (congrArg Kind.init h.2.1.symm))⟩
  · exact ⟨hcell, h.1, Or.inr ⟨hkind, hinit, h.2.1⟩⟩

/-- The pool is complete when it gets into the cell, and stays so. -/
theorem full_step {a : Act} (hs : Inv cpus s) (h : Goes cpus s a s') (q : ℕ) (hq : s'.cell = .full q) :
    ∃ m n, s'.shape q = some (m, n, n) := by
  have hold : s.cell = .full q → (∀ shape, s.shape q = some shape → s'.shape q = some shape) →
      ∃ m n, s'.shape q = some (m, n, n) := by
    intro hcell hshapes
    obtain ⟨m, n, hshape⟩ := hs.cell q hcell
    exact ⟨m, n, hshapes _ hshape⟩
  cases h with
  | call | turn => exact hold hq fun _ h => h
  | begin => exact hold hq fun _ h => shape_newPool _ _ _ h
  | «open» => cases hq
  | @start k p call pool hk hpc hpool hlt =>
    refine hold hq fun shape h => ?_
    have hne : q ≠ p := by
      rintro rfl
      exact (start_ok hs hk hpc hpool).1 hq
    rwa [shape_push_ne hne]
  | @fill k p m t len call hk hpc hkind hshape hle =>
    cases hq
    have hok := hs.calls k call hk
    simp only [CallOk, hpc] at hok
    rcases hok.2 with ⟨n, _, hinit, -⟩ | ⟨-, -, len', hle', hshape'⟩
    · exact absurd hinit (hkind n)
    · cases hshape.symm.trans hshape'
      obtain rfl := Nat.le_antisymm hle hle'
      exact ⟨k, _, hshape⟩
  | @«set» k p call hk hpc hcell =>
    cases hq
    have hok := hs.calls k call hk
    simp only [CallOk, hpc] at hok
    obtain ⟨-, n, -, hshape⟩ := hok
    exact ⟨k, n, hshape⟩
  | tell | take | ends => exact hold hq fun _ h => (shape_modifyWorker q).trans h
  | failsInit | deadlock => exact hold ((cell_panic _).symm.trans hq) fun _ h => (shape_panic _ q).trans h
  | failsUse => cases hq

/-- The calls know after a step what they should. -/
theorem calls_ok_step {a : Act} (hs : Inv cpus s) (h : Goes cpus s a s') :
    ∀ k call, s'.calls[k]? = some call → CallOk cpus s' k call := by
  cases h with
  | call kind caller =>
    refine calls_of_frame (O := fun _ => True) hs (frame_refl rfl rfl) fun k call hk => ?_
    rcases Wakers.getElem?_append_cases hk with rfl | hk
    · right
      cases kind <;> simp [CallOk, Kind.first]
    · exact Or.inl ⟨trivial, hk⟩
  | @turn k call pc hk hturn =>
    exact calls_set hs (frame_refl rfl rfl) rfl
      (show CallOk cpus s k { call with pc } from turn_ok hs (hs.calls k call hk) hturn)
  | @begin k n call hk hpc hkind =>
    have hnew : s.cell ≠ .full s.pools.length := by
      intro hcell
      obtain ⟨m, n, hshape⟩ := hs.cell _ hcell
      obtain ⟨pool, hpool, -⟩ := Option.map_eq_some_iff.mp hshape
      exact absurd (List.getElem?_eq_some_iff.mp hpool).1 (Nat.lt_irrefl _)
    exact calls_set hs frame_newPool rfl
      ⟨hnew, Or.inl ⟨n, 0, hkind, Nat.zero_le _, shape_newPool_self k n call⟩⟩
  | @«open» k call hk hpc hcell =>
    have hok := hs.calls k call hk
    simp only [CallOk, hpc] at hok
    exact calls_set hs (frame_open hcell) rfl
      ⟨fun h => (by cases h), Or.inr ⟨hok, rfl, 0, Nat.zero_le _, shape_newPool_self k cpus call⟩⟩
  | @start k p call pool hk hpc hpool hlt =>
    obtain ⟨hcell, rfl, hstart⟩ := start_ok hs hk hpc hpool
    refine calls_of_frame hs (frame_push hcell hpool) fun j other hj => ?_
    by_cases hne : j = pool.starter
    · subst hne
      cases hk.symm.trans hj
      right
      simp only [CallOk, hpc]
      refine ⟨hcell, hstart.imp (fun hkind => ⟨_, _, hkind, hlt, shape_push hpool⟩) ?_⟩
      rintro ⟨hkind, hinit, rfl⟩
      exact ⟨hkind, hinit, pool.workers.length + 1, hlt, shape_push hpool⟩
    · exact Or.inl ⟨hne, hj⟩
  | @fill k p m t len call hk hpc hkind hshape hle =>
    obtain ⟨pool, hpool, heq⟩ := Option.map_eq_some_iff.mp hshape
    obtain ⟨-, rfl, -⟩ := start_ok hs hk hpc hpool
    refine calls_set hs
      (frame_leave hs ⟨call, p, hk, hpc, hkind⟩ (shape_of_pool hpool) (Or.inl rfl) fun _ => rfl) rfl ?_
    unfold CallOk Kind.use
    cases hkind' : call.kind with
    | init n => exact absurd hkind' (hkind n)
    | join => exact ⟨rfl, rfl, fun j hj => absurd hj (Nat.not_lt_zero j)⟩
    | shutdown => exact ⟨rfl, rfl⟩
    | other => trivial
  | @«set» k p call hk hpc hcell =>
    have hok := hs.calls k call hk
    simp only [CallOk, hpc] at hok
    obtain ⟨-, n, hkind, hshape⟩ := hok
    refine calls_set hs (frame_set hcell hshape) rfl ?_
    unfold CallOk
    simp only [hkind]
    exact ⟨p, rfl, hshape⟩
  | @tell k p i call hk hpc =>
    have hok := hs.calls k call hk
    simp only [CallOk, hpc] at hok
    exact calls_set hs (frame_modifyWorker (f := Worker.tell) (fun _ h => h) rfl rfl) rfl hok
  | @take k p i call worker hk hpc hworker hhandle =>
    have hok := hs.calls k call hk
    simp only [CallOk, hpc] at hok
    have hf : Frame (· ≠ k) s ((s.modifyWorker p i Worker.take).setPc k call (.wait p i)) :=
      frame_modifyWorker (f := Worker.take) (fun _ _ => rfl) rfl rfl
    refine calls_set hs hf rfl ⟨hok.1, hok.2.1, fun j hj => ?_⟩
    rcases Nat.lt_succ_iff_lt_or_eq.mp hj with hj | rfl
    · exact hf.took p j hok.1 (hok.2.2 j hj)
    · intro worker' hworker'
      have hmod := (worker_modifyWorker (f := Worker.take) (s := s) (p := p) (i := j) p j).symm.trans hworker'
      rw [if_pos ⟨rfl, rfl⟩] at hmod
      obtain ⟨old, -, rfl⟩ := Option.map_eq_some_iff.mp hmod
      rfl
  | failsInit => exact calls_set hs (frame_panic (cell_panic none) rfl) (calls_panic none) trivial
  | @failsUse k p call hk hpc hkind =>
    obtain ⟨pool, hpool⟩ : ∃ pool, s.pools[p]? = some pool := by
      have hok := hs.calls k call hk
      simp only [CallOk, hpc] at hok
      rcases hok.2 with ⟨_, _, -, -, h⟩ | ⟨-, -, _, -, h⟩
      all_goals exact (Option.map_eq_some_iff.mp h).imp fun _ h => h.1
    obtain ⟨-, rfl, -⟩ := start_ok hs hk hpc hpool
    exact calls_set hs
      (frame_leave hs ⟨call, p, hk, hpc, hkind⟩ (shape_of_pool hpool) (Or.inr rfl) (shape_panic none))
      (calls_panic none) trivial
  | @deadlock k p i call hk hpc =>
    have hok := hs.calls k call hk
    simp only [CallOk, hpc] at hok
    exact calls_set hs (frame_panic (cell_panic _) rfl) (calls_panic _) hok.2.1
  | ends =>
    exact calls_of_frame (O := fun _ => True) hs (frame_modifyWorker (f := Worker.stop) (fun _ h => h) rfl rfl)
      fun k call hk => Or.inl ⟨trivial, hk⟩

/-- Only a use of the pool that finds the cell empty starts to fill it. -/
theorem fillers_step {a : Act} (hs : Inv cpus s) (h : Goes cpus s a s') :
    ∀ k k', Filler s' k → Filler s' k' → k = k' := by
  have hold : (∀ k, Filler s' k → Filler s k) → ∀ k k', Filler s' k → Filler s' k' → k = k' := fun hold k k' h h' =>
    hs.fillers k k' (hold k h) (hold k' h')
  cases h with
  | call kind caller =>
    refine hold fun j hj => ?_
    obtain ⟨call, p, hj, hpc, hkind⟩ := hj
    rcases Wakers.getElem?_append_cases hj with rfl | hj
    · cases kind <;> cases hpc
    · exact ⟨call, p, hj, hpc, hkind⟩
  | @turn k call pc hk hturn =>
    refine hold fun j hj => (hj.of_set rfl fun p hpc => ?_).2
    cases hturn with
    | use =>
      simp only [Kind.use] at hpc
      split at hpc <;> cases hpc
    | _ => cases hpc
  | @begin k n call hk hpc hkind => exact hold fun j hj => (hj.of_set rfl fun _ _ => ⟨n, hkind⟩).2
  | @«open» k call hk hpc hcell =>
    have hnone : ∀ j, ¬ Filler s j := fun j hj => by
      have hinit := hj.initializing hs
      rw [hcell] at hinit
      cases hinit
    have hself : ∀ j, Filler ((s.newPool k cpus call).setCell .initializing) j → j = k := by
      rintro j ⟨other, p, hj, hpc, hkind⟩
      rcases Wakers.getElem?_set_cases hj with ⟨rfl, -⟩ | ⟨-, hj⟩
      · rfl
      · exact absurd ⟨other, p, hj, hpc, hkind⟩ (hnone j)
    exact fun j j' hj hj' => (hself j hj).trans (hself j' hj').symm
  | start => exact hold fun j hj => hj
  | @fill k p m t len call hk hpc hkind hshape hle =>
    refine hold fun j hj => (hj.of_set rfl fun q hq => ?_).2
    simp only [Kind.use] at hq
    split at hq <;> cases hq
  | «set» => exact hold fun j hj => (hj.of_set rfl fun q hq => nomatch hq).2
  | tell => exact hold fun j hj => (hj.of_set rfl fun q hq => nomatch hq).2
  | take => exact hold fun j hj => (hj.of_set rfl fun q hq => nomatch hq).2
  | failsInit | failsUse | deadlock => exact hold fun j hj => (hj.of_set (calls_panic _) fun q hq => nomatch hq).2
  | ends => exact hold fun j hj => hj

/-- The handles that are gone are with calls that wait, or the threads have ended. -/
theorem handles_step {a : Act} (hs : Inv cpus s) (h : Goes cpus s a s') :
    ∀ p i worker, s'.worker p i = some worker → worker.handle = false → worker.ended = true ∨ Stuck s' p i := by
  -- a step that leaves the call's pc other than `wait`, and the workers
  have hsame : ∀ {k : ℕ} {call call' : Call}, s.calls[k]? = some call → s'.calls = s.calls.set k call' →
      (∀ p i, call.pc ≠ .wait p i) → (∀ p i, call.pc ≠ .panicked (some (p, i))) →
      (∀ p i worker, s'.worker p i = some worker → worker.handle = false → worker.ended = true ∨
        ∃ old, s.worker p i = some old ∧ old.handle = false ∧ (old.ended = true → worker.ended = true)) →
      ∀ p i worker, s'.worker p i = some worker → worker.handle = false → worker.ended = true ∨ Stuck s' p i := by
    intro k call call' hk hcalls hwait hpanicked hworkers p i worker hworker hhandle
    rcases hworkers p i worker hworker hhandle with hended | ⟨old, hold, hgone, hends⟩
    · exact Or.inl hended
    · exact (hs.handles p i old hold hgone).imp hends fun hstuck =>
        hstuck.set hk hcalls (hwait p i) (hpanicked p i)
  cases h with
  | call kind caller =>
    intro p i worker hworker hhandle
    refine (hs.handles p i worker hworker hhandle).imp_right ?_
    rintro ⟨k, call, hk, hpc⟩
    exact ⟨k, call, (List.getElem?_append_left (List.getElem?_eq_some_iff.mp hk).1).trans hk, hpc⟩
  | @turn k call pc hk hturn =>
    cases hturn with
    | @awaited p i worker hpc hworker hended =>
      intro q j other hother hhandle
      by_cases heq : q = p ∧ j = i
      · obtain ⟨rfl, rfl⟩ := heq
        cases hworker.symm.trans hother
        exact Or.inl hended
      · refine (hs.handles q j other hother hhandle).imp_right fun hstuck => hstuck.set hk rfl (fun h => heq ?_) ?_
        · cases hpc.symm.trans h
          exact ⟨rfl, rfl⟩
        · rw [hpc]
          simp
    | already hpc | started hpc | late hpc | use hpc | toldAll hpc | pass hpc | joinedAll hpc =>
      exact hsame hk rfl (by simp [hpc]) (by simp [hpc]) fun _ _ worker h hhandle => Or.inr ⟨worker, h, hhandle, id⟩
  | @begin k n call hk hpc =>
    exact hsame hk rfl (by simp [hpc]) (by simp [hpc]) fun p i worker h hhandle =>
        Or.inr ⟨worker, (worker_newPool k n call p i).symm.trans h, hhandle, id⟩
  | @«open» k call hk hpc =>
    exact hsame hk rfl (by simp [hpc]) (by simp [hpc]) fun p i worker h hhandle =>
      Or.inr ⟨worker, (worker_newPool k cpus call p i).symm.trans h, hhandle, id⟩
  | @start k p call pool hk hpc hpool =>
    intro q i worker hworker hhandle
    rcases worker_push hpool hworker with hworker | ⟨-, rfl⟩
    · exact hs.handles q i worker hworker hhandle
    · cases hhandle
  | fill hk hpc | «set» hk hpc =>
    exact hsame hk rfl (by simp [hpc]) (by simp [hpc]) fun _ _ worker h hhandle => Or.inr ⟨worker, h, hhandle, id⟩
  | @tell k p i call hk hpc =>
    refine hsame hk rfl (by simp [hpc]) (by simp [hpc]) fun q j worker h hhandle => Or.inr ?_
    have h := (worker_modifyWorker q j).symm.trans h
    split at h
    · rename_i heq
      obtain ⟨rfl, rfl⟩ := heq
      obtain ⟨old, hold, rfl⟩ := Option.map_eq_some_iff.mp h
      exact ⟨old, hold, hhandle, id⟩
    · exact ⟨worker, h, hhandle, id⟩
  | @take k p i call worker hk hpc hworker hhandle =>
    intro q j other hother hgone
    by_cases heq : q = p ∧ j = i
    · obtain ⟨rfl, rfl⟩ := heq
      exact Or.inr ⟨k, _, List.getElem?_set_self (List.getElem?_eq_some_iff.mp hk).1, Or.inl rfl⟩
    · have hold := (worker_modifyWorker q j).symm.trans hother
      rw [if_neg heq] at hold
      refine (hs.handles q j other hold hgone).imp_right fun hstuck => hstuck.set hk rfl ?_ ?_ <;> simp [hpc]
  | failsInit hk hpc | failsUse hk hpc =>
    exact hsame hk (calls_panic none) (by simp [hpc]) (by simp [hpc]) fun p i worker h hhandle =>
      (worker_panic h).imp_right fun h => ⟨worker, h, hhandle, id⟩
  | @deadlock k p i call hk hpc =>
    intro q j worker hworker hhandle
    rcases worker_panic hworker with hended | hold
    · exact Or.inl hended
    · refine (hs.handles q j worker hold hhandle).imp_right fun hstuck => ?_
      by_cases heq : q = p ∧ j = i
      · obtain ⟨rfl, rfl⟩ := heq
        refine ⟨k, { call with pc := .panicked (some (q, j)) }, ?_, Or.inr rfl⟩
        rw [calls_panic]
        exact List.getElem?_set_self (List.getElem?_eq_some_iff.mp hk).1
      · refine hstuck.set hk (calls_panic _) (fun h => heq ?_) (by simp [hpc])
        cases hpc.symm.trans h
        exact ⟨rfl, rfl⟩
  | @ends p i worker hworker =>
    intro q j other hother hhandle
    exact (worker_stop hother).elim Or.inl fun h => hs.handles q j other h hhandle

theorem inv_step {a : Act} (hs : Inv cpus s) (h : step cpus s a = some s') : Inv cpus s' := by
  have hgoes := goes_of_step h
  exact ⟨full_step hs hgoes, calls_ok_step hs hgoes, fillers_step hs hgoes, handles_step hs hgoes⟩

end Frame

theorem inv_init (cpus : ℕ) : Inv cpus .init :=
  ⟨fun p h => by simp [State.init] at h, fun k call h => by simp [State.init] at h,
    fun k k' ⟨call, p, h, _⟩ => by simp [State.init] at h,
    fun p i worker h => by simp [State.init, State.worker] at h⟩

/-! ### One pool -/

/-- A call of `init` that returned `Ok`, and its number of threads. -/
def Initialized (s : State) (k n : ℕ) : Prop :=
  ∃ call, s.calls[k]? = some call ∧ call.kind = .init n ∧ call.pc = .returned (.ok ())

/-- **In every run, at most one call of `init` returns `Ok`; the pool is then the one
that it started, with as many threads as it asked for.** -/
theorem initialized (cpus : ℕ) (as : List Act) : Runs.Along (step cpus)
    (fun s => ∀ k n, Initialized s k n →
      (∃ p, s.cell = .full p ∧ s.shape p = some (k, n, n)) ∧ ∀ k' n', Initialized s k' n' → k' = k) .init as := by
  refine Runs.along_of_step (fun _ _ _ => inv_step) (fun s hs => ?_) as (inv_init cpus)
  have hpool : ∀ k n, Initialized s k n → ∃ p, s.cell = .full p ∧ s.shape p = some (k, n, n) := by
    rintro k n ⟨call, hk, hkind, hpc⟩
    have hok := hs.calls k call hk
    simp only [CallOk, hpc, hkind] at hok
    exact hok
  intro k n h
  obtain ⟨p, hcell, hshape⟩ := hpool k n h
  refine ⟨⟨p, hcell, hshape⟩, fun k' n' h' => ?_⟩
  obtain ⟨p', hcell', hshape'⟩ := hpool k' n' h'
  cases hcell.symm.trans hcell'
  cases hshape.symm.trans hshape'
  rfl

/-! ### Threads without a pool -/

/-- A call starts the pool, or has it to set the cell. -/
def Held (s : State) (p : ℕ) : Prop :=
  ∃ (k : ℕ) (call : Call), s.calls[k]? = some call ∧ (call.pc = .start p ∨ call.pc = .set p)

/-- Every thread that runs is in the pool, or in one that a call is still to put
there. -/
def Owned (s : State) : Prop :=
  ∀ p i worker, s.worker p i = some worker → worker.ended = false → s.cell = .full p ∨ Held s p

/-- The step drops no pool with a thread that runs, other than the one it is in. -/
def Keeps (s : State) : Act → Prop
  | .next k => ∀ call ∈ s.calls[k]?, ∀ p q, call.pc = .set p → s.cell = .full q →
      ∀ i, ∀ worker ∈ s.worker p i, worker.ended = true
  | .fails k => ∀ call ∈ s.calls[k]?, ∀ p, call.pc = .start p →
      ∀ i, call.caller ≠ some (p, i) → ∀ worker ∈ s.worker p i, worker.ended = true
  | .call _ _ | .deadlock _ | .ends _ _ => True

section Owned

variable {cpus : ℕ} {s s' : State} {p : ℕ}

theorem Held.set {k : ℕ} {call call' : Call} (h : Held s p) (hk : s.calls[k]? = some call)
    (hcalls : s'.calls = s.calls.set k call') (hstart : call.pc ≠ .start p) (hset : call.pc ≠ .set p) :
    Held s' p := by
  obtain ⟨j, other, hj, hpc⟩ := h
  refine ⟨j, other, ?_, hpc⟩
  have hne : k ≠ j := by
    rintro rfl
    cases hk.symm.trans hj
    exact hpc.elim hstart hset
  rw [hcalls, List.getElem?_set_ne hne]
  exact hj

/-- The call that holds a pool is the one that starts it. -/
theorem shape_of_holds {k : ℕ} {call : Call} (hs : Inv cpus s) (hk : s.calls[k]? = some call)
    (hpc : call.pc = .start p ∨ call.pc = .set p) : s.cell ≠ .full p ∧ ∃ n len, s.shape p = some (k, n, len) := by
  have hok := hs.calls k call hk
  rcases hpc with hpc | hpc <;> simp only [CallOk, hpc] at hok
  · rcases hok.2 with ⟨n, len, -, -, hshape⟩ | ⟨-, -, len, -, hshape⟩
    · exact ⟨hok.1, n, len, hshape⟩
    · exact ⟨hok.1, cpus, len, hshape⟩
  · obtain ⟨hcell, n, -, hshape⟩ := hok
    exact ⟨hcell, n, n, hshape⟩

/-- What a call has dropped nobody has. -/
theorem not_held_of_set {k : ℕ} {call call' : Call} (hs : Inv cpus s) (hk : s.calls[k]? = some call)
    (hpc : call.pc = .start p ∨ call.pc = .set p) (hcalls : s'.calls = s.calls.set k call')
    (hover : call'.pc.isOver = true) : ¬ Held s' p := by
  rintro ⟨j, other, hj, hpc'⟩
  rw [hcalls] at hj
  rcases Wakers.getElem?_set_cases hj with ⟨-, rfl⟩ | ⟨hne, hj⟩
  · rcases hpc' with h | h <;> rw [h] at hover <;> cases hover
  · obtain ⟨-, n, len, hshape⟩ := shape_of_holds hs hk hpc
    obtain ⟨-, n', len', hshape'⟩ := shape_of_holds hs hj hpc'
    cases hshape.symm.trans hshape'
    exact hne rfl

/-- A thread that runs after a change to a worker that leaves `ended` ran before. -/
theorem alive_modifyWorker {q i j : ℕ} {f : Worker → Worker} {worker : Worker}
    (hf : ∀ worker, (f worker).ended = worker.ended) (h : (s.modifyWorker p i f).worker q j = some worker)
    (hended : worker.ended = false) : ∃ old, s.worker q j = some old ∧ old.ended = false := by
  rw [worker_modifyWorker] at h
  split at h
  · rename_i heq
    obtain ⟨rfl, rfl⟩ := heq
    obtain ⟨old, hold, rfl⟩ := Option.map_eq_some_iff.mp h
    exact ⟨old, hold, (hf old).symm.trans hended⟩
  · exact ⟨worker, h, hended⟩

theorem alive_panic {k q j : ℕ} {call : Call} {waited : Option (ℕ × ℕ)} {worker : Worker}
    (h : (s.panic k call waited).worker q j = some worker) (hended : worker.ended = false) :
    ∃ old, s.worker q j = some old ∧ old.ended = false := by
  rw [worker_panic_of_ne (caller_ne_of_panic h hended)] at h
  exact ⟨worker, h, hended⟩

theorem ended_of_keeps {k : ℕ} {call : Call} (hkeeps : Keeps s (.fails k)) (hk : s.calls[k]? = some call)
    (hpc : call.pc = .start p) (i : ℕ) (worker : Worker) (h : (s.panic k call none).worker p i = some worker) :
    worker.ended = true := by
  cases hended : worker.ended with
  | true => rfl
  | false =>
    have hcaller := caller_ne_of_panic h hended
    rw [worker_panic_of_ne hcaller] at h
    exact hended.symm.trans (hkeeps call hk p hpc i hcaller worker h)

/-- A thread that runs after a step ran before it, or was started by it. -/
theorem alive_step {a : Act} {q i : ℕ} {worker : Worker} (h : Goes cpus s a s')
    (hworker : s'.worker q i = some worker) (hended : worker.ended = false) :
    (∃ old, s.worker q i = some old ∧ old.ended = false) ∨
      ∃ (k : ℕ) (call : Call), s.calls[k]? = some call ∧ call.pc = .start q := by
  cases h with
  | call | turn | fill | «set» => exact Or.inl ⟨worker, hworker, hended⟩
  | @begin k n call => exact Or.inl ⟨worker, (worker_newPool k n call q i).symm.trans hworker, hended⟩
  | @«open» k call => exact Or.inl ⟨worker, (worker_newPool k cpus call q i).symm.trans hworker, hended⟩
  | @start k p call pool hk hpc hpool =>
    rcases worker_push hpool hworker with hold | ⟨rfl, -⟩
    · exact Or.inl ⟨worker, hold, hended⟩
    · exact Or.inr ⟨k, call, hk, hpc⟩
  | tell => exact Or.inl (alive_modifyWorker (f := Worker.tell) (fun _ => rfl) hworker hended)
  | take => exact Or.inl (alive_modifyWorker (f := Worker.take) (fun _ => rfl) hworker hended)
  | failsInit | failsUse | deadlock => exact Or.inl (alive_panic hworker hended)
  | ends =>
    rcases worker_stop hworker with h | hold
    · rw [h] at hended
      cases hended
    · exact Or.inl ⟨worker, hold, hended⟩

/-- The pool stays in the cell. -/
theorem cell_step {a : Act} (hs : Inv cpus s) (h : Goes cpus s a s') (hcell : s.cell = .full p) :
    s'.cell = .full p := by
  cases h with
  | call | turn | begin | start | tell | take | ends => exact hcell
  | «open» _ _ hempty | «set» _ _ hempty => simp [hempty] at hcell
  | @fill k p m t len call hk hpc hkind => simp [Filler.initializing hs ⟨call, p, hk, hpc, hkind⟩] at hcell
  | failsInit | deadlock => exact (cell_panic _).trans hcell
  | @failsUse k p call hk hpc hkind => simp [Filler.initializing hs ⟨call, p, hk, hpc, hkind⟩] at hcell

/-- A pool that a call holds goes into the cell, or stays with the call, if the step
does not drop it with a thread that runs. -/
theorem held_step {a : Act} {q i : ℕ} {worker : Worker} (hkeeps : Keeps s a) (h : Goes cpus s a s') (hheld : Held s q)
    (hworker : s'.worker q i = some worker) (hended : worker.ended = false) : s'.cell = .full q ∨ Held s' q := by
  cases h with
  | call kind caller =>
    obtain ⟨k, call, hk, hpc⟩ := hheld
    exact Or.inr ⟨k, call, (List.getElem?_append_left (List.getElem?_eq_some_iff.mp hk).1).trans hk, hpc⟩
  | @turn k call pc hk hturn =>
    cases hturn with
    | @started p m n t len hpc =>
      by_cases hq : p = q
      · subst hq
        exact Or.inr ⟨k, _, List.getElem?_set_self (List.getElem?_eq_some_iff.mp hk).1, Or.inr rfl⟩
      · exact Or.inr (hheld.set hk rfl (by simp [hpc, hq]) (by simp [hpc]))
    | @late p r hpc hcell =>
      by_cases hq : p = q
      · subst hq
        have hdropped := hkeeps call hk p r hpc hcell i worker hworker
        exact absurd (hdropped.symm.trans hended) (by simp)
      · exact Or.inr (hheld.set hk rfl (by simp [hpc]) (by simp [hpc, hq]))
    | already hpc | use hpc | toldAll hpc | pass hpc | joinedAll hpc | awaited hpc =>
      exact Or.inr (hheld.set hk rfl (by simp [hpc]) (by simp [hpc]))
  | begin hk hpc | «open» hk hpc | tell hk hpc | take hk hpc =>
    exact Or.inr (hheld.set hk rfl (by simp [hpc]) (by simp [hpc]))
  | start | ends => exact Or.inr hheld
  | @fill k p m t len call hk hpc =>
    by_cases hq : p = q
    · exact Or.inl (hq ▸ rfl)
    · exact Or.inr (hheld.set hk rfl (by simp [hpc, hq]) (by simp [hpc]))
  | @«set» k p call hk hpc =>
    by_cases hq : p = q
    · exact Or.inl (hq ▸ rfl)
    · exact Or.inr (hheld.set hk rfl (by simp [hpc]) (by simp [hpc, hq]))
  | @failsInit k p n call hk hpc | @failsUse k p call hk hpc =>
    by_cases hq : p = q
    · subst hq
      have hdropped := ended_of_keeps hkeeps hk hpc i worker hworker
      exact absurd (hdropped.symm.trans hended) (by simp)
    · exact Or.inr (hheld.set hk (calls_panic none) (by simp [hpc, hq]) (by simp [hpc]))
  | deadlock hk hpc => exact Or.inr (hheld.set hk (calls_panic _) (by simp [hpc]) (by simp [hpc]))

theorem owned_step {a : Act} (hs : Inv cpus s) (ho : Owned s) (hkeeps : Keeps s a) (h : Goes cpus s a s') :
    Owned s' := by
  intro q i worker hworker hended
  have hown : s.cell = .full q ∨ Held s q := by
    rcases alive_step h hworker hended with ⟨old, hold, hended⟩ | ⟨k, call, hk, hpc⟩
    · exact ho q i old hold hended
    · exact Or.inr ⟨k, call, hk, Or.inl hpc⟩
  rcases hown with hcell | hheld
  · exact Or.inl (cell_step hs h hcell)
  · exact held_step hkeeps h hheld hworker hended

theorem not_owned_step {a : Act} (hs : Inv cpus s) (hkeeps : ¬ Keeps s a) (h : step cpus s a = some s') :
    ¬ Owned s' := by
  intro ho
  cases a with
  | call | deadlock | ends => exact hkeeps trivial
  | next k =>
    simp only [Keeps, not_forall] at hkeeps
    obtain ⟨call, hk, p, q, hpc, hcell, i, worker, hworker, hended⟩ := hkeeps
    have heq : step cpus s (.next k) = some (s.setPc k call (.returned (.error .lockError))) := by
      simp [step, Option.mem_def.mp hk, next, hpc, hcell]
    cases heq.symm.trans h
    rcases ho p i worker hworker (Bool.not_eq_true _ ▸ hended) with h | h
    · exact (shape_of_holds hs hk (Or.inr hpc)).1 h
    · exact not_held_of_set hs hk (Or.inr hpc) rfl rfl h
  | fails k =>
    simp only [Keeps, not_forall] at hkeeps
    obtain ⟨call, hk, p, hpc, i, hcaller, worker, hworker, hended⟩ := hkeeps
    have hcell := (shape_of_holds hs hk (Or.inl hpc)).1
    have hgone : s'.cell ≠ .full p ∧ s'.calls = s.calls.set k { call with pc := .panicked none } ∧
        s'.worker p i = some worker := by
      cases goes_of_step h with
      | failsInit hk' _ _ =>
        cases hk.symm.trans hk'
        exact ⟨by rwa [cell_panic], calls_panic none, (worker_panic_of_ne hcaller).trans hworker⟩
      | failsUse hk' _ _ =>
        cases hk.symm.trans hk'
        exact ⟨by simp [State.setCell], calls_panic none, (worker_panic_of_ne hcaller).trans hworker⟩
    rcases ho p i worker hgone.2.2 (Bool.not_eq_true _ ▸ hended) with h | h
    · exact hgone.1 h
    · exact not_held_of_set hs hk (Or.inl hpc) hgone.2.1 rfl h

theorem owned_init : Owned .init := fun p i worker h => by simp [State.init, State.worker] at h

end Owned

/-- **Every thread that runs is in the pool, or in one on its way there, as long as
no call drops a pool with threads that run: one that another call came before, or
one of whose workers does not start.** -/
theorem owned_iff (cpus : ℕ) (as : List Act) :
    Runs.Along (step cpus) Owned .init as ↔ Runs.Taken (step cpus) Keeps .init as :=
  Runs.along_iff_taken (I := Inv cpus)
    (fun _ _ _ hs ho hkeeps h => ⟨inv_step hs h, owned_step hs ho hkeeps (goes_of_step h)⟩)
    (fun _ _ _ hs _ hkeeps h => not_owned_step hs hkeeps h) (inv_init cpus) owned_init

-- Two calls of `init` at once: the second pool is dropped, with two threads.
example : (Runs.run (step 8) .init [.call (.init 2) none, .call (.init 2) none, .next 0, .next 1, .next 0, .next 0,
    .next 0, .next 1, .next 1, .next 1, .next 0, .next 1]).map (fun s => (s.cell, s.calls.map Call.pc)) =
      some (.full 0, [.returned (.ok ()), .returned (.error .lockError)]) := by decide

/-! ### Who waits for the threads -/

/-- A call of `join` or `shutdown` that has returned. -/
def HasJoined (s : State) (k : ℕ) : Prop :=
  ∃ call, s.calls[k]? = some call ∧ call.kind.joins = true ∧ call.pc = .returned (.ok ())

/-- A call of `join` or `shutdown` that has not. -/
def Joining (s : State) (k : ℕ) : Prop :=
  ∃ call, s.calls[k]? = some call ∧ call.kind.joins = true ∧ call.pc ≠ .returned (.ok ())

/-- A call of `join` or `shutdown` begins only when those before it have returned. -/
def InTurn (s : State) : Act → Prop
  | .call kind _ => kind.joins = true → ∀ call ∈ s.calls, call.kind.joins = true → call.pc = .returned (.ok ())
  | .next _ | .fails _ | .deadlock _ | .ends _ _ => True

instance : ∀ s a, Decidable (InTurn s a)
  | _, .call _ _ => by dsimp only [InTurn]; infer_instance
  | _, .next _ | _, .fails _ | _, .deadlock _ | _, .ends _ _ => instDecidableTrue

section Joined

variable {cpus : ℕ} {s s' : State}

theorem took_of_hasJoined {k : ℕ} (hs : Inv cpus s) (h : HasJoined s k) :
    ∃ p, s.cell = .full p ∧ ∀ i, Took s p i := by
  obtain ⟨call, hk, hjoins, hpc⟩ := h
  have hok := hs.calls k call hk
  simp only [CallOk, hpc] at hok
  cases hkind : call.kind with
  | init | other =>
    rw [hkind] at hjoins
    cases hjoins
  | join | shutdown => simpa only [hkind] using hok

theorem joining_of_stuck {p i : ℕ} (hs : Inv cpus s) (h : Stuck s p i) : ∃ k, Joining s k := by
  obtain ⟨k, call, hk, hpc⟩ := h
  have hok := hs.calls k call hk
  refine ⟨k, call, hk, ?_, by rcases hpc with hpc | hpc <;> simp [hpc]⟩
  rcases hpc with hpc | hpc <;> simp only [CallOk, hpc] at hok
  · exact hok.2.1
  · exact hok

/-- A call after a step was there before it, and has not moved if it had returned; or
the step is its beginning. -/
theorem calls_step {a : Act} {j : ℕ} {call' : Call} (h : Goes cpus s a s') (hj : s'.calls[j]? = some call') :
    (∃ call, s.calls[j]? = some call ∧ call.kind = call'.kind ∧
      (call.pc = .returned (.ok ()) → call'.pc = .returned (.ok ()))) ∨
    ∃ caller, a = .call call'.kind caller ∧ call'.pc = call'.kind.first ∧ j = s.calls.length := by
  have hsame : s'.calls = s.calls → ∃ call, s.calls[j]? = some call ∧ call.kind = call'.kind ∧
      (call.pc = .returned (.ok ()) → call'.pc = .returned (.ok ())) := fun heq => ⟨call', heq ▸ hj, rfl, id⟩
  have hset : ∀ {k : ℕ} {call : Call} {pc : Pc}, s.calls[k]? = some call → call.pc ≠ .returned (.ok ()) →
      s'.calls = s.calls.set k { call with pc } → ∃ call, s.calls[j]? = some call ∧ call.kind = call'.kind ∧
        (call.pc = .returned (.ok ()) → call'.pc = .returned (.ok ())) := by
    intro k call pc hk hpc hcalls
    rw [hcalls] at hj
    rcases Wakers.getElem?_set_cases hj with ⟨rfl, rfl⟩ | ⟨-, hj⟩
    · exact ⟨call, hk, rfl, fun h => absurd h hpc⟩
    · exact ⟨call', hj, rfl, id⟩
  cases h with
  | call kind caller =>
    rw [List.getElem?_append] at hj
    split at hj
    · exact Or.inl ⟨call', hj, rfl, id⟩
    · rename_i hge
      rw [List.getElem?_singleton] at hj
      split at hj <;> cases hj
      exact Or.inr ⟨caller, rfl, rfl, by omega⟩
  | @turn k call pc hk hturn =>
    refine Or.inl (hset hk ?_ rfl)
    cases hturn with
    | already hpc | started hpc | late hpc | use hpc | toldAll hpc | pass hpc | joinedAll hpc | awaited hpc =>
      simp [hpc]
  | start | ends => exact Or.inl (hsame rfl)
  | begin hk hpc | «open» hk hpc | fill hk hpc | «set» hk hpc | tell hk hpc | take hk hpc =>
    exact Or.inl (hset hk (by simp [hpc]) rfl)
  | failsInit hk hpc | failsUse hk hpc | deadlock hk hpc =>
    exact Or.inl (hset hk (by simp [hpc]) (calls_panic _))

theorem first_ne_returned (kind : Kind) (result : Except Error Unit) : kind.first ≠ .returned result := by
  cases kind <;> simp [Kind.first]

/-- A call that joins after a step did so before, or it begins when there is none. -/
theorem joining_step {a : Act} {j : ℕ} (hturn : InTurn s a) (h : Goes cpus s a s') (hj : Joining s' j) :
    Joining s j ∨ (∀ k, ¬ Joining s k) ∧ j = s.calls.length := by
  obtain ⟨call', hj, hjoins, hpc⟩ := hj
  rcases calls_step h hj with ⟨call, hj, hkind, hpc'⟩ | ⟨caller, rfl, -, hlen⟩
  · exact Or.inl ⟨call, hj, hkind ▸ hjoins, fun h => hpc (hpc' h)⟩
  · refine Or.inr ⟨?_, hlen⟩
    rintro k ⟨call, hk, hkjoins, hkpc⟩
    exact hkpc (hturn hjoins call (List.mem_of_getElem? hk) hkjoins)

/-- One call at a time joins, and when one has returned the threads have ended. -/
structure Single (s : State) : Prop where
  joining : ∀ k k', Joining s k → Joining s k' → k = k'
  ended : ∀ k, HasJoined s k → ∀ p, s.cell = .full p → ∀ i worker, s.worker p i = some worker → worker.ended = true

/-- The threads of the pool, once they have ended, stay so. -/
theorem ended_step {a : Act} {p i : ℕ} {worker : Worker} (hs : Inv cpus s) (h : Goes cpus s a s')
    (hcell : s.cell = .full p) (hall : ∀ i worker, s.worker p i = some worker → worker.ended = true)
    (hworker : s'.worker p i = some worker) : worker.ended = true := by
  by_contra hended
  rcases alive_step h hworker (Bool.not_eq_true _ ▸ hended) with ⟨old, hold, halive⟩ | ⟨k, call, hk, hpc⟩
  · exact absurd ((hall i old hold).symm.trans halive) (by simp)
  · exact (shape_of_holds hs hk (Or.inl hpc)).1 hcell

theorem single_step {a : Act} (hs : Inv cpus s) (hsingle : Single s) (hturn : InTurn s a)
    (hstep : step cpus s a = some s') : Single s' := by
  have h := goes_of_step hstep
  have hs' := inv_step hs hstep
  have hjoining : ∀ k k', Joining s' k → Joining s' k' → k = k' := by
    intro k k' hk hk'
    rcases joining_step hturn h hk with hold | ⟨hnone, hlen⟩
    all_goals rcases joining_step hturn h hk' with hold' | ⟨hnone', hlen'⟩
    · exact hsingle.joining k k' hold hold'
    · exact absurd hold (hnone' k)
    · exact absurd hold' (hnone k')
    · exact hlen.trans hlen'.symm
  refine ⟨hjoining, fun k hk p hcell i worker hworker => ?_⟩
  by_cases hold : HasJoined s k
  · obtain ⟨q, hq, -⟩ := took_of_hasJoined hs hold
    cases (cell_step hs h hq).symm.trans hcell
    exact ended_step hs h hq (hsingle.ended k hold p hq) hworker
  · -- the call returns now: a thread that runs has another call wait for it
    obtain ⟨q, hq, htook⟩ := took_of_hasJoined hs' hk
    cases hq.symm.trans hcell
    refine (hs'.handles p i worker hworker (htook i worker hworker)).resolve_right fun hstuck => ?_
    obtain ⟨k', hk'⟩ := joining_of_stuck hs' hstuck
    have hself : Joining s k := by
      obtain ⟨call', hk, hjoins, hpc⟩ := hk
      rcases calls_step h hk with ⟨call, hk, hkind, -⟩ | ⟨caller, -, hfirst, -⟩
      · exact ⟨call, hk, hkind ▸ hjoins, fun hpc => hold ⟨call, hk, hkind ▸ hjoins, hpc⟩⟩
      · exact absurd (hfirst.symm.trans hpc) (first_ne_returned _ _)
    have hother : Joining s k' := (joining_step hturn h hk').resolve_right fun hnone => hnone.1 k hself
    obtain ⟨call, hcall, -, hpc⟩ := hk
    obtain ⟨call', hcall', -, hpc'⟩ := hk'
    cases hsingle.joining k k' hself hother
    cases hcall.symm.trans hcall'
    exact hpc' hpc

end Joined

/-- **In every run, when a call of `join` or `shutdown` has returned, every thread of
the pool has ended, or another such call still waits for it, or panicked when it
did.** -/
theorem joined (cpus : ℕ) (as : List Act) : Runs.Along (step cpus)
    (fun s => ∀ k, HasJoined s k → ∃ p, s.cell = .full p ∧
      ∀ i worker, s.worker p i = some worker → worker.ended = true ∨ Stuck s p i) .init as := by
  refine Runs.along_of_step (fun _ _ _ => inv_step) (fun s hs k h => ?_) as (inv_init cpus)
  obtain ⟨p, hcell, htook⟩ := took_of_hasJoined hs h
  exact ⟨p, hcell, fun i worker hworker => hs.handles p i worker hworker (htook i worker hworker)⟩

-- Two calls of `join` at once: the second returns while the first waits.
example : (Runs.run (step 1) .init [.call .other none, .next 0, .next 0, .next 0, .call .join none, .call .join none,
    .next 1, .next 1, .next 2, .next 2, .next 2]).map (fun s => s.calls.map Call.pc) =
      some [.returned (.ok ()), .wait 0 0, .returned (.ok ())] := by decide

theorem single_init : Single .init :=
  ⟨fun k k' ⟨call, h, _⟩ => by simp [State.init] at h, fun k ⟨call, h, _⟩ => by simp [State.init] at h⟩

/-- **When calls of `join` and `shutdown` begin only after those before them have
returned, one that has returned leaves no thread of the pool that runs.** -/
theorem joined_of_inTurn (cpus : ℕ) (as : List Act) (hturn : Runs.Taken (step cpus) InTurn .init as) :
    Runs.Along (step cpus) (fun s => ∀ k, HasJoined s k → ∃ p, s.cell = .full p ∧
      ∀ i worker, s.worker p i = some worker → worker.ended = true) .init as := by
  refine Runs.along_of_invariant (I := fun s => Inv cpus s ∧ Single s)
    (fun s a s' hs hturn h => ⟨inv_step hs.1 h, single_step hs.1 hs.2 hturn h⟩) (fun s hs k hk => ?_)
    ⟨inv_init cpus, single_init⟩ hturn
  obtain ⟨p, hcell, -⟩ := took_of_hasJoined hs.1 hk
  exact ⟨p, hcell, hs.2.ended k hk p hcell⟩

/-- A pool of one thread, which `join` waits for; `shutdown` comes after. -/
def joinThenShutdown : List Act :=
  [.call (.init 1) none, .next 0, .next 0, .next 0, .next 0, .call .join none, .next 1, .next 1, .ends 0 0, .next 1,
    .next 1, .call .shutdown none, .next 2, .next 2, .next 2, .next 2, .next 2]

theorem joined_of_inTurn_shutdown :
    (Runs.run (step 8) .init joinThenShutdown).map (fun s => s.calls.map Call.pc) =
        some [.returned (.ok ()), .returned (.ok ()), .returned (.ok ())] ∧
      Runs.Along (step 8) (fun s => ∀ k, HasJoined s k → ∃ p, s.cell = .full p ∧
        ∀ i worker, s.worker p i = some worker → worker.ended = true) .init joinThenShutdown :=
  ⟨by decide, joined_of_inTurn 8 joinThenShutdown (by decide)⟩


end Lifecycle
end ClAsync
