/-
# The pool and its I/O futures

Any number of workers, and the `IoOperationFuture`s submitted to them. The
first poll of a future and the drop of one that has been submitted both go
through `ThreadPool::submit_io_operation`: `get_next_worker` draws from the
shared round-robin counter until it finds an available worker, the worker's
`KeyGenerator` gives the key, and the message goes into the worker's channel.
Each of these is an atomic step, and the calls of any number of threads
interleave with each other, with the workers' own steps and with the other
users of the counter.

A future keeps its handle after its drop, for the record; `result` is what
its latest poll returned.

Key definitions: `Stage`, `IoOperationFuture`, `State`, `Act`, `step`.
Key theorems: `step_cases`, what one step can do.
-/
import ClAsync.Lib.Wakers
import ClAsync.Worker.Loop

namespace ClAsync

/-! ### Futures -/

/-- `WorkerDispatchError`: the operation, or the message, comes back. -/
inductive WorkerDispatchError (τ : Type)
  | failedToFindWorker (payload : IoOperation τ)
  | failedToSendMessage (message : Message τ)
  deriving DecidableEq

/-- `IoProcessingError`. -/
inductive IoProcessingError
  | unexpectedCompletionResult (message : String)
  deriving DecidableEq

/-- `IoError`, of a future. -/
inductive IoError (τ φ : Type)
  | submission (e : WorkerDispatchError τ)
  | operation (e : IoOperationError φ)
  | processing (e : IoProcessingError)
  deriving DecidableEq

/-- `TryFromCompletion`, for the output `ρ` of a future. -/
class TryFromCompletion (κ ρ : Type) where
  tryFromCompletion : IoCompletion κ → Option ρ

instance {κ : Type} : TryFromCompletion κ Unit where
  tryFromCompletion
    | .success => some ()
    | .data _ => none

/-- `Poll::is_pending`. -/
def Poll.isPending {α : Type} : Poll α → Bool
  | .pending => true
  | .ready _ => false

namespace Pool

/-- How far a call of `submit_io_operation` is: `left` probes remain to
`get_next_worker`; it has drawn the worker `id` and is to look at its state;
the worker is to draw the key; the message is to be sent; done. -/
inductive Stage
  | probing (left : ℕ)
  | probed (left id : ℕ)
  | chosen (id : ℕ)
  | drawn (id : ℕ) (key : Key)
  | sent (id : ℕ) (key : Key)
  | failed
  deriving DecidableEq, Repr

/-- A future. While it is polled for the first time its operation is with the
call; `cancel` is the call its drop makes. -/
structure IoOperationFuture (τ φ ρ : Type) where
  operation : Option (IoOperation τ)
  handle : Option (ℕ × Key)
  phase : Wakers.Phase (IoOperation τ × Stage)
  waker : Waker
  result : Poll (Except (IoError τ φ) ρ)
  cancel : Option Stage

namespace IoOperationFuture

variable {τ κ φ ρ : Type}

/-- `IoOperationFuture::new`. -/
def new (operation : IoOperation τ) : IoOperationFuture τ φ ρ :=
  ⟨some operation, none, .created, 0, .pending, none⟩

/-- What `IoOperationFuture::poll` makes of the answer of its handle. -/
def outcome [TryFromCompletion κ ρ] :
    Poll (Option (IoCompletionResult κ φ)) → Poll (Except (IoError τ φ) ρ)
  | .ready (some (.ok completion)) =>
    match TryFromCompletion.tryFromCompletion completion with
    | some result => .ready (.ok result)
    | none => .ready (.error (.processing (.unexpectedCompletionResult
        "Io operation future got unexpected completion type")))
  | .ready (some (.error e)) => .ready (.error (.operation e))
  | .pending => .pending
  | .ready none => .ready (.error (.processing (.unexpectedCompletionResult
      "Poll returned ready but no data was found")))

/-- The first poll goes on, or ends: with a handle, or with the error of a
call that failed. -/
def advance (fut : IoOperationFuture τ φ ρ) (op : IoOperation τ) (e : WorkerDispatchError τ) :
    Stage → IoOperationFuture τ φ ρ
  | .sent id key => { fut with handle := some (id, key), phase := .pending, result := .pending }
  | .failed => { fut with phase := .ready, result := .ready (.error (.submission e)) }
  | stage => { fut with phase := .polling (op, stage) }

/-- The answer `result` to a later poll by `w`. -/
def answer (fut : IoOperationFuture τ φ ρ) (w : Waker) (result : Poll (Except (IoError τ φ) ρ)) :
    IoOperationFuture τ φ ρ :=
  { fut with phase := if result.isPending then .pending else .ready, waker := w, result }

/-- `Drop`: a future with a handle cancels, with a call of `n` probes. -/
def drop (fut : IoOperationFuture τ φ ρ) (n : ℕ) : IoOperationFuture τ φ ρ :=
  { fut with phase := .dropped, cancel := fut.handle.map fun _ => .probing n }

end IoOperationFuture

/-! ### The pool -/

/-- A worker, and the number of keys its `KeyGenerator` has given. -/
structure Member (τ κ φ : Type) where
  loop : Worker.State τ κ φ
  generator : ℕ

/-- The workers, their futures, and the counter that all threads share. -/
structure State (τ κ φ ρ : Type) where
  nextId : ℕ
  workers : List (Member τ κ φ)
  futures : List (IoOperationFuture τ φ ρ)

variable {τ κ φ ρ : Type}

/-- A pool of `n` workers that have started. -/
def State.init (n : ℕ) : State τ κ φ ρ := ⟨0, List.replicate n ⟨.init, 0⟩, []⟩

/-- The states in which `get_next_worker` takes a worker. -/
def available : WorkerState → Bool
  | .none | .stopped | .stopping => false
  | .starting | .idle | .busy => true

/-- The worker has dropped its end of the channel. -/
def Member.closed (m : Member τ κ φ) : Bool :=
  match m.loop.pc with
  | .returned | .stopped => true
  | _ => false

/-- One atomic step of a call of `submit_io_operation` for `submission`. -/
def dispatch (nextId : ℕ) (workers : List (Member τ κ φ)) (submission : Key → IoSubmission τ) :
    Stage → Option (ℕ × List (Member τ κ φ) × Stage)
  | .probing 0 => some (nextId, workers, .failed)
  | .probing (left + 1) =>
    some ((nextId + 1) % u64Count, workers, .probed left (nextId % workers.length))
  | .probed left id =>
    match workers[id]? with
    | none => some (nextId, workers, .failed)
    | some m =>
      some (nextId, workers, if available m.loop.status then .chosen id else .probing left)
  | .chosen id =>
    match workers[id]? with
    | none => none
    | some m =>
      some (nextId, workers.set id { m with generator := m.generator + 1 },
        .drawn id (m.generator % u64Count))
  | .drawn id key =>
    match workers[id]? with
    | none => none
    | some m =>
      if m.closed then some (nextId, workers, .failed)
      else
        let channel := m.loop.channel ++ [.submitIo (submission key)]
        some (nextId, workers.set id { m with loop := { m.loop with channel } }, .sent id key)
  | .sent _ _ | .failed => none

/-- The error of a call that failed at `stage`. -/
def dispatchError (op : IoOperation τ) (submission : Key → IoSubmission τ) :
    Stage → WorkerDispatchError τ
  | .drawn _ key => .failedToSendMessage (.submitIo (submission key))
  | _ => .failedToFindWorker op

/-- What happens to a future, to a worker, or to the counter. -/
inductive Act (τ : Type)
  | create (op : IoOperation τ)
  /-- The first poll of the future begins. -/
  | start (f : ℕ) (w : Waker)
  /-- The next step of the first poll. -/
  | submit (f : ℕ)
  /-- A later poll. -/
  | poll (f : ℕ) (w : Waker)
  | drop (f : ℕ)
  /-- The next step of the call the drop made. -/
  | cancel (f : ℕ)
  /-- A step of a worker, or a message to it that is no submission. -/
  | worker (v : ℕ) (a : Worker.Act τ)
  /-- Another user of the round-robin counter. -/
  | tick

variable [CompletableOperation τ κ φ] [TryFromCompletion κ ρ]

/-- One act. -/
def step (s : State τ κ φ ρ) : Act τ → Option (State τ κ φ ρ)
  | .create op => some { s with futures := s.futures ++ [.new op] }
  | .start f w => do
    let fut ← s.futures[f]?
    match fut.phase, fut.operation with
    | .created, some op =>
      let fut := { fut with operation := none, phase := .polling (op, .probing s.workers.length), waker := w }
      some { s with futures := s.futures.set f fut }
    | _, _ => none
  | .submit f => do
    let fut ← s.futures[f]?
    match fut.phase with
    | .polling (op, stage) =>
      let submission := fun key => ⟨key, op, some fut.waker⟩
      let (nextId, workers, stage') ← dispatch s.nextId s.workers submission stage
      let fut := fut.advance op (dispatchError op submission stage) stage'
      some { s with nextId, workers, futures := s.futures.set f fut }
    | _ => none
  | .poll f w => do
    let fut ← s.futures[f]?
    match fut.phase, fut.handle with
    | .pending, some (v, key) =>
      let m ← s.workers[v]?
      let (result, traffic) := m.loop.ctx.traffic.poll key w
      let loop := { m.loop with ctx := { m.loop.ctx with traffic } }
      some { s with
        workers := s.workers.set v { m with loop }
        futures := s.futures.set f (fut.answer w (IoOperationFuture.outcome result)) }
    | _, _ => none
  | .drop f => do
    let fut ← s.futures[f]?
    if fut.phase.canDrop then some { s with futures := s.futures.set f (fut.drop s.workers.length) }
    else none
  | .cancel f => do
    let fut ← s.futures[f]?
    match fut.cancel, fut.handle with
    | some stage, some (_, target) =>
      let submission := fun key => ⟨key, .cancelForget target, none⟩
      let (nextId, workers, stage') ← dispatch s.nextId s.workers submission stage
      some { s with nextId, workers, futures := s.futures.set f { fut with cancel := some stage' } }
    | _, _ => none
  | .worker v a => do
    let m ← s.workers[v]?
    if a.isInner then
      let loop ← Worker.step m.loop a
      some { s with workers := s.workers.set v { m with loop } }
    else none
  | .tick => some { s with nextId := (s.nextId + 1) % u64Count }

/-! ### What a step does -/

omit [CompletableOperation τ κ φ] [TryFromCompletion κ ρ]

/-- The worker a call has settled on. -/
def Stage.worker : Stage → Option ℕ
  | chosen id | drawn id _ | sent id _ => some id
  | probing _ | probed _ _ | failed => none

/-- The worker and the key a call has drawn. -/
def Stage.location : Stage → Option (ℕ × Key)
  | drawn id key | sent id key => some (id, key)
  | probing _ | probed _ _ | chosen _ | failed => none

/-- What one step of a call does to the workers: nothing while it searches
and chooses, then it draws a key and sends the message. -/
inductive Dispatched (nextId : ℕ) (workers : List (Member τ κ φ)) (submission : Key → IoSubmission τ) :
    Stage → List (Member τ κ φ) → Stage → Prop
  | probe (left : ℕ) :
      Dispatched nextId workers submission (.probing (left + 1)) workers (.probed left (nextId % workers.length))
  | search (stage stage' : Stage) (hsent : ∀ id key, stage ≠ .sent id key)
      (hstage' : stage' = .failed ∨ ∃ left, stage' = .probing left) :
      Dispatched nextId workers submission stage workers stage'
  | choose (left id : ℕ) (m : Member τ κ φ) (hm : workers[id]? = some m)
      (havailable : available m.loop.status = true) :
      Dispatched nextId workers submission (.probed left id) workers (.chosen id)
  | draw (id : ℕ) (m : Member τ κ φ) (hm : workers[id]? = some m) :
      Dispatched nextId workers submission (.chosen id)
        (workers.set id { m with generator := m.generator + 1 }) (.drawn id (m.generator % u64Count))
  | send (id : ℕ) (key : Key) (m : Member τ κ φ) (hm : workers[id]? = some m) :
      Dispatched nextId workers submission (.drawn id key)
        (workers.set id { m with
          loop := { m.loop with channel := m.loop.channel ++ [.submitIo (submission key)] } })
        (.sent id key)

theorem dispatch_cases {nextId nextId' : ℕ} {workers workers' : List (Member τ κ φ)}
    {submission : Key → IoSubmission τ} {stage stage' : Stage}
    (h : dispatch nextId workers submission stage = some (nextId', workers', stage')) :
    Dispatched nextId workers submission stage workers' stage' := by
  cases stage with
  | probing left =>
    cases left with
    | zero =>
      cases h
      exact .search _ _ (fun _ _ => nofun) (Or.inl rfl)
    | succ left =>
      cases h
      exact .probe left
  | probed left id =>
    simp only [dispatch] at h
    cases hm : workers[id]? with
    | none =>
      rw [hm] at h
      cases h
      exact .search _ _ (fun _ _ => nofun) (Or.inl rfl)
    | some m =>
      rw [hm] at h
      cases h
      cases havailable : available m.loop.status with
      | true => exact .choose left id m hm havailable
      | false => exact .search _ _ (fun _ _ => nofun) (Or.inr ⟨left, rfl⟩)
  | chosen id =>
    simp only [dispatch] at h
    cases hm : workers[id]? with
    | none =>
      rw [hm] at h
      cases h
    | some m =>
      rw [hm] at h
      cases h
      exact .draw id m hm
  | drawn id key =>
    simp only [dispatch] at h
    cases hm : workers[id]? with
    | none =>
      rw [hm] at h
      cases h
    | some m =>
      rw [hm] at h
      cases hclosed : m.closed with
      | true =>
        simp only [hclosed, if_true] at h
        cases h
        exact .search _ _ (fun _ _ => nofun) (Or.inl rfl)
      | false =>
        simp only [hclosed, Bool.false_eq_true, if_false] at h
        cases h
        exact .send id key m hm
  | sent id key => cases h
  | failed => cases h

/-- What each act leads to. -/
inductive Step [CompletableOperation τ κ φ] [TryFromCompletion κ ρ] (s : State τ κ φ ρ) :
    Act τ → State τ κ φ ρ → Prop
  | create (op : IoOperation τ) : Step s (.create op) { s with futures := s.futures ++ [.new op] }
  | start (f : ℕ) (w : Waker) (fut : IoOperationFuture τ φ ρ) (op : IoOperation τ)
      (hf : s.futures[f]? = some fut) (hphase : fut.phase = .created) :
      Step s (.start f w) { s with
        futures := s.futures.set f { fut with
          operation := none, phase := .polling (op, .probing s.workers.length), waker := w } }
  | submit (f nextId : ℕ) (workers : List (Member τ κ φ)) (fut : IoOperationFuture τ φ ρ)
      (op : IoOperation τ) (stage stage' : Stage) (e : WorkerDispatchError τ)
      (hf : s.futures[f]? = some fut) (hphase : fut.phase = .polling (op, stage))
      (hd : Dispatched s.nextId s.workers (fun key => ⟨key, op, some fut.waker⟩) stage workers stage') :
      Step s (.submit f) ⟨nextId, workers, s.futures.set f (fut.advance op e stage')⟩
  | poll (f : ℕ) (w : Waker) (fut : IoOperationFuture τ φ ρ) (v : ℕ) (key : Key) (m : Member τ κ φ)
      (hf : s.futures[f]? = some fut) (hphase : fut.phase = .pending)
      (hhandle : fut.handle = some (v, key)) (hm : s.workers[v]? = some m) :
      Step s (.poll f w) { s with
        workers := s.workers.set v { m with
          loop := { m.loop with
            ctx := { m.loop.ctx with traffic := (m.loop.ctx.traffic.poll key w).2 } } }
        futures := s.futures.set f
          (fut.answer w (IoOperationFuture.outcome (m.loop.ctx.traffic.poll key w).1)) }
  | drop (f : ℕ) (fut : IoOperationFuture τ φ ρ) (hf : s.futures[f]? = some fut)
      (hphase : fut.phase.canDrop = true) :
      Step s (.drop f) { s with futures := s.futures.set f (fut.drop s.workers.length) }
  | cancel (f nextId : ℕ) (workers : List (Member τ κ φ)) (fut : IoOperationFuture τ φ ρ)
      (stage stage' : Stage) (v : ℕ) (target : Key) (hf : s.futures[f]? = some fut)
      (hcancel : fut.cancel = some stage) (hhandle : fut.handle = some (v, target))
      (hd : Dispatched s.nextId s.workers (fun key => ⟨key, .cancelForget target, none⟩) stage workers stage') :
      Step s (.cancel f) ⟨nextId, workers, s.futures.set f { fut with cancel := some stage' }⟩
  | worker (v : ℕ) (a : Worker.Act τ) (m : Member τ κ φ) (loop : Worker.State τ κ φ)
      (hm : s.workers[v]? = some m) (ha : a.isInner = true) (hloop : Worker.step m.loop a = some loop) :
      Step s (.worker v a) { s with workers := s.workers.set v { m with loop } }
  | tick (nextId : ℕ) : Step s .tick { s with nextId }

theorem step_cases [CompletableOperation τ κ φ] [TryFromCompletion κ ρ] {s s' : State τ κ φ ρ}
    {a : Act τ} (h : step s a = some s') : Step s a s' := by
  cases a with
  | create op => cases h; exact .create op
  | start f w =>
    obtain ⟨fut, hf, h⟩ := Option.bind_eq_some_iff.mp h
    split at h
    · rename_i op hphase _
      cases h
      exact .start f w fut op hf hphase
    · cases h
  | submit f =>
    obtain ⟨fut, hf, h⟩ := Option.bind_eq_some_iff.mp h
    split at h
    · rename_i op stage hphase
      obtain ⟨⟨nextId, workers, stage'⟩, hd, h⟩ := Option.bind_eq_some_iff.mp h
      cases h
      exact .submit f nextId workers fut op stage stage' _ hf hphase (dispatch_cases hd)
    · cases h
  | poll f w =>
    obtain ⟨fut, hf, h⟩ := Option.bind_eq_some_iff.mp h
    split at h
    · rename_i v key hphase hhandle
      obtain ⟨m, hm, h⟩ := Option.bind_eq_some_iff.mp h
      cases h
      exact .poll f w fut v key m hf hphase hhandle hm
    · cases h
  | drop f =>
    obtain ⟨fut, hf, h⟩ := Option.bind_eq_some_iff.mp h
    split at h
    · rename_i hphase
      cases h
      exact .drop f fut hf hphase
    · cases h
  | cancel f =>
    obtain ⟨fut, hf, h⟩ := Option.bind_eq_some_iff.mp h
    split at h
    · rename_i stage v target hcancel hhandle
      obtain ⟨⟨nextId, workers, stage'⟩, hd, h⟩ := Option.bind_eq_some_iff.mp h
      cases h
      exact .cancel f nextId workers fut stage stage' v target hf hcancel hhandle (dispatch_cases hd)
    · cases h
  | worker v a =>
    obtain ⟨m, hm, h⟩ := Option.bind_eq_some_iff.mp h
    split at h
    · rename_i ha
      obtain ⟨loop, hloop, h⟩ := Option.bind_eq_some_iff.mp h
      cases h
      exact .worker v a m loop hm ha hloop
    · cases h
  | tick => cases h; exact .tick _

end Pool

end ClAsync
