/-
# Descriptors, from their opening to their close

An `OwnedFdAsync` is closed by an operation. `drop` hands it to a worker with
`submit_io_operation`, like any other, and closes the descriptor itself only if
that fails. Operations are made from the number of a descriptor, and it is when
the kernel takes them from a ring that it looks the number up.

The pool, its futures and its workers are those of the modules below; here
their operations have descriptors, and the kernel a table of them. A future
borrows the `OwnedFdAsync` that it was made from, which is not dropped before
the future. `met` records, of every operation but a close, whose file the kernel
found.

A worker that returns leaves behind the operations it has been sent. That is
the one way to lose a descriptor (`kept_iff`).

Key definitions: `Kernel`, `step`, `onWay`, `Inv`, `Kept`, `Leaves`.
Key theorems: `goes_of_step`, `inv_step`; `kept_iff`, every run.
-/
import ClAsync.Lib.Runs
import ClAsync.Pool.Dispatch
import ClAsync.Worker.Submissions

namespace ClAsync
namespace Closing

/-- An operation on the descriptor `fd`. -/
structure FdData where
  fd : ℕ
  /-- The `OwnedFdAsync` it is from. -/
  owner : ℕ
  /-- It is `IoType::Close`. -/
  close : Bool
  deriving DecidableEq, Repr

instance : CompletableOperation FdData Empty Empty where

/-- A worker of a pool whose operations are on descriptors. -/
abbrev Member := Pool.Member FdData Empty Empty

/-- Whether an `OwnedFdAsync` is in use. -/
inductive Phase
  | live
  /-- In `drop`. -/
  | dropping (stage : Pool.Stage)
  | gone
  deriving DecidableEq, Repr

/-- `OwnedFdAsync`. -/
structure OwnedFdAsync where
  fd : ℕ
  phase : Phase
  deriving DecidableEq, Repr

/-- The descriptors of the process, each with the one whose file it is. -/
structure Kernel where
  table : List (Option ℕ)
  met : List (FdData × Option ℕ)
  deriving DecidableEq, Repr

namespace Kernel

/-- The file of a descriptor, by the one that owns it. -/
def file (k : Kernel) (fd : ℕ) : Option ℕ := k.table[fd]?.join

/-- A new descriptor has the lowest number that is free. -/
def lowest (k : Kernel) : ℕ := k.table.findIdx (· == none)

/-- A file is opened. -/
def openFile (k : Kernel) (owner : ℕ) : Kernel :=
  if k.lowest < k.table.length then { k with table := k.table.set k.lowest (some owner) }
  else { k with table := k.table ++ [some owner] }

/-- `close`; the number is free from then on. -/
def close (k : Kernel) (fd : ℕ) : Kernel := { k with table := k.table.set fd none }

/-- The kernel takes an operation from a ring. -/
def take (k : Kernel) (d : FdData) : Kernel :=
  if d.close then k.close d.fd else { k with met := k.met ++ [(d, k.file d.fd)] }

end Kernel

/-- The kernel, the owners of descriptors, and the pool that their operations go
through. -/
structure State where
  kernel : Kernel
  owners : List OwnedFdAsync
  pool : Pool.State FdData Empty Empty Unit
  /-- What each future of the pool borrows. -/
  lenders : List ℕ

/-- A pool of `n` workers. -/
def State.init (n : ℕ) : State := ⟨⟨[], []⟩, [], .init n, []⟩

/-- What an entry of a ring does with a descriptor. -/
def dataOf (entry : IoEntry FdData) : Option FdData :=
  match entry.op.t with
  | .cancel _ => none
  | .data d => some d

/-- A future that is not dropped borrows the `OwnedFdAsync`. -/
def State.isLent (s : State) (o : ℕ) : Bool :=
  (s.lenders.zip s.pool.futures).any fun (lender, fut) => lender == o && fut.phase != .dropped

/-- An operation other than the close. -/
def useOp (fd o : ℕ) : IoOperation FdData := ⟨.data ⟨fd, o, false⟩, .single⟩

/-- `IoOperation::close_forget`. -/
def closeForget (fd o : ℕ) : IoOperation FdData := ⟨.data ⟨fd, o, true⟩, .zero⟩

/-- The next step of the `drop` is that its call fails. -/
def State.closeFails (s : State) (o : ℕ) : Bool :=
  match s.owners[o]? with
  | none => false
  | some owner =>
    match owner.phase with
    | .dropping stage => (Pool.dispatch s.pool.nextId s.pool.workers
        (fun key => ⟨key, closeForget owner.fd o, none⟩) stage).map (·.2.2) == some .failed
    | _ => false

/-- The entries that the kernel takes when the worker `v` does `a`. -/
def State.takes (s : State) (v : ℕ) (a : Worker.Act FdData) : List FdData :=
  match s.pool.workers[v]? with
  | none => []
  | some m =>
    match Worker.step m.loop a with
    | none => []
    | some loop => (loop.ctx.kernel.drop m.loop.ctx.kernel.length).filterMap dataOf

/-- The `drop` goes on, or ends: with the close on its way, or closing by itself when
the call failed. -/
def dropped (s : State) (o fd : ℕ) : Pool.Stage → State
  | .sent _ _ => { s with owners := s.owners.set o ⟨fd, .gone⟩ }
  | .failed => { s with owners := s.owners.set o ⟨fd, .gone⟩, kernel := s.kernel.close fd }
  | stage => { s with owners := s.owners.set o ⟨fd, .dropping stage⟩ }

/-- What the program does with a descriptor, a step of the pool, or of a drop. -/
inductive Act
  /-- A file is opened; an `OwnedFdAsync` gets its descriptor. -/
  | openFile
  /-- A future for an operation on the descriptor. -/
  | make (o : ℕ)
  | drop (o : ℕ)
  /-- The next step of the `drop`. -/
  | close (o : ℕ)
  | worker (v : ℕ) (a : Worker.Act FdData)
  /-- A step with a future, or with the counter of `next_worker_id`. -/
  | client (a : Pool.Act FdData)

/-- The step is with a future, and makes none. -/
def isClient : Pool.Act FdData → Bool
  | .create _ | .worker _ _ => false
  | .start _ _ | .submit _ | .poll _ _ | .drop _ | .cancel _ | .tick => true

/-- One act. -/
def step (s : State) : Act → Option State
  | .openFile =>
    some { s with
      kernel := s.kernel.openFile s.owners.length
      owners := s.owners ++ [⟨s.kernel.lowest, .live⟩] }
  | .make o => do
    let owner ← s.owners[o]?
    if owner.phase = .live then
      let pool ← Pool.step s.pool (.create (useOp owner.fd o))
      some { s with pool, lenders := s.lenders ++ [o] }
    else none
  | .drop o => do
    let owner ← s.owners[o]?
    if owner.phase = .live ∧ s.isLent o = false then
      some { s with owners := s.owners.set o ⟨owner.fd, .dropping (.probing s.pool.workers.length)⟩ }
    else none
  | .close o => do
    let owner ← s.owners[o]?
    match owner.phase with
    | .dropping stage =>
      let submission := fun key => ⟨key, closeForget owner.fd o, none⟩
      let (nextId, workers, stage') ← Pool.dispatch s.pool.nextId s.pool.workers submission stage
      some (dropped { s with pool := { s.pool with nextId, workers } } o owner.fd stage')
    | _ => none
  | .worker v a => (Pool.step s.pool (.worker v a)).map fun pool =>
    { s with pool, kernel := (s.takes v a).foldl Kernel.take s.kernel }
  | .client a => if isClient a then (Pool.step s.pool a).map fun pool => { s with pool } else none

/-! ### The table of descriptors -/

namespace Kernel

variable {k : Kernel} {fd o : ℕ}

theorem file_lowest (k : Kernel) : k.file k.lowest = none := by
  unfold file
  by_cases h : k.lowest < k.table.length
  · have hfree : (k.table[k.lowest] == none) = true := @List.findIdx_getElem _ (· == none) k.table h
    rw [List.getElem?_eq_getElem h, eq_of_beq hfree]
    rfl
  · rw [List.getElem?_eq_none (Nat.le_of_not_lt h)]
    rfl

theorem file_openFile (k : Kernel) (o fd : ℕ) :
    (k.openFile o).file fd = if fd = k.lowest then some o else k.file fd := by
  unfold openFile file
  split
  · rename_i hlt
    rw [List.getElem?_set]
    by_cases h : k.lowest = fd
    · rw [if_pos h, if_pos h.symm, if_pos hlt]
      rfl
    · rw [if_neg h, if_neg (Ne.symm h)]
  · rename_i hge
    have hlen : k.lowest = k.table.length := Nat.le_antisymm List.findIdx_le_length (Nat.le_of_not_lt hge)
    rw [hlen, List.getElem?_append]
    by_cases h : fd < k.table.length
    · rw [if_pos h, if_neg (Nat.ne_of_lt h)]
    · rw [if_neg h, List.getElem?_singleton, List.getElem?_eq_none (Nat.le_of_not_lt h)]
      by_cases heq : fd = k.table.length
      · rw [if_pos heq, if_pos (by omega)]
        rfl
      · rw [if_neg heq, if_neg (by omega)]

theorem file_close (k : Kernel) (fd fd' : ℕ) : (k.close fd).file fd' = if fd' = fd then none else k.file fd' := by
  unfold close file
  rw [List.getElem?_set]
  by_cases h : fd = fd'
  · rw [if_pos h, if_pos h.symm]
    split <;> rfl
  · rw [if_neg h, if_neg (Ne.symm h)]

theorem file_take (k : Kernel) (d : FdData) (fd : ℕ) :
    (k.take d).file fd = if d.close = true ∧ d.fd = fd then none else k.file fd := by
  unfold take
  cases h : d.close
  · simp [file]
  · simp [file_close, eq_comm]

/-- Only a close changes the table. -/
theorem file_foldl_take (fd : ℕ) : ∀ (ds : List FdData) (k : Kernel),
    (ds.foldl take k).file fd = if ∃ d ∈ ds, d.close = true ∧ d.fd = fd then none else k.file fd
  | [], k => by simp
  | d :: ds, k => by
    rw [List.foldl_cons, file_foldl_take fd ds, file_take]
    by_cases h : ∃ d ∈ ds, d.close = true ∧ d.fd = fd
    · rw [if_pos h, if_pos (h.imp fun _ h => ⟨List.mem_cons_of_mem _ h.1, h.2⟩)]
    · rw [if_neg h]
      refine if_congr ⟨fun hd => ⟨d, List.mem_cons_self, hd⟩, ?_⟩ rfl rfl
      rintro ⟨d', hmem, hd'⟩
      rcases List.mem_cons.mp hmem with rfl | hmem
      · exact hd'
      · exact absurd ⟨d', hmem, hd'⟩ h

theorem file_of_foldl_take {ds : List FdData} {o : ℕ} (h : (ds.foldl take k).file fd = some o) :
    k.file fd = some o ∧ ∀ d ∈ ds, d.close = true → d.fd ≠ fd := by
  rw [file_foldl_take] at h
  split at h
  · cases h
  · rename_i hnot
    exact ⟨h, fun d hd hclose hfd => hnot ⟨d, hd, hclose, hfd⟩⟩

theorem file_foldl_take_of_some {ds : List FdData} {o : ℕ} (h : k.file fd = some o)
    (hnot : ∀ d ∈ ds, d.close = true → d.fd ≠ fd) : (ds.foldl take k).file fd = some o := by
  rw [file_foldl_take, if_neg]
  · exact h
  · rintro ⟨d, hd, hclose, hfd⟩
    exact hnot d hd hclose hfd

end Kernel

/-! ### The operations on their way -/

/-- What has been sent to a worker and is not on its ring. -/
def Member.pendingData (m : Member) : List FdData :=
  if m.closed then [] else m.loop.pending.filterMap fun submission => dataOf submission.entry

/-- What is on the ring of a worker and has not been submitted. -/
def Member.ringData (m : Member) : List FdData :=
  if m.closed then [] else m.loop.ctx.submission.filterMap dataOf

/-- What a worker has been sent and the kernel has not taken, if it has not
returned. -/
def Member.data (m : Member) : List FdData := m.pendingData ++ m.ringData

/-- The operations on their way to the kernel. -/
def State.onWay (s : State) : List FdData := s.pool.workers.flatMap Member.data

theorem dataOf_useOp (key : Key) (fd o : ℕ) : dataOf ⟨useOp fd o, key⟩ = some ⟨fd, o, false⟩ := rfl

section Ways

variable {m m' : Member}

theorem data_of_closed (h : m.closed = true) : Member.data m = [] := by
  rw [Member.data, Member.pendingData, Member.ringData, if_pos h, if_pos h]
  rfl

theorem data_of_open (h : m.closed = false) :
    Member.data m = (m.loop.pending.map IoSubmission.entry ++ m.loop.ctx.submission).filterMap dataOf := by
  rw [Member.data, Member.pendingData, Member.ringData, if_neg (by simp [h]), if_neg (by simp [h]),
    List.filterMap_append, List.filterMap_map]
  rfl

/-- What the step `a` of a worker does to the operations on their way, and which of
them the kernel takes. -/
inductive Took (m m' : Member) : List FdData → Prop
  | keep (hdata : (Member.data m').Perm (Member.data m)) : Took m m' []
  | submit (hopen : m'.closed = false) (hdata : Member.data m' = Member.pendingData m) : Took m m' (Member.ringData m)
  | returns (hclosed : m'.closed = true) : Took m m' []

variable {a : Worker.Act FdData} {w w' : Worker.State FdData Empty Empty}

/-- The entries of a ring stay until the kernel takes them all. -/
theorem kernel_step (h : Worker.step w a = some w') :
    w'.ctx.kernel = w.ctx.kernel ∨ w'.ctx = w.ctx.submit ∧ w'.pending = w.pending := by
  cases Worker.step_moves h with
  | submit hchannel hwaiting hctx => exact Or.inr ⟨hctx, Worker.pending_of_eq hchannel hwaiting⟩
  | item key resultCode more _ _ hctx =>
    obtain ⟨-, traffic, -, hctx⟩ := IoContext.completeItem_cases hctx
    exact Or.inl (by rw [hctx])
  | keep _ _ hctx | send _ _ _ _ hctx | receive _ _ _ _ hctx | receivePush _ _ _ hctx | receiveFull _ _ _ hctx
    | retryPush _ _ _ hctx | retryFull _ _ _ _ _ hctx | poll _ _ _ _ _ hctx =>
    exact Or.inl ((congrArg IoContext.kernel hctx).trans rfl)

/-- Until then they are the ones that the worker has been sent. -/
theorem ways_step (ha : a.isInner = true) (h : Worker.step w a = some w') (hkernel : w'.ctx.kernel = w.ctx.kernel) :
    (w'.pending.map IoSubmission.entry ++ w'.ctx.submission).Perm
      (w.pending.map IoSubmission.entry ++ w.ctx.submission) := by
  have hassigned : w'.assigned.Perm w.assigned := by
    refine (Worker.step_passes h).assigned.resolve_right ?_
    rintro ⟨submission, rfl, -⟩
    cases ha
  unfold Worker.State.assigned IoContext.pushed at hassigned
  rw [hkernel] at hassigned
  have hperm := List.perm_append_comm_assoc _ _ _ |>.symm.trans (hassigned.trans (List.perm_append_comm_assoc _ _ _))
  exact (List.perm_append_left_iff _).mp hperm

/-- The worker has returned from its loop. -/
def Over (w : Worker.State FdData Empty Empty) : Prop := w.pc = .returned ∨ w.pc = .stopped

theorem closed_iff : m.closed = true ↔ Over m.loop := by
  unfold Pool.Member.closed Over
  cases m.loop.pc <;> simp

/-- Such a worker does no more, and one that returns takes nothing. -/
theorem over_next (h : Worker.Goes w w') (hover : Over w ∨ Over w') : Over w' ∧ w'.ctx.kernel = w.ctx.kernel := by
  unfold Over at hover ⊢
  cases h with
  | complete hpc => cases hshould : w.shouldCompleteIo <;> simp [hpc, hshould] at hover
  | retryNone hpc | retryPush _ _ hpc | retryFull _ _ hpc | recvNone hpc | submit hpc | shutdownRecvNone hpc
    | blockingSubmit hpc | shutdownComplete hpc => simp [hpc] at hover
  | receive msg channel hpc =>
    cases msg with
    | kill => exact ⟨Or.inl rfl, rfl⟩
    | submitIo | shutdown | other => simp [hpc, Worker.receive] at hover
  | shutdownReceive msg channel hpc =>
    cases msg with
    | kill => exact ⟨Or.inl rfl, rfl⟩
    | submitIo | shutdown | other => simp [hpc, Worker.shutdownReceive] at hover
  | stop => exact ⟨Or.inr rfl, rfl⟩

theorem over_step (ha : a.isInner = true) (h : Worker.step w a = some w') (hover : Over w ∨ Over w') :
    Over w' ∧ w'.ctx.kernel = w.ctx.kernel := by
  cases Worker.step_cases h with
  | send msg => exact ⟨hover.elim id id, rfl⟩
  | pollKey => cases ha
  | interrupted hpc | events _ _ _ hpc | enter _ hpc | loop _ hpc | stay hpc =>
    simp [Over, Worker.State.loop, hpc] at hover
  | item _ _ _ ctx hpc => rcases hpc with ⟨hpc, -⟩ | hpc <;> simp [Over, hpc] at hover
  | leave => exact ⟨Or.inl rfl, rfl⟩
  | next _ hnext => exact over_next (Worker.next_cases hnext) hover

/-- What a step of a worker does to the operations on their way. -/
theorem took_of_step {m : Member} (ha : a.isInner = true) (h : Worker.step m.loop a = some w') :
    Took m { m with loop := w' } ((w'.ctx.kernel.drop m.loop.ctx.kernel.length).filterMap dataOf) := by
  by_cases hover : Over m.loop ∨ Over w'
  · obtain ⟨hover', hkernel⟩ := over_step ha h hover
    have hclosed : Pool.Member.closed { m with loop := w' } = true := closed_iff.mpr hover'
    rw [hkernel, List.drop_length]
    cases hopen : m.closed with
    | true => exact .keep (by rw [data_of_closed hclosed, data_of_closed hopen])
    | false => exact .returns hclosed
  · rw [not_or] at hover
    have hopen : m.closed = false := Bool.eq_false_iff.mpr fun h => hover.1 (closed_iff.mp h)
    have hopen' : Pool.Member.closed { m with loop := w' } = false :=
      Bool.eq_false_iff.mpr fun h => hover.2 (closed_iff.mp h)
    rcases kernel_step h with hkernel | ⟨hctx, hpending⟩
    · rw [hkernel, List.drop_length]
      refine .keep ?_
      rw [data_of_open hopen, data_of_open hopen']
      exact (ways_step ha h hkernel).filterMap _
    · have htakes : (w'.ctx.kernel.drop m.loop.ctx.kernel.length).filterMap dataOf = Member.ringData m := by
        rw [hctx, Member.ringData, if_neg (by simp [hopen])]
        simp [IoContext.submit]
      rw [htakes]
      refine .submit hopen' ?_
      rw [data_of_open hopen', hctx, hpending, Member.pendingData, if_neg (by simp [hopen])]
      simp [IoContext.submit]

end Ways

section Pools

variable {workers workers' : List Member} {v : ℕ} {m m' : Member}

/-- The operations on their way to the other workers. -/
def others (workers : List Member) (v : ℕ) : List FdData := (workers.eraseIdx v).flatMap Member.data

theorem ways_perm (hm : workers[v]? = some m) :
    (workers.flatMap Member.data).Perm (Member.data m ++ others workers v) := Wakers.flatMap_perm Member.data hm

theorem ways_set (hm : workers[v]? = some m) (m' : Member) :
    ((workers.set v m').flatMap Member.data).Perm (Member.data m' ++ others workers v) :=
  Wakers.flatMap_set_perm Member.data hm m'

theorem ways_set_of_eq (hm : workers[v]? = some m) (h : Member.data m' = Member.data m) :
    ((workers.set v m').flatMap Member.data).Perm (workers.flatMap Member.data) := by
  have hset := ways_set hm m'
  rw [h] at hset
  exact hset.trans (ways_perm hm).symm

/-- What is sent is on its way. -/
theorem ways_send (hm : workers[v]? = some m) (hopen : m.closed = false) (submission : IoSubmission FdData) :
    ((workers.set v { m with
        loop := { m.loop with channel := m.loop.channel ++ [.submitIo submission] } }).flatMap Member.data).Perm
      ((dataOf submission.entry).toList ++ workers.flatMap Member.data) := by
  refine (ways_set hm _).trans ?_
  refine List.Perm.trans ?_ ((ways_perm hm).symm.append_left _)
  rw [← List.append_assoc]
  refine List.Perm.append_right _ ?_
  rw [data_of_open hopen, data_of_open (show Pool.Member.closed { m with loop := { m.loop with
    channel := m.loop.channel ++ [.submitIo submission] } } = false from hopen)]
  have hpending : (Worker.State.pending { m.loop with channel := m.loop.channel ++ [.submitIo submission] }).Perm
      (submission :: m.loop.pending) := by
    simp only [Worker.State.pending, List.filterMap_append, List.append_assoc]
    exact List.perm_middle
  refine (((hpending.map IoSubmission.entry).append_right _).filterMap dataOf).trans ?_
  rw [List.map_cons, List.cons_append, List.filterMap_cons]
  cases dataOf submission.entry <;> rfl

/-- What a step of a call of `submit_io_operation` does to the operations on their
way. -/
theorem dispatch_ways {nextId nextId' : ℕ} {submission : Key → IoSubmission FdData} {stage stage' : Pool.Stage}
    (h : Pool.dispatch nextId workers submission stage = some (nextId', workers', stage')) :
    (∀ id key, stage' ≠ .sent id key) ∧ (workers'.flatMap Member.data).Perm (workers.flatMap Member.data) ∨
      ∃ id key, stage' = .sent id key ∧ (workers'.flatMap Member.data).Perm
        ((dataOf (submission key).entry).toList ++ workers.flatMap Member.data) := by
  cases stage with
  | probing left =>
    cases left <;> cases h <;> exact Or.inl ⟨by simp, .refl _⟩
  | probed left id =>
    cases hm : workers[id]? with
    | none =>
      simp only [Pool.dispatch, hm] at h
      cases h
      exact Or.inl ⟨by simp, .refl _⟩
    | some m =>
      simp only [Pool.dispatch, hm] at h
      cases h
      refine Or.inl ⟨fun id key => ?_, .refl _⟩
      split <;> simp
  | chosen id =>
    cases hm : workers[id]? with
    | none =>
      simp only [Pool.dispatch, hm] at h
      cases h
    | some m =>
      simp only [Pool.dispatch, hm] at h
      cases h
      exact Or.inl ⟨by simp, ways_set_of_eq hm rfl⟩
  | drawn id key =>
    cases hm : workers[id]? with
    | none =>
      simp only [Pool.dispatch, hm] at h
      cases h
    | some m =>
      simp only [Pool.dispatch, hm] at h
      split at h <;> cases h
      · exact Or.inl ⟨by simp, .refl _⟩
      · rename_i hopen
        exact Or.inr ⟨id, key, rfl, ways_send hm (Bool.not_eq_true _ ▸ hopen) (submission key)⟩
  | sent | failed => cases h

end Pools

/-! ### Futures -/

/-- A future of an operation on a descriptor. -/
abbrev IoFuture := Pool.IoOperationFuture FdData Empty Unit

/-- The future has not submitted its operation. -/
def Holds (fut : IoFuture) (op : IoOperation FdData) : Prop :=
  fut.phase = .created ∧ fut.operation = some op ∨ ∃ stage, fut.phase = .polling (op, stage)

/-- A future after a step, next to what it was. -/
structure Follows (fut fut' : IoFuture) : Prop where
  dropped : fut'.phase ≠ .dropped → fut.phase ≠ .dropped
  holds : ∀ op, Holds fut' op → Holds fut op

theorem Follows.refl (fut : IoFuture) : Follows fut fut := ⟨id, fun _ => id⟩

theorem follows_start {fut : IoFuture} {op : IoOperation FdData} {stage : Pool.Stage} {w : Waker}
    (hphase : fut.phase = .created) (hop : fut.operation = some op) :
    Follows fut { fut with operation := none, phase := .polling (op, stage), waker := w } := by
  refine ⟨fun _ => by simp [hphase], fun op' h => Or.inl ⟨hphase, ?_⟩⟩
  rcases h with ⟨h, -⟩ | ⟨stage', h⟩ <;> cases h
  exact hop

theorem follows_advance {fut : IoFuture} {op : IoOperation FdData} {stage : Pool.Stage}
    (hphase : fut.phase = .polling (op, stage)) (e : WorkerDispatchError FdData) (stage' : Pool.Stage) :
    Follows fut (fut.advance op e stage') := by
  refine ⟨fun _ => by simp [hphase], fun op' h => Or.inr ?_⟩
  unfold Pool.IoOperationFuture.advance at h
  split at h
  all_goals
    rcases h with ⟨h, -⟩ | ⟨stage'', h⟩ <;> cases h
  exact ⟨stage, hphase⟩

theorem follows_answer {fut : IoFuture} (hphase : fut.phase = .pending) (w : Waker)
    (result : Poll (Except (IoError FdData Empty) Unit)) : Follows fut (fut.answer w result) := by
  refine ⟨fun _ => by simp [hphase], fun op h => ?_⟩
  unfold Pool.IoOperationFuture.answer at h
  cases hpending : result.isPending <;> simp [Holds, hpending] at h

theorem follows_drop (fut : IoFuture) (n : ℕ) : Follows fut (fut.drop n) := by
  refine ⟨fun h => absurd rfl h, fun op h => ?_⟩
  rcases h with ⟨h, -⟩ | ⟨stage, h⟩ <;> cases h

/-- The pool, with the futures in it. -/
abbrev Clients := Pool.State FdData Empty Empty Unit

/-- What a step with a future does. -/
structure Served (p p' : Clients) : Prop where
  ways : (p'.workers.flatMap Member.data).Perm (p.workers.flatMap Member.data) ∨
    ∃ (f : ℕ) (fut : IoFuture) (op : IoOperation FdData) (key : Key), p.futures[f]? = some fut ∧ Holds fut op ∧
      (p'.workers.flatMap Member.data).Perm ((dataOf ⟨op, key⟩).toList ++ p.workers.flatMap Member.data)
  length : p'.futures.length = p.futures.length
  futures : ∀ (f : ℕ) (fut' : IoFuture), p'.futures[f]? = some fut' →
    ∃ fut, p.futures[f]? = some fut ∧ Follows fut fut'

theorem follows_set {p : Clients} {f : ℕ} {fut fut' : IoFuture} (hf : p.futures[f]? = some fut)
    (h : Follows fut fut') (g : ℕ) (other' : IoFuture) (hg : (p.futures.set f fut')[g]? = some other') :
    ∃ other, p.futures[g]? = some other ∧ Follows other other' := by
  rcases Wakers.getElem?_set_cases hg with ⟨rfl, rfl⟩ | ⟨-, hg⟩
  · exact ⟨fut, hf, h⟩
  · exact ⟨other', hg, .refl _⟩

theorem served_step {p p' : Clients} {a : Pool.Act FdData} (ha : isClient a = true) (h : Pool.step p a = some p') :
    Served p p' := by
  cases a with
  | create | worker => cases ha
  | start f w =>
    obtain ⟨fut, hf, h⟩ := Option.bind_eq_some_iff.mp h
    split at h
    · rename_i op hphase hop
      cases h
      exact ⟨Or.inl (.refl _), List.length_set, follows_set hf (follows_start hphase hop)⟩
    · cases h
  | submit f =>
    obtain ⟨fut, hf, h⟩ := Option.bind_eq_some_iff.mp h
    split at h
    · rename_i op stage hphase
      obtain ⟨⟨nextId, workers, stage'⟩, hd, h⟩ := Option.bind_eq_some_iff.mp h
      cases h
      refine ⟨?_, List.length_set, follows_set hf (follows_advance hphase _ _)⟩
      rcases dispatch_ways hd with ⟨-, hways⟩ | ⟨id, key, -, hways⟩
      · exact Or.inl hways
      · exact Or.inr ⟨f, fut, op, key, hf, Or.inr ⟨stage, hphase⟩, hways⟩
    · cases h
  | poll f w =>
    obtain ⟨fut, hf, h⟩ := Option.bind_eq_some_iff.mp h
    split at h
    · rename_i v key hphase hhandle
      obtain ⟨m, hm, h⟩ := Option.bind_eq_some_iff.mp h
      cases h
      exact ⟨Or.inl (ways_set_of_eq hm rfl), List.length_set, follows_set hf (follows_answer hphase w _)⟩
    · cases h
  | drop f =>
    obtain ⟨fut, hf, h⟩ := Option.bind_eq_some_iff.mp h
    split at h <;> cases h
    exact ⟨Or.inl (.refl _), List.length_set, follows_set hf (follows_drop fut _)⟩
  | cancel f =>
    obtain ⟨fut, hf, h⟩ := Option.bind_eq_some_iff.mp h
    split at h
    · rename_i stage v target hcancel hhandle
      obtain ⟨⟨nextId, workers, stage'⟩, hd, h⟩ := Option.bind_eq_some_iff.mp h
      cases h
      refine ⟨Or.inl ?_, List.length_set, follows_set hf ⟨id, fun _ => id⟩⟩
      rcases dispatch_ways hd with ⟨-, hways⟩ | ⟨id, key, -, hways⟩
      · exact hways
      · exact hways
    · cases h
  | tick =>
    cases h
    exact ⟨Or.inl (.refl _), rfl, fun f fut hf => ⟨fut, hf, .refl _⟩⟩

/-! ### What a step does -/

/-- What each act leads to. -/
inductive Goes (s : State) : Act → State → Prop
  | openFile : Goes s .openFile
      ⟨s.kernel.openFile s.owners.length, s.owners ++ [⟨s.kernel.lowest, .live⟩], s.pool, s.lenders⟩
  | make {o : ℕ} {owner : OwnedFdAsync} (ho : s.owners[o]? = some owner) (hlive : owner.phase = .live) :
      Goes s (.make o) ⟨s.kernel, s.owners,
        ⟨s.pool.nextId, s.pool.workers, s.pool.futures ++ [.new (useOp owner.fd o)]⟩, s.lenders ++ [o]⟩
  | drop {o : ℕ} {owner : OwnedFdAsync} {stage : Pool.Stage} (ho : s.owners[o]? = some owner)
      (hlive : owner.phase = .live) (hlent : s.isLent o = false) :
      Goes s (.drop o) ⟨s.kernel, s.owners.set o ⟨owner.fd, .dropping stage⟩, s.pool, s.lenders⟩
  | search {o : ℕ} {owner : OwnedFdAsync} {stage stage' : Pool.Stage} {pool : Clients}
      (ho : s.owners[o]? = some owner) (hphase : owner.phase = .dropping stage) (hfails : s.closeFails o = false)
      (hways : (pool.workers.flatMap Member.data).Perm s.onWay) (hfutures : pool.futures = s.pool.futures) :
      Goes s (.close o) ⟨s.kernel, s.owners.set o ⟨owner.fd, .dropping stage'⟩, pool, s.lenders⟩
  | send {o : ℕ} {owner : OwnedFdAsync} {stage : Pool.Stage} {pool : Clients}
      (ho : s.owners[o]? = some owner) (hphase : owner.phase = .dropping stage) (hfails : s.closeFails o = false)
      (hways : (pool.workers.flatMap Member.data).Perm (⟨owner.fd, o, true⟩ :: s.onWay))
      (hfutures : pool.futures = s.pool.futures) :
      Goes s (.close o) ⟨s.kernel, s.owners.set o ⟨owner.fd, .gone⟩, pool, s.lenders⟩
  | fails {o : ℕ} {owner : OwnedFdAsync} {stage : Pool.Stage} {pool : Clients}
      (ho : s.owners[o]? = some owner) (hphase : owner.phase = .dropping stage) (hfails : s.closeFails o = true)
      (hways : (pool.workers.flatMap Member.data).Perm s.onWay) (hfutures : pool.futures = s.pool.futures) :
      Goes s (.close o) ⟨s.kernel.close owner.fd, s.owners.set o ⟨owner.fd, .gone⟩, pool, s.lenders⟩
  | worker {v : ℕ} {a : Worker.Act FdData} {m : Member} {w : Worker.State FdData Empty Empty}
      (hm : s.pool.workers[v]? = some m) (hw : Worker.step m.loop a = some w)
      (htook : Took m { m with loop := w } (s.takes v a)) :
      Goes s (.worker v a) ⟨(s.takes v a).foldl Kernel.take s.kernel, s.owners,
        ⟨s.pool.nextId, s.pool.workers.set v { m with loop := w }, s.pool.futures⟩, s.lenders⟩
  | client {a : Pool.Act FdData} {pool : Clients} (hserved : Served s.pool pool) :
      Goes s (.client a) ⟨s.kernel, s.owners, pool, s.lenders⟩

theorem goes_of_step {s s' : State} {a : Act} (h : step s a = some s') : Goes s a s' := by
  cases a with
  | openFile =>
    cases h
    exact .openFile
  | make o =>
    obtain ⟨owner, ho, h⟩ := Option.bind_eq_some_iff.mp h
    split at h
    · rename_i hlive
      cases h
      exact .make ho hlive
    · cases h
  | drop o =>
    obtain ⟨owner, ho, h⟩ := Option.bind_eq_some_iff.mp h
    split at h
    · rename_i hlive
      cases h
      exact .drop ho hlive.1 hlive.2
    · cases h
  | close o =>
    obtain ⟨owner, ho, h⟩ := Option.bind_eq_some_iff.mp h
    split at h
    · rename_i stage hphase
      obtain ⟨⟨nextId, workers, stage'⟩, hd, h⟩ := Option.bind_eq_some_iff.mp h
      cases h
      have hfails : s.closeFails o = (some stage' == some .failed) := by
        simp only [State.closeFails, ho, hphase, hd, Option.map_some]
      rcases dispatch_ways hd with ⟨hsent, hways⟩ | ⟨id, key, rfl, hways⟩
      · cases stage' with
        | sent id key => exact absurd rfl (hsent id key)
        | failed => exact .fails ho hphase hfails hways rfl
        | probing | probed | chosen | drawn => exact .search ho hphase hfails hways rfl
      · exact .send ho hphase hfails hways rfl
    · cases h
  | worker v a =>
    obtain ⟨pool, hpool, rfl⟩ := Option.map_eq_some_iff.mp h
    obtain ⟨m, hm, hpool⟩ := Option.bind_eq_some_iff.mp hpool
    split at hpool
    · rename_i ha
      obtain ⟨w, hw, hpool⟩ := Option.bind_eq_some_iff.mp hpool
      cases hpool
      have htakes : s.takes v a = (w.ctx.kernel.drop m.loop.ctx.kernel.length).filterMap dataOf := by
        simp only [State.takes, hm, hw]
      exact .worker hm hw (htakes ▸ took_of_step ha hw)
    · cases hpool
  | client a =>
    simp only [step] at h
    split at h
    · rename_i ha
      obtain ⟨pool, hpool, rfl⟩ := Option.map_eq_some_iff.mp h
      exact .client (served_step ha hpool)
    · cases h

/-! ### The invariant -/

/-- The close of the descriptor of an owner. -/
def isCloseOf (o : ℕ) (d : FdData) : Bool := d.close && d.owner == o

/-- An operation names the descriptor of its owner; a close is the owner's last, and
the file is still there. -/
def DataOk (k : Kernel) (owners : List OwnedFdAsync) (d : FdData) : Prop :=
  ∃ owner, owners[d.owner]? = some owner ∧ owner.fd = d.fd ∧
    (d.close = true → owner.phase = .gone ∧ k.file d.fd = some d.owner)

/-- What every reachable state is like. -/
structure Inv (s : State) : Prop where
  table : ∀ fd o, s.kernel.file fd = some o → ∃ owner, s.owners[o]? = some owner ∧ owner.fd = fd
  opened : ∀ o owner, s.owners[o]? = some owner → owner.phase ≠ .gone → s.kernel.file owner.fd = some o
  data : ∀ d ∈ s.onWay, DataOk s.kernel s.owners d
  /-- No descriptor is closed twice. -/
  once : ∀ o, s.onWay.countP (isCloseOf o) ≤ 1
  lenders : s.lenders.length = s.pool.futures.length
  futures : ∀ (f : ℕ) (fut : IoFuture) (o : ℕ), s.pool.futures[f]? = some fut → s.lenders[f]? = some o →
    fut.phase ≠ .dropped →
      ∃ owner, s.owners[o]? = some owner ∧ owner.phase = .live ∧ ∀ op, Holds fut op → op = useOp owner.fd o

theorem onWay_init (n : ℕ) : (State.init n).onWay = [] := by
  simp [State.onWay, State.init, Pool.State.init, Member.data, Member.pendingData, Member.ringData,
    Pool.Member.closed, Worker.State.init, Worker.State.pending, IoContext.new]

theorem inv_init (n : ℕ) : Inv (.init n) :=
  ⟨by simp [State.init, Kernel.file], by simp [State.init], by simp [onWay_init], by simp [onWay_init], rfl,
    by simp [State.init]⟩

section Inv

variable {s s' : State} {o : ℕ} {owner : OwnedFdAsync}

theorem getElem?_append_of_some {α : Type} {l l' : List α} {i : ℕ} {x : α} (h : l[i]? = some x) :
    (l ++ l')[i]? = some x := (List.getElem?_append_left (List.getElem?_eq_some_iff.mp h).1).trans h

theorem Kernel.file_openFile_of_some {k : Kernel} {fd o o' : ℕ} (h : k.file fd = some o') :
    (k.openFile o).file fd = some o' := by
  rw [Kernel.file_openFile, if_neg]
  · exact h
  · rintro rfl
    rw [k.file_lowest] at h
    cases h

theorem inv_openFile (hs : Inv s) :
    Inv ⟨s.kernel.openFile s.owners.length, s.owners ++ [⟨s.kernel.lowest, .live⟩], s.pool, s.lenders⟩ := by
  refine ⟨fun fd o hfile => ?_, fun o owner ho hphase => ?_, fun d hd => ?_, hs.once, hs.lenders,
    fun f fut o hf ho hdropped => ?_⟩
  · rw [Kernel.file_openFile] at hfile
    split at hfile
    · cases hfile
      exact ⟨_, List.getElem?_concat_length, Eq.symm ‹_›⟩
    · obtain ⟨owner, ho, hfd⟩ := hs.table fd o hfile
      exact ⟨owner, getElem?_append_of_some ho, hfd⟩
  · rcases Nat.lt_or_ge o s.owners.length with hlt | hge
    · rw [List.getElem?_append_left hlt] at ho
      exact Kernel.file_openFile_of_some (hs.opened o owner ho hphase)
    · rw [List.getElem?_append_right hge, List.getElem?_singleton] at ho
      split at ho <;> cases ho
      rw [Kernel.file_openFile, if_pos rfl]
      exact congrArg some (by omega)
  · obtain ⟨owner, ho, hfd, hclose⟩ := hs.data d hd
    exact ⟨owner, getElem?_append_of_some ho, hfd, fun h =>
      ⟨(hclose h).1, Kernel.file_openFile_of_some (hclose h).2⟩⟩
  · obtain ⟨owner, ho, hlive⟩ := hs.futures f fut o hf ho hdropped
    exact ⟨owner, getElem?_append_of_some ho, hlive⟩

theorem inv_make (hs : Inv s) (ho : s.owners[o]? = some owner) (hlive : owner.phase = .live) :
    Inv ⟨s.kernel, s.owners, ⟨s.pool.nextId, s.pool.workers, s.pool.futures ++ [.new (useOp owner.fd o)]⟩,
      s.lenders ++ [o]⟩ := by
  refine ⟨hs.table, hs.opened, hs.data, hs.once, by simp [hs.lenders], fun f fut o' hf hf' hdropped => ?_⟩
  rcases Nat.lt_or_ge f s.pool.futures.length with hlt | hge
  · rw [List.getElem?_append_left hlt] at hf
    rw [List.getElem?_append_left (hs.lenders ▸ hlt)] at hf'
    exact hs.futures f fut o' hf hf' hdropped
  · rw [List.getElem?_append_right hge, List.getElem?_singleton] at hf
    rw [List.getElem?_append_right (hs.lenders ▸ hge), List.getElem?_singleton] at hf'
    split at hf <;> cases hf
    split at hf' <;> cases hf'
    refine ⟨owner, ho, hlive, fun op hop => ?_⟩
    rcases hop with ⟨-, hop⟩ | ⟨stage, hop⟩ <;> cases hop
    rfl

/-- A step with a future sends at most an operation on a descriptor that it borrows. -/
theorem ways_client {pool : Clients} (hs : Inv s) (hserved : Served s.pool pool) :
    (pool.workers.flatMap Member.data).Perm s.onWay ∨ ∃ (o : ℕ) (owner : OwnedFdAsync), s.owners[o]? = some owner ∧
      owner.phase = .live ∧ (pool.workers.flatMap Member.data).Perm (⟨owner.fd, o, false⟩ :: s.onWay) := by
  rcases hserved.ways with hways | ⟨f, fut, op, key, hf, hholds, hways⟩
  · exact Or.inl hways
  · have hlt : f < s.lenders.length := hs.lenders ▸ (List.getElem?_eq_some_iff.mp hf).1
    have hdropped : fut.phase ≠ .dropped := by
      rcases hholds with ⟨hphase, -⟩ | ⟨stage, hphase⟩ <;> simp [hphase]
    obtain ⟨owner, ho, hlive, hop⟩ := hs.futures f fut _ hf (List.getElem?_eq_getElem hlt) hdropped
    rw [hop op hholds, dataOf_useOp] at hways
    exact Or.inr ⟨_, owner, ho, hlive, hways⟩

theorem inv_client {pool : Clients} (hs : Inv s) (hserved : Served s.pool pool) :
    Inv ⟨s.kernel, s.owners, pool, s.lenders⟩ := by
  have hways := ways_client hs hserved
  refine ⟨hs.table, hs.opened, fun d hd => ?_, fun o => ?_, hs.lenders.trans hserved.length.symm,
    fun f fut' o hf ho hdropped => ?_⟩
  · rcases hways with hways | ⟨o, owner, ho, -, hways⟩
    · exact hs.data d (hways.mem_iff.mp hd)
    · rcases List.mem_cons.mp (hways.mem_iff.mp hd) with rfl | hd
      · exact ⟨owner, ho, rfl, by simp⟩
      · exact hs.data d hd
  · rcases hways with hways | ⟨o', owner, -, -, hways⟩
    · exact (hways.countP_eq _).trans_le (hs.once o)
    · refine (hways.countP_eq _).trans_le ?_
      rw [List.countP_cons_of_neg (by simp [isCloseOf])]
      exact hs.once o
  · obtain ⟨fut, hf, hfollows⟩ := hserved.futures f fut' hf
    obtain ⟨owner, ho, hlive, hop⟩ := hs.futures f fut o hf ho (hfollows.dropped hdropped)
    exact ⟨owner, ho, hlive, fun op h => hop op (hfollows.holds op h)⟩

theorem owners_set {phase : Phase} {o' : ℕ} {x : OwnedFdAsync}
    (h : (s.owners.set o ⟨owner.fd, phase⟩)[o']? = some x) :
    o' = o ∧ x = ⟨owner.fd, phase⟩ ∨ o' ≠ o ∧ s.owners[o']? = some x := Wakers.getElem?_set_cases h

theorem owners_of_set (phase : Phase) {o' : ℕ} {x : OwnedFdAsync} (ho : s.owners[o]? = some owner)
    (h : s.owners[o']? = some x) : ∃ x', (s.owners.set o ⟨owner.fd, phase⟩)[o']? = some x' ∧ x'.fd = x.fd ∧
      (o' ≠ o → x' = x) := by
  by_cases heq : o' = o
  · subst heq
    cases ho.symm.trans h
    exact ⟨_, List.getElem?_set_self (List.getElem?_eq_some_iff.mp ho).1, rfl, fun h => absurd rfl h⟩
  · exact ⟨x, (List.getElem?_set_ne (Ne.symm heq)).trans h, rfl, fun _ => rfl⟩

/-- The futures after a step in the `drop` of one that none of them borrows. -/
theorem futures_set {phase : Phase} {pool : Clients} (hs : Inv s) (ho : s.owners[o]? = some owner)
    (hfutures : pool.futures = s.pool.futures)
    (hlent : ∀ (f : ℕ) (fut : IoFuture), s.pool.futures[f]? = some fut → s.lenders[f]? = some o →
      fut.phase = .dropped)
    (f : ℕ) (fut : IoFuture) (o' : ℕ) (hf : pool.futures[f]? = some fut) (hlender : s.lenders[f]? = some o')
    (hdropped : fut.phase ≠ .dropped) : ∃ x, (s.owners.set o ⟨owner.fd, phase⟩)[o']? = some x ∧ x.phase = .live ∧
      ∀ op, Holds fut op → op = useOp x.fd o' := by
  rw [hfutures] at hf
  have hne : o' ≠ o := by
    rintro rfl
    exact hdropped (hlent f fut hf hlender)
  obtain ⟨x, hx, hlive, hop⟩ := hs.futures f fut o' hf hlender hdropped
  obtain ⟨x', hx', -, heq⟩ := owners_of_set phase ho hx
  cases heq hne
  exact ⟨x, hx', hlive, hop⟩

theorem not_lent_of_dropping {stage : Pool.Stage} (hs : Inv s) (ho : s.owners[o]? = some owner)
    (hphase : owner.phase = .dropping stage) (f : ℕ) (fut : IoFuture) (hf : s.pool.futures[f]? = some fut)
    (hlender : s.lenders[f]? = some o) : fut.phase = .dropped := by
  by_contra hdropped
  obtain ⟨x, hx, hlive, -⟩ := hs.futures f fut o hf hlender hdropped
  cases ho.symm.trans hx
  cases hphase.symm.trans hlive

theorem not_lent_of_isLent (hlent : s.isLent o = false) (f : ℕ) (fut : IoFuture)
    (hf : s.pool.futures[f]? = some fut) (hlender : s.lenders[f]? = some o) : fut.phase = .dropped := by
  have hmem : (o, fut) ∈ s.lenders.zip s.pool.futures := by
    refine List.mem_of_getElem? (i := f) ?_
    rw [List.getElem?_zip_eq_some]
    exact ⟨hlender, hf⟩
  have hnot := List.any_eq_false.mp hlent (o, fut) hmem
  simpa using hnot

theorem inv_dropping {stage : Pool.Stage} {pool : Clients} (hs : Inv s) (ho : s.owners[o]? = some owner)
    (hphase : owner.phase ≠ .gone) (hways : (pool.workers.flatMap Member.data).Perm s.onWay)
    (hfutures : pool.futures = s.pool.futures)
    (hlent : ∀ (f : ℕ) (fut : IoFuture), s.pool.futures[f]? = some fut → s.lenders[f]? = some o →
      fut.phase = .dropped) :
    Inv ⟨s.kernel, s.owners.set o ⟨owner.fd, .dropping stage⟩, pool, s.lenders⟩ := by
  refine ⟨fun fd o' hfile => ?_, fun o' x hx hgone => ?_, fun d hd => ?_,
    fun o' => (hways.countP_eq _).trans_le (hs.once o'), hs.lenders.trans (congrArg _ hfutures.symm),
    futures_set hs ho hfutures hlent⟩
  · obtain ⟨x, hx, hfd⟩ := hs.table fd o' hfile
    obtain ⟨x', hx', hfd', -⟩ := owners_of_set _ ho hx
    exact ⟨x', hx', hfd'.trans hfd⟩
  · rcases owners_set hx with ⟨rfl, rfl⟩ | ⟨-, hx⟩
    · exact hs.opened o' owner ho hphase
    · exact hs.opened o' x hx hgone
  · obtain ⟨x, hx, hfd, hclose⟩ := hs.data d (hways.mem_iff.mp hd)
    obtain ⟨x', hx', hfd', heq⟩ := owners_of_set _ ho hx
    refine ⟨x', hx', hfd'.trans hfd, fun h => ⟨?_, (hclose h).2⟩⟩
    rw [heq]
    · exact (hclose h).1
    · rintro heq
      rw [heq] at hx
      cases ho.symm.trans hx
      exact hphase (hclose h).1

/-- The `drop` has ended: the close is on its way, or the descriptor is closed. -/
theorem inv_gone {stage : Pool.Stage} {pool : Clients} {kernel : Kernel} (hs : Inv s) (ho : s.owners[o]? = some owner)
    (hphase : owner.phase = .dropping stage) (hfutures : pool.futures = s.pool.futures)
    (hends : (pool.workers.flatMap Member.data).Perm (⟨owner.fd, o, true⟩ :: s.onWay) ∧ kernel = s.kernel ∨
      (pool.workers.flatMap Member.data).Perm s.onWay ∧ kernel = s.kernel.close owner.fd) :
    Inv ⟨kernel, s.owners.set o ⟨owner.fd, .gone⟩, pool, s.lenders⟩ := by
  have hopened : s.kernel.file owner.fd = some o := hs.opened o owner ho (by simp [hphase])
  -- nothing but the descriptor changes
  have hfile : ∀ fd o', kernel.file fd = some o' → s.kernel.file fd = some o' := by
    intro fd o' h
    rcases hends with ⟨-, rfl⟩ | ⟨-, rfl⟩
    · exact h
    · rw [Kernel.file_close] at h
      split at h
      · cases h
      · exact h
  have hstays : ∀ fd o', o' ≠ o → s.kernel.file fd = some o' → kernel.file fd = some o' := by
    intro fd o' hne h
    rcases hends with ⟨-, rfl⟩ | ⟨-, rfl⟩
    · exact h
    · rw [Kernel.file_close, if_neg]
      · exact h
      · rintro rfl
        exact hne (Option.some.inj (h.symm.trans hopened))
  -- no close is on its way yet
  have hnone : ∀ d ∈ s.onWay, isCloseOf o d = false := by
    intro d hd
    by_contra hclose
    simp only [isCloseOf, Bool.not_eq_false, Bool.and_eq_true, beq_iff_eq] at hclose
    obtain ⟨x, hx, -, hgone⟩ := hs.data d hd
    rw [hclose.2] at hx
    cases ho.symm.trans hx
    cases hphase.symm.trans (hgone hclose.1).1
  refine ⟨fun fd o' h => ?_, fun o' x hx hgone => ?_, fun d hd => ?_, fun o' => ?_,
    hs.lenders.trans (congrArg _ hfutures.symm), futures_set hs ho hfutures (not_lent_of_dropping hs ho hphase)⟩
  · obtain ⟨x, hx, hfd⟩ := hs.table fd o' (hfile fd o' h)
    obtain ⟨x', hx', hfd', -⟩ := owners_of_set _ ho hx
    exact ⟨x', hx', hfd'.trans hfd⟩
  · rcases owners_set hx with ⟨-, rfl⟩ | ⟨hne, hx⟩
    · exact absurd rfl hgone
    · exact hstays _ o' hne (hs.opened o' x hx hgone)
  · have hold : d ∈ s.onWay → DataOk kernel (s.owners.set o ⟨owner.fd, .gone⟩) d := by
      intro hd
      obtain ⟨x, hx, hfd, hclose⟩ := hs.data d hd
      obtain ⟨x', hx', hfd', heq⟩ := owners_of_set _ ho hx
      refine ⟨x', hx', hfd'.trans hfd, fun h => ?_⟩
      have hne : d.owner ≠ o := fun heq => by simpa [isCloseOf, h, heq] using hnone d hd
      rw [heq hne]
      exact ⟨(hclose h).1, hstays _ _ hne (hclose h).2⟩
    rcases hends with ⟨hways, rfl⟩ | ⟨hways, -⟩
    · rcases List.mem_cons.mp (hways.mem_iff.mp hd) with rfl | hd
      · exact ⟨_, List.getElem?_set_self (List.getElem?_eq_some_iff.mp ho).1, rfl, fun _ => ⟨rfl, hopened⟩⟩
      · exact hold hd
    · exact hold (hways.mem_iff.mp hd)
  · rcases hends with ⟨hways, -⟩ | ⟨hways, -⟩
    · refine (hways.countP_eq _).trans_le ?_
      rw [List.countP_cons]
      by_cases heq : o' = o
      · subst heq
        rw [List.countP_eq_zero.mpr fun d hd => by simp [hnone d hd]]
        split <;> decide
      · rw [if_neg (by simpa [isCloseOf] using Ne.symm heq)]
        exact hs.once o'
    · exact (hways.countP_eq _).trans_le (hs.once o')

/-- The kernel takes some of the operations, and some are lost. -/
theorem inv_take {pool : Clients} {ds lost : List FdData} (hs : Inv s)
    (hways : s.onWay.Perm (ds ++ (lost ++ pool.workers.flatMap Member.data)))
    (hfutures : pool.futures = s.pool.futures) :
    Inv ⟨ds.foldl Kernel.take s.kernel, s.owners, pool, s.lenders⟩ := by
  have hold : ∀ d ∈ pool.workers.flatMap Member.data, d ∈ s.onWay := fun d hd =>
    hways.mem_iff.mpr (List.mem_append_right _ (List.mem_append_right _ hd))
  refine ⟨fun fd o h => hs.table fd o (Kernel.file_of_foldl_take h).1, fun o owner ho hgone => ?_, fun d hd => ?_,
    fun o => ?_, hs.lenders.trans (congrArg _ hfutures.symm), fun f fut o hf => hs.futures f fut o (hfutures ▸ hf)⟩
  · have hfile := hs.opened o owner ho hgone
    refine Kernel.file_foldl_take_of_some hfile fun d hd hclose hfd => ?_
    obtain ⟨x, hx, -, hd⟩ := hs.data d (hways.mem_iff.mpr (List.mem_append_left _ hd))
    cases (hfd ▸ (hd hclose).2).symm.trans hfile
    cases ho.symm.trans hx
    exact hgone (hd hclose).1
  · obtain ⟨owner, ho, hfd, hclose⟩ := hs.data d (hold d hd)
    refine ⟨owner, ho, hfd, fun h => ⟨(hclose h).1, ?_⟩⟩
    refine Kernel.file_foldl_take_of_some (hclose h).2 fun d' hd' hclose' hfd' => ?_
    -- the two closes would be of one owner
    obtain ⟨x, -, -, hfile'⟩ := hs.data d' (hways.mem_iff.mpr (List.mem_append_left _ hd'))
    have howner : d'.owner = d.owner := by
      have hfile := (hfile' hclose').2
      rw [hfd', (hclose h).2] at hfile
      exact (Option.some.inj hfile).symm
    have hone := (hways.countP_eq (isCloseOf d.owner)).symm.trans_le (hs.once d.owner)
    rw [List.countP_append, List.countP_append] at hone
    have h₁ : 0 < ds.countP (isCloseOf d.owner) :=
      List.countP_pos_iff.mpr ⟨d', hd', by simp [isCloseOf, hclose', howner]⟩
    have h₂ : 0 < (pool.workers.flatMap Member.data).countP (isCloseOf d.owner) :=
      List.countP_pos_iff.mpr ⟨d, hd, by simp [isCloseOf, h]⟩
    omega
  · have hone := (hways.countP_eq (isCloseOf o)).symm.trans_le (hs.once o)
    rw [List.countP_append, List.countP_append] at hone
    show (pool.workers.flatMap Member.data).countP (isCloseOf o) ≤ 1
    omega

/-- What a worker's step takes, what it loses and what stays on its way. -/
theorem ways_worker {v : ℕ} {m m' : Member} {ds : List FdData} (hm : s.pool.workers[v]? = some m)
    (htook : Took m m' ds) :
    ∃ lost, s.onWay.Perm (ds ++ (lost ++ (s.pool.workers.set v m').flatMap Member.data)) ∧
      (lost = [] ∨ lost = Member.data m ∧ m'.closed = true) := by
  have hperm := ways_perm hm
  have hset := ways_set hm m'
  cases htook with
  | keep hdata =>
    refine ⟨[], ?_, Or.inl rfl⟩
    exact hperm.trans ((hdata.symm.append_right _).trans hset.symm)
  | submit _ hdata =>
    refine ⟨[], ?_, Or.inl rfl⟩
    rw [hdata] at hset
    refine hperm.trans (List.Perm.trans ?_ (hset.symm.append_left _))
    rw [Member.data, List.append_assoc]
    exact List.perm_append_comm_assoc _ _ _
  | returns hclosed =>
    refine ⟨Member.data m, ?_, Or.inr ⟨rfl, hclosed⟩⟩
    rw [data_of_closed hclosed] at hset
    exact hperm.trans (hset.symm.append_left _)

theorem inv_step {a : Act} (hs : Inv s) (h : Goes s a s') : Inv s' := by
  cases h with
  | openFile => exact inv_openFile hs
  | make ho hlive => exact inv_make hs ho hlive
  | drop ho hlive hlent =>
    exact inv_dropping hs ho (by simp [hlive]) (.refl _) rfl (not_lent_of_isLent hlent)
  | search ho hphase _ hways hfutures =>
    exact inv_dropping hs ho (by simp [hphase]) hways hfutures (not_lent_of_dropping hs ho hphase)
  | send ho hphase _ hways hfutures => exact inv_gone hs ho hphase hfutures (Or.inl ⟨hways, rfl⟩)
  | fails ho hphase _ hways hfutures => exact inv_gone hs ho hphase hfutures (Or.inr ⟨hways, rfl⟩)
  | worker hm hw htook =>
    obtain ⟨lost, hways, -⟩ := ways_worker hm htook
    exact inv_take hs hways rfl
  | client hserved => exact inv_client hs hserved

end Inv

/-! ### What becomes of a descriptor -/

/-- Every descriptor of the process is of an `OwnedFdAsync` that is not gone, or its
close is on its way. -/
def Kept (s : State) : Prop :=
  ∀ fd o, s.kernel.file fd = some o →
    (∃ owner, s.owners[o]? = some owner ∧ owner.phase ≠ .gone) ∨ ∃ d ∈ s.onWay, d.close = true ∧ d.owner = o

/-- A worker that returns leaves no close behind. -/
def Leaves (s : State) : Act → Prop
  | .worker v a => ∀ m ∈ s.pool.workers[v]?, ∀ w ∈ Worker.step m.loop a,
      Pool.Member.closed { m with loop := w } = true → ∀ d ∈ Member.data m, d.close = false
  | .openFile | .make _ | .drop _ | .close _ | .client _ => True

section Kept

variable {s s' : State}

/-- A descriptor whose file is the owner's is the owner's. -/
theorem fd_of_file {fd : ℕ} {d : FdData} (hs : Inv s) (hd : d ∈ s.onWay) (hfile : s.kernel.file fd = some d.owner) :
    d.fd = fd := by
  obtain ⟨owner, ho, hfd, -⟩ := hs.data d hd
  obtain ⟨owner', ho', hfd'⟩ := hs.table fd d.owner hfile
  cases ho.symm.trans ho'
  exact hfd.symm.trans hfd'

/-- The owners and the closes that a step leaves. -/
theorem kept_of (hkept : Kept s) (hfile : ∀ fd o, s'.kernel.file fd = some o → s.kernel.file fd = some o)
    (howners : ∀ fd o owner, s'.kernel.file fd = some o → s.owners[o]? = some owner → owner.phase ≠ .gone →
      (∃ owner', s'.owners[o]? = some owner' ∧ owner'.phase ≠ .gone) ∨ ∃ d ∈ s'.onWay, d.close = true ∧ d.owner = o)
    (hways : ∀ fd d, s'.kernel.file fd = some d.owner → d ∈ s.onWay → d.close = true → d ∈ s'.onWay) : Kept s' := by
  intro fd o h
  rcases hkept fd o (hfile fd o h) with ⟨owner, ho, hgone⟩ | ⟨d, hd, hclose, rfl⟩
  · exact howners fd o owner h ho hgone
  · exact Or.inr ⟨d, hways fd d h hd hclose, hclose, rfl⟩

theorem kept_step {a : Act} (hs : Inv s) (hkept : Kept s) (hleaves : Leaves s a) (h : Goes s a s') : Kept s' := by
  -- an owner that has been moved by a step of its `drop`
  have hmoved : ∀ {o o' : ℕ} {owner owner' : OwnedFdAsync} {phase : Phase}, s.owners[o]? = some owner →
      s.owners[o']? = some owner' → owner'.phase ≠ .gone → (o' = o → phase ≠ .gone) →
        ∃ x, (s.owners.set o ⟨owner.fd, phase⟩)[o']? = some x ∧ x.phase ≠ .gone := by
    intro o o' owner owner' phase ho ho' hgone hphase
    obtain ⟨x, hx, -, heq⟩ := owners_of_set phase ho ho'
    refine ⟨x, hx, ?_⟩
    rcases owners_set hx with ⟨rfl, rfl⟩ | ⟨hne, -⟩
    · exact hphase rfl
    · rwa [heq hne]
  cases h with
  | openFile =>
    intro fd o hfile
    rw [Kernel.file_openFile] at hfile
    split at hfile
    · cases hfile
      exact Or.inl ⟨_, List.getElem?_concat_length, by simp⟩
    · exact (hkept fd o hfile).imp_left fun ⟨owner, ho, hgone⟩ => ⟨owner, getElem?_append_of_some ho, hgone⟩
  | make => exact hkept
  | drop ho =>
    exact kept_of hkept (fun _ _ h => h) (fun _ _ owner _ ho' hgone => Or.inl (hmoved ho ho' hgone (by simp)))
      fun _ _ _ hd _ => hd
  | search ho _ _ hways =>
    exact kept_of hkept (fun _ _ h => h) (fun _ _ owner _ ho' hgone => Or.inl (hmoved ho ho' hgone (by simp)))
      fun _ _ _ hd _ => hways.mem_iff.mpr hd
  | @send o owner stage pool ho _ _ hways =>
    refine kept_of hkept (fun _ _ h => h) (fun _ o' owner' _ ho' hgone => ?_)
      fun _ _ _ hd _ => hways.mem_iff.mpr (List.mem_cons_of_mem _ hd)
    by_cases heq : o' = o
    · exact Or.inr ⟨_, hways.mem_iff.mpr List.mem_cons_self, rfl, heq.symm⟩
    · exact Or.inl (hmoved ho ho' hgone fun h => absurd h heq)
  | @fails o owner stage pool ho hphase _ hways =>
    have hfile : ∀ fd o', (s.kernel.close owner.fd).file fd = some o' →
        fd ≠ owner.fd ∧ s.kernel.file fd = some o' := by
      intro fd o' h
      rw [Kernel.file_close] at h
      split at h
      · cases h
      · exact ⟨‹_›, h⟩
    refine kept_of hkept (fun fd o' h => (hfile fd o' h).2) (fun fd o' owner' h ho' hgone => ?_)
      fun _ _ _ hd _ => hways.mem_iff.mpr hd
    refine Or.inl (hmoved ho ho' hgone fun heq => ?_)
    subst heq
    obtain ⟨x, hx, hfd⟩ := hs.table fd o' (hfile fd o' h).2
    cases ho.symm.trans hx
    exact absurd hfd.symm (hfile _ _ h).1
  | @worker v a m w hm hw htook =>
    obtain ⟨lost, hways, hlost⟩ := ways_worker hm htook
    refine kept_of hkept (fun _ _ h => (Kernel.file_of_foldl_take h).1)
      (fun _ _ owner _ ho hgone => Or.inl ⟨owner, ho, hgone⟩) fun fd d h hd hclose => ?_
    obtain ⟨hfile, hnot⟩ := Kernel.file_of_foldl_take h
    rcases List.mem_append.mp (hways.mem_iff.mp hd) with htaken | hd'
    · exact absurd (fd_of_file hs hd hfile) (hnot d htaken hclose)
    · rcases List.mem_append.mp hd' with hgone | hstays
      · rcases hlost with rfl | ⟨rfl, hclosed⟩
        · cases hgone
        · rw [hleaves m hm w hw hclosed d hgone] at hclose
          cases hclose
      · exact hstays
  | client hserved =>
    refine kept_of hkept (fun _ _ h => h) (fun _ _ owner _ ho hgone => Or.inl ⟨owner, ho, hgone⟩) fun _ _ _ hd _ => ?_
    rcases ways_client hs hserved with hways | ⟨o, owner, -, -, hways⟩
    · exact hways.mem_iff.mpr hd
    · exact hways.mem_iff.mpr (List.mem_cons_of_mem _ hd)

theorem not_kept_step {a : Act} (hs : Inv s) (hleaves : ¬ Leaves s a) (h : Goes s a s') : ¬ Kept s' := by
  intro hkept
  cases h with
  | @worker v a m w hm hw htook =>
    simp only [Leaves, not_forall] at hleaves
    obtain ⟨m', hm', w', hw', hclosed, d, hd, hclose⟩ := hleaves
    cases hm.symm.trans hm'
    cases hw.symm.trans hw'
    have hclose : d.close = true := by simpa using hclose
    have hnothing : s.takes v a = [] := by
      generalize s.takes v a = ds at htook
      cases htook with
      | keep | returns => rfl
      | submit hopen => cases hclosed.symm.trans hopen
    obtain ⟨owner, ho, -, hgone⟩ := hs.data d ((ways_perm hm).mem_iff.mpr (List.mem_append_left _ hd))
    obtain ⟨hphase, hfile⟩ := hgone hclose
    rcases hkept d.fd d.owner (by rw [hnothing]; exact hfile) with ⟨owner', ho', hlive⟩ | ⟨d', hd', hclose', howner⟩
    · cases ho.symm.trans ho'
      exact hlive hphase
    · -- the close that is left is the owner's only one
      have hset := ways_set hm { m with loop := w }
      rw [data_of_closed hclosed] at hset
      have hone := ((ways_perm hm).countP_eq (isCloseOf d.owner)).symm.trans_le (hs.once d.owner)
      rw [List.countP_append] at hone
      have h₁ : 0 < (Member.data m).countP (isCloseOf d.owner) :=
        List.countP_pos_iff.mpr ⟨d, hd, by simp [isCloseOf, hclose]⟩
      have h₂ : 0 < (others s.pool.workers v).countP (isCloseOf d.owner) :=
        List.countP_pos_iff.mpr ⟨d', hset.mem_iff.mp hd', by simp [isCloseOf, hclose', howner]⟩
      omega
  | openFile | make | drop | search | send | fails | client => exact hleaves trivial

end Kept

theorem kept_init (n : ℕ) : Kept (.init n) := fun fd o h => by simp [State.init, Kernel.file] at h

/-- **Every descriptor stays with its `OwnedFdAsync` or with a close on its way as
long as no worker that returns leaves a close behind, and no longer.** -/
theorem kept_iff (n : ℕ) (as : List Act) :
    Runs.Along step Kept (.init n) as ↔ Runs.Taken step Leaves (.init n) as :=
  Runs.along_iff_taken (I := Inv)
    (fun _ _ _ hs hkept hleaves h => ⟨inv_step hs (goes_of_step h), kept_step hs hkept hleaves (goes_of_step h)⟩)
    (fun _ _ _ hs _ hleaves h => not_kept_step hs hleaves (goes_of_step h)) (inv_init n) (kept_init n)

-- A worker is killed with a close on its ring: the descriptor stays open.
example : (Runs.run step (.init 1) [.openFile, .drop 0, .close 0, .close 0, .close 0, .close 0,
    .worker 0 (.send .kill), .worker 0 (.events true false false), .worker 0 .next, .worker 0 .next,
    .worker 0 .next]).map (fun s => (s.kernel.table, s.owners, s.onWay)) = some ([some 0], [⟨0, .gone⟩], []) := by decide +kernel

end Closing
end ClAsync
