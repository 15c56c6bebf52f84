/-
# The buffers of a read that fails

`read_into`, `read_at_into`, `recv_into`, `readv_into`, `readv_at_into` and
`recv_msg_into` take the caller's buffers and wrap them: in an
`IoOutputBuffer` or an `IoVecOutputBuffer`, these in an operation, the
operation in a message to a worker. An error of any stage carries what the
stage had, and `IoError` hands the buffers back through `into_bytes_mut`,
`into_vec` and `into_recvmsg_buffers`. One stage does not carry them:
`IoReadvDataInner::new` turns the error of `generate_iovecs` into an
`IoSubmissionError` with `?`, and drops the buffers it was given.

What a failed operation leaves behind the contents of a buffer is arbitrary.

Key definitions: `Read`, `Read.operation`, `Fate`, `Read.error`.
Key theorem: `survives_iff`, exactly when every error gives the buffers back.
-/
import ClAsync.Io.Buffers
import ClAsync.Io.ControlMessage
import ClAsync.Pool.Dispatch

namespace ClAsync

/-! ### Wrappers -/

/-- `IoOutputBuffer`: a buffer with a capacity. -/
structure IoOutputBuffer where
  data : BytesMut
  deriving DecidableEq, Repr

/-- `IoVecOutputBuffer`: at least one buffer. -/
structure IoVecOutputBuffer where
  data : List BytesMut
  deriving DecidableEq, Repr

/-- A buffer without a capacity, given back. -/
structure EmptyIoOutputBufferError where
  buffer : BytesMut
  deriving DecidableEq, Repr

/-- No buffers at all, given back. -/
structure EmptyVectoredOutputBufferError where
  buffer : List BytesMut
  deriving DecidableEq, Repr

/-- `IoOutputBuffer::new`: the capacity counts, not the room that is left. -/
def IoOutputBuffer.new (data : BytesMut) : Except EmptyIoOutputBufferError IoOutputBuffer :=
  if data.capacity = 0 then .error ⟨data⟩ else .ok ⟨data⟩

/-- `IoVecOutputBuffer::new`, which does not look into the buffers. -/
def IoVecOutputBuffer.new (data : List BytesMut) : Except EmptyVectoredOutputBufferError IoVecOutputBuffer :=
  if data.isEmpty then .error ⟨data⟩ else .ok ⟨data⟩

/-- There was no room for that many bytes. -/
inductive IoOutputBufferIntoBytesError
  | bufferOverflow (requested available : ℕ) (buffer : BytesMut)
  deriving DecidableEq, Repr

/-- `into_buffer`. -/
def IoOutputBufferIntoBytesError.intoBuffer : IoOutputBufferIntoBytesError → BytesMut
  | bufferOverflow _ _ buffer => buffer

/-- `IoOutputBuffer::into_bytes`: the buffer moved ahead over `len` bytes. -/
def IoOutputBuffer.intoBytes (reserved : List UInt8) (buffer : IoOutputBuffer) (len : ℕ) :
    Except IoOutputBufferIntoBytesError BytesMut :=
  let data := buffer.data.chunkMut reserved
  let chunkLen := data.spare.length
  let data := data.advanceMut (min len chunkLen)
  if len > chunkLen then .error (.bufferOverflow len chunkLen data) else .ok data

/-- `RecvMsgBuffers`, what a caller receives a message into. -/
structure RecvMsgBuffers where
  data : Option (List BytesMut)
  control : Option BytesMut
  deriving DecidableEq, Repr

/-- `IoRecvMsgOutputBuffers`, the same once it has been checked. -/
structure IoRecvMsgOutputBuffers where
  data : Option IoVecOutputBuffer
  control : Option IoOutputBuffer
  deriving DecidableEq, Repr

/-- The buffers as the caller gave them. -/
def IoRecvMsgOutputBuffers.unwrap (b : IoRecvMsgOutputBuffers) : RecvMsgBuffers :=
  ⟨b.data.map IoVecOutputBuffer.data, b.control.map IoOutputBuffer.data⟩

/-- Which of the buffers was refused, and why. -/
inductive RecvMsgSubmissionErrorKind
  | invalidDataBuffer (message : String)
  | invalidControlBuffer (message : String)
  | invalidIoVec (source : InvalidIoVecError)
  deriving DecidableEq, Repr

/-- A refusal carries all the buffers. -/
structure RecvMsgSubmissionError where
  buffers : RecvMsgBuffers
  kind : RecvMsgSubmissionErrorKind
  deriving DecidableEq, Repr

/-- The control buffer of `RecvMsgBuffers::prepare`, once it has the data. -/
def RecvMsgBuffers.prepareControl (data : Option IoVecOutputBuffer) :
    Option BytesMut → Except RecvMsgSubmissionError IoRecvMsgOutputBuffers
  | none => .ok ⟨data, none⟩
  | some control =>
    match IoOutputBuffer.new control with
    | .ok control => .ok ⟨data, some control⟩
    | .error e =>
      .error ⟨⟨data.map IoVecOutputBuffer.data, some e.buffer⟩, .invalidControlBuffer "The output buffer is empty."⟩

/-- `RecvMsgBuffers::prepare`, the data first. -/
def RecvMsgBuffers.prepare (b : RecvMsgBuffers) : Except RecvMsgSubmissionError IoRecvMsgOutputBuffers :=
  match b.data with
  | none => prepareControl none b.control
  | some data =>
    match IoVecOutputBuffer.new data with
    | .ok data => prepareControl (some data) b.control
    | .error e => .error ⟨⟨some e.buffer, b.control⟩, .invalidDataBuffer "The output buffer is empty."⟩

/-! ### Operations -/

/-- `PendingIoMessageInner`, without what points into it. -/
structure PendingIoMessage where
  buffers : IoRecvMsgOutputBuffers
  iovec : Option (List Iovec)
  deriving DecidableEq, Repr

/-- The `IoType`s that read into buffers. -/
inductive IoReadType
  | read (buffer : Option IoOutputBuffer) (offset : ℕ)
  | recv (buffer : Option IoOutputBuffer) (flags : ℤ)
  | readv (iovec : Option IoVecOutputBuffer) (iovecs : List Iovec) (offset : ℕ)
  | recvMsg (pendingMsg : Option PendingIoMessage) (flags : ℤ)
  deriving DecidableEq, Repr

namespace IoReadType

/-- `IoType::into_bytes_mut`; of a message, its control buffer. -/
def intoBytesMut : IoReadType → Option BytesMut
  | read buffer _ | recv buffer _ => buffer.map IoOutputBuffer.data
  | recvMsg pendingMsg _ => (pendingMsg.bind fun msg => msg.buffers.control).map IoOutputBuffer.data
  | readv .. => none

/-- `IoType::into_vec`. -/
def intoVec : IoReadType → Option (List BytesMut)
  | readv iovec .. => iovec.map IoVecOutputBuffer.data
  | recvMsg pendingMsg _ => (pendingMsg.bind fun msg => msg.buffers.data).map IoVecOutputBuffer.data
  | read .. | recv .. => none

/-- `IoType::into_recvmsg_buffers`. -/
def intoRecvmsgBuffers : IoReadType → Option RecvMsgBuffers
  | recvMsg pendingMsg _ => pendingMsg.map fun msg => msg.buffers.unwrap
  | read .. | recv .. | readv .. => none

end IoReadType

/-- The data of an `IoFailure`. -/
inductive IoReadFailure
  | read (buffer : BytesMut)
  | multiRead (buffers : List BytesMut)
  | msg (buffers : RecvMsgBuffers)
  deriving DecidableEq, Repr

/-- `get_failure`; what has been taken before is replaced by an empty buffer. -/
def IoReadType.getFailure : IoReadType → IoFailure IoReadFailure
  | read buffer _ | recv buffer _ => .data (.read ((buffer.map IoOutputBuffer.data).getD ⟨[], []⟩))
  | readv iovec .. => .data (.multiRead ((iovec.map IoVecOutputBuffer.data).getD []))
  | recvMsg pendingMsg _ => .data (.msg ((pendingMsg.map fun msg => msg.buffers.unwrap).getD ⟨none, none⟩))

/-- What `as_uring_entry` and the kernel do to a buffer: `chunk_mut` reserves,
and `d` is written behind the contents. -/
def BytesMut.used (reserved d : List UInt8) (b : BytesMut) : BytesMut := (b.chunkMut reserved).write d

/-- The operation after the kernel has had it. `d` has what it wrote into each
of the buffers, the control buffer being the first of a message. -/
def IoReadType.used (reserved : List UInt8) (d : ℕ → List UInt8) : IoReadType → IoReadType
  | read buffer offset => read (buffer.map fun b => ⟨b.data.used reserved (d 0)⟩) offset
  | recv buffer flags => recv (buffer.map fun b => ⟨b.data.used reserved (d 0)⟩) flags
  | readv iovec iovecs offset =>
    readv (iovec.map fun bs => ⟨bs.data.mapIdx fun i b => b.write (d i)⟩) iovecs offset
  | recvMsg pendingMsg flags =>
    recvMsg (pendingMsg.map fun msg =>
      { msg with buffers := ⟨msg.buffers.data.map fun bs => ⟨bs.data.mapIdx fun i b => b.write (d (i + 1))⟩,
                             msg.buffers.control.map fun b => ⟨b.data.write (d 0)⟩⟩ }) flags

/-! ### Errors -/

/-- Why bytes cannot be sent: there are none, or not in one piece. -/
inductive InvalidIoInputBufferErrorKind
  | emptyInputBuffer
  | nonContiguousInputBuffer
  deriving DecidableEq, Repr

/-- The bytes that were refused. -/
structure InvalidIoInputBufferError where
  buffer : List UInt8
  kind : InvalidIoInputBufferErrorKind
  deriving DecidableEq, Repr

/-- A submission that fails for what it sends. -/
inductive InputBufferSubmissionError
  | invalidInputBuffer (e : InvalidIoInputBufferError)
  deriving DecidableEq, Repr

/-- A submission that fails for the buffer it reads into. -/
inductive OutputBufferSubmissionError
  | invalidOutputBuffer (e : EmptyIoOutputBufferError)
  | invalidIoVec (buffer : BytesMut) (source : InvalidIoVecError)
  deriving DecidableEq, Repr

/-- The same, with several buffers. -/
inductive OutputBufferVecSubmissionError
  | invalidOutputBuffer (e : EmptyVectoredOutputBufferError)
  | invalidIoVec (buffer : List BytesMut) (source : InvalidIoVecError)
  deriving DecidableEq, Repr

/-- The `IoSubmissionError`s of a read, and of the preparation of a message that
is sent. -/
inductive IoSubmissionError
  | failedToPrepareControlMessages (e : Message.PrepareControlMessageError)
  | failedToDispatchOperation (e : WorkerDispatchError IoReadType)
  | inputBufferSubmissionError (e : InputBufferSubmissionError)
  | outputBufferSubmissionError (e : OutputBufferSubmissionError)
  | outputBufferVecSubmissionError (e : OutputBufferVecSubmissionError)
  | recvMsgBuffersSubmissionError (e : RecvMsgSubmissionError)
  | invalidIoInputBufferError (e : InvalidIoVecError)
  deriving DecidableEq

/-- The operation in the error of a call that did not reach a worker. -/
def WorkerDispatchError.operation {τ : Type} : WorkerDispatchError τ → Option (IoType τ)
  | failedToFindWorker payload => some payload.t
  | failedToSendMessage (.submitIo submission) => some submission.op.t
  | failedToSendMessage _ => none

/-- The accessor of an operation; an `AsyncCancel` has no buffers. -/
def IoType.recovered {τ α : Type} (f : τ → Option α) : IoType τ → Option α
  | data t => f t
  | cancel _ => none

namespace IoSubmissionError

/-- `IoSubmissionError::into_bytes_mut`. -/
def intoBytesMut : IoSubmissionError → Option BytesMut
  | failedToDispatchOperation e => e.operation.bind (·.recovered IoReadType.intoBytesMut)
  | outputBufferSubmissionError (.invalidOutputBuffer e) => some e.buffer
  | outputBufferSubmissionError (.invalidIoVec buffer _) => some buffer
  | recvMsgBuffersSubmissionError e => e.buffers.control
  | failedToPrepareControlMessages _ | inputBufferSubmissionError _ | outputBufferVecSubmissionError _
  | invalidIoInputBufferError _ => none

/-- `IoSubmissionError::into_vec`. -/
def intoVec : IoSubmissionError → Option (List BytesMut)
  | failedToDispatchOperation e => e.operation.bind (·.recovered IoReadType.intoVec)
  | outputBufferVecSubmissionError (.invalidIoVec buffer _) => some buffer
  | outputBufferVecSubmissionError (.invalidOutputBuffer e) => some e.buffer
  | recvMsgBuffersSubmissionError e => e.buffers.data
  | failedToPrepareControlMessages _ | inputBufferSubmissionError _ | outputBufferSubmissionError _
  | invalidIoInputBufferError _ => none

/-- `IoSubmissionError::into_recvmsg_buffers`. -/
def intoRecvmsgBuffers : IoSubmissionError → Option RecvMsgBuffers
  | failedToDispatchOperation e => e.operation.bind (·.recovered IoReadType.intoRecvmsgBuffers)
  | recvMsgBuffersSubmissionError e => some e.buffers
  | failedToPrepareControlMessages _ | inputBufferSubmissionError _ | outputBufferSubmissionError _
  | outputBufferVecSubmissionError _ | invalidIoInputBufferError _ => none

end IoSubmissionError

/-- The `IoError` of a read that has not been completed, or with a negative
code. -/
inductive IoReadError
  | submission (e : IoSubmissionError)
  | operation (e : IoOperationError IoReadFailure)
  deriving DecidableEq

namespace IoReadError

/-- `IoError::into_bytes_mut`: from the submission, or from the failed operation. -/
def intoBytesMut : IoReadError → Option BytesMut
  | submission e => e.intoBytesMut
  | operation ⟨.data (.read buffer), _⟩ => some buffer
  | operation _ => none

/-- `IoError::into_vec`. -/
def intoVec : IoReadError → Option (List BytesMut)
  | submission e => e.intoVec
  | operation ⟨.data (.multiRead buffers), _⟩ => some buffers
  | operation _ => none

/-- `IoError::into_recvmsg_buffers`. -/
def intoRecvmsgBuffers : IoReadError → Option RecvMsgBuffers
  | submission e => e.intoRecvmsgBuffers
  | operation ⟨.data (.msg buffers), _⟩ => some buffers
  | operation _ => none

end IoReadError

/-! ### The calls -/

namespace IoOperation

/-- `read_at_into`. -/
def readAtInto (offset : ℕ) (buffer : IoOutputBuffer) : IoOperation IoReadType :=
  ⟨.data (.read (some buffer) offset), .single⟩

/-- `read_into`, from the start of the file. -/
def readInto (buffer : IoOutputBuffer) : IoOperation IoReadType := readAtInto 0 buffer

/-- `recv_into`. -/
def recvInto (buffer : IoOutputBuffer) (flags : ℤ) : IoOperation IoReadType :=
  ⟨.data (.recv (some buffer) flags), .single⟩

/-- The buffers are dropped with the error of `generate_iovecs`. -/
def readvAtInto (iovMax offset : ℕ) (buffers : IoVecOutputBuffer) :
    Except IoSubmissionError (IoOperation IoReadType) :=
  match generateIovecs iovMax buffers.data with
  | .ok iovecs => .ok ⟨.data (.readv (some buffers) iovecs offset), .single⟩
  | .error e => .error (.invalidIoInputBufferError e)

/-- `readv_into`, from the start of the file. -/
def readvInto (iovMax : ℕ) (buffers : IoVecOutputBuffer) : Except IoSubmissionError (IoOperation IoReadType) :=
  readvAtInto iovMax 0 buffers

end IoOperation

/-- `PendingIoMessageInner::new`; it asks the control buffer for `chunk_mut`. -/
def PendingIoMessage.new (iovMax : ℕ) (reserved : List UInt8) (buffers : IoRecvMsgOutputBuffers) :
    Except IoSubmissionError PendingIoMessage :=
  let control := buffers.control.map fun b => ⟨b.data.chunkMut reserved⟩
  match buffers.data.map fun bs => generateIovecs iovMax bs.data with
  | some (.error e) => .error (.recvMsgBuffersSubmissionError ⟨buffers.unwrap, .invalidIoVec e⟩)
  | some (.ok iovecs) => .ok ⟨{ buffers with control }, some iovecs⟩
  | none => .ok ⟨{ buffers with control }, none⟩

/-- `recv_msg_into`. -/
def IoOperation.recvMsgInto (iovMax : ℕ) (reserved : List UInt8) (buffers : IoRecvMsgOutputBuffers) (flags : ℤ) :
    Except IoSubmissionError (IoOperation IoReadType) :=
  match PendingIoMessage.new iovMax reserved buffers with
  | .ok msg => .ok ⟨.data (.recvMsg (some msg) flags), .single⟩
  | .error e => .error e

/-- A call with the caller's buffers. -/
inductive Read
  | readInto (buffer : BytesMut)
  | readAtInto (offset : ℕ) (buffer : BytesMut)
  | recvInto (buffer : BytesMut) (flags : ℤ)
  | readvInto (buffers : List BytesMut)
  | readvAtInto (offset : ℕ) (buffers : List BytesMut)
  | recvMsgInto (buffers : Option (List BytesMut)) (control : Option BytesMut) (flags : ℤ)
  deriving DecidableEq, Repr

/-- An `IoOutputBuffer` for the operation. -/
def withBuffer (buffer : BytesMut) (f : IoOutputBuffer → IoOperation IoReadType) :
    Except IoSubmissionError (IoOperation IoReadType) :=
  match IoOutputBuffer.new buffer with
  | .ok buffer => .ok (f buffer)
  | .error e => .error (.outputBufferSubmissionError (.invalidOutputBuffer e))

/-- An `IoVecOutputBuffer` for the operation. -/
def withBuffers (buffers : List BytesMut)
    (f : IoVecOutputBuffer → Except IoSubmissionError (IoOperation IoReadType)) :
    Except IoSubmissionError (IoOperation IoReadType) :=
  match IoVecOutputBuffer.new buffers with
  | .ok buffers => f buffers
  | .error e => .error (.outputBufferVecSubmissionError (.invalidOutputBuffer e))

/-- The operation of the call. -/
def Read.operation (iovMax : ℕ) (reserved : List UInt8) :
    Read → Except IoSubmissionError (IoOperation IoReadType)
  | readInto buffer => withBuffer buffer IoOperation.readInto
  | readAtInto offset buffer => withBuffer buffer (IoOperation.readAtInto offset)
  | recvInto buffer flags => withBuffer buffer fun buffer => IoOperation.recvInto buffer flags
  | readvInto buffers => withBuffers buffers (IoOperation.readvInto iovMax)
  | readvAtInto offset buffers => withBuffers buffers (IoOperation.readvAtInto iovMax offset)
  | recvMsgInto buffers control flags =>
    match RecvMsgBuffers.prepare ⟨buffers, control⟩ with
    | .ok prepared => IoOperation.recvMsgInto iovMax reserved prepared flags
    | .error e => .error (.recvMsgBuffersSubmissionError e)

/-- What becomes of an operation: no worker is found for it; the channel of
its worker is dead; the kernel completes it, having written `d`. -/
inductive Fate
  | noWorker
  | deadChannel (key : Key) (waker : Option Waker)
  | completed (resultCode : ℤ) (d : ℕ → List UInt8)

/-- The error of a future that has the operation. -/
def awaitError (reserved : List UInt8) (op : IoOperation IoReadType) : Fate → Option IoReadError
  | .noWorker => some (.submission (.failedToDispatchOperation (.failedToFindWorker op)))
  | .deadChannel key waker =>
    some (.submission (.failedToDispatchOperation (.failedToSendMessage (.submitIo ⟨key, op, waker⟩))))
  | .completed resultCode d =>
    if resultCode < 0 then
      match op.t with
      | .data t => some (.operation ⟨(t.used reserved d).getFailure, OsError.ofErrno (-resultCode)⟩)
      | .cancel _ => some (.operation ⟨.generic, OsError.ofErrno (-resultCode)⟩)
    else none

/-- The error of the call. -/
def Read.error (iovMax : ℕ) (reserved : List UInt8) (call : Read) (fate : Fate) : Option IoReadError :=
  match call.operation iovMax reserved with
  | .ok op => awaitError reserved op fate
  | .error e => some (.submission e)

/-! ### What the errors give back -/

/-- The contents are there, and no less memory behind them. -/
def BytesMut.Kept (b b' : BytesMut) : Prop := b'.bytes = b.bytes ∧ b.capacity ≤ b'.capacity

namespace BytesMut

variable {b b' b'' : BytesMut}

theorem kept_refl (b : BytesMut) : b.Kept b := ⟨rfl, Nat.le_refl _⟩

theorem Kept.trans (h : b.Kept b') (h' : b'.Kept b'') : b.Kept b'' := ⟨h'.1.trans h.1, h.2.trans h'.2⟩

theorem kept_chunkMut (b : BytesMut) (reserved : List UInt8) : b.Kept (b.chunkMut reserved) := by
  unfold chunkMut
  split
  · rename_i hfull
    refine ⟨rfl, ?_⟩
    rw [hfull]
    exact Nat.le_add_right _ _
  · exact kept_refl b

theorem kept_write (b : BytesMut) (d : List UInt8) : b.Kept (b.write d) := by
  refine ⟨rfl, Nat.add_le_add_left ?_ _⟩
  rw [write, List.length_append, List.length_drop]
  omega

theorem kept_used (b : BytesMut) (reserved d : List UInt8) : b.Kept (b.used reserved d) :=
  (kept_chunkMut b reserved).trans (kept_write _ d)

theorem kept_mapIdx (d : ℕ → List UInt8) (bs : List BytesMut) :
    List.Forall₂ Kept bs (bs.mapIdx fun i b => b.write (d i)) := by
  induction bs generalizing d with
  | nil => exact .nil
  | cons b bs ih =>
    rw [List.mapIdx_cons]
    exact .cons (kept_write b _) (ih fun i => d (i + 1))

theorem forall₂_kept_refl (bs : List BytesMut) : List.Forall₂ Kept bs bs :=
  List.forall₂_same.mpr fun b _ => kept_refl b

end BytesMut

open BytesMut

/-- The accessor of the call gives its buffers. -/
def Read.Given (one : Option BytesMut) (many : Option (List BytesMut)) (msg : Option RecvMsgBuffers) :
    Read → Prop
  | readInto b | readAtInto _ b | recvInto b _ => ∃ b', one = some b' ∧ b.Kept b'
  | readvInto bs | readvAtInto _ bs => ∃ bs', many = some bs' ∧ List.Forall₂ Kept bs bs'
  | recvMsgInto data control _ =>
    ∃ r, msg = some r ∧ Option.Rel (List.Forall₂ Kept) data r.data ∧ Option.Rel Kept control r.control

/-- The error gives the buffers of the call back. -/
def Read.Survives (call : Read) (e : IoReadError) : Prop :=
  call.Given e.intoBytesMut e.intoVec e.intoRecvmsgBuffers

/-- The kernel can be given the memory behind the contents: some buffer has
some, and there are no more of these than an `iovec` list may have. -/
def Read.Gathers (iovMax : ℕ) : Read → Prop
  | readvInto bs | readvAtInto _ bs =>
    bs = [] ∨ 0 < bs.countP (fun b => b.len < b.capacity) ∧ bs.countP (fun b => b.len < b.capacity) ≤ iovMax
  | _ => True

/-- The operation has the buffers of the call. -/
def Read.Carried (t : IoReadType) : Read → Prop
  | readInto b => t = .read (some ⟨b⟩) 0
  | readAtInto offset b => t = .read (some ⟨b⟩) offset
  | recvInto b flags => t = .recv (some ⟨b⟩) flags
  | readvInto bs => ∃ iovecs, t = .readv (some ⟨bs⟩) iovecs 0
  | readvAtInto offset bs => ∃ iovecs, t = .readv (some ⟨bs⟩) iovecs offset
  | recvMsgInto data control flags =>
    ∃ control' iovec, t = .recvMsg (some ⟨⟨data.map IoVecOutputBuffer.mk, control'⟩, iovec⟩) flags ∧
      Option.Rel Kept control (control'.map IoOutputBuffer.data)

variable {iovMax : ℕ} {reserved : List UInt8} {call : Read} {t : IoReadType}

theorem Read.Carried.given (h : call.Carried t) : call.Given t.intoBytesMut t.intoVec t.intoRecvmsgBuffers := by
  cases call with
  | readInto b | readAtInto _ b | recvInto b =>
    obtain rfl := h
    exact ⟨b, rfl, kept_refl b⟩
  | readvInto bs | readvAtInto _ bs =>
    obtain ⟨iovecs, rfl⟩ := h
    exact ⟨bs, rfl, forall₂_kept_refl bs⟩
  | recvMsgInto data control flags =>
    obtain ⟨control', iovec, rfl, hcontrol⟩ := h
    refine ⟨_, rfl, ?_, hcontrol⟩
    cases data with
    | none => exact .none
    | some bs => exact .some (forall₂_kept_refl bs)

/-- A failure has the buffers of the operation. -/
theorem Read.Carried.survives_operation (h : call.Carried t) (d : ℕ → List UInt8) (osError : OsError) :
    call.Survives (.operation ⟨(t.used reserved d).getFailure, osError⟩) := by
  cases call with
  | readInto b | readAtInto _ b | recvInto b =>
    obtain rfl := h
    exact ⟨_, rfl, kept_used b _ _⟩
  | readvInto bs | readvAtInto _ bs =>
    obtain ⟨iovecs, rfl⟩ := h
    exact ⟨_, rfl, kept_mapIdx d bs⟩
  | recvMsgInto data control flags =>
    obtain ⟨control', iovec, rfl, hcontrol⟩ := h
    refine ⟨_, rfl, ?_, ?_⟩
    · cases data with
      | none => exact .none
      | some bs => exact .some (kept_mapIdx (fun i => d (i + 1)) bs)
    · cases hcontrol' : control' with
      | none => rw [hcontrol'] at hcontrol; exact hcontrol
      | some b =>
        rw [hcontrol'] at hcontrol
        cases hcontrol with
        | some hkept => exact .some (hkept.trans (kept_write _ _))

/-- A call that has made its operation does not lose the buffers. -/
theorem Read.Carried.survives {op : IoOperation IoReadType} {fate : Fate} {e : IoReadError}
    (h : call.Carried t) (hop : op.t = .data t) (he : awaitError reserved op fate = some e) : call.Survives e := by
  cases fate with
  | completed resultCode d =>
    simp only [awaitError, hop] at he
    split at he
    · obtain rfl := Option.some.inj he
      exact h.survives_operation d _
    · cases he
  | _ =>
    -- The operation was not sent, and the error has all of it.
    obtain rfl := Option.some.inj he
    simp only [Survives, IoReadError.intoBytesMut, IoReadError.intoVec, IoReadError.intoRecvmsgBuffers,
      IoSubmissionError.intoBytesMut, IoSubmissionError.intoVec, IoSubmissionError.intoRecvmsgBuffers,
      WorkerDispatchError.operation, hop, Option.bind_some, IoType.recovered]
    exact h.given

/-! ### What the calls lose -/

theorem iovecsFrom_length : ∀ (i : ℕ) (bs : List BytesMut),
    (iovecsFrom i bs).length = bs.countP fun b => b.len < b.capacity
  | _, [] => rfl
  | i, b :: bs => by
    rw [iovecsFrom, List.countP_cons, ← iovecsFrom_length (i + 1) bs]
    by_cases hfull : b.capacity ≤ b.len
    · rw [if_pos hfull, if_neg (by simpa using hfull)]
      rfl
    · rw [if_neg hfull, if_pos (by simpa using hfull), List.length_cons]

theorem generateIovecs_isOk_iff {bs : List BytesMut} :
    (∃ iovecs, generateIovecs iovMax bs = .ok iovecs) ↔
      0 < bs.countP (fun b => b.len < b.capacity) ∧ bs.countP (fun b => b.len < b.capacity) ≤ iovMax := by
  rw [← iovecsFrom_length 0 bs, generateIovecs, assertIovecsValid]
  cases hiovecs : iovecsFrom 0 bs with
  | nil => simp
  | cons v vs =>
    rw [List.isEmpty_cons, if_neg Bool.false_ne_true]
    by_cases hmany : (v :: vs).length > iovMax
    · rw [if_pos hmany]
      refine iff_of_false ?_ (fun h => Nat.not_le.mpr hmany h.2)
      rintro ⟨iovecs, h⟩
      cases h
    · rw [if_neg hmany]
      exact iff_of_true ⟨_, rfl⟩ ⟨Nat.succ_pos _, Nat.not_lt.mp hmany⟩

/-- What is true of all errors of a call: that it makes an operation with its
buffers, or that its own error has them. -/
theorem Read.survives_all_iff :
    (∀ fate e, call.error iovMax reserved fate = some e → call.Survives e) ↔
      match call.operation iovMax reserved with
      | .ok op => ∀ fate e, awaitError reserved op fate = some e → call.Survives e
      | .error e => call.Survives (.submission e) := by
  unfold Read.error
  split
  · rfl
  · exact ⟨fun h => h .noWorker _ rfl, fun h fate e he => by rwa [← Option.some.inj he]⟩

/-- The calls with one buffer. -/
theorem Read.survives_withBuffer {b : BytesMut} {f : IoOutputBuffer → IoOperation IoReadType}
    (hcarried : ∃ t, (f ⟨b⟩).t = .data t ∧ call.Carried t)
    (hgiven : call.Survives (.submission (.outputBufferSubmissionError (.invalidOutputBuffer ⟨b⟩)))) :
    match withBuffer b f with
    | .ok op => ∀ fate e, awaitError reserved op fate = some e → call.Survives e
    | .error e => call.Survives (.submission e) := by
  unfold withBuffer IoOutputBuffer.new
  split_ifs with hempty
  · exact hgiven
  · obtain ⟨t, hop, hcarried⟩ := hcarried
    exact fun fate e he => hcarried.survives hop he

/-- The vectored calls, which have the buffers unless they make no iovecs. -/
theorem Read.survives_withBuffers {bs : List BytesMut} {offset : ℕ}
    (hcarried : ∀ iovecs, call.Carried (.readv (some ⟨bs⟩) iovecs offset))
    (hgiven : ∀ e : IoReadError, call.Survives e ↔ ∃ bs', e.intoVec = some bs' ∧ List.Forall₂ Kept bs bs') :
    (match withBuffers bs (IoOperation.readvAtInto iovMax offset) with
      | .ok op => ∀ fate e, awaitError reserved op fate = some e → call.Survives e
      | .error e => call.Survives (.submission e)) ↔
      bs = [] ∨ 0 < bs.countP (fun b => b.len < b.capacity) ∧
        bs.countP (fun b => b.len < b.capacity) ≤ iovMax := by
  rw [← generateIovecs_isOk_iff]
  unfold withBuffers IoVecOutputBuffer.new
  by_cases hnil : bs = []
  · obtain rfl := hnil
    exact iff_of_true ((hgiven _).mpr ⟨[], rfl, .nil⟩) (.inl rfl)
  · rw [if_neg (by simpa using hnil)]
    simp only [IoOperation.readvAtInto, hnil, false_or]
    cases hiovecs : generateIovecs iovMax bs with
    | ok iovecs =>
      exact iff_of_true (fun fate e he => (hcarried iovecs).survives rfl he) ⟨iovecs, rfl⟩
    | error e =>
      refine iff_of_false (fun h => ?_) (by simp)
      obtain ⟨bs', hlost, -⟩ := (hgiven _).mp h
      cases hlost

theorem RecvMsgBuffers.prepareControl_cases (data : Option IoVecOutputBuffer) (control : Option BytesMut) :
    prepareControl data control = .ok ⟨data, control.map IoOutputBuffer.mk⟩ ∨
      ∃ kind, prepareControl data control = .error ⟨⟨data.map IoVecOutputBuffer.data, control⟩, kind⟩ := by
  cases control with
  | none => exact .inl rfl
  | some control =>
    unfold prepareControl IoOutputBuffer.new
    dsimp only
    split_ifs with hempty
    · exact .inr ⟨_, rfl⟩
    · exact .inl rfl

theorem RecvMsgBuffers.prepare_cases (b : RecvMsgBuffers) :
    b.prepare = .ok ⟨b.data.map IoVecOutputBuffer.mk, b.control.map IoOutputBuffer.mk⟩ ∨
      ∃ kind, b.prepare = .error ⟨b, kind⟩ := by
  obtain ⟨data, control⟩ := b
  cases data with
  | none => exact prepareControl_cases none control
  | some data =>
    unfold prepare IoVecOutputBuffer.new
    dsimp only
    split_ifs with hempty
    · exact .inr ⟨_, rfl⟩
    · exact prepareControl_cases (some ⟨data⟩) control

theorem PendingIoMessage.new_cases (iovMax : ℕ) (reserved : List UInt8) (data : Option (List BytesMut))
    (control : Option BytesMut) :
    let buffers : IoRecvMsgOutputBuffers := ⟨data.map IoVecOutputBuffer.mk, control.map IoOutputBuffer.mk⟩
    (∃ iovec, PendingIoMessage.new iovMax reserved buffers =
        .ok ⟨⟨buffers.data, control.map fun b => ⟨b.chunkMut reserved⟩⟩, iovec⟩) ∨
      ∃ e, PendingIoMessage.new iovMax reserved buffers =
        .error (.recvMsgBuffersSubmissionError ⟨⟨data, control⟩, .invalidIoVec e⟩) := by
  intro buffers
  have hunwrap : buffers.unwrap = ⟨data, control⟩ := by
    simp [buffers, IoRecvMsgOutputBuffers.unwrap, Function.comp_def]
  have hcontrol : (buffers.control.map fun b => (⟨b.data.chunkMut reserved⟩ : IoOutputBuffer)) =
      control.map fun b => ⟨b.chunkMut reserved⟩ := by
    simp [buffers, Function.comp_def]
  unfold PendingIoMessage.new
  rw [hcontrol, hunwrap]
  dsimp only
  split
  · exact .inr ⟨_, rfl⟩
  · exact .inl ⟨_, rfl⟩
  · exact .inl ⟨_, rfl⟩

/-- The buffers of a message are never lost. -/
theorem Read.survives_recvMsg (data : Option (List BytesMut)) (control : Option BytesMut) (flags : ℤ) :
    match (Read.recvMsgInto data control flags).operation iovMax reserved with
    | .ok op => ∀ fate e, awaitError reserved op fate = some e → (Read.recvMsgInto data control flags).Survives e
    | .error e => (Read.recvMsgInto data control flags).Survives (.submission e) := by
  have hsame (kind : RecvMsgSubmissionErrorKind) : (Read.recvMsgInto data control flags).Survives
      (.submission (.recvMsgBuffersSubmissionError ⟨⟨data, control⟩, kind⟩)) := by
    refine ⟨_, rfl, ?_, ?_⟩
    · cases data with
      | none => exact .none
      | some bs => exact .some (forall₂_kept_refl bs)
    · cases control with
      | none => exact .none
      | some b => exact .some (kept_refl b)
  unfold operation
  dsimp only
  obtain hprepared | ⟨kind, hprepared⟩ := RecvMsgBuffers.prepare_cases ⟨data, control⟩
  · rw [hprepared]
    dsimp only
    unfold IoOperation.recvMsgInto
    obtain ⟨iovec, hnew⟩ | ⟨e, hnew⟩ := PendingIoMessage.new_cases iovMax reserved data control
    · rw [hnew]
      refine fun fate e he => Carried.survives ⟨_, iovec, rfl, ?_⟩ rfl he
      cases control with
      | none => exact .none
      | some b => exact .some (kept_chunkMut b reserved)
    · rw [hnew]
      exact hsame (.invalidIoVec e)
  · rw [hprepared]
    exact hsame kind

/-- **Every error of a call gives its buffers back if and only if a vectored
call can make its iovecs.** -/
theorem Read.survives_iff (iovMax : ℕ) (reserved : List UInt8) (call : Read) :
    (∀ fate e, call.error iovMax reserved fate = some e → call.Survives e) ↔ call.Gathers iovMax := by
  rw [survives_all_iff]
  cases call with
  | readInto b | readAtInto _ b | recvInto b =>
    exact iff_of_true (survives_withBuffer ⟨_, rfl, rfl⟩ ⟨b, rfl, kept_refl b⟩) trivial
  | readvInto bs | readvAtInto _ bs =>
    exact survives_withBuffers (fun iovecs => ⟨iovecs, rfl⟩) fun e => Iff.rfl
  | recvMsgInto data control flags => exact iff_of_true (survives_recvMsg data control flags) trivial

/-- A full buffer makes no iovec, and is gone. -/
theorem Read.survives_fails :
    ¬ ∀ (iovMax : ℕ) (reserved : List UInt8) (call : Read) (fate : Fate) (e : IoReadError),
      call.error iovMax reserved fate = some e → call.Survives e := by
  intro h
  obtain ⟨bs', hlost, -⟩ := h 1024 [] (.readvInto [⟨[1], []⟩]) .noWorker _ rfl
  cases hlost

end ClAsync
