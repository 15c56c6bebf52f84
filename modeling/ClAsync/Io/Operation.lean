/-
# I/O operations

What an operation is to the completion queue: its `IoType`, of which
`AsyncCancel` is the one that names another operation, the data of the
others behind `CompletableOperation`, and the `IoDuration` that says how
many results it will deliver. `IoOperation.complete` turns the `i32` the
kernel posts into an `IoCompletionResult`.

The error codes are Linux's, and `OsError.ofErrno` is the whole of
`impl From<i32> for OsError`.
-/
import Mathlib.Algebra.Ring.Nat
import Mathlib.Data.Int.Notation
import Mathlib.Tactic.Common

namespace ClAsync

/-! ### OS errors -/

/-- `OsError`, the errors that the library names and the rest by their number. -/
inductive OsError
  | maxFdReached
  | notEnoughMemory
  | operationCanceled
  | operationInProgress
  | operationForbidden
  | operationNotSupported
  | resourceUnavailable
  | resourceBusy
  | invalidMessage
  | messageTooLong
  | invalidFd
  | deadlock
  | resourceTooLarge
  | isADirectory
  | alreadyExists
  | notFound
  | notADirectory
  | invalidPointer
  | permissionDenied
  | operationInterrupted
  | invalidOperation
  | unknownError
  | addressInUse
  | addressNotAvailable
  | addressFamilyNotSupported
  | connectionRefused
  | connectionReset
  | notConnected
  | connectionAborted
  | connectionTimedOut
  | networkUnreachable
  | peerUnreachable
  | networkDisconnected
  | peerDisconnected
  | destinationAddressRequired
  | brokenPipe
  | noBufferSpace
  | generic (code : ℤ)
  deriving DecidableEq, Repr

/-- `libc::ECANCELED`. -/
def ecanceled : ℤ := 125

/-- `OsError::from(i32)`. -/
def OsError.ofErrno (osError : ℤ) : OsError :=
  match osError with
  | 22 => .invalidOperation            -- EINVAL
  | 24 | 23 => .maxFdReached           -- EMFILE, ENFILE
  | 12 => .notEnoughMemory             -- ENOMEM
  | 13 => .operationForbidden          -- EACCES
  | 9 => .invalidFd                    -- EBADF
  | 17 => .alreadyExists               -- EEXIST
  | 14 => .invalidPointer              -- EFAULT
  | 2 => .notFound                     -- ENOENT
  | 1 => .permissionDenied             -- EPERM
  | 4 => .operationInterrupted         -- EINTR
  | 125 => .operationCanceled          -- ECANCELED
  | 20 => .notADirectory               -- ENOTDIR
  | 21 => .isADirectory                -- EISDIR
  | 11 => .resourceUnavailable         -- EAGAIN
  | 115 => .operationInProgress        -- EINPROGRESS
  | 35 => .deadlock                    -- EDEADLK
  | 27 => .resourceTooLarge            -- EFBIG
  | 98 => .addressInUse                -- EADDRINUSE
  | 99 => .addressNotAvailable         -- EADDRNOTAVAIL
  | 97 => .addressFamilyNotSupported   -- EAFNOSUPPORT
  | 111 => .connectionRefused          -- ECONNREFUSED
  | 104 => .connectionReset            -- ECONNRESET
  | 103 => .connectionAborted          -- ECONNABORTED
  | 110 => .connectionTimedOut         -- ETIMEDOUT
  | 89 => .destinationAddressRequired  -- EDESTADDRREQ
  | 90 => .messageTooLong              -- EMSGSIZE
  | 42 => .invalidMessage              -- ENOMSG
  | 107 => .notConnected               -- ENOTCONN
  | 101 => .networkUnreachable         -- ENETUNREACH
  | 100 => .networkDisconnected        -- ENETDOWN
  | 113 => .peerUnreachable            -- EHOSTUNREACH
  | 112 => .peerDisconnected           -- EHOSTDOWN
  | 32 => .brokenPipe                  -- EPIPE
  | 105 => .noBufferSpace              -- ENOBUFS
  | code => .generic code

theorem OsError.ofErrno_eq_operationCanceled {code : ℤ} :
    OsError.ofErrno code = .operationCanceled ↔ code = ecanceled := by
  constructor
  · intro h
    unfold OsError.ofErrno at h
    split at h <;> first | rfl | cases h
  · rintro rfl
    rfl

/-! ### Operations -/

/-- A `u64` key, the user data of an operation on the ring of one worker. -/
abbrev Key := ℕ

/-- The number of `u64` values. -/
def u64Count : ℕ := 2 ^ 64

/-- How many completions an operation has: one that nobody awaits, one, or any
number. -/
inductive IoDuration
  | zero
  | single
  | persistent
  deriving DecidableEq, Repr

/-- `IoCompletion`: `Success`, or the data of one of the other variants. -/
inductive IoCompletion (κ : Type)
  | success
  | data (d : κ)
  deriving DecidableEq, Repr

/-- `IoFailure`: `Generic`, or the data that a failed operation gives back. -/
inductive IoFailure (φ : Type)
  | generic
  | data (d : φ)
  deriving DecidableEq, Repr

/-- What an operation fails with: what it gives back, and the error of the system. -/
structure IoOperationError (φ : Type) where
  failure : IoFailure φ
  osError : OsError
  deriving DecidableEq, Repr

/-- What a poll of an operation may return. -/
abbrev IoCompletionResult (κ φ : Type) := Except (IoOperationError φ) (IoCompletion κ)

/-- `CompletableOperation`, for the data `τ` of an operation. The methods
take `&mut self`: they return what is left of the data as well. -/
class CompletableOperation (τ : Type) (κ φ : outParam Type) where
  getCompletion : τ → ℕ → IoCompletion κ × τ := fun t _ => (.success, t)
  getFailure : τ → IoFailure φ × τ := fun t => (.generic, t)

/-- `IoType`: an `AsyncCancel` of the operation with the key it carries, or
one of the operations on data. -/
inductive IoType (τ : Type)
  | cancel (key : Key)
  | data (t : τ)
  deriving DecidableEq, Repr

/-- An operation as it is submitted: what it does, and how often it completes. -/
structure IoOperation (τ : Type) where
  t : IoType τ
  duration : IoDuration
  deriving DecidableEq, Repr

variable {τ κ φ : Type} [CompletableOperation τ κ φ]

/-- `get_completion`, with a cancel succeeding without data. -/
def IoType.getCompletion : IoType τ → ℕ → IoCompletion κ × IoType τ
  | cancel key, _ => (.success, .cancel key)
  | data t, resultCode =>
    let (completion, t) := CompletableOperation.getCompletion t resultCode
    (completion, .data t)

/-- `get_failure`: a cancel has nothing to give back. -/
def IoType.getFailure : IoType τ → IoFailure φ × IoType τ
  | cancel key => (.generic, .cancel key)
  | data t =>
    let (failure, t) := CompletableOperation.getFailure t
    (failure, .data t)

/-- `IoOperation::complete`: a negative code is an `errno`. -/
def IoOperation.complete (op : IoOperation τ) (resultCode : ℤ) :
    IoCompletionResult κ φ × IoOperation τ :=
  if resultCode < 0 then
    let (failure, t) := op.t.getFailure
    (.error ⟨failure, OsError.ofErrno (-resultCode)⟩, { op with t })
  else
    let (completion, t) := op.t.getCompletion resultCode.toNat
    (.ok completion, { op with t })

/-- `IoOperation::cancel_forget`. -/
def IoOperation.cancelForget (key : Key) : IoOperation τ := ⟨.cancel key, .zero⟩

/-! ### Two kinds of data -/

/-- `IoCloseData`; the descriptor it closes is of no consequence here. -/
inductive IoCloseData
  | mk
  deriving DecidableEq, Repr

instance : CompletableOperation IoCloseData Empty Empty where

/-- `close_forget`: nobody awaits that a descriptor is closed. -/
def IoOperation.closeForget : IoOperation IoCloseData := ⟨.data .mk, .zero⟩

/-- `IoAcceptMultiData`: each completion is one more connection. -/
inductive IoAcceptMultiData
  | mk
  deriving DecidableEq, Repr

/-- `IoAcceptCompletion`; its `address` is `None` for `AcceptMulti`. -/
structure IoAcceptCompletion where
  fd : ℕ
  deriving DecidableEq, Repr

instance : CompletableOperation IoAcceptMultiData IoAcceptCompletion Empty where
  getCompletion t resultCode := (.data ⟨resultCode⟩, t)

/-- `accept_multi`, an operation that goes on until it is canceled or fails. -/
def IoOperation.acceptMulti : IoOperation IoAcceptMultiData := ⟨.data .mk, .persistent⟩

/-! ### Results -/

/-- The result of a canceled operation. -/
def isCanceled : IoCompletionResult κ φ → Bool
  | .error e => e.osError = .operationCanceled
  | .ok _ => false

@[simp] theorem IoOperation.complete_duration (op : IoOperation τ) (resultCode : ℤ) :
    (op.complete resultCode).2.duration = op.duration := by
  unfold IoOperation.complete
  split <;> rfl

theorem IoOperation.isCanceled_complete (op : IoOperation τ) (resultCode : ℤ) :
    isCanceled (op.complete resultCode).1 = decide (resultCode = -ecanceled) := by
  unfold IoOperation.complete
  split
  · rename_i hneg
    simp only [isCanceled, OsError.ofErrno_eq_operationCanceled, decide_eq_decide]
    omega
  · rename_i hneg
    simp only [isCanceled, Bool.false_eq, decide_eq_false_iff_not]
    intro h
    rw [h] at hneg
    exact hneg (by decide)

end ClAsync
