/-
# The completion queue

`IoCompletionQueue`: a map from the keys of a worker's operations to slots.
A slot is added when the operation is pushed on the ring, `complete` records
what the kernel posts for it and wakes the waker the slot holds, and `poll`
takes results out.

The map is a `DashMap`. `poll` and `complete` release the entry before they
remove a slot that has lost its state; in between, every other operation on
the key finds no state there, which is the same to it as no slot. So each of
them is one atomic step here.

Key definitions: `IoCompletionState`, `IoCompletionSlot`, `IoCompletionQueue`.
Key theorems: `lookup_addEntry`, `lookup_complete` and `lookup_poll`, what
each operation does to the slot of its key and that it leaves the other
slots alone.
-/
import ClAsync.Io.Operation
import Mathlib.Data.Finmap

namespace ClAsync

/-- `std::task::Poll`. -/
inductive Poll (α : Type)
  | ready (a : α)
  | pending
  deriving DecidableEq, Repr

/-- A waker, by the task it wakes. -/
abbrev Waker := ℕ

variable {τ κ φ : Type}

/-! ### The state of one operation -/

/-- An operation under the key it was submitted with. -/
structure IoEntry (τ : Type) where
  op : IoOperation τ
  key : Key
  deriving DecidableEq, Repr

/-- Whether more completions of a persistent operation are to come. -/
inductive MultiCompletionResultState
  | running
  | draining
  deriving DecidableEq, Repr

/-- The results of a persistent operation that no poll has taken yet. -/
structure IoMultiCompletionResult (τ κ φ : Type) where
  inner : List (IoCompletionResult κ φ)
  op : IoOperation τ
  state : MultiCompletionResultState

/-- `IoMultiCompletionResult::new`. -/
def IoMultiCompletionResult.new (result : IoCompletionResult κ φ) (op : IoOperation τ) :
    IoMultiCompletionResult τ κ φ :=
  ⟨[result], op, .running⟩

/-- `IoMultiCompletionResult::complete`: a canceled completion is the last. -/
def IoMultiCompletionResult.complete [CompletableOperation τ κ φ]
    (mcr : IoMultiCompletionResult τ κ φ) (result : ℤ) : IoMultiCompletionResult τ κ φ :=
  let (completion, op) := mcr.op.complete result
  { inner := mcr.inner ++ [completion]
    op
    state := if isCanceled completion then .draining else mcr.state }

/-- What is known of an operation. -/
inductive IoCompletionState (τ κ φ : Type)
  | notCompleted (entry : IoEntry τ)
  | single (result : IoCompletionResult κ φ)
  | multi (mcr : IoMultiCompletionResult τ κ φ)
  | completed

/-- The first completion of an operation, by its duration. -/
def IoEntry.complete [CompletableOperation τ κ φ] (entry : IoEntry τ) (result : ℤ) :
    IoCompletionState τ κ φ :=
  let (completionResult, op) := entry.op.complete result
  match op.duration with
  | .zero => .completed
  | .single => .single completionResult
  | .persistent => .multi (.new completionResult op)

namespace IoCompletionState

/-- `IoCompletionState::complete`; `none` for a state that cannot be completed
once more. -/
def complete [CompletableOperation τ κ φ] :
    IoCompletionState τ κ φ → ℤ → Option (IoCompletionState τ κ φ)
  | notCompleted entry, result => some (entry.complete result)
  | single _, _ => none
  | multi mcr, result => some (multi (mcr.complete result))
  | completed, _ => none

/-- `IoCompletionState::into_result`: the result taken out, and the state
that remains. -/
def intoResult : IoCompletionState τ κ φ →
    Option (IoCompletionResult κ φ) × Option (IoCompletionState τ κ φ)
  | notCompleted entry => (none, some (notCompleted entry))
  | single result => (some result, none)
  | multi mcr =>
    let isEmpty : Bool := mcr.inner.length ≤ 1
    let rest := { mcr with inner := mcr.inner.tail }
    (mcr.inner.head?, if mcr.state = .draining ∧ isEmpty then none else some (multi rest))
  | completed => (none, none)

end IoCompletionState

/-! ### Slots -/

/-- The state of an operation and the waker of its latest pending poll. -/
structure IoCompletionSlot (τ κ φ : Type) where
  state : Option (IoCompletionState τ κ φ)
  waker : Option Waker

namespace IoCompletionSlot

/-- `IoCompletionSlot::new`. -/
def new (entry : IoEntry τ) (waker : Option Waker) : IoCompletionSlot τ κ φ :=
  ⟨some (.notCompleted entry), waker⟩

/-- `is_valid_state`. -/
def isValidState (slot : IoCompletionSlot τ κ φ) : Bool := slot.state.isSome

/-- `IoCompletionSlot::complete`: the waker that it wakes, valid or not, and the
slot unless it is no longer valid. -/
def complete [CompletableOperation τ κ φ] (slot : IoCompletionSlot τ κ φ) (result : ℤ) :
    Option Waker × Option (IoCompletionSlot τ κ φ) :=
  (slot.waker, match slot.state with
    | none => none
    | some state => (state.complete result).map fun state => { slot with state := some state })

/-- `try_extract_result`; `none` is the `Err(())` of a slot without a state. -/
def tryExtractResult (slot : IoCompletionSlot τ κ φ) :
    Option (Option (IoCompletionResult κ φ)) × IoCompletionSlot τ κ φ :=
  match slot.state with
  | none => (none, slot)
  | some state =>
    let (result, state) := state.intoResult
    (some result, { slot with state })

/-- What a poll by the waker `w` does with the slot it finds: its result, and
the slot unless it is no longer valid. -/
def poll (slot : IoCompletionSlot τ κ φ) (w : Waker) :
    Poll (Option (IoCompletionResult κ φ)) × Option (IoCompletionSlot τ κ φ) :=
  let (result, slot) := slot.tryExtractResult
  let (result, slot) : Poll (Option (IoCompletionResult κ φ)) × IoCompletionSlot τ κ φ :=
    match result with
    | none => (.ready none, slot)
    | some (some result) => (.ready (some result), slot)
    | some none => (.pending, { slot with waker := some w })
  (result, if slot.isValidState then some slot else none)

end IoCompletionSlot

/-! ### The queue -/

/-- `IoCompletionQueue`, the map of the slots. -/
abbrev IoCompletionQueue (τ κ φ : Type) := Finmap fun _ : Key => IoCompletionSlot τ κ φ

namespace IoCompletionQueue

/-- Leave `slot` at the key, or remove the key. -/
def put (queue : IoCompletionQueue τ κ φ) (key : Key) :
    Option (IoCompletionSlot τ κ φ) → IoCompletionQueue τ κ φ
  | some slot => queue.insert key slot
  | none => queue.erase key

/-- `IoCompletionQueue::poll` by the waker `w`. -/
def poll (queue : IoCompletionQueue τ κ φ) (key : Key) (w : Waker) :
    Poll (Option (IoCompletionResult κ φ)) × IoCompletionQueue τ κ φ :=
  match queue.lookup key with
  | none => (.ready none, queue)
  | some slot =>
    let (result, slot) := slot.poll w
    (result, put queue key slot)

/-- `IoCompletionQueue::add_entry`. -/
def addEntry (queue : IoCompletionQueue τ κ φ) (key : Key) (entry : IoEntry τ)
    (waker : Option Waker) : IoCompletionQueue τ κ φ :=
  queue.insert key (.new entry waker)

/-- `IoCompletionQueue::complete`, with the waker that it wakes. -/
def complete [CompletableOperation τ κ φ] (queue : IoCompletionQueue τ κ φ) (key : Key)
    (result : ℤ) : Option Waker × IoCompletionQueue τ κ φ :=
  match queue.lookup key with
  | none => (none, queue)
  | some slot =>
    let (waker, slot) := slot.complete result
    (waker, put queue key slot)

/-- The number of operations that have not left the queue. -/
def len (queue : IoCompletionQueue τ κ φ) : ℕ := queue.keys.card

variable {queue : IoCompletionQueue τ κ φ} {key k : Key}

theorem lookup_put (slot : Option (IoCompletionSlot τ κ φ)) :
    (put queue key slot).lookup k = if k = key then slot else queue.lookup k := by
  unfold put
  split_ifs with h
  · subst h
    cases slot with
    | none => exact Finmap.lookup_erase k queue
    | some slot => exact Finmap.lookup_insert queue
  · cases slot with
    | none => exact Finmap.lookup_erase_ne h
    | some slot => exact Finmap.lookup_insert_of_ne queue h

/-- A new entry takes its key and no other. -/
theorem lookup_addEntry (entry : IoEntry τ) (waker : Option Waker) :
    (addEntry queue key entry waker).lookup k =
      if k = key then some (.new entry waker) else queue.lookup k :=
  lookup_put (some (.new entry waker))

/-- A completion changes or removes the slot of its key. -/
theorem lookup_complete [CompletableOperation τ κ φ] (result : ℤ) :
    (complete queue key result).2.lookup k =
      if k = key then (queue.lookup key).bind fun slot => (slot.complete result).2
      else queue.lookup k := by
  unfold complete
  cases hq : queue.lookup key with
  | none =>
    simp only [Option.bind_none]
    split_ifs with h
    · rw [h, hq]
    · rfl
  | some slot => exact lookup_put _

/-- A completion wakes the waker of the slot that it finds. -/
theorem complete_fst [CompletableOperation τ κ φ] (result : ℤ) :
    (complete queue key result).1 = (queue.lookup key).bind fun slot => slot.waker := by
  unfold complete
  cases queue.lookup key <;> rfl

/-- A poll changes or removes the slot of its key. -/
theorem lookup_poll (w : Waker) :
    (poll queue key w).2.lookup k =
      if k = key then (queue.lookup key).bind fun slot => (slot.poll w).2
      else queue.lookup k := by
  unfold poll
  cases hq : queue.lookup key with
  | none =>
    simp only [Option.bind_none]
    split_ifs with h
    · rw [h, hq]
    · rfl
  | some slot => exact lookup_put _

/-- A poll that finds a slot returns what the slot has to give. -/
theorem poll_fst (w : Waker) :
    (poll queue key w).1 =
      ((queue.lookup key).map fun slot => (slot.poll w).1).getD (.ready none) := by
  unfold poll
  cases queue.lookup key <;> rfl

theorem mem_keys_iff : k ∈ queue.keys ↔ (queue.lookup k).isSome := by
  rw [Finmap.mem_keys, Finmap.lookup_isSome]

end IoCompletionQueue

end ClAsync
