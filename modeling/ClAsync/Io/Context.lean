/-
# The I/O context

`IoContext`: the submission ring of 256 entries, which `submit` empties into
the kernel, and the completion queue. `prepare_submission` gives a submission
back when the ring is full, and adds its slot to the completion queue when it
is not.

The kernel is what it has taken from the ring. The completion queue is kept
together with its history (`Traffic.State`); `IoContext::complete` consumes
completions one by one, each of an operation the kernel has taken.
-/
import ClAsync.Io.Traffic

namespace ClAsync

/-- `IoContext::new(256)`. -/
def ringEntries : ℕ := 256

/-- `IoSubmission`: what a worker is sent. -/
structure IoSubmission (τ : Type) where
  key : Key
  op : IoOperation τ
  waker : Option Waker
  deriving DecidableEq, Repr

/-- `IoContext`: the entries not yet submitted, those the kernel has taken, and the
completion queue. -/
structure IoContext (τ κ φ : Type) where
  submission : List (IoEntry τ)
  kernel : List (IoEntry τ)
  traffic : Traffic.State τ κ φ

namespace IoContext

variable {τ κ φ : Type}

/-- `IoContext::new`. -/
def new : IoContext τ κ φ := ⟨[], [], .init⟩

/-- Everything ever pushed on the ring. -/
def pushed (ctx : IoContext τ κ φ) : List (IoEntry τ) := ctx.kernel ++ ctx.submission

/-- `submission` goes on the ring, and its entry into the completion queue. -/
def push (ctx : IoContext τ κ φ) (submission : IoSubmission τ) : IoContext τ κ φ :=
  { ctx with
    submission := ctx.submission ++ [⟨submission.op, submission.key⟩]
    traffic := ctx.traffic.addEntry submission.key submission.op submission.waker }

/-- `IoContext::prepare_submission`. -/
def prepareSubmission (ctx : IoContext τ κ φ) (submission : IoSubmission τ) :
    IoContext τ κ φ × Option (IoSubmission τ) :=
  if ctx.submission.length < ringEntries then (ctx.push submission, none)
  else (ctx, some submission)

/-- `IoContext::submit`: the kernel takes what is on the ring. -/
def submit (ctx : IoContext τ κ φ) : IoContext τ κ φ :=
  { ctx with submission := [], kernel := ctx.kernel ++ ctx.submission }

/-- One turn of the loop of `IoContext::complete`. -/
def completeItem [CompletableOperation τ κ φ] (ctx : IoContext τ κ φ) (key : Key) (resultCode : ℤ)
    (more : Bool) : Option (IoContext τ κ φ) :=
  if ∃ entry ∈ ctx.kernel, entry.key = key then
    (ctx.traffic.complete key resultCode more).map fun traffic => { ctx with traffic }
  else none

@[simp] theorem pushed_submit (ctx : IoContext τ κ φ) : ctx.submit.pushed = ctx.pushed := by
  rw [pushed, submit, List.append_nil, pushed]

@[simp] theorem traffic_submit (ctx : IoContext τ κ φ) : ctx.submit.traffic = ctx.traffic := rfl

theorem prepareSubmission_of_lt {ctx : IoContext τ κ φ} (submission : IoSubmission τ)
    (h : ctx.submission.length < ringEntries) :
    ctx.prepareSubmission submission = (ctx.push submission, none) := if_pos h

theorem prepareSubmission_of_ge {ctx : IoContext τ κ φ} (submission : IoSubmission τ)
    (h : ringEntries ≤ ctx.submission.length) :
    ctx.prepareSubmission submission = (ctx, some submission) := if_neg (Nat.not_lt.mpr h)

/-- A completion is of an operation that has been pushed, and changes the
completion queue only. -/
theorem completeItem_cases [CompletableOperation τ κ φ] {ctx ctx' : IoContext τ κ φ} {key : Key}
    {resultCode : ℤ} {more : Bool} (h : ctx.completeItem key resultCode more = some ctx') :
    (∃ entry ∈ ctx.pushed, entry.key = key) ∧
      ∃ traffic, ctx.traffic.complete key resultCode more = some traffic ∧
        ctx' = { ctx with traffic } := by
  unfold completeItem at h
  split at h
  · rename_i hkernel
    obtain ⟨entry, hmem, hkey⟩ := hkernel
    obtain ⟨traffic, htraffic, rfl⟩ := Option.map_eq_some_iff.mp h
    exact ⟨⟨entry, List.mem_append_left _ hmem, hkey⟩, traffic, htraffic, rfl⟩
  · cases h

end IoContext

end ClAsync
