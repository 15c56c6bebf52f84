/-
# Event channels

An `EventChannel` is an eventfd: a count of 64 bits in the kernel, which a
`send` adds to and a receiver takes from. A read takes all of it, or one at a
time when the channel has `SEMAPHORE`; at zero it fails, or waits when the
channel does not have `NONBLOCK`. A write that would take the count to
2⁶⁴ - 1 fails, or waits.

Every call here is one system call, so any number of threads with their own
senders and receivers is any sequence of them; `drain` reads in a loop, and
each of its reads is a step.

Key definitions: `EventFd`, `send`, `recv`, `drainRead`, `step`.
Key theorems: `step_cases`, `conserved_run`, every run, and `drain_alone`.
-/
import ClAsync.Lib.Runs
import Mathlib.Algebra.BigOperators.Group.List.Basic
import Mathlib.Algebra.Order.Group.Nat
import Mathlib.Algebra.Ring.Nat

namespace ClAsync

/-- `EventChannelFlags`. -/
structure EventChannelFlags where
  cloexec : Bool
  nonblock : Bool
  semaphore : Bool
  deriving DecidableEq, Repr

namespace EventChannelFlags

/-- The flags of `EventChannelFlags::default`. -/
def none : EventChannelFlags := ⟨false, false, false⟩

/-- The flags of `EventChannel::new`. -/
def standard : EventChannelFlags := ⟨true, true, false⟩

end EventChannelFlags

/-! ### The eventfd -/

namespace EventFd

/-- The count never reaches `u64::MAX`. -/
def maxCount : ℕ := 2 ^ 64 - 2

end EventFd

/-- An `eventfd`, whose count stays below the largest `u64`. -/
structure EventFd where
  flags : EventChannelFlags
  count : ℕ
  count_le : count ≤ EventFd.maxCount
  deriving DecidableEq, Repr

/-- The errors of its reads and writes. -/
inductive Errno
  | again
  | inval
  | badf
  deriving DecidableEq, Repr

namespace EventFd

/-- `eventfd(0, flags)`. -/
def new (flags : EventChannelFlags) : EventFd := ⟨flags, 0, Nat.zero_le _⟩

/-- `write` of 8 bytes; `none` when it waits. -/
def write (fd : EventFd) (value : UInt64) : Option (Except Errno ℤ × EventFd) :=
  if value.toNat = 2 ^ 64 - 1 then some (.error .inval, fd)
  else if h : fd.count + value.toNat ≤ maxCount then some (.ok 8, ⟨fd.flags, fd.count + value.toNat, h⟩)
  else if fd.flags.nonblock then some (.error .again, fd)
  else none

/-- What a read takes from a count that is not zero. -/
def share (fd : EventFd) : ℕ := if fd.flags.semaphore then 1 else fd.count

/-- What a read leaves. -/
def take (fd : EventFd) : EventFd := ⟨fd.flags, fd.count - fd.share, (Nat.sub_le ..).trans fd.count_le⟩

/-- `read` of 8 bytes, with the value they hold. -/
def read (fd : EventFd) : Option (Except Errno (ℤ × UInt64) × EventFd) :=
  if fd.count = 0 then if fd.flags.nonblock then some (.error .again, fd) else none
  else some (.ok (8, UInt64.ofNat fd.share), fd.take)

theorem share_pos {fd : EventFd} (h : fd.count ≠ 0) : 0 < fd.share ∧ fd.share ≤ fd.count := by
  unfold share
  split <;> omega

end EventFd

/-- The texts of the errors are those of the errno. -/
inductive EventChannelError
  | failedToSendEvent (e : Errno)
  | failedToReceiveEvent (e : Errno)
  | partialTransfer (n : ℤ)
  deriving DecidableEq, Repr

namespace EventChannel

/-- `EventChannelSender::send`. -/
def send (fd : EventFd) (value : UInt64) : Option (Except EventChannelError Unit × EventFd) :=
  (fd.write value).map fun (result, fd) =>
    match result with
    | .error e => (.error (.failedToSendEvent e), fd)
    | .ok bytesWritten => (if bytesWritten ≠ 8 then .error (.partialTransfer bytesWritten) else .ok (), fd)

/-- `EventChannelSender::signal`. -/
def signal (fd : EventFd) : Option (Except EventChannelError Unit × EventFd) := send fd 1

/-- `EventChannelReceiver::_recv`. -/
def recv (fd : EventFd) : Option (Except EventChannelError UInt64 × EventFd) :=
  fd.read.map fun (result, fd) =>
    match result with
    | .error e => (.error (.failedToReceiveEvent e), fd)
    | .ok (bytesRead, data) => (if bytesRead ≠ 8 then .error (.partialTransfer bytesRead) else .ok data, fd)

/-- One round of the loop of `EventChannelReceiver::drain`: the value read
when the loop goes on, or what `drain` returns. -/
def drainRead (fd : EventFd) : Option ((UInt64 ⊕ Except EventChannelError Unit) × EventFd) :=
  fd.read.map fun (result, fd) =>
    match result with
    | .error .again => (.inr (.ok ()), fd)
    | .error e => (.inr (.error (.failedToReceiveEvent e)), fd)
    | .ok (bytesRead, data) => (if bytesRead ≠ 8 then .inr (.error (.partialTransfer bytesRead)) else .inl data, fd)

/-! ### Runs -/

/-- A call of `drain`: in its loop, or returned. -/
inductive Drain
  | reading
  | returned (result : Except EventChannelError Unit)
  deriving DecidableEq, Repr

/-- The channel with the values that were sent and received on it, each by a
call that succeeded, and its calls of `drain`. -/
structure State where
  fd : EventFd
  sent : List UInt64
  received : List UInt64
  drains : List Drain
  deriving DecidableEq, Repr

/-- A new channel. -/
def State.init (flags : EventChannelFlags) : State := ⟨.new flags, [], [], []⟩

/-- What the senders and the receivers do. -/
inductive Act
  | send (value : UInt64)
  | recv
  | drain
  | drainRead (i : ℕ)
  deriving DecidableEq, Repr

/-- One act. -/
def step (s : State) : Act → Option State
  | .send value => (send s.fd value).map fun (result, fd) =>
    match result with
    | .ok () => { s with fd, sent := s.sent ++ [value] }
    | .error _ => { s with fd }
  | .recv => (recv s.fd).map fun (result, fd) =>
    match result with
    | .ok value => { s with fd, received := s.received ++ [value] }
    | .error _ => { s with fd }
  | .drain => some { s with drains := s.drains ++ [.reading] }
  | .drainRead i =>
    if s.drains[i]? = some .reading then
      (drainRead s.fd).map fun (result, fd) =>
        match result with
        | .inl value => { s with fd, received := s.received ++ [value] }
        | .inr result => { s with fd, drains := s.drains.set i (.returned result) }
    else none

/-- The sum of the values of a list. -/
def total (values : List UInt64) : ℕ := (values.map UInt64.toNat).sum

@[simp] theorem total_concat (values : List UInt64) (v : UInt64) :
    total (values ++ [v]) = total values + v.toNat := by
  simp [total]

/-- What a read does: it takes a value that is not zero, or there is none to
take. -/
theorem read_cases {fd fd' : EventFd} {result : Except Errno (ℤ × UInt64)} (h : fd.read = some (result, fd')) :
    (fd.count = 0 ∧ fd.flags.nonblock = true ∧ result = .error .again ∧ fd' = fd) ∨
      ∃ v : UInt64, 0 < v.toNat ∧ fd'.count + v.toNat = fd.count ∧ fd'.flags = fd.flags ∧
        v.toNat = fd.share ∧ result = .ok (8, v) := by
  unfold EventFd.read at h
  split at h
  · rename_i hzero
    split at h
    · rename_i hnonblock
      cases h
      exact .inl ⟨hzero, hnonblock, rfl, rfl⟩
    · cases h
  · rename_i hpos
    obtain ⟨hshare, hle⟩ := EventFd.share_pos hpos
    have hmax : fd.count ≤ 2 ^ 64 - 2 := fd.count_le
    have htoNat : (UInt64.ofNat fd.share).toNat = fd.share :=
      UInt64.toNat_ofNat_of_lt' (by simp only [UInt64.size]; omega)
    cases h
    refine .inr ⟨_, by rwa [htoNat], ?_, rfl, htoNat, rfl⟩
    rw [htoNat]
    exact Nat.sub_add_cancel hle

/-- What a step does: a value is sent, a value is received, or the calls of
`drain` change and nothing else. Only a read that finds a count of zero ends a
`drain`. -/
theorem step_cases {s s' : State} {a : Act} (h : step s a = some s') :
    (∃ v, s'.fd.count = s.fd.count + v.toNat ∧ s'.fd.flags = s.fd.flags ∧ s'.sent = s.sent ++ [v] ∧
      s'.received = s.received ∧ s'.drains = s.drains) ∨
    (∃ v, 0 < v.toNat ∧ s'.fd.count + v.toNat = s.fd.count ∧ s'.fd.flags = s.fd.flags ∧
      v.toNat = s.fd.share ∧ s'.sent = s.sent ∧
      s'.received = s.received ++ [v] ∧ s'.drains = s.drains) ∨
    (s'.fd = s.fd ∧ s'.sent = s.sent ∧ s'.received = s.received ∧
      (s'.drains = s.drains ∨ s'.drains = s.drains ++ [.reading] ∨
        ∃ i, s.fd.count = 0 ∧ s.fd.flags.nonblock = true ∧
          s'.drains = s.drains.set i (.returned (.ok ())))) := by
  cases a with
  | send value =>
    obtain ⟨⟨result, fd⟩, hsend, rfl⟩ := Option.map_eq_some_iff.mp h
    obtain ⟨⟨written, fd'⟩, hwrite, heq⟩ := Option.map_eq_some_iff.mp hsend
    unfold EventFd.write at hwrite
    split_ifs at hwrite <;> cases hwrite <;> cases heq
    · exact .inr (.inr ⟨rfl, rfl, rfl, .inl rfl⟩)
    · exact .inl ⟨value, rfl, rfl, rfl, rfl, rfl⟩
    · exact .inr (.inr ⟨rfl, rfl, rfl, .inl rfl⟩)
  | recv =>
    obtain ⟨⟨result, fd⟩, hrecv, rfl⟩ := Option.map_eq_some_iff.mp h
    obtain ⟨⟨read, fd'⟩, hread, heq⟩ := Option.map_eq_some_iff.mp hrecv
    obtain ⟨-, -, rfl, rfl⟩ | ⟨v, hpos, hcount, hflags, hv, rfl⟩ := read_cases hread <;> cases heq
    · exact .inr (.inr ⟨rfl, rfl, rfl, .inl rfl⟩)
    · exact .inr (.inl ⟨v, hpos, hcount, hflags, hv, rfl, rfl, rfl⟩)
  | drain =>
    cases h
    exact .inr (.inr ⟨rfl, rfl, rfl, .inr (.inl rfl)⟩)
  | drainRead i =>
    simp only [step] at h
    split at h
    · obtain ⟨⟨result, fd⟩, hdrain, rfl⟩ := Option.map_eq_some_iff.mp h
      obtain ⟨⟨read, fd'⟩, hread, heq⟩ := Option.map_eq_some_iff.mp hdrain
      obtain ⟨hzero, hnonblock, rfl, rfl⟩ | ⟨v, hpos, hcount, hflags, hv, rfl⟩ := read_cases hread <;> cases heq
      · exact .inr (.inr ⟨rfl, rfl, rfl, .inr (.inr ⟨i, hzero, hnonblock, rfl⟩)⟩)
      · exact .inr (.inl ⟨v, hpos, hcount, hflags, hv, rfl, rfl, rfl⟩)
    · cases h

/-- What was sent and not received is the count; a value that was received is
not zero, and one from a channel with `SEMAPHORE`; and a `drain` has returned
only from a channel with `NONBLOCK`, and has not failed. -/
structure Conserved (flags : EventChannelFlags) (s : State) : Prop where
  flags_eq : s.fd.flags = flags
  balance : total s.sent = total s.received + s.fd.count
  positive : ∀ v ∈ s.received, 0 < v.toNat
  one : flags.semaphore = true → ∀ v ∈ s.received, v = 1
  drained : ∀ result, .returned result ∈ s.drains → flags.nonblock = true ∧ result = .ok ()

theorem conserved_step {flags : EventChannelFlags} {s s' : State} {a : Act} (hs : Conserved flags s)
    (h : step s a = some s') : Conserved flags s' := by
  obtain ⟨v, hcount, hflags, hsent, hrecv, hdrains⟩ | ⟨v, hpos, hcount, hflags, hv, hsent, hrecv, hdrains⟩ |
    ⟨hfd, hsent, hrecv, hdrains⟩ := step_cases h
  · refine ⟨hflags.trans hs.flags_eq, ?_, hrecv ▸ hs.positive, hrecv ▸ hs.one, hdrains ▸ hs.drained⟩
    have hb := hs.balance
    rw [hsent, total_concat, hrecv]
    omega
  · refine ⟨hflags.trans hs.flags_eq, ?_, ?_, ?_, hdrains ▸ hs.drained⟩
    · have hb := hs.balance
      rw [hsent, hrecv, total_concat]
      omega
    · rw [hrecv]
      exact List.forall_mem_append.mpr ⟨hs.positive, List.forall_mem_singleton.mpr hpos⟩
    · intro hsemaphore
      rw [EventFd.share, hs.flags_eq, if_pos hsemaphore] at hv
      rw [hrecv]
      exact List.forall_mem_append.mpr
        ⟨hs.one hsemaphore, List.forall_mem_singleton.mpr (UInt64.toNat_inj.mp hv)⟩
  · refine ⟨hfd ▸ hs.flags_eq, by rw [hsent, hrecv, hfd]; exact hs.balance, hrecv ▸ hs.positive,
      hrecv ▸ hs.one, fun result hmem => ?_⟩
    obtain heq | heq | ⟨i, -, hnonblock, heq⟩ := hdrains <;> rw [heq] at hmem
    · exact hs.drained result hmem
    · obtain hmem | hmem := List.mem_append.mp hmem
      · exact hs.drained result hmem
      · cases List.mem_singleton.mp hmem
    · obtain hmem | heq := List.mem_or_eq_of_mem_set hmem
      · exact hs.drained result hmem
      · cases heq
        exact ⟨hs.flags_eq ▸ hnonblock, rfl⟩

/-- **Nothing that is sent on an event channel is lost or made up, whoever
receives and drains, and no `drain` of a channel without `NONBLOCK` returns.** -/
theorem conserved_run (flags : EventChannelFlags) (as : List Act) :
    Runs.Along step (Conserved flags) (.init flags) as :=
  Runs.along_of_step (fun _ _ _ => conserved_step) (fun _ hs => hs) as
    ⟨rfl, rfl, fun _ h => absurd h List.not_mem_nil, fun _ _ h => absurd h List.not_mem_nil,
      fun _ h => absurd h List.not_mem_nil⟩

/-! ### A drain by itself -/

/-- The reads that empty the channel. -/
def reads (fd : EventFd) : ℕ := if fd.flags.semaphore then fd.count else min 1 fd.count

theorem reads_take {fd : EventFd} (h : fd.count ≠ 0) : reads fd.take + 1 = reads fd := by
  have hshare := EventFd.share_pos h
  unfold reads EventFd.take
  simp only
  unfold EventFd.share at hshare ⊢
  split <;> omega

theorem step_drainRead_zero {s : State} {i : ℕ} (hi : s.drains[i]? = some .reading) (hzero : s.fd.count = 0)
    (hn : s.fd.flags.nonblock = true) :
    step s (.drainRead i) = some { s with drains := s.drains.set i (.returned (.ok ())) } := by
  simp [step, hi, drainRead, EventFd.read, hzero, hn]

theorem step_drainRead_pos {s : State} {i : ℕ} (hi : s.drains[i]? = some .reading) (hpos : s.fd.count ≠ 0) :
    step s (.drainRead i) =
      some { s with fd := s.fd.take, received := s.received ++ [UInt64.ofNat s.fd.share] } := by
  simp [step, hi, drainRead, EventFd.read, hpos]

/-- **A `drain` of a channel with `NONBLOCK` that nobody disturbs returns, after
one read more than empty the channel, and leaves a count of zero.** -/
theorem drain_alone {s : State} {i : ℕ} (hi : s.drains[i]? = some .reading) (hn : s.fd.flags.nonblock = true) :
    ∃ s', Runs.run step s (List.replicate (reads s.fd + 1) (.drainRead i)) = some s' ∧
      s'.fd.count = 0 ∧ s'.drains[i]? = some (.returned (.ok ())) := by
  by_cases hzero : s.fd.count = 0
  · have hreads : reads s.fd = 0 := by simp [reads, hzero]
    have hlt : i < s.drains.length := (List.getElem?_eq_some_iff.mp hi).1
    refine ⟨{ s with drains := s.drains.set i (.returned (.ok ())) }, ?_, hzero, List.getElem?_set_self hlt⟩
    rw [hreads, List.replicate_one, Runs.run, step_drainRead_zero hi hzero hn]
    rfl
  · have hstep := step_drainRead_pos hi hzero
    have hless : s.fd.take.count < s.fd.count := Nat.sub_lt (Nat.pos_of_ne_zero hzero) (EventFd.share_pos hzero).1
    obtain ⟨s', hrun, hs'⟩ := drain_alone
      (s := { s with fd := s.fd.take, received := s.received ++ [UInt64.ofNat s.fd.share] }) hi hn
    refine ⟨s', ?_, hs'⟩
    rw [← reads_take hzero, List.replicate_succ, Runs.run, hstep]
    exact hrun
termination_by s.fd.count

theorem drain_alone_semaphore :
    let s : State := ⟨⟨⟨true, true, true⟩, 2, by decide⟩, [2], [], [.reading]⟩
    ∃ s', Runs.run step s (List.replicate (reads s.fd + 1) (.drainRead 0)) = some s' ∧
      s'.fd.count = 0 ∧ s'.drains[0]? = some (.returned (.ok ())) :=
  drain_alone rfl rfl

-- Without `EFD_NONBLOCK` the read that would end `drain` waits.
example : Runs.run step (.init .none) [.send 3, .drain, .drainRead 0, .drainRead 0] = none := by decide

end EventChannel
end ClAsync
