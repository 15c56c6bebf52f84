/-
# The message channel of a worker

`send_message` puts a message in the channel of the worker and then signals:
it adds one to an eventfd that the worker's poller watches edge-triggered. So
every signal is an event, although the main loop never reads the eventfd; it
receives when the event comes, until the channel is empty.

A signal fails when the count is full. After two failures the sender asks the
worker to repair the channel, with a message that it does not signal. The
worker then makes a new eventfd, has it watched in place of the old one and
swaps it into the cell from which all senders load the descriptor. A sender
may load before the swap and write after it, to a descriptor that is closed
or that something else has by then.

A worker that stops drains the eventfd and goes on in its shutdown loop, which
receives whatever is in the channel without an event, and repairs nothing. What
comes after its last look is dropped with the receiver.

Key definitions: `step`, `Attended`, `Rung`, `Deaf`, `Held`.
Key theorems: `step_cases`; `attended_iff`, exactly when no message waits for
an event that does not come; `attended_of_few`; `deaf_run`, a channel whose
count is full is never repaired, and the main loop receives nothing more; and
`held`, every eventfd of the channel is closed once.
-/
import ClAsync.Events.Channel
import Mathlib.Data.List.Count

namespace ClAsync
namespace MessageChannel

variable {α : Type}

/-- `Message`; `work` is any of those that only concern tasks and I/O. -/
inductive Message (α : Type)
  | work (a : α)
  | repairMessageChannel
  | shutdown
  | kill
  deriving DecidableEq, Repr

/-- Where a call of `send_message` is: before `sender.send`; before the load
of the descriptor, and before the write to it, of the first signal or of the
`second`; before it asks for a repair; returned. -/
inductive SendPc
  | push
  | load (second : Bool)
  | write (second : Bool) (fd : ℕ)
  | repair
  | sent
  deriving DecidableEq, Repr

/-- A call of `send_message`. -/
structure Send (α : Type) where
  message : Message α
  pc : SendPc
  deriving DecidableEq, Repr

/-- Where the worker is. In its main loop a repair has made and registered the
eventfd `fd` at `deregister`, and has swapped it for `old` at `close`. Past the
main loop it drains the eventfd, and its shutdown loop receives at `shutdown`
and runs tasks at `lastTasks`. It has returned at `left`. -/
inductive Pc
  | poll
  | recv
  | deregister (fd : ℕ)
  | swap (fd : ℕ)
  | close (old : ℕ)
  | tasks
  | drain
  | shutdown
  | lastTasks
  | left
  deriving DecidableEq, Repr

/-- The eventfds the channel has had are numbered. `cell` is the one in the
`AtomicOwnedFd` that senders and receivers share, `watched` the one that is
registered under the key of the message channel, and `ready` says whether the
poller has an event for it. -/
structure State (α : Type) where
  pc : Pc
  stopping : Bool
  channel : List (Message α)
  received : List (Message α)
  sends : List (Send α)
  fds : List EventFd
  cell : ℕ
  watched : ℕ
  ready : Bool
  closed : List ℕ
  deriving DecidableEq, Repr

def State.init : State α := ⟨.poll, false, [], [], [], [.new .standard], 0, 0, false, []⟩

/-- What comes of the calls of a repair: `EventChannel::new` fails, or
`register_interest` does, or neither. -/
inductive Repair
  | notCreated
  | notRegistered
  | done
  deriving DecidableEq, Repr

inductive Act (α : Type)
  | send (message : Message α)
  | push (i : ℕ)
  | load (i : ℕ)
  | write (i : ℕ) (reused : Bool)
  | ask (i : ℕ)
  | poll (shouldRecv stop : Bool)
  | recv (repair : Repair)
  | next
  | round (running : Bool)
  deriving DecidableEq, Repr

namespace State

def setSend (s : State α) (i : ℕ) (send : Send α) (pc : SendPc) : State α :=
  { s with sends := s.sends.set i { send with pc } }

/-- The signal of a sender has failed. -/
def failSend (s : State α) (i : ℕ) (send : Send α) (second : Bool) : State α :=
  s.setSend i send (if second then .repair else .load true)

/-- Whether the descriptor of the eventfd `fd` is closed. -/
def isClosed (s : State α) (fd : ℕ) : Bool := s.closed.contains fd

end State

/-- The write of a signal. The number of a closed descriptor may be that of
another file by then (`reused`), which takes the 8 bytes. -/
def write (s : State α) (i : ℕ) (send : Send α) (second : Bool) (fd : ℕ) (reused : Bool) : Option (State α) :=
  if s.isClosed fd then
    some (if reused then s.setSend i send .sent else s.failSend i send second)
  else
    s.fds[fd]?.bind fun eventFd => (EventChannel.signal eventFd).map fun (result, eventFd) =>
      match result with
      | .ok () =>
        { s.setSend i send .sent with
          fds := s.fds.set fd eventFd
          ready := s.ready || fd == s.watched }
      | .error _ => s.failSend i send second

/-- A message is received. -/
def receive (s : State α) (repair : Repair) : Message α → State α
  | .work _ => s
  | .shutdown => { s with stopping := true }
  | .kill => { s with pc := .left }
  | .repairMessageChannel =>
    match repair with
    | .notCreated => s
    -- The new channel is dropped.
    | .notRegistered => { s with fds := s.fds ++ [.new .standard], closed := s.closed ++ [s.fds.length] }
    | .done => { s with fds := s.fds ++ [.new .standard], pc := .deregister s.fds.length }

/-- A message is received in the shutdown loop: a request to shut down or to
repair the channel is ignored there. -/
def receiveLast (s : State α) : Message α → State α
  | .kill => { s with pc := .left }
  | .work _ | .shutdown | .repairMessageChannel => s

/-- The step of the worker where it is, but for `poll_events`, `try_recv` and
the end of a round of the shutdown loop. -/
def next (s : State α) : Option (State α) :=
  match s.pc with
  | .deregister fd => some { s with watched := fd, ready := false, pc := .swap fd }
  | .swap fd => some { s with cell := fd, pc := .close s.cell }
  | .close old => some { s with closed := s.closed ++ [old], pc := .recv }
  | .tasks => some { s with pc := if s.stopping then .drain else .poll }
  | .drain => s.fds[s.cell]?.bind fun eventFd => (EventChannel.drainRead eventFd).map fun (result, eventFd) =>
    let pc := match result with
      | .inl _ => .drain
      | .inr _ => .shutdown
    { s with fds := s.fds.set s.cell eventFd, pc }
  | .poll | .recv | .shutdown | .lastTasks | .left => none

/-- `send_message` of any thread, and the loops of the worker. An event of the
message channel may have to wait for a batch with room; a batch with a signal
that shuts down stops the worker. The shutdown loop goes round as long as tasks
are `running`. -/
def step (s : State α) : Act α → Option (State α)
  | .send message =>
    match message with
    -- Only `send_message` itself sends one.
    | .repairMessageChannel => none
    | _ => some { s with sends := s.sends ++ [⟨message, .push⟩] }
  | .push i =>
    match s.sends[i]? with
    | some ⟨message, .push⟩ =>
      if s.pc = .left then none
      else some { s.setSend i ⟨message, .push⟩ (.load false) with channel := s.channel ++ [message] }
    | _ => none
  | .load i =>
    match s.sends[i]? with
    | some ⟨message, .load second⟩ => some (s.setSend i ⟨message, .load second⟩ (.write second s.cell))
    | _ => none
  | .write i reused =>
    match s.sends[i]? with
    | some ⟨message, .write second fd⟩ => write s i ⟨message, .write second fd⟩ second fd reused
    | _ => none
  | .ask i =>
    match s.sends[i]? with
    | some ⟨message, .repair⟩ =>
      if s.pc = .left then none
      else some { s.setSend i ⟨message, .repair⟩ .sent with channel := s.channel ++ [.repairMessageChannel] }
    | _ => none
  | .poll shouldRecv stop =>
    if s.pc = .poll ∧ (shouldRecv = true → s.ready = true) then
      some { s with
        pc := if shouldRecv then .recv else .tasks
        ready := s.ready && !shouldRecv
        stopping := s.stopping || stop }
    else none
  | .recv repair =>
    if s.pc = .recv then
      match s.channel with
      | [] => some { s with pc := .tasks }
      | message :: channel => some (receive { s with channel, received := s.received ++ [message] } repair message)
    else if s.pc = .shutdown then
      match s.channel with
      | [] => some { s with pc := .lastTasks }
      | message :: channel => some (receiveLast { s with channel, received := s.received ++ [message] } message)
    else none
  | .next => next s
  | .round running => if s.pc = .lastTasks then some { s with pc := if running then .shutdown else .left } else none

/-! ### The steps one by one -/

/-- Whether the worker is between the event of its message channel and the end
of what it receives for it. -/
def Pc.receives : Pc → Bool
  | recv | deregister _ | swap _ | close _ => true
  | poll | tasks | drain | shutdown | lastTasks | left => false

/-- The worker is in its main loop. -/
def Pc.isMain : Pc → Bool
  | poll | recv | deregister _ | swap _ | close _ | tasks => true
  | drain | shutdown | lastTasks | left => false

/-- The write of a signal to the eventfd `fd` fails. -/
def Fails (s : State α) (fd : ℕ) (reused : Bool) : Prop :=
  if s.isClosed fd then reused = false else ∃ eventFd, s.fds[fd]? = some eventFd ∧ eventFd.count = EventFd.maxCount

/-- `Goes s a s'`: the step `a` from `s`, with what it found. -/
inductive Goes (s : State α) : Act α → State α → Prop
  | send {message : Message α} (hmessage : message ≠ .repairMessageChannel) :
      Goes s (.send message) { s with sends := s.sends ++ [⟨message, .push⟩] }
  | push {i : ℕ} {message : Message α} (hi : s.sends[i]? = some ⟨message, .push⟩) (hpc : s.pc ≠ .left) :
      Goes s (.push i) { s.setSend i ⟨message, .push⟩ (.load false) with channel := s.channel ++ [message] }
  | load {i : ℕ} {message : Message α} {second : Bool} (hi : s.sends[i]? = some ⟨message, .load second⟩) :
      Goes s (.load i) (s.setSend i ⟨message, .load second⟩ (.write second s.cell))
  | stray {i : ℕ} {message : Message α} {second : Bool} {fd : ℕ}
      (hi : s.sends[i]? = some ⟨message, .write second fd⟩) (hclosed : s.isClosed fd = true) :
      Goes s (.write i true) (s.setSend i ⟨message, .write second fd⟩ .sent)
  | signal {i : ℕ} {message : Message α} {second : Bool} {fd : ℕ} {eventFd eventFd' : EventFd} {reused : Bool}
      (hi : s.sends[i]? = some ⟨message, .write second fd⟩) (hclosed : s.isClosed fd = false)
      (hfd : s.fds[fd]? = some eventFd) (hcount : eventFd'.count = eventFd.count + 1)
      (hflags : eventFd'.flags = eventFd.flags) :
      Goes s (.write i reused)
        { s.setSend i ⟨message, .write second fd⟩ .sent with
          fds := s.fds.set fd eventFd'
          ready := s.ready || fd == s.watched }
  | fail {i : ℕ} {message : Message α} {second : Bool} {fd : ℕ} {reused : Bool}
      (hi : s.sends[i]? = some ⟨message, .write second fd⟩)
      (hfails : Fails s fd reused) :
      Goes s (.write i reused) (s.failSend i ⟨message, .write second fd⟩ second)
  | ask {i : ℕ} {message : Message α} (hi : s.sends[i]? = some ⟨message, .repair⟩) (hpc : s.pc ≠ .left) :
      Goes s (.ask i)
        { s.setSend i ⟨message, .repair⟩ .sent with channel := s.channel ++ [.repairMessageChannel] }
  | poll {shouldRecv stop : Bool} (hpc : s.pc = .poll) (hready : shouldRecv = true → s.ready = true) :
      Goes s (.poll shouldRecv stop)
        { s with
          pc := if shouldRecv then .recv else .tasks
          ready := s.ready && !shouldRecv
          stopping := s.stopping || stop }
  | recvNone {repair : Repair} (hpc : s.pc = .recv) (hchannel : s.channel = []) :
      Goes s (.recv repair) { s with pc := .tasks }
  | receive {repair : Repair} {message : Message α} {channel : List (Message α)} (hpc : s.pc = .recv)
      (hchannel : s.channel = message :: channel) :
      Goes s (.recv repair)
        (MessageChannel.receive { s with channel, received := s.received ++ [message] } repair message)
  | deregister {fd : ℕ} (hpc : s.pc = .deregister fd) :
      Goes s .next { s with watched := fd, ready := false, pc := .swap fd }
  | swap {fd : ℕ} (hpc : s.pc = .swap fd) : Goes s .next { s with cell := fd, pc := .close s.cell }
  | close {old : ℕ} (hpc : s.pc = .close old) :
      Goes s .next { s with closed := s.closed ++ [old], pc := .recv }
  | iterate (hpc : s.pc = .tasks) : Goes s .next { s with pc := if s.stopping then .drain else .poll }
  | drain {eventFd eventFd' : EventFd} {pc : Pc} (hpc : s.pc = .drain) (hfd : s.fds[s.cell]? = some eventFd)
      (hcount : eventFd'.count ≤ eventFd.count) (hnext : pc = .drain ∨ pc = .shutdown) :
      Goes s .next { s with fds := s.fds.set s.cell eventFd', pc }
  | lastNone {repair : Repair} (hpc : s.pc = .shutdown) (hchannel : s.channel = []) :
      Goes s (.recv repair) { s with pc := .lastTasks }
  | last {repair : Repair} {message : Message α} {channel : List (Message α)} {pc : Pc} (hpc : s.pc = .shutdown)
      (hchannel : s.channel = message :: channel) (hnext : pc = .shutdown ∨ pc = .left) :
      Goes s (.recv repair) { s with channel, received := s.received ++ [message], pc }
  | round {running : Bool} (hpc : s.pc = .lastTasks) :
      Goes s (.round running) { s with pc := if running then .shutdown else .left }

/-- A signal adds one to the count, or the count is full. -/
theorem signal_cases {fd fd' : EventFd} {result : Except EventChannelError Unit}
    (h : EventChannel.signal fd = some (result, fd')) :
    (result = .ok () ∧ fd'.count = fd.count + 1 ∧ fd'.flags = fd.flags) ∨
      ((∃ e, result = .error e) ∧ fd.count = EventFd.maxCount) := by
  obtain ⟨⟨written, eventFd⟩, hwrite, heq⟩ := Option.map_eq_some_iff.mp h
  have hle := fd.count_le
  unfold EventFd.write at hwrite
  split_ifs at hwrite with hmax hroom hnonblock <;> cases hwrite <;> cases heq
  · exact absurd hmax (by decide)
  · exact .inl ⟨rfl, rfl, rfl⟩
  · refine .inr ⟨⟨_, rfl⟩, ?_⟩
    have hone : (1 : UInt64).toNat = 1 := rfl
    omega

/-- A read of `drain` never adds to the count. -/
theorem drainRead_le {fd fd' : EventFd} {result : UInt64 ⊕ Except EventChannelError Unit}
    (h : EventChannel.drainRead fd = some (result, fd')) : fd'.count ≤ fd.count := by
  obtain ⟨⟨read, eventFd⟩, hread, heq⟩ := Option.map_eq_some_iff.mp h
  obtain ⟨-, -, rfl, rfl⟩ | ⟨v, -, hcount, -, -, rfl⟩ := EventChannel.read_cases hread <;> cases heq
  · exact Nat.le_refl _
  · omega

theorem step_cases {s s' : State α} {a : Act α} (h : step s a = some s') : Goes s a s' := by
  cases a with
  | send message => cases message <;> cases h <;> exact .send (by simp)
  | push i =>
    simp only [step] at h
    split at h
    · split at h
      · cases h
      · cases h
        exact .push ‹_› ‹_›
    · cases h
  | load i =>
    simp only [step] at h
    split at h
    · cases h
      exact .load ‹_›
    · cases h
  | write i reused =>
    simp only [step] at h
    split at h
    · rename_i message second fd hi
      unfold write at h
      split at h
      · rename_i hclosed
        cases reused <;> cases h
        · exact .fail hi ((if_pos hclosed).mpr rfl)
        · exact .stray hi hclosed
      · rename_i hclosed
        obtain ⟨eventFd, hfd, h⟩ := Option.bind_eq_some_iff.mp h
        obtain ⟨⟨result, eventFd'⟩, hsignal, heq⟩ := Option.map_eq_some_iff.mp h
        obtain ⟨rfl, hcount, hflags⟩ | ⟨⟨e, rfl⟩, hfull⟩ := signal_cases hsignal <;> cases heq
        · exact .signal hi (Bool.eq_false_iff.mpr hclosed) hfd hcount hflags
        · exact .fail hi ((if_neg hclosed).mpr ⟨eventFd, hfd, hfull⟩)
    · cases h
  | ask i =>
    simp only [step] at h
    split at h
    · split at h
      · cases h
      · cases h
        exact .ask ‹_› ‹_›
    · cases h
  | poll shouldRecv stop =>
    simp only [step] at h
    split at h
    · rename_i hpoll
      cases h
      exact .poll hpoll.1 hpoll.2
    · cases h
  | recv repair =>
    simp only [step] at h
    by_cases hrecv : s.pc = .recv
    · rw [if_pos hrecv] at h
      split at h <;> cases h
      · exact .recvNone hrecv ‹_›
      · exact .receive hrecv ‹_›
    rw [if_neg hrecv] at h
    by_cases hlast : s.pc = .shutdown
    · rw [if_pos hlast] at h
      split at h <;> cases h
      · exact .lastNone hlast ‹_›
      · rename_i message channel hchannel
        cases message with
        | kill => exact .last hlast hchannel (.inr rfl)
        | _ => exact hlast ▸ .last hlast hchannel (.inl rfl)
    · rw [if_neg hlast] at h
      cases h
  | next =>
    simp only [step, next] at h
    cases hpc : s.pc with
    | deregister fd =>
      simp only [hpc] at h
      cases h
      exact .deregister hpc
    | swap fd =>
      simp only [hpc] at h
      cases h
      exact .swap hpc
    | close old =>
      simp only [hpc] at h
      cases h
      exact .close hpc
    | tasks =>
      simp only [hpc] at h
      cases h
      exact .iterate hpc
    | drain =>
      simp only [hpc] at h
      obtain ⟨eventFd, hfd, h⟩ := Option.bind_eq_some_iff.mp h
      obtain ⟨⟨result, eventFd'⟩, hread, heq⟩ := Option.map_eq_some_iff.mp h
      cases heq
      refine .drain hpc hfd (drainRead_le hread) ?_
      cases result with
      | inl value => exact .inl rfl
      | inr result => exact .inr rfl
    | poll | recv | shutdown | lastTasks | left => simp [hpc] at h
  | round running =>
    obtain ⟨hpc, rfl⟩ : s.pc = .lastTasks ∧ { s with pc := if running then .shutdown else .left } = s' := by
      simpa [step, and_comm] using h
    exact .round hpc

/-! ### The eventfds -/

/-- The eventfd a repair has in hand. -/
def Pc.held : Pc → List ℕ
  | deregister fd | swap fd | close fd => [fd]
  | poll | recv | tasks | drain | shutdown | lastTasks | left => []

def Pc.watched (cell : ℕ) : Pc → ℕ
  | swap fd => fd
  | _ => cell

theorem Pc.watched_of_held {pc : Pc} (h : pc.held = []) (cell : ℕ) : pc.watched cell = cell := by
  cases pc <;> first | rfl | cases h

/-- Every eventfd the channel has had is in the cell, in the hand of a repair,
or closed once; and the watched one is that in the cell, but in the middle of
a repair. -/
structure Held (s : State α) : Prop where
  owners : (s.cell :: (s.pc.held ++ s.closed)).Perm (List.range s.fds.length)
  watched : s.watched = s.pc.watched s.cell

theorem perm_concat {l : List ℕ} {n : ℕ} (h : l.Perm (List.range n)) : (l ++ [n]).Perm (List.range (n + 1)) := by
  rw [List.range_succ]
  exact h.append_right [n]

/-- A step that leaves the worker where it is, and the cell, the eventfds and
what is closed as they are, keeps the owners. -/
theorem Held.congr {s s' : State α} (hs : Held s) (hpc : s'.pc = s.pc) (hcell : s'.cell = s.cell)
    (hwatched : s'.watched = s.watched) (hclosed : s'.closed = s.closed)
    (hlength : s'.fds.length = s.fds.length) : Held s' :=
  ⟨by rw [hcell, hpc, hclosed, hlength]; exact hs.owners, by rw [hwatched, hpc, hcell]; exact hs.watched⟩

/-- Where no repair is under way. -/
theorem held_iff {s : State α} (hpc : s.pc.held = []) :
    Held s ↔ (s.cell :: s.closed).Perm (List.range s.fds.length) ∧ s.watched = s.cell := by
  constructor
  · rintro ⟨howners, hwatched⟩
    rw [hpc] at howners
    exact ⟨howners, hwatched.trans (Pc.watched_of_held hpc _)⟩
  · rintro ⟨howners, hwatched⟩
    refine ⟨?_, hwatched.trans (Pc.watched_of_held hpc _).symm⟩
    rwa [hpc]

theorem held_receive {s : State α} (hs : Held s) (hpc : s.pc = .recv) (repair : Repair) (message : Message α) :
    Held (receive s repair message) := by
  have hnone : s.pc.held = [] := congrArg Pc.held hpc
  obtain ⟨howners, hwatched⟩ := (held_iff hnone).mp hs
  have hmore := perm_concat howners
  have hlength : (s.fds ++ [EventFd.new .standard]).length = s.fds.length + 1 := List.length_append
  cases message with
  | work a => exact hs
  | shutdown => exact hs.congr rfl rfl rfl rfl rfl
  | kill => exact (held_iff rfl).mpr ⟨howners, hwatched⟩
  | repairMessageChannel =>
    cases repair with
    | notCreated => exact hs
    | notRegistered =>
      have hidle : (receive s .notRegistered .repairMessageChannel).pc.held = [] := hnone
      exact (held_iff hidle).mpr ⟨by simpa only [receive, hlength, List.cons_append] using hmore, hwatched⟩
    | done =>
      refine ⟨?_, hwatched⟩
      have hfront := (List.perm_append_singleton s.fds.length (s.cell :: s.closed)).symm
      exact hlength ▸ (List.Perm.swap _ _ _).trans (hfront.trans hmore)

theorem held_step {s s' : State α} {a : Act α} (hs : Held s) (h : step s a = some s') : Held s' := by
  cases step_cases h with
  | send | push | load | stray | ask | fail => exact hs.congr rfl rfl rfl rfl rfl
  | signal => exact hs.congr rfl rfl rfl rfl (List.length_set ..)
  | poll hpc =>
    have hidle := (held_iff (congrArg Pc.held hpc)).mp hs
    exact (held_iff (by simp only; split <;> rfl)).mpr hidle
  | recvNone hpc => exact (held_iff rfl).mpr ((held_iff (congrArg Pc.held hpc)).mp hs)
  | @receive _ message channel hpc =>
    exact held_receive (s := { s with channel, received := s.received ++ [message] })
      (hs.congr rfl rfl rfl rfl rfl) hpc _ _
  | deregister hpc =>
    have howners := hs.owners
    rw [hpc] at howners
    exact ⟨howners, rfl⟩
  | swap hpc =>
    obtain ⟨howners, hwatched⟩ := hs
    rw [hpc] at howners hwatched
    exact ⟨(List.Perm.swap _ _ _).trans howners, hwatched⟩
  | close hpc =>
    obtain ⟨howners, hwatched⟩ := hs
    rw [hpc] at howners hwatched
    exact (held_iff rfl).mpr ⟨(List.Perm.cons _ (List.perm_append_singleton _ _)).trans howners, hwatched⟩
  | iterate hpc | round hpc =>
    have hidle := (held_iff (congrArg Pc.held hpc)).mp hs
    exact (held_iff (by simp only; split <;> rfl)).mpr hidle
  | drain hpc _ _ hnext =>
    have hidle := (held_iff (congrArg Pc.held hpc)).mp hs
    refine (held_iff (by obtain rfl | rfl := hnext <;> rfl)).mpr ?_
    rwa [List.length_set]
  | lastNone hpc => exact (held_iff rfl).mpr ((held_iff (congrArg Pc.held hpc)).mp hs)
  | last hpc _ hnext =>
    exact (held_iff (by obtain rfl | rfl := hnext <;> rfl)).mpr ((held_iff (congrArg Pc.held hpc)).mp hs)

theorem held_init : Held (State.init : State α) := ⟨List.Perm.refl _, rfl⟩

/-- **In every run, each eventfd that the channel has had is open in exactly
one place, the cell or the hand of a repair, or is closed exactly once.** -/
theorem held (as : List (Act α)) : Runs.Along step Held (State.init : State α) as :=
  Runs.along_of_step (fun _ _ _ => held_step) (fun _ hs => hs) as held_init

/-! ### No message waits for nothing -/

/-- A call of `send_message` that is still to signal the watched eventfd. -/
def SendPc.rings (watched : ℕ) : SendPc → Bool
  | load _ => true
  | write _ fd => fd == watched
  | push | repair | sent => false

def Rings (s : State α) (i : ℕ) : Prop := ∃ send, s.sends[i]? = some send ∧ send.pc.rings s.watched = true

/-- The worker does not depend on what the call `i` does: it has left its main
loop, or is about to receive, or has the event, or another call is still to
signal. -/
def Rung (s : State α) (i : ℕ) : Prop :=
  s.pc.isMain = false ∨ s.pc.receives = true ∨ s.ready = true ∨ ∃ j, j ≠ i ∧ Rings s j

/-- Nobody waits for nothing: if there is a message in the channel, the worker
is about to receive, or has the event, or will get it from a call that is
still to signal; or it has left its main loop, and receives without an event as
long as it goes round, and nothing once it has returned. -/
def Attended (s : State α) : Prop :=
  s.channel = [] ∨ s.pc.isMain = false ∨ s.pc.receives = true ∨ s.ready = true ∨ ∃ j, Rings s j

/-- A call whose second signal fails, or that asks for the repair, leaves the
worker with a reason to receive. -/
def Heard (s : State α) : Act α → Prop
  | .write i reused =>
    ∀ message fd, s.sends[i]? = some ⟨message, .write true fd⟩ → Fails s fd reused → s.channel = [] ∨ Rung s i
  | .ask i => Rung s i
  | _ => True

theorem Held.watched_open {s : State α} (hs : Held s) : s.isClosed s.watched = false := by
  have hnodup := hs.owners.nodup_iff.mpr List.nodup_range
  rw [List.nodup_cons, List.mem_append, not_or] at hnodup
  obtain ⟨⟨-, hcell⟩, hnodup⟩ := hnodup
  rw [State.isClosed, List.contains_eq_mem, decide_eq_false_iff_not, hs.watched]
  cases hpc : s.pc with
  | swap fd =>
    rw [hpc, Pc.held, List.singleton_append, List.nodup_cons] at hnodup
    exact hnodup.1
  | _ => exact hcell

/-- After a step of the call `i` alone that leaves it with nothing to signal,
it is up to the others. -/
theorem attended_set {s s' : State α} {i : ℕ} {send send' : Send α} (hi : s.sends[i]? = some send)
    (hsends : s'.sends = s.sends.set i send') (hquiet : send'.pc.rings s.watched = false)
    (hpc : s'.pc = s.pc) (hready : s'.ready = s.ready) (hwatched : s'.watched = s.watched) :
    Attended s' ↔ s'.channel = [] ∨ Rung s i := by
  have hlt : i < s.sends.length := (List.getElem?_eq_some_iff.mp hi).1
  have hrings : ∀ j, Rings s' j ↔ j ≠ i ∧ Rings s j := by
    intro j
    unfold Rings
    rw [hsends, hwatched]
    by_cases hj : j = i
    · subst hj
      simp [List.getElem?_set_self hlt, hquiet]
    · simp [List.getElem?_set_ne (Ne.symm hj), hj]
  simp only [Attended, Rung, hpc, hready, hrings]

theorem attended_of_set {s s' : State α} {i : ℕ} {send send' : Send α} (hi : s.sends[i]? = some send)
    (hsends : s'.sends = s.sends.set i send') (hquiet : send'.pc.rings s.watched = false)
    (hpc : s'.pc = s.pc) (hready : s'.ready = s.ready) (hwatched : s'.watched = s.watched)
    (h : s'.channel = [] ∨ Rung s i) : Attended s' :=
  (attended_set hi hsends hquiet hpc hready hwatched).mpr h

theorem rung_of_set {s s' : State α} {i : ℕ} {send send' : Send α} (h : Attended s') (hi : s.sends[i]? = some send)
    (hsends : s'.sends = s.sends.set i send') (hquiet : send'.pc.rings s.watched = false)
    (hpc : s'.pc = s.pc) (hready : s'.ready = s.ready) (hwatched : s'.watched = s.watched) :
    s'.channel = [] ∨ Rung s i :=
  (attended_set hi hsends hquiet hpc hready hwatched).mp h

/-- A call that has nothing to signal is not why a message is attended. -/
theorem Attended.rung {s : State α} {i : ℕ} {send : Send α} (hs : Attended s) (hi : s.sends[i]? = some send)
    (hquiet : send.pc.rings s.watched = false) : s.channel = [] ∨ Rung s i := by
  obtain ⟨hlt, rfl⟩ := List.getElem?_eq_some_iff.mp hi
  exact (attended_set hi (List.set_getElem_self hlt).symm hquiet rfl rfl rfl).mp hs

theorem attended_of_rings {s : State α} (j : ℕ) (h : Rings s j) : Attended s := .inr (.inr (.inr (.inr ⟨j, h⟩)))

theorem rings_setSend {s s' : State α} {i : ℕ} {send send' : Send α} (hi : s.sends[i]? = some send)
    (hsends : s'.sends = s.sends.set i send') (hrings : send'.pc.rings s'.watched = true) : Rings s' i := by
  have hlt : i < s.sends.length := (List.getElem?_eq_some_iff.mp hi).1
  exact ⟨send', by rw [hsends, List.getElem?_set_self hlt], hrings⟩

theorem attended_step {s s' : State α} {a : Act α} (hheld : Held s) (hs : Attended s) (hheard : Heard s a)
    (h : step s a = some s') : Attended s' := by
  cases step_cases h with
  | send =>
    obtain h | h | h | h | ⟨j, send, hj, hrings⟩ := hs
    · exact .inl h
    · exact .inr (.inl h)
    · exact .inr (.inr (.inl h))
    · exact .inr (.inr (.inr (.inl h)))
    · refine attended_of_rings j ⟨send, ?_, hrings⟩
      rw [List.getElem?_append_left (List.getElem?_eq_some_iff.mp hj).1]
      exact hj
  | push hi => exact attended_of_rings _ (rings_setSend hi rfl rfl)
  | load hi =>
    by_cases hreceives : s.pc.receives = true
    · exact .inr (.inr (.inl hreceives))
    · have hwatched : s.cell = s.watched := by
        rw [hheld.watched]
        cases hpc : s.pc with
        | swap fd => exact absurd (congrArg Pc.receives hpc) hreceives
        | _ => rfl
      exact attended_of_rings _ (rings_setSend hi rfl (beq_iff_eq.mpr hwatched))
  | @stray i message second fd hi hclosed =>
    have hne : fd ≠ s.watched := fun heq => by
      rw [heq, hheld.watched_open] at hclosed
      cases hclosed
    exact attended_of_set hi rfl rfl rfl rfl rfl (hs.rung hi (beq_eq_false_iff_ne.mpr hne))
  | @signal i message second fd eventFd eventFd' reused hi hclosed =>
    by_cases heq : fd = s.watched
    · exact .inr (.inr (.inr (.inl (by simp [heq]))))
    · have hfalse : (fd == s.watched) = false := beq_eq_false_iff_ne.mpr heq
      exact attended_of_set hi rfl rfl rfl (by simp [hfalse]) rfl (hs.rung hi hfalse)
  | @fail i message second fd reused hi hfails =>
    cases second with
    | false => exact attended_of_rings _ (rings_setSend hi rfl rfl)
    | true => exact attended_of_set hi rfl rfl rfl rfl rfl (hheard message fd hi hfails)
  | ask hi => exact attended_of_set hi rfl rfl rfl rfl rfl (.inr hheard)
  | @poll shouldRecv stop hpc =>
    cases shouldRecv with
    | true => exact .inr (.inr (.inl rfl))
    | false =>
      obtain h | h | h | h | h := hs
      · exact .inl h
      · cases (congrArg Pc.isMain hpc).symm.trans h
      · rw [hpc] at h
        cases h
      · exact .inr (.inr (.inr (.inl (by simpa using h))))
      · exact .inr (.inr (.inr (.inr h)))
  | recvNone _ hchannel => exact .inl hchannel
  | @receive repair message channel hpc =>
    cases message with
    | work | shutdown => exact .inr (.inr (.inl (congrArg Pc.receives hpc)))
    | kill => exact .inr (.inl rfl)
    | repairMessageChannel => cases repair <;>
        first | exact .inr (.inr (.inl (congrArg Pc.receives hpc))) | exact .inr (.inr (.inl rfl))
  | deregister | swap | close => exact .inr (.inr (.inl rfl))
  | iterate hpc =>
    obtain h | h | h | h | h := hs
    · exact .inl h
    · cases (congrArg Pc.isMain hpc).symm.trans h
    · rw [hpc] at h
      cases h
    · exact .inr (.inr (.inr (.inl h)))
    · exact .inr (.inr (.inr (.inr h)))
  | drain _ _ _ hnext | last _ _ hnext => exact .inr (.inl (by obtain rfl | rfl := hnext <;> rfl))
  | lastNone => exact .inr (.inl rfl)
  | round => exact .inr (.inl (by simp only; split <;> rfl))

/-- A call that is not heard leaves a message that waits for nothing. -/
theorem not_attended {s s' : State α} {a : Act α} (hheard : ¬ Heard s a) (h : step s a = some s') :
    ¬ Attended s' := by
  cases a with
  | write i reused =>
    simp only [Heard, not_forall] at hheard
    obtain ⟨message, fd, hi, hfails, hnot⟩ := hheard
    cases step_cases h with
    | stray hi' hclosed =>
      cases hi.symm.trans hi'
      cases (if_pos hclosed).mp hfails
    | @signal _ _ _ _ eventFd eventFd' _ hi' hclosed hfd hcount =>
      cases hi.symm.trans hi'
      obtain ⟨eventFd₀, hfd₀, hfull⟩ := (if_neg (Bool.eq_false_iff.mp hclosed)).mp hfails
      cases hfd.symm.trans hfd₀
      have hle := eventFd'.count_le
      omega
    | fail hi' =>
      cases hi.symm.trans hi'
      intro hs
      have hrung := rung_of_set hs hi rfl rfl rfl rfl rfl
      exact hnot hrung
  | ask i =>
    cases step_cases h with
    | ask hi =>
      intro hs
      obtain hnil | hrung := rung_of_set hs hi rfl rfl rfl rfl rfl
      · cases List.append_eq_nil_iff.mp hnil |>.2
      · exact hheard hrung
  | _ => exact absurd trivial hheard

/-- **In every run, no message waits in the channel for an event that does not
come if and only if every call whose signals fail leaves the worker with
another reason to receive.** -/
theorem attended_iff (as : List (Act α)) :
    Runs.Along step Attended (State.init : State α) as ↔ Runs.Taken step Heard (State.init : State α) as :=
  Runs.along_iff_taken
    (fun _ _ _ hheld hs hheard h => ⟨held_step hheld h, attended_step hheld hs hheard h⟩)
    (fun _ _ _ _ _ hheard h => not_attended hheard h)
    held_init (.inl rfl)

/-! ### A count that is not full -/

/-- A call of `send_message` has returned. -/
def Send.isSent (send : Send α) : Bool :=
  match send.pc with
  | .sent => true
  | _ => false

/-- What holds as long as no signal has failed: there is one eventfd, and its
count is at most the number of the calls that have returned. -/
structure Fresh (s : State α) : Prop where
  fds : ∃ eventFd, s.fds = [eventFd] ∧ eventFd.count ≤ s.sends.countP Send.isSent
  cell : s.cell = 0
  closed : s.closed = []
  held : s.pc.held = []
  messages : .repairMessageChannel ∉ s.channel
  first : ∀ send ∈ s.sends, send.message ≠ .repairMessageChannel ∧
    (send.pc = .push ∨ send.pc = .load false ∨ send.pc = .write false 0 ∨ send.pc = .sent)

theorem fresh_init : Fresh (State.init : State α) :=
  ⟨⟨_, rfl, Nat.le_refl _⟩, rfl, rfl, rfl, List.not_mem_nil, fun _ h => absurd h List.not_mem_nil⟩

/-- A call that has not returned makes a step and still has not. -/
theorem Fresh.set {s s' : State α} (hs : Fresh s) {i : ℕ} {send : Send α} {pc : SendPc}
    (hi : s.sends[i]? = some send) (hsends : s'.sends = s.sends.set i { send with pc }) (hsend : send.isSent = false)
    (hpc : pc = .push ∨ pc = .load false ∨ pc = .write false 0)
    (hfds : s'.fds = s.fds) (hcell : s'.cell = s.cell) (hclosed : s'.closed = s.closed) (hworker : s'.pc = s.pc)
    (hchannel : .repairMessageChannel ∉ s'.channel) : Fresh s' := by
  obtain ⟨hlt, rfl⟩ := List.getElem?_eq_some_iff.mp hi
  obtain ⟨eventFd, hone, hcount⟩ := hs.fds
  refine ⟨⟨eventFd, hfds.trans hone, ?_⟩, hcell.trans hs.cell, hclosed.trans hs.closed,
    hworker ▸ hs.held, hchannel, ?_⟩
  · have hnot : Send.isSent { s.sends[i] with pc } = false := by
      obtain rfl | rfl | rfl := hpc <;> rfl
    rw [hsends, List.countP_set hlt, hsend, hnot]
    simpa using hcount
  · intro send hmem
    rw [hsends] at hmem
    obtain hmem | rfl := List.mem_or_eq_of_mem_set hmem
    · exact hs.first send hmem
    · refine ⟨(hs.first _ (List.getElem_mem hlt)).1, ?_⟩
      obtain h | h | h := hpc <;> simp [h]

theorem fresh_step {s s' : State α} {a : Act α} (hs : Fresh s) (hfew : s.sends.length ≤ EventFd.maxCount)
    (h : step s a = some s') : Fresh s' ∧ Heard s a := by
  obtain ⟨eventFd, hfds, hcount⟩ := hs.fds
  -- A call that is about to write finds the one eventfd open, and room in it.
  have hwrite : ∀ {i : ℕ} {message : Message α} {second : Bool} {fd : ℕ},
      s.sends[i]? = some ⟨message, .write second fd⟩ →
        second = false ∧ fd = 0 ∧ s.isClosed fd = false ∧ eventFd.count < EventFd.maxCount := by
    intro i message second fd hi
    have hfirst := (hs.first _ (List.mem_of_getElem? hi)).2
    simp only [reduceCtorEq, SendPc.write.injEq, false_or, or_false] at hfirst
    refine ⟨hfirst.1, hfirst.2, by simp [State.isClosed, hs.closed], ?_⟩
    refine Nat.lt_of_le_of_lt hcount
      (Nat.lt_of_lt_of_le (List.countP_lt_length_iff.mpr ⟨_, List.mem_of_getElem? hi, ?_⟩) hfew)
    rfl
  cases step_cases h with
  | @send message hmessage =>
    refine ⟨⟨⟨eventFd, hfds, ?_⟩, hs.cell, hs.closed, hs.held, hs.messages, ?_⟩, trivial⟩
    · rw [List.countP_append]
      exact Nat.le_add_right_of_le hcount
    · exact List.forall_mem_append.mpr ⟨hs.first, List.forall_mem_singleton.mpr ⟨hmessage, .inl rfl⟩⟩
  | @push i message hi =>
    refine ⟨hs.set hi rfl rfl (.inr (.inl rfl)) rfl rfl rfl rfl ?_, trivial⟩
    rw [List.mem_append, List.mem_singleton]
    exact not_or.mpr ⟨hs.messages, Ne.symm (hs.first _ (List.mem_of_getElem? hi)).1⟩
  | @load i message second hi =>
    have hfirst := (hs.first _ (List.mem_of_getElem? hi)).2
    simp only [reduceCtorEq, SendPc.load.injEq, false_or, or_false] at hfirst
    subst hfirst
    exact ⟨hs.set hi (by rw [State.setSend, hs.cell]) rfl (.inr (.inr rfl)) rfl rfl rfl rfl hs.messages, trivial⟩
  | stray hi hclosed => exact absurd hclosed (Bool.eq_false_iff.mp (hwrite hi).2.2.1)
  | @signal i message second fd eventFd₀ eventFd' reused hi hclosed hfd hcount' =>
    obtain ⟨rfl, rfl, -, -⟩ := hwrite hi
    rw [hfds, List.getElem?_cons_zero, Option.some.injEq] at hfd
    subst hfd
    have hlt : i < s.sends.length := (List.getElem?_eq_some_iff.mp hi).1
    have hget : s.sends[i] = ⟨message, .write false 0⟩ := (List.getElem?_eq_some_iff.mp hi).2
    refine ⟨⟨⟨eventFd', by simp only [hfds]; rfl, ?_⟩, hs.cell, hs.closed, hs.held, hs.messages, ?_⟩, ?_⟩
    · rw [hcount', State.setSend, List.countP_set hlt, hget]
      simpa [Send.isSent] using hcount
    · intro send hmem
      obtain hmem | rfl := List.mem_or_eq_of_mem_set hmem
      · exact hs.first send hmem
      · exact ⟨(hs.first _ (List.mem_of_getElem? hi)).1, by simp⟩
    · intro message' fd hi'
      cases hi.symm.trans hi'
  | @fail i message second fd reused hi hfails =>
    obtain ⟨-, rfl, hopen, hroom⟩ := hwrite hi
    obtain ⟨e, he, hfull⟩ := (if_neg (Bool.eq_false_iff.mp hopen)).mp hfails
    rw [hfds, List.getElem?_cons_zero, Option.some.injEq] at he
    subst he
    omega
  | ask hi =>
    have hfirst := (hs.first _ (List.mem_of_getElem? hi)).2
    simp at hfirst
  | poll | iterate | round =>
    refine ⟨⟨⟨eventFd, hfds, hcount⟩, hs.cell, hs.closed, ?_, hs.messages, hs.first⟩, trivial⟩
    simp only
    split <;> rfl
  | @drain eventFd₀ eventFd' pc hpc hfd hle hnext =>
    rw [hfds, hs.cell, List.getElem?_cons_zero, Option.some.injEq] at hfd
    subst hfd
    refine ⟨⟨⟨eventFd', by rw [hfds, hs.cell]; rfl, hle.trans hcount⟩, hs.cell, hs.closed, ?_, hs.messages,
      hs.first⟩, trivial⟩
    obtain rfl | rfl := hnext <;> rfl
  | last hpc hchannel hnext =>
    have hmessages := hs.messages
    rw [hchannel, List.mem_cons, not_or] at hmessages
    refine ⟨⟨⟨eventFd, hfds, hcount⟩, hs.cell, hs.closed, ?_, hmessages.2, hs.first⟩, trivial⟩
    obtain rfl | rfl := hnext <;> rfl
  | recvNone | lastNone => exact ⟨⟨⟨eventFd, hfds, hcount⟩, hs.cell, hs.closed, rfl, hs.messages, hs.first⟩, trivial⟩
  | @receive repair message channel hpc hchannel =>
    have hmessages := hs.messages
    rw [hchannel, List.mem_cons, not_or] at hmessages
    cases message with
    | repairMessageChannel => exact absurd rfl hmessages.1
    | work | shutdown =>
      exact ⟨⟨⟨eventFd, hfds, hcount⟩, hs.cell, hs.closed, hs.held, hmessages.2, hs.first⟩, trivial⟩
    | kill => exact ⟨⟨⟨eventFd, hfds, hcount⟩, hs.cell, hs.closed, rfl, hmessages.2, hs.first⟩, trivial⟩
  | deregister hpc | swap hpc | close hpc => cases (congrArg Pc.held hpc).symm.trans hs.held

/-- **As long as at most 2⁶⁴ - 2 calls of `send_message` have been made, no
message waits in the channel for an event that does not come.** -/
theorem attended_of_few (as : List (Act α))
    (hfew : Runs.Taken step (fun s _ => s.sends.length ≤ EventFd.maxCount) (State.init : State α) as) :
    Runs.Along step Attended (State.init : State α) as :=
  Runs.along_of_invariant (I := fun s => Held s ∧ Attended s ∧ Fresh s)
    (fun _ _ _ ⟨hheld, hs, hfresh⟩ hfew h =>
      have hnext := fresh_step hfresh hfew h
      ⟨held_step hheld h, attended_step hheld hs hnext.2 h, hnext.1⟩)
    (fun _ hs => hs.2.1) ⟨held_init, .inl rfl, fresh_init⟩ hfew

/-- Two calls that overlap; the worker wakes up between their signals. -/
theorem attended_twoCalls :
    Runs.Along step Attended (State.init : State ℕ)
      [.send (.work 7), .push 0, .send (.work 8), .load 0, .write 0 false, .poll true false, .recv .done,
        .push 1, .recv .done, .recv .done, .load 1, .next, .write 1 false] :=
  attended_of_few _ (by decide)

/-! ### A full count -/

/-- The count of the watched eventfd is full, its last event has been taken
and the worker, in its main loop, is done receiving for it. -/
structure Deaf (s : State α) : Prop where
  main : s.pc.isMain = true
  idle : s.pc.receives = false
  quiet : s.ready = false
  full : ∀ eventFd, s.fds[s.watched]? = some eventFd → eventFd.count = EventFd.maxCount

/-- A step of a deaf worker leaves it deaf, or takes it out of its main loop. -/
theorem deaf_step {s s' : State α} {a : Act α} (hs : Deaf s) (h : step s a = some s') :
    s'.received = s.received ∧ s'.cell = s.cell ∧ s.channel <+: s'.channel ∧ (Deaf s' ∨ s'.pc.isMain = false) := by
  obtain ⟨hmain, hidle, hquiet, hfull⟩ := hs
  have hreceives : ∀ {pc : Pc}, s.pc = pc → pc.receives = false := fun hpc => hpc ▸ hidle
  have hin : ∀ {pc : Pc}, s.pc = pc → pc.isMain = true := fun hpc => hpc ▸ hmain
  cases step_cases h with
  | send | load | stray | fail => exact ⟨rfl, rfl, List.prefix_refl _, .inl ⟨hmain, hidle, hquiet, hfull⟩⟩
  | push | ask => exact ⟨rfl, rfl, List.prefix_append .., .inl ⟨hmain, hidle, hquiet, hfull⟩⟩
  | @signal i message second fd eventFd eventFd' reused hi hclosed hfd hcount =>
    have hne : fd ≠ s.watched := fun heq => by
      have hmax := hfull eventFd (heq ▸ hfd)
      have hle := eventFd'.count_le
      omega
    refine ⟨rfl, rfl, List.prefix_refl _, .inl ⟨hmain, hidle, by simp [hquiet, hne], fun e he => hfull e ?_⟩⟩
    rw [← he]
    exact (List.getElem?_set_ne hne).symm
  | @poll shouldRecv stop hpc hready =>
    cases shouldRecv with
    | true => exact absurd (hready rfl) (Bool.eq_false_iff.mp hquiet)
    | false => exact ⟨rfl, rfl, List.prefix_refl _, .inl ⟨rfl, rfl, by simp [hquiet], hfull⟩⟩
  | recvNone hpc | receive hpc | deregister hpc | swap hpc | close hpc => cases hreceives hpc
  | drain hpc | lastNone hpc | last hpc | round hpc => cases hin hpc
  | iterate hpc =>
    refine ⟨rfl, rfl, List.prefix_refl _, ?_⟩
    by_cases hstopping : s.stopping = true
    · exact .inr (by rw [if_pos hstopping]; rfl)
    · exact .inl ⟨by rw [if_neg hstopping]; rfl, by rw [if_neg hstopping]; rfl, hquiet, hfull⟩

/-- A worker that has left its main loop does not come back, nor does it repair
the channel. -/
theorem left_step {s s' : State α} {a : Act α} (hs : s.pc.isMain = false) (h : step s a = some s') :
    s'.pc.isMain = false ∧ s'.cell = s.cell := by
  have hout : ∀ {pc : Pc}, s.pc = pc → pc.isMain = false := fun hpc => hpc ▸ hs
  cases step_cases h with
  | send | push | load | stray | signal | fail | ask => exact ⟨hs, rfl⟩
  | poll hpc | recvNone hpc | receive hpc | deregister hpc | swap hpc | close hpc | iterate hpc => cases hout hpc
  | drain _ _ _ hnext | last _ _ hnext => exact ⟨by obtain rfl | rfl := hnext <;> rfl, rfl⟩
  | lastNone => exact ⟨rfl, rfl⟩
  | round => exact ⟨by simp only; split <;> rfl, rfl⟩

theorem left_run {s s' : State α} {as : List (Act α)} (hs : s.pc.isMain = false) (h : Runs.run step s as = some s') :
    s'.pc.isMain = false ∧ s'.cell = s.cell := by
  induction as generalizing s with
  | nil =>
    cases h
    exact ⟨hs, rfl⟩
  | cons a as ih =>
    obtain ⟨s₁, hstep, h⟩ := Option.bind_eq_some_iff.mp h
    obtain ⟨hs₁, hcell₁⟩ := left_step hs hstep
    obtain ⟨hs', hcell⟩ := ih hs₁ h
    exact ⟨hs', hcell.trans hcell₁⟩

/-- **Once the count is full and its event taken, the channel is never repaired,
and the main loop of the worker receives nothing more, whatever is sent:** no
message, and no request to repair the channel. -/
theorem deaf_run {s s' : State α} {as : List (Act α)} (hs : Deaf s) (h : Runs.run step s as = some s') :
    s'.cell = s.cell ∧
      (s'.pc.isMain = true → Deaf s' ∧ s'.received = s.received ∧ s.channel <+: s'.channel) := by
  induction as generalizing s with
  | nil =>
    cases h
    exact ⟨rfl, fun _ => ⟨hs, rfl, List.prefix_refl _⟩⟩
  | cons a as ih =>
    obtain ⟨s₁, hstep, h⟩ := Option.bind_eq_some_iff.mp h
    obtain ⟨hreceived₁, hcell₁, hprefix₁, hdeaf | hleft⟩ := deaf_step hs hstep
    · obtain ⟨hcell, hmain⟩ := ih hdeaf h
      refine ⟨hcell.trans hcell₁, fun hpc => ?_⟩
      obtain ⟨hs', hreceived, hprefix⟩ := hmain hpc
      exact ⟨hs', hreceived.trans hreceived₁, hprefix₁.trans hprefix⟩
    · obtain ⟨hout, hcell⟩ := left_run hleft h
      refine ⟨hcell.trans hcell₁, fun hpc => ?_⟩
      cases hout.symm.trans hpc

/-- A call finds the count full twice, and asks for a repair that the worker
does not receive. -/
theorem deaf_asked :
    let full : State ℕ := { State.init with fds := [⟨.standard, EventFd.maxCount, Nat.le_refl _⟩] }
    ∃ s', Runs.run step full [.send (.work 7), .push 0, .load 0, .write 0 false, .load 0, .write 0 false, .ask 0,
        .poll false false, .next] = some s' ∧
      s'.channel = [.work 7, .repairMessageChannel] ∧ s'.received = [] ∧ s'.cell = 0 := by
  intro full
  have hfull : Deaf full := ⟨rfl, rfl, rfl, fun _ he => by cases he; rfl⟩
  have hrun : Runs.run step full [.send (.work 7), .push 0, .load 0, .write 0 false, .load 0, .write 0 false, .ask 0,
      .poll false false, .next] =
      some { full with channel := [.work 7, .repairMessageChannel], sends := [⟨.work 7, .sent⟩] } := rfl
  have hdeaf := deaf_run hfull hrun
  exact ⟨_, hrun, rfl, (hdeaf.2 rfl).2.1, hdeaf.1⟩

/-- The state after `n` calls that all have returned, while the worker has not
received. -/
def rung (message : Message α) (n : ℕ) (h : n ≤ EventFd.maxCount) : State α :=
  { State.init with
    channel := List.replicate n message
    sends := List.replicate n ⟨message, .sent⟩
    fds := [⟨.standard, n, h⟩]
    ready := n != 0 }

/-- The steps of one call. -/
def call (message : Message α) (i : ℕ) : List (Act α) := [.send message, .push i, .load i, .write i false]

theorem run_call {a : α} {n : ℕ} (h : n + 1 ≤ EventFd.maxCount) :
    Runs.run step (rung (.work a) n (Nat.le_of_succ_le h)) (call (.work a) n) = some (rung (.work a) (n + 1) h) := by
  have hset : ∀ pc pc', (List.replicate n ⟨.work a, .sent⟩ ++ [⟨.work a, pc⟩] : List (Send α)).set n ⟨.work a, pc'⟩ =
      List.replicate n ⟨.work a, .sent⟩ ++ [⟨.work a, pc'⟩] := fun pc pc' => by simp
  have hwrite : EventFd.write ⟨.standard, n, Nat.le_of_succ_le h⟩ 1 = some (.ok 8, ⟨.standard, n + 1, h⟩) := by
    rw [EventFd.write, if_neg (by decide)]
    exact dif_pos h
  simp [Runs.run, call, step, write, rung, State.init, State.setSend, State.isClosed, hset,
    EventChannel.signal, EventChannel.send, hwrite, List.replicate_succ']

theorem run_calls (a : α) : ∀ (n : ℕ) (h : n ≤ EventFd.maxCount),
    Runs.run step (State.init : State α) ((List.range n).flatMap (call (.work a))) = some (rung (.work a) n h)
  | 0, _ => rfl
  | n + 1, h => by
    rw [List.range_succ, List.flatMap_append, Runs.run_append, run_calls a n (Nat.le_of_succ_le h)]
    exact run_call h

theorem run_recvs (a : α) : ∀ (n : ℕ) (s : State α), s.pc = .recv → s.channel = List.replicate n (.work a) →
    ∃ received, Runs.run step s (List.replicate (n + 1) (.recv .done)) =
      some { s with pc := .tasks, channel := [], received }
  | 0, s, hpc, hchannel => ⟨s.received, by simp [Runs.run, step, hpc, hchannel]⟩
  | n + 1, s, hpc, hchannel => by
    obtain ⟨received, hrun⟩ := run_recvs a n
      { s with channel := List.replicate n (.work a), received := s.received ++ [.work a] } hpc rfl
    refine ⟨received, ?_⟩
    rw [List.replicate_succ, Runs.run, step, if_pos hpc, hchannel, List.replicate_succ]
    exact hrun

/-- `n` calls while the worker sleeps, then the worker takes the event and
receives what there is. -/
def flood (a : α) (n : ℕ) : List (Act α) :=
  (List.range n).flatMap (call (.work a)) ++ (.poll true false :: List.replicate (n + 1) (.recv .done))

theorem run_flood (a : α) {n : ℕ} (h : n ≤ EventFd.maxCount) (hpos : n ≠ 0) :
    ∃ received, Runs.run step (State.init : State α) (flood a n) =
      some { rung (.work a) n h with pc := .tasks, channel := [], received, ready := false } := by
  obtain ⟨received, hrun⟩ := run_recvs a n { rung (.work a) n h with pc := .recv, ready := false } rfl rfl
  have hpoll : step (rung (.work a) n h) (.poll true false) =
      some { rung (.work a) n h with pc := .recv, ready := false } := by
    simp [step, rung, State.init, hpos]
  refine ⟨received, ?_⟩
  rw [flood, Runs.run_append, run_calls a n h, Option.bind_some, Runs.run, hpoll]
  exact hrun

/-- A worker becomes deaf after 2⁶⁴ - 2 calls. -/
theorem deaf_reached (a : α) :
    ∃ s, Runs.run step (State.init : State α) (flood a EventFd.maxCount) = some s ∧ Deaf s := by
  obtain ⟨received, hrun⟩ := run_flood a (Nat.le_refl EventFd.maxCount) (by decide)
  refine ⟨_, hrun, rfl, rfl, rfl, fun eventFd h => ?_⟩
  simp only [rung, State.init, List.getElem?_cons_zero, Option.some.injEq] at h
  rw [← h]

end MessageChannel
end ClAsync
