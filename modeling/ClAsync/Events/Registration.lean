/-
# Registered event sources

`register_event_source` gives a worker a task that registers a descriptor with
the worker's poller, runs the handler, and deregisters the descriptor. What is
registered is said in three places: the interest list of the epoll instance,
which the kernel keeps by descriptor number and open file, `key_fds`, and the
`EventQueueRegistry`. `EventSource` is a bare number, so nothing keeps the
descriptor open meanwhile: it may be closed, by the handler itself or by another
thread, and the kernel gives its number, the lowest that is free, to the next
file that is opened. Then a call that goes by the number reaches the entry of
that file.

The tasks of a worker run on one thread; other threads open, duplicate and close
descriptors between any two of their system calls. The worker's own three
sources are left out; it registers them before any task.

Key definitions: `registerInterest`, `modifyInterest`, `deregisterInterest`,
`step`, `Agree`, `Orderly`.
Key theorems: `goes_of_step`, `agree_step`, `watches_iff`.
-/
import ClAsync.Io.Completion
import ClAsync.Lib.Runs
import ClAsync.Lib.Wakers
import Mathlib.Data.Finset.Basic
import Mathlib.Logic.Function.Basic

namespace ClAsync

/-- `InterestType`: the bits of `EPOLLIN` and so on. -/
abbrev InterestType := Int32

namespace InterestType

/-- `COMMON_FLAGS`, `EPOLLET`. -/
def commonFlags : InterestType := (1 : Int32) <<< 31
def read : InterestType := 0x1 ||| commonFlags
def write : InterestType := 0x4 ||| commonFlags
def oneshot : InterestType := (1 : Int32) <<< 30

/-- `is_oneshot`. -/
def isOneshot (interestType : InterestType) : Bool := interestType &&& oneshot == oneshot

end InterestType

namespace Registration

/-! ### The kernel -/

/-- An entry of the interest list; `armed` is cleared by an event of an entry
with `EPOLLONESHOT`. -/
structure Interest where
  key : Key
  events : InterestType
  armed : Bool
  deriving DecidableEq, Repr

/-- The descriptor table of the process and the interest list of the worker's
epoll instance, by number and open file. -/
structure Epoll where
  fds : List (Option ℕ)
  interest : ℕ → ℕ → Option Interest

namespace Epoll

/-- The open file of a descriptor. -/
def file (p : Epoll) (fd : ℕ) : Option ℕ := p.fds[fd]?.join

/-- The entry of a file under a descriptor is set, or removed. -/
def setInterest (p : Epoll) (fd file : ℕ) (e : Option Interest) : Epoll :=
  { p with interest := Function.update p.interest fd (Function.update (p.interest fd) file e) }

/-- `epoll_ctl` with `EPOLL_CTL_ADD`; `refused` is the error of a file that
cannot be polled, or of a kernel without memory for the entry. -/
def ctlAdd (p : Epoll) (fd : ℕ) (events : InterestType) (key : Key) (refused : Option OsError) :
    Except OsError Epoll :=
  match p.file fd, refused with
  | none, _ => .error .invalidFd
  | some _, some e => .error e
  | some file, none =>
    match p.interest fd file with
    | some _ => .error .alreadyExists
    | none => .ok (p.setInterest fd file (some ⟨key, events, true⟩))

/-- `epoll_ctl` with `EPOLL_CTL_MOD`. -/
def ctlMod (p : Epoll) (fd : ℕ) (events : InterestType) (key : Key) : Except OsError Epoll :=
  match p.file fd with
  | none => .error .invalidFd
  | some file =>
    match p.interest fd file with
    | none => .error .notFound
    | some _ => .ok (p.setInterest fd file (some ⟨key, events, true⟩))

/-- `epoll_ctl` with `EPOLL_CTL_DEL`. -/
def ctlDel (p : Epoll) (fd : ℕ) : Except OsError Epoll :=
  match p.file fd with
  | none => .error .invalidFd
  | some file =>
    match p.interest fd file with
    | none => .error .notFound
    | some _ => .ok (p.setInterest fd file none)

/-- The entry that a call on the number reaches. -/
def entry (p : Epoll) (fd : ℕ) : Option Interest := (p.file fd).bind (p.interest fd)

/-- The lowest number that is free. -/
def lowest (p : Epoll) : ℕ := p.fds.idxOf none

/-- A new descriptor of an open file. -/
def alloc (p : Epoll) (file : ℕ) : Epoll :=
  { p with fds := if p.lowest < p.fds.length then p.fds.set p.lowest (some file) else p.fds ++ [some file] }

/-- `close` of a descriptor of `file`. With the last descriptor of a file its
entries leave the interest list. -/
def close (p : Epoll) (fd file : ℕ) : Epoll :=
  { fds := p.fds.set fd none
    interest := if some file ∈ p.fds.set fd none then p.interest
      else fun number => Function.update (p.interest number) file none }

end Epoll

/-! ### The registries -/

/-- `EventPollerRegistryError`. -/
inductive EventPollerRegistryError
  | failedToRegisterInterest (source : OsError)
  | failedToModifyInterest (source : OsError)
  | failedToDeregisterInterest (source : OsError)
  deriving DecidableEq, Repr

/-- What a handler is given: the key, with the file that its descriptor named,
the interest that was last asked for, and whether the handler has closed the
descriptor. -/
structure Receiver where
  key : Key
  file : ℕ
  interestType : InterestType
  closed : Bool
  deriving DecidableEq, Repr

/-- How far a task is. -/
inductive Phase
  | spawned
  | refused (e : EventPollerRegistryError)
  | handling (r : Receiver)
  | finished (r : Receiver)
  deriving DecidableEq, Repr

/-- A task of `register_event_source`. -/
structure Task where
  source : ℕ
  interestType : InterestType
  phase : Phase
  deriving DecidableEq, Repr

/-- `running` is the task in its poll. `delivered` are the events that found
their queue, with the file they were about, `dropped` those that did not. -/
structure State where
  epoll : Epoll
  nextFile : ℕ
  generator : Key
  keyFds : Key → Option ℕ
  queues : Finset Key
  tasks : List Task
  running : Option ℕ
  delivered : List (Key × ℕ)
  dropped : List (Key × ℕ)

/-- A worker that has registered nothing. -/
def State.init (generator : Key) : State :=
  ⟨⟨[], fun _ _ => none⟩, 0, generator, fun _ => none, ∅, [], none, [], []⟩

/-- `EventPollerRegistry::register_interest`. The key is gone also when it
fails. -/
def registerInterest (s : State) (source : ℕ) (interestType : InterestType) (refused : Option OsError) :
    Except EventPollerRegistryError Key × State :=
  let key := s.generator
  match s.epoll.ctlAdd source interestType key refused with
  | .error e => (.error (.failedToRegisterInterest e), { s with generator := key + 1 })
  | .ok epoll =>
    (.ok key, { s with epoll, generator := key + 1, keyFds := Function.update s.keyFds key (some source) })

/-- `EventPollerRegistry::modify_interest`. -/
def modifyInterest (s : State) (key : Key) (interestType : InterestType) :
    Except EventPollerRegistryError Unit × State :=
  match s.keyFds key with
  | none => (.error (.failedToModifyInterest .notFound), s)
  | some fd =>
    match s.epoll.ctlMod fd interestType key with
    | .error e => (.error (.failedToModifyInterest e), s)
    | .ok epoll => (.ok (), { s with epoll })

/-- `EventPollerRegistry::deregister_interest`. The key is removed also when
the system call fails. -/
def deregisterInterest (s : State) (key : Key) : Except EventPollerRegistryError Unit × State :=
  match s.keyFds key with
  | none => (.error (.failedToDeregisterInterest .notFound), s)
  | some fd =>
    let keyFds := Function.update s.keyFds key none
    match s.epoll.ctlDel fd with
    | .error e => (.error (.failedToDeregisterInterest e), { s with keyFds })
    | .ok epoll => (.ok (), { s with epoll, keyFds })

/-! ### Steps -/

/-- `openFile`, `dup` and `close` are other threads', or of the handlers of
other sources; `closeSource` is the running handler's, of its own source. -/
inductive Act
  | openFile
  | dup (fd : ℕ)
  | close (fd : ℕ)
  | spawn (source : ℕ) (interestType : InterestType)
  | report (fd file : ℕ)
  | poll (i : ℕ)
  | start (refused : Option OsError)
  | modify (interestType : InterestType)
  | closeSource
  | suspend
  | finish
  deriving DecidableEq, Repr

/-- An event of an entry that the worker polled, and its `push_event`. -/
def report (s : State) (fd file : ℕ) (e : Interest) : State :=
  let epoll := s.epoll.setInterest fd file (some { e with armed := !e.events.isOneshot })
  if e.key ∈ s.queues then { s with epoll, delivered := s.delivered ++ [(e.key, file)] }
  else { s with epoll, dropped := s.dropped ++ [(e.key, file)] }

/-- A step of the task in its poll. -/
def runTask (s : State) (i : ℕ) (t : Task) : Act → Option State
  | .start refused =>
    match t.phase, registerInterest s t.source t.interestType refused with
    | .spawned, (.error e, s) =>
      some { s with tasks := s.tasks.set i { t with phase := .refused e }, running := none }
    | .spawned, (.ok key, s) =>
      (s.epoll.file t.source).map fun file =>
        { s with
          tasks := s.tasks.set i { t with phase := .handling ⟨key, file, t.interestType, false⟩ }
          queues := insert key s.queues }
    | _, _ => none
  | .modify interestType =>
    match t.phase with
    | .handling r =>
      match modifyInterest s r.key interestType with
      | (.error _, s) => some s
      | (.ok (), s) => some { s with tasks := s.tasks.set i { t with phase := .handling { r with interestType } } }
    | _ => none
  | .closeSource =>
    match t.phase, s.epoll.file t.source with
    | .handling r, some file =>
      if r.closed = false then
        some { s with
          epoll := s.epoll.close t.source file
          tasks := s.tasks.set i { t with phase := .handling { r with closed := true } } }
      else none
    | _, _ => none
  | .suspend =>
    match t.phase with
    | .handling _ => some { s with running := none }
    | _ => none
  | .finish =>
    match t.phase with
    | .handling r =>
      let s := (deregisterInterest s r.key).2
      some { s with
        tasks := s.tasks.set i { t with phase := .finished r }
        queues := s.queues.erase r.key
        running := none }
    | _ => none
  | _ => none

/-- One act. -/
def step (s : State) : Act → Option State
  | .openFile => some { s with epoll := s.epoll.alloc s.nextFile, nextFile := s.nextFile + 1 }
  | .dup fd => (s.epoll.file fd).map fun file => { s with epoll := s.epoll.alloc file }
  | .close fd => (s.epoll.file fd).map fun file => { s with epoll := s.epoll.close fd file }
  | .spawn source interestType => some { s with tasks := s.tasks ++ [⟨source, interestType, .spawned⟩] }
  | .report fd file =>
    match s.running, s.epoll.interest fd file with
    | none, some e => if e.armed then some (report s fd file e) else none
    | _, _ => none
  | .poll i =>
    match s.running, (s.tasks[i]?).map Task.phase with
    | none, some .spawned | none, some (.handling _) => some { s with running := some i }
    | _, _ => none
  | a => s.running.bind fun i => (s.tasks[i]?).bind fun t => runTask s i t a

/-! ### Descriptors -/

namespace Epoll

variable {p : Epoll} {fd file : ℕ}

theorem setInterest_apply (e : Option Interest) (number f : ℕ) : (p.setInterest fd file e).interest number f =
    if number = fd ∧ f = file then e else p.interest number f := by
  unfold setInterest
  by_cases hfd : number = fd
  · subst hfd
    simp [Function.update_apply]
  · simp [hfd]

@[simp] theorem file_setInterest (e : Option Interest) (number : ℕ) :
    (p.setInterest fd file e).file number = p.file number := rfl

theorem file_lowest : p.file p.lowest = none := by
  unfold file
  rcases h : p.fds[p.lowest]? with _ | o
  · rfl
  · obtain ⟨hlt, heq⟩ := List.getElem?_eq_some_iff.mp h
    exact heq ▸ List.getElem_idxOf hlt

theorem file_close (number : ℕ) : (p.close fd file).file number = if number = fd then none else p.file number := by
  unfold close Epoll.file
  rw [List.getElem?_set]
  grind

theorem interest_close (number f : ℕ) : (p.close fd file).interest number f =
    if f = file ∧ some file ∉ p.fds.set fd none then none else p.interest number f := by
  unfold close
  by_cases h : some file ∈ p.fds.set fd none
  · simp [h]
  · simp [h, Function.update_apply]

end Epoll

/-! ### What a step does -/

theorem deregisterInterest_eq (s : State) (key : Key) : (deregisterInterest s key).2 =
    { s with epoll := (deregisterInterest s key).2.epoll, keyFds := Function.update s.keyFds key none } := by
  unfold deregisterInterest
  split
  · rename_i hkey
    rw [← hkey, Function.update_eq_self]
  · split <;> rfl

/-- The entry that leaves is the one of the number and of the file that the
number names then. -/
theorem interest_deregisterInterest (s : State) (key : Key) (number f : ℕ) :
    (deregisterInterest s key).2.epoll.interest number f =
      if s.keyFds key = some number ∧ s.epoll.file number = some f then none else s.epoll.interest number f := by
  unfold deregisterInterest Epoll.ctlDel
  rcases s.keyFds key with _ | fd
  · simp
  · rcases hfile : s.epoll.file fd with _ | file
    · grind
    · rcases hinterest : s.epoll.interest fd file with _ | e
      · grind
      · simp only [hfile, hinterest, Epoll.setInterest_apply]
        grind

/-- Task `i` handles the source `fd`, and was given `r`. -/
def Live (s : State) (i fd : ℕ) (r : Receiver) : Prop :=
  ∃ interestType, s.tasks[i]? = some ⟨fd, interestType, .handling r⟩

/-- The entry of what a handler was given. -/
def Receiver.entry (r : Receiver) (armed : Bool) : Interest := ⟨r.key, r.interestType, armed⟩

/-- The steps, each with what it found. -/
inductive Goes (s : State) : Act → State → Prop
  | openFile : Goes s .openFile { s with epoll := s.epoll.alloc s.nextFile, nextFile := s.nextFile + 1 }
  | dup {fd file} : s.epoll.file fd = some file → Goes s (.dup fd) { s with epoll := s.epoll.alloc file }
  | close {fd file} : s.epoll.file fd = some file → Goes s (.close fd) { s with epoll := s.epoll.close fd file }
  | spawn {fd it} : Goes s (.spawn fd it) { s with tasks := s.tasks ++ [⟨fd, it, .spawned⟩] }
  | report {fd file e} : s.running = none → s.epoll.interest fd file = some e →
      Goes s (.report fd file) (report s fd file e)
  | poll {i} : s.running = none → Goes s (.poll i) { s with running := some i }
  | refuse {i fd it refused e} : s.running = some i → s.tasks[i]? = some ⟨fd, it, .spawned⟩ →
      Goes s (.start refused) { s with
        generator := s.generator + 1
        tasks := s.tasks.set i ⟨fd, it, .refused e⟩
        running := none }
  | register {i fd it refused file} : s.running = some i → s.tasks[i]? = some ⟨fd, it, .spawned⟩ →
      s.epoll.file fd = some file → s.epoll.interest fd file = none →
      Goes s (.start refused) { s with
        epoll := s.epoll.setInterest fd file (some ⟨s.generator, it, true⟩)
        generator := s.generator + 1
        keyFds := Function.update s.keyFds s.generator (some fd)
        queues := insert s.generator s.queues
        tasks := s.tasks.set i ⟨fd, it, .handling ⟨s.generator, file, it, false⟩⟩ }
  | notModified {i source it' it r} : s.running = some i → s.tasks[i]? = some ⟨source, it', .handling r⟩ →
      (∀ fd, s.keyFds r.key = some fd → s.epoll.entry fd = none) → Goes s (.modify it) s
  | modify {i source it' it fd file r e} : s.running = some i → s.tasks[i]? = some ⟨source, it', .handling r⟩ →
      s.keyFds r.key = some fd → s.epoll.file fd = some file → s.epoll.interest fd file = some e →
      Goes s (.modify it) { s with
        epoll := s.epoll.setInterest fd file (some ⟨r.key, it, true⟩)
        tasks := s.tasks.set i ⟨source, it', .handling { r with interestType := it }⟩ }
  | closeSource {i fd it r file} : s.running = some i → s.tasks[i]? = some ⟨fd, it, .handling r⟩ →
      r.closed = false → s.epoll.file fd = some file →
      Goes s .closeSource { s with
        epoll := s.epoll.close fd file
        tasks := s.tasks.set i ⟨fd, it, .handling { r with closed := true }⟩ }
  | suspend {i fd r} : s.running = some i → Live s i fd r → Goes s .suspend { s with running := none }
  | finish {i fd it r} : s.running = some i → s.tasks[i]? = some ⟨fd, it, .handling r⟩ →
      Goes s .finish { s with
        epoll := (deregisterInterest s r.key).2.epoll
        keyFds := Function.update s.keyFds r.key none
        tasks := s.tasks.set i ⟨fd, it, .finished r⟩
        queues := s.queues.erase r.key
        running := none }

theorem goes_of_runTask {s s' : State} {i : ℕ} {t : Task} {a : Act} (hi : s.running = some i)
    (ht : s.tasks[i]? = some t)
    (h : runTask s i t a = some s') : Goes s a s' := by
  unfold runTask at h
  obtain ⟨fd, it, phase⟩ := t
  cases a with
  | start refused =>
    cases phase <;> simp only [registerInterest, reduceCtorEq] at h
    unfold Epoll.ctlAdd at h
    rcases hfile : s.epoll.file fd with _ | file
    · simp only [hfile, Option.some.injEq] at h
      exact h ▸ .refuse hi ht
    · rcases refused with _ | e
      · rcases hinterest : s.epoll.interest fd file with _ | e
        · simp only [hfile, hinterest, Epoll.file_setInterest, Option.map_some] at h
          exact Option.some.inj h ▸ .register hi ht hfile hinterest
        · simp only [hfile, hinterest, Option.some.injEq] at h
          exact h ▸ .refuse hi ht
      · simp only [hfile, Option.some.injEq] at h
        exact h ▸ .refuse hi ht
  | modify interestType =>
    cases phase <;> simp only [modifyInterest, reduceCtorEq] at h
    rename_i r
    rcases hkey : s.keyFds r.key with _ | source
    · simp only [hkey, Option.some.injEq] at h
      exact h ▸ .notModified hi ht fun fd hfd => by cases hkey.symm.trans hfd
    · have hreached {number : ℕ} (h : s.epoll.entry source = none) (hnumber : s.keyFds r.key = some number) :
          s.epoll.entry number = none := by
        cases hkey.symm.trans hnumber
        exact h
      unfold Epoll.ctlMod at h
      rcases hfile : s.epoll.file source with _ | file
      · simp only [hkey, hfile, Option.some.injEq] at h
        exact h ▸ .notModified hi ht fun fd => hreached (by rw [Epoll.entry, hfile]; rfl)
      · rcases hinterest : s.epoll.interest source file with _ | e
        · simp only [hkey, hfile, hinterest, Option.some.injEq] at h
          exact h ▸ .notModified hi ht fun fd => hreached (by rw [Epoll.entry, hfile]; exact hinterest)
        · simp only [hkey, hfile, hinterest, Option.some.injEq] at h
          exact h ▸ .modify hi ht hkey hfile hinterest
  | closeSource =>
    cases phase <;> simp only [reduceCtorEq] at h
    rename_i r
    rcases hfile : s.epoll.file fd with _ | file <;> simp only [hfile, reduceCtorEq] at h
    split at h
    · rename_i hclosed
      exact Option.some.inj h ▸ .closeSource hi ht hclosed hfile
    · cases h
  | suspend =>
    cases phase <;> simp only [reduceCtorEq] at h
    exact Option.some.inj h ▸ .suspend hi ⟨it, ht⟩
  | finish =>
    cases phase <;> simp only [reduceCtorEq] at h
    rename_i r
    rw [deregisterInterest_eq] at h
    exact Option.some.inj h ▸ .finish hi ht
  | _ => cases h

theorem goes_of_step {s s' : State} {a : Act} (h : step s a = some s') : Goes s a s' := by
  cases a with
  | openFile =>
    cases h
    exact .openFile
  | dup fd =>
    obtain ⟨file, hfile, rfl⟩ := Option.map_eq_some_iff.mp h
    exact .dup hfile
  | close fd =>
    obtain ⟨file, hfile, rfl⟩ := Option.map_eq_some_iff.mp h
    exact .close hfile
  | spawn fd it =>
    cases h
    exact .spawn
  | report fd file =>
    simp only [step] at h
    split at h
    · rename_i e hrunning hinterest
      split at h
      · exact Option.some.inj h ▸ .report hrunning hinterest
      · cases h
    · cases h
  | poll i =>
    simp only [step] at h
    split at h
    · rename_i hrunning _
      exact Option.some.inj h ▸ .poll hrunning
    · rename_i hrunning _
      exact Option.some.inj h ▸ .poll hrunning
    · cases h
  | _ =>
    obtain ⟨i, hi, h⟩ := Option.bind_eq_some_iff.mp h
    obtain ⟨t, ht, h⟩ := Option.bind_eq_some_iff.mp h
    exact goes_of_runTask hi ht h

/-! ### Agreement -/

/-- The receiver that the task has, if it has registered its source. -/
def Phase.receiver : Phase → Option Receiver
  | .handling r | .finished r => some r
  | _ => none

/-- A registration of `file` under `key`, still handled or not. -/
def Known (s : State) (key : Key) (file : ℕ) : Prop :=
  ∃ (i : ℕ) (t : Task) (r : Receiver),
    s.tasks[i]? = some t ∧ t.phase.receiver = some r ∧ r.key = key ∧ r.file = file

/-- The interest list, `key_fds` and the queue registry are those of the sources
that are handled, but that a source is off the interest list once its handler has
closed it; and every event found the queue of its own source. -/
structure Agree (s : State) : Prop where
  watched {i fd r} : Live s i fd r → r.closed = false → ∃ armed, s.epoll.interest fd r.file = some (r.entry armed)
  live {fd file e} : s.epoll.interest fd file = some e →
    ∃ i r, Live s i fd r ∧ r.closed = false ∧ r.file = file ∧ r.entry e.armed = e
  keyFds {key fd} : s.keyFds key = some fd ↔ ∃ i r, Live s i fd r ∧ r.key = key
  queues {key} : key ∈ s.queues ↔ ∃ fd i r, Live s i fd r ∧ r.key = key
  delivered {key file} : (key, file) ∈ s.delivered → Known s key file
  dropped : s.dropped = []

/-- Keys name one task each. -/
structure Keys (s : State) : Prop where
  lt {i fd r} : Live s i fd r → r.key < s.generator
  inj {i j fd fd' r r'} : Live s i fd r → Live s j fd' r' → r.key = r'.key → i = j

/-- What the handler of a task was given, until it returns. -/
def Task.handler (t : Task) : Option Receiver :=
  match t.phase with
  | .handling r => some r
  | _ => none

/-- Whether the handler of the task is to get the events of the file. -/
def Task.watches (t : Task) (file : ℕ) : Bool := t.handler.any fun r => !r.closed && r.file == file

/-- What the code relies on. The last descriptor of a file that a handler watches is
closed by that handler only, under the number that it was given, while that names
the file and no other handler watches it. The entry that a handler reaches when it
modifies is its own, if there is one; when it returns, its own if it has not closed
its source, and none if it has. -/
def Orderly (s : State) : Act → Prop
  | .close fd => ∀ file ∈ s.epoll.file fd, some file ∉ s.epoll.fds.set fd none →
      ∀ t ∈ s.tasks, t.watches file = false
  | .closeSource => ∀ i ∈ s.running, ∀ t ∈ s.tasks[i]?, ∀ r ∈ t.handler,
      s.epoll.file t.source = some r.file ∧ some r.file ∉ s.epoll.fds.set t.source none ∧
        ∀ t' ∈ s.tasks.eraseIdx i, t'.watches r.file = false
  | .modify _ => ∀ i ∈ s.running, ∀ t ∈ s.tasks[i]?, ∀ r ∈ t.handler, ∀ e ∈ s.epoll.entry t.source, e.key = r.key
  | .finish => ∀ i ∈ s.running, ∀ t ∈ s.tasks[i]?, ∀ r ∈ t.handler,
      (s.epoll.entry t.source).map Interest.key = if r.closed then none else some r.key
  | _ => True

instance (s : State) : ∀ a, Decidable (Orderly s a)
  | .close _ | .closeSource | .modify _ | .finish => by
    dsimp only [Orderly]
    infer_instance
  | .openFile | .dup _ | .spawn _ _ | .report _ _ | .poll _ | .start _ | .suspend => instDecidableTrue

/-! ### Tasks of a step -/

section Tasks

variable {s s' : State} {i : ℕ} {t : Task}

theorem live_append {fd : ℕ} {it : InterestType} (h : s'.tasks = s.tasks ++ [⟨fd, it, .spawned⟩]) {j number : ℕ}
    {r : Receiver} : Live s' j number r ↔ Live s j number r := by
  unfold Live
  rw [h]
  grind

theorem live_set (ht : s.tasks[i]? = some t) {fd : ℕ} {it : InterestType} {phase : Phase}
    (h : s'.tasks = s.tasks.set i ⟨fd, it, phase⟩) {j number : ℕ} {r : Receiver} :
    Live s' j number r ↔ (j = i ∧ number = fd ∧ phase = .handling r) ∨ (j ≠ i ∧ Live s j number r) := by
  unfold Live
  rw [h, List.getElem?_set]
  grind

theorem live_unique {j fd fd' : ℕ} {r r' : Receiver} (h : Live s j fd r) (h' : Live s j fd' r') :
    fd = fd' ∧ r = r' := by
  obtain ⟨it, h⟩ := h
  obtain ⟨it', h'⟩ := h'
  cases h.symm.trans h'
  exact ⟨rfl, rfl⟩

theorem known_append (h : s'.tasks = s.tasks ++ [t]) {key : Key} {file : ℕ} (hs : Known s key file) :
    Known s' key file := by
  obtain ⟨j, u, r, hj, hr⟩ := hs
  refine ⟨j, u, r, ?_, hr⟩
  rw [h, List.getElem?_append_left (List.getElem?_eq_some_iff.mp hj).1, hj]

/-- A task keeps the key and the file that it has. -/
theorem known_set {t' : Task} (ht : s.tasks[i]? = some t) (h : s'.tasks = s.tasks.set i t')
    (hkeep : ∀ r ∈ t.phase.receiver, ∃ r' ∈ t'.phase.receiver, r'.key = r.key ∧ r'.file = r.file)
    {key : Key} {file : ℕ} (hs : Known s key file) : Known s' key file := by
  obtain ⟨j, u, r, hj, hr, hkey, hfile⟩ := hs
  by_cases hji : j = i
  · subst hji
    obtain rfl := Option.some.inj (ht.symm.trans hj)
    obtain ⟨r', hr', hkey', hfile'⟩ := hkeep r hr
    refine ⟨j, t', r', ?_, hr', hkey'.trans hkey, hfile'.trans hfile⟩
    rw [h, List.getElem?_set_self (List.getElem?_eq_some_iff.mp hj).1]
  · exact ⟨j, u, r, by rw [h, List.getElem?_set_ne (Ne.symm hji), hj], hr, hkey, hfile⟩

end Tasks

/-! ### Steps -/

section Steps

variable {s s' : State} {i : ℕ} {t : Task}

theorem watches_of_live {fd : ℕ} {r : Receiver} (h : Live s i fd r) (hopen : r.closed = false) :
    ∃ t ∈ s.tasks, t.watches r.file = true := by
  obtain ⟨it, ht⟩ := h
  exact ⟨_, List.mem_of_getElem? ht, by simp [Task.watches, Task.handler, hopen]⟩

/-- Who watches a file handles it. -/
theorem live_of_watches {j file : ℕ} {t : Task} (hj : s.tasks[j]? = some t) (h : t.watches file = true) :
    ∃ r, Live s j t.source r ∧ r.closed = false ∧ r.file = file := by
  obtain ⟨source, it, phase⟩ := t
  cases phase with
  | handling r => exact ⟨r, ⟨it, hj⟩, by simpa [Task.watches, Task.handler] using h⟩
  | spawned | refused | finished => cases h

/-- An entry of the key of a handler is that of its file. -/
theorem file_of_key (hk : Keys s) (hs : Agree s) {fd number file : ℕ} {r : Receiver} {e : Interest}
    (h : Live s i fd r) (he : s.epoll.interest number file = some e) (hkey : e.key = r.key) :
    number = fd ∧ r.closed = false ∧ r.file = file := by
  obtain ⟨j, r', hj, hopen, hfile, hentry⟩ := hs.live he
  have hr' : r'.key = r.key := (congrArg Interest.key hentry).trans hkey
  obtain rfl := hk.inj hj h hr'
  obtain ⟨rfl, rfl⟩ := live_unique hj h
  exact ⟨rfl, hopen, hfile⟩

/-- The number that `key_fds` has for the key of a handler is that of its source. -/
theorem keyFds_eq (hk : Keys s) (hs : Agree s) {fd number : ℕ} {r : Receiver} (h : Live s i fd r)
    (hkey : s.keyFds r.key = some number) : number = fd := by
  obtain ⟨j, r', hj, heq⟩ := hs.keyFds.mp hkey
  obtain rfl := hk.inj hj h heq
  exact (live_unique hj h).1

theorem agree_alloc (hs : Agree s) (file nextFile : ℕ) : Agree { s with epoll := s.epoll.alloc file, nextFile } :=
  ⟨hs.watched, hs.live, hs.keyFds, hs.queues, hs.delivered, hs.dropped⟩

theorem agree_close (hs : Agree s) {fd file : ℕ} (hfile : s.epoll.file fd = some file) (ho : Orderly s (.close fd)) :
    Agree { s with epoll := s.epoll.close fd file } := by
  refine ⟨fun {i number r} h hopen => ?_, fun {number f e} he => ?_, hs.keyFds, hs.queues, hs.delivered, hs.dropped⟩
  · obtain ⟨armed, he⟩ := hs.watched h hopen
    refine ⟨armed, (Epoll.interest_close ..).trans ((if_neg ?_).trans he)⟩
    rintro ⟨rfl, hnot⟩
    obtain ⟨t, hmem, hwatches⟩ := watches_of_live h hopen
    exact Bool.false_ne_true ((ho _ hfile hnot t hmem).symm.trans hwatches)
  · rw [Epoll.interest_close] at he
    split at he
    · cases he
    · exact hs.live he

/-- A step that leaves the handlers, the poller and the registries as they are. -/
theorem agree_of_live (hs : Agree s) (hlive : ∀ {i fd r}, Live s' i fd r ↔ Live s i fd r)
    (hknown : ∀ {key file}, Known s key file → Known s' key file) (hepoll : s'.epoll = s.epoll)
    (hkeyFds : s'.keyFds = s.keyFds) (hqueues : s'.queues = s.queues) (hdelivered : s'.delivered = s.delivered)
    (hdropped : s'.dropped = s.dropped) : Agree s' where
  watched h := hepoll ▸ hs.watched (hlive.mp h)
  live he := by
    rw [hepoll] at he
    simpa only [hlive] using hs.live he
  keyFds := hkeyFds ▸ hs.keyFds.trans (by simp only [hlive])
  queues := hqueues ▸ hs.queues.trans (by simp only [hlive])
  delivered hmem := hknown (hs.delivered (hdelivered ▸ hmem))
  dropped := hdropped.trans hs.dropped

/-- A task that has no handler yet or any more. -/
theorem live_set_of_not (ht : s.tasks[i]? = some t) (hnot : ∀ r, t.phase ≠ .handling r) {fd : ℕ} {it : InterestType}
    {phase : Phase} (hnot' : ∀ r, phase ≠ .handling r) (h : s'.tasks = s.tasks.set i ⟨fd, it, phase⟩) {j number : ℕ}
    {r : Receiver} : Live s' j number r ↔ Live s j number r := by
  rw [live_set ht h]
  refine ⟨fun hor => hor.elim (fun hi => absurd hi.2.2 (hnot' r)) And.right, fun hlive => .inr ⟨?_, hlive⟩⟩
  rintro rfl
  obtain ⟨_, hj⟩ := hlive
  exact hnot r (congrArg Task.phase (Option.some.inj (ht.symm.trans hj)))

theorem agree_report (hs : Agree s) {fd file : ℕ} {e : Interest} (he : s.epoll.interest fd file = some e) :
    Agree (report s fd file e) := by
  obtain ⟨i, r, h, hopen, hfile, hentry⟩ := hs.live he
  have hqueue : e.key ∈ s.queues := hs.queues.mpr ⟨fd, i, r, h, congrArg Interest.key hentry⟩
  unfold report
  rw [if_pos hqueue]
  refine ⟨fun {j number r'} h' hopen' => ?_, fun {number f e'} he' => ?_, hs.keyFds, hs.queues,
    fun {key f} hmem => ?_, hs.dropped⟩
  · obtain ⟨armed, he'⟩ := hs.watched h' hopen'
    rw [Epoll.setInterest_apply]
    split
    · rename_i heq
      obtain ⟨rfl, hf⟩ := heq
      rw [hf, he] at he'
      obtain rfl := Option.some.inj he'
      exact ⟨_, rfl⟩
    · exact ⟨armed, he'⟩
  · rw [Epoll.setInterest_apply] at he'
    split at he'
    · rename_i heq
      obtain ⟨rfl, rfl⟩ := heq
      cases he'
      exact ⟨i, r, h, hopen, hfile, by rw [← hentry]; rfl⟩
    · exact hs.live he'
  · obtain hmem | hmem := List.mem_append.mp hmem
    · exact hs.delivered hmem
    · obtain ⟨rfl, rfl⟩ := Prod.mk.inj (List.mem_singleton.mp hmem)
      obtain ⟨it, ht⟩ := h
      exact ⟨i, _, r, ht, rfl, congrArg Interest.key hentry, hfile⟩

theorem agree_register (hk : Keys s) (hs : Agree s) {fd file : ℕ} {it : InterestType}
    (ht : s.tasks[i]? = some ⟨fd, it, .spawned⟩)
    (hnone : s.epoll.interest fd file = none)
    (hepoll : s'.epoll = s.epoll.setInterest fd file (some ⟨s.generator, it, true⟩))
    (hkeyFds : s'.keyFds = Function.update s.keyFds s.generator (some fd))
    (hqueues : s'.queues = insert s.generator s.queues)
    (htasks : s'.tasks = s.tasks.set i ⟨fd, it, .handling ⟨s.generator, file, it, false⟩⟩)
    (hdelivered : s'.delivered = s.delivered) (hdropped : s'.dropped = s.dropped) : Agree s' := by
  have hlive : ∀ {j number r}, Live s' j number r ↔
      (j = i ∧ number = fd ∧ Phase.handling ⟨s.generator, file, it, false⟩ = .handling r) ∨
        (j ≠ i ∧ Live s j number r) :=
    fun {j number r} => live_set ht htasks
  have hne : ∀ {j number r}, Live s j number r → j ≠ i := by
    rintro j number r ⟨_, h⟩ rfl
    cases ht.symm.trans h
  have hself : Live s' i fd ⟨s.generator, file, it, false⟩ := hlive.mpr (.inl ⟨rfl, rfl, rfl⟩)
  have hother : ∀ {j number r}, Live s j number r → Live s' j number r := fun h => hlive.mpr (.inr ⟨hne h, h⟩)
  refine ⟨fun {j number r} h hopen => ?_, fun {number f e} he => ?_, fun {key number} => ?_,
    fun {key} => ?_, fun hmem => ?_, hdropped.trans hs.dropped⟩
  · rw [hepoll, Epoll.setInterest_apply]
    obtain ⟨rfl, rfl, heq⟩ | ⟨-, h⟩ := hlive.mp h
    · cases heq
      exact ⟨true, if_pos ⟨rfl, rfl⟩⟩
    · obtain ⟨armed, he⟩ := hs.watched h hopen
      refine ⟨armed, (if_neg ?_).trans he⟩
      rintro ⟨rfl, rfl⟩
      cases hnone.symm.trans he
  · rw [hepoll, Epoll.setInterest_apply] at he
    split at he
    · rename_i heq
      obtain ⟨rfl, rfl⟩ := heq
      cases he
      exact ⟨i, _, hself, rfl, rfl, rfl⟩
    · obtain ⟨j, r, h, hr⟩ := hs.live he
      exact ⟨j, r, hother h, hr⟩
  · rw [hkeyFds, Function.update_apply]
    split
    · rename_i hkey
      refine ⟨fun heq => ⟨i, _, Option.some.inj heq ▸ hself, hkey.symm⟩, ?_⟩
      rintro ⟨j, r, h, hr⟩
      obtain ⟨-, rfl, -⟩ | ⟨-, h⟩ := hlive.mp h
      · rfl
      · exact absurd (hr.trans hkey) (hk.lt h).ne
    · rename_i hkey
      rw [hs.keyFds]
      refine ⟨fun ⟨j, r, h, hr⟩ => ⟨j, r, hother h, hr⟩, ?_⟩
      rintro ⟨j, r, h, hr⟩
      obtain ⟨-, -, heq⟩ | ⟨-, h⟩ := hlive.mp h
      · cases heq
        exact absurd hr.symm hkey
      · exact ⟨j, r, h, hr⟩
  · rw [hqueues, Finset.mem_insert, hs.queues]
    constructor
    · rintro (rfl | ⟨number, j, r, h, hr⟩)
      · exact ⟨fd, i, _, hself, rfl⟩
      · exact ⟨number, j, r, hother h, hr⟩
    · rintro ⟨number, j, r, h, hr⟩
      obtain ⟨-, -, heq⟩ | ⟨-, h⟩ := hlive.mp h
      · cases heq
        exact .inl hr.symm
      · exact .inr ⟨number, j, r, h, hr⟩
  · exact known_set ht htasks (fun r hr => by cases hr) (hs.delivered (hdelivered ▸ hmem))

theorem keys_register (hk : Keys s) {fd file : ℕ} {it : InterestType}
    (ht : s.tasks[i]? = some ⟨fd, it, .spawned⟩) (hgenerator : s'.generator = s.generator + 1)
    (htasks : s'.tasks = s.tasks.set i ⟨fd, it, .handling ⟨s.generator, file, it, false⟩⟩) : Keys s' := by
  have hlive : ∀ {j number r}, Live s' j number r → (j = i ∧ r = ⟨s.generator, file, it, false⟩) ∨ Live s j number r := by
    intro j number r h
    obtain ⟨hji, -, heq⟩ | ⟨-, h⟩ := (live_set ht htasks).mp h
    · cases heq
      exact .inl ⟨hji, rfl⟩
    · exact .inr h
  refine ⟨fun h => ?_, fun h h' hkey => ?_⟩
  · obtain ⟨-, rfl⟩ | h := hlive h
    · exact hgenerator ▸ Nat.lt_succ_self _
    · exact hgenerator ▸ Nat.lt_succ_of_lt (hk.lt h)
  · obtain ⟨rfl, rfl⟩ | h := hlive h <;> obtain ⟨rfl, rfl⟩ | h' := hlive h'
    · rfl
    · exact absurd hkey.symm (hk.lt h').ne
    · exact absurd hkey (hk.lt h).ne
    · exact hk.inj h h' hkey

/-- A handler that was given the same key goes on with its source. -/
theorem keys_handling (hk : Keys s) {fd : ℕ} {it : InterestType} {r r' : Receiver}
    (ht : s.tasks[i]? = some ⟨fd, it, .handling r⟩) (htasks : s'.tasks = s.tasks.set i ⟨fd, it, .handling r'⟩)
    (hkey : r'.key = r.key) (hgenerator : s'.generator = s.generator) : Keys s' := by
  have hi : Live s i fd r := ⟨it, ht⟩
  have hlive : ∀ {j number r₁}, Live s' j number r₁ → (j = i ∧ r₁ = r') ∨ Live s j number r₁ := by
    intro j number r₁ h
    obtain ⟨rfl, -, heq⟩ | ⟨-, h⟩ := (live_set ht htasks).mp h
    · cases heq
      exact .inl ⟨rfl, rfl⟩
    · exact .inr h
  refine ⟨fun h => ?_, fun h h' heq => ?_⟩
  · rw [hgenerator]
    obtain ⟨-, rfl⟩ | h := hlive h
    · exact hkey ▸ hk.lt hi
    · exact hk.lt h
  · obtain ⟨rfl, rfl⟩ | h := hlive h <;> obtain ⟨rfl, rfl⟩ | h' := hlive h'
    · rfl
    · exact hk.inj hi h' (hkey.symm.trans heq)
    · exact hk.inj h hi (heq.trans hkey)
    · exact hk.inj h h' heq

/-- The keys that are registered for a number stay those. -/
theorem registered_handling {fd number : ℕ} {it : InterestType} {r r' : Receiver} {key : Key}
    (ht : s.tasks[i]? = some ⟨fd, it, .handling r⟩) (htasks : s'.tasks = s.tasks.set i ⟨fd, it, .handling r'⟩)
    (hkey : r'.key = r.key) :
    (∃ j r₁, Live s' j number r₁ ∧ r₁.key = key) ↔ ∃ j r₁, Live s j number r₁ ∧ r₁.key = key := by
  constructor
  · rintro ⟨j, r₁, h, rfl⟩
    obtain ⟨rfl, rfl, heq⟩ | ⟨-, h⟩ := (live_set ht htasks).mp h
    · cases heq
      exact ⟨j, r, ⟨it, ht⟩, hkey.symm⟩
    · exact ⟨j, r₁, h, rfl⟩
  · rintro ⟨j, r₁, h, rfl⟩
    by_cases hji : j = i
    · subst hji
      obtain ⟨rfl, rfl⟩ := live_unique h ⟨it, ht⟩
      exact ⟨j, r', (live_set ht htasks).mpr (.inl ⟨rfl, rfl, rfl⟩), hkey⟩
    · exact ⟨j, r₁, (live_set ht htasks).mpr (.inr ⟨hji, h⟩), rfl⟩

theorem agree_modify (hk : Keys s) (hs : Agree s) {source fd file : ℕ}
    {it it' : InterestType} {r : Receiver} {e : Interest}
    (ht : s.tasks[i]? = some ⟨source, it', .handling r⟩) (he : s.epoll.interest fd file = some e)
    (hown : e.key = r.key) (hepoll : s'.epoll = s.epoll.setInterest fd file (some ⟨r.key, it, true⟩))
    (htasks : s'.tasks = s.tasks.set i ⟨source, it', .handling { r with interestType := it }⟩)
    (hkeyFds : s'.keyFds = s.keyFds) (hqueues : s'.queues = s.queues)
    (hdelivered : s'.delivered = s.delivered) (hdropped : s'.dropped = s.dropped) : Agree s' := by
  have hi : Live s i source r := ⟨it', ht⟩
  obtain ⟨rfl, hopen, rfl⟩ := file_of_key hk hs hi he hown
  have hlive : ∀ {j number r₁}, Live s' j number r₁ ↔ (j = i ∧ number = fd ∧
      Phase.handling { r with interestType := it } = .handling r₁) ∨ (j ≠ i ∧ Live s j number r₁) :=
    fun {j number r₁} => live_set ht htasks
  have hself : Live s' i fd { r with interestType := it } := hlive.mpr (.inl ⟨rfl, rfl, rfl⟩)
  refine ⟨fun {j number r₁} h hopen' => ?_, fun {number f e'} he' => ?_,
    hkeyFds ▸ hs.keyFds.trans (registered_handling ht htasks rfl).symm,
    hqueues ▸ hs.queues.trans (exists_congr fun _ => (registered_handling ht htasks rfl).symm),
    fun hmem => ?_, hdropped.trans hs.dropped⟩
  · rw [hepoll, Epoll.setInterest_apply]
    obtain ⟨rfl, rfl, heq⟩ | ⟨hne, h⟩ := hlive.mp h
    · cases heq
      exact ⟨true, if_pos ⟨rfl, rfl⟩⟩
    · obtain ⟨armed, he'⟩ := hs.watched h hopen'
      refine ⟨armed, (if_neg ?_).trans he'⟩
      rintro ⟨rfl, hfile⟩
      rw [hfile, he] at he'
      exact hne (hk.inj h hi ((congrArg Interest.key (Option.some.inj he')).symm.trans hown))
  · rw [hepoll, Epoll.setInterest_apply] at he'
    split at he'
    · rename_i heq
      obtain ⟨rfl, rfl⟩ := heq
      cases he'
      exact ⟨i, _, hself, hopen, rfl, rfl⟩
    · rename_i hne
      obtain ⟨j, r₁, h, hopen', rfl, hentry⟩ := hs.live he'
      refine ⟨j, r₁, hlive.mpr (.inr ⟨?_, h⟩), hopen', rfl, hentry⟩
      rintro rfl
      obtain ⟨rfl, rfl⟩ := live_unique h hi
      exact hne ⟨rfl, rfl⟩
  · exact known_set ht htasks (fun r₁ hr => ⟨_, rfl, by cases hr; exact ⟨rfl, rfl⟩⟩)
      (hs.delivered (hdelivered ▸ hmem))

theorem agree_closeSource (hs : Agree s) {fd : ℕ} {it : InterestType} {r : Receiver}
    (ht : s.tasks[i]? = some ⟨fd, it, .handling r⟩) (hlast : some r.file ∉ s.epoll.fds.set fd none)
    (hothers : ∀ t ∈ s.tasks.eraseIdx i, t.watches r.file = false) (hepoll : s'.epoll = s.epoll.close fd r.file)
    (htasks : s'.tasks = s.tasks.set i ⟨fd, it, .handling { r with closed := true }⟩)
    (hkeyFds : s'.keyFds = s.keyFds) (hqueues : s'.queues = s.queues)
    (hdelivered : s'.delivered = s.delivered) (hdropped : s'.dropped = s.dropped) : Agree s' := by
  have hself : Live s i fd r := ⟨it, ht⟩
  have hlive : ∀ {j number r₁}, Live s' j number r₁ ↔ (j = i ∧ number = fd ∧
      Phase.handling { r with closed := true } = .handling r₁) ∨ (j ≠ i ∧ Live s j number r₁) :=
    fun {j number r₁} => live_set ht htasks
  refine ⟨fun {j number r₁} h hopen => ?_, fun {number f e'} he' => ?_,
    hkeyFds ▸ hs.keyFds.trans (registered_handling ht htasks rfl).symm,
    hqueues ▸ hs.queues.trans (exists_congr fun _ => (registered_handling ht htasks rfl).symm),
    fun hmem => ?_, hdropped.trans hs.dropped⟩
  · obtain ⟨-, -, heq⟩ | ⟨hne, h⟩ := hlive.mp h
    · cases heq
      cases hopen
    · obtain ⟨armed, he⟩ := hs.watched h hopen
      refine ⟨armed, ?_⟩
      rw [hepoll, Epoll.interest_close, if_neg, he]
      rintro ⟨hfile, -⟩
      obtain ⟨it', hj⟩ := h
      have hmem := List.mem_eraseIdx_iff_getElem?.mpr ⟨j, hne, hj⟩
      have hnone := hothers _ hmem
      simp [Task.watches, Task.handler, hopen, hfile] at hnone
  · rw [hepoll, Epoll.interest_close] at he'
    split at he'
    · cases he'
    · rename_i hnot
      obtain ⟨j, r₁, h, hopen, rfl, hentry⟩ := hs.live he'
      refine ⟨j, r₁, hlive.mpr (.inr ⟨?_, h⟩), hopen, rfl, hentry⟩
      rintro rfl
      obtain ⟨rfl, rfl⟩ := live_unique h hself
      exact hnot ⟨rfl, hlast⟩
  · exact known_set ht htasks (fun r₁ hr => ⟨_, rfl, by cases hr; exact ⟨rfl, rfl⟩⟩)
      (hs.delivered (hdelivered ▸ hmem))

/-- A handler that returns takes its entry with it, which is gone already when it
has closed its source. -/
theorem agree_finish (hk : Keys s) (hs : Agree s) {fd : ℕ} {it : InterestType} {r : Receiver}
    (ht : s.tasks[i]? = some ⟨fd, it, .handling r⟩)
    (hown : (s.epoll.entry fd).map Interest.key = if r.closed then none else some r.key)
    (hepoll : s'.epoll = (deregisterInterest s r.key).2.epoll)
    (hkeyFds : s'.keyFds = Function.update s.keyFds r.key none) (hqueues : s'.queues = s.queues.erase r.key)
    (htasks : s'.tasks = s.tasks.set i ⟨fd, it, .finished r⟩)
    (hdelivered : s'.delivered = s.delivered) (hdropped : s'.dropped = s.dropped) : Agree s' := by
  have hself : Live s i fd r := ⟨it, ht⟩
  have hkey : s.keyFds r.key = some fd := hs.keyFds.mpr ⟨i, r, hself, rfl⟩
  have hlive : ∀ {j number r₁}, Live s' j number r₁ ↔ j ≠ i ∧ Live s j number r₁ := by
    intro j number r₁
    rw [live_set ht htasks]
    exact or_iff_right fun h => nomatch h.2.2
  have hne : ∀ {j number r₁}, Live s j number r₁ → r₁.key ≠ r.key → j ≠ i := by
    rintro j number r₁ h hkey rfl
    exact hkey (congrArg Receiver.key (live_unique h hself).2)
  refine ⟨fun {j number r₁} h hopen => ?_, fun {number f e'} he' => ?_,
    fun {key number} => ?_, fun {key} => ?_, fun hmem => ?_, hdropped.trans hs.dropped⟩
  · obtain ⟨hji, h⟩ := hlive.mp h
    obtain ⟨armed, he⟩ := hs.watched h hopen
    refine ⟨armed, ?_⟩
    rw [hepoll, interest_deregisterInterest, if_neg, he]
    rintro ⟨hnumber, hfile⟩
    obtain rfl := Option.some.inj (hkey.symm.trans hnumber)
    rw [Epoll.entry, hfile, Option.bind_some, he, Option.map_some] at hown
    split at hown
    · cases hown
    · exact hji (hk.inj h hself (Option.some.inj hown))
  · rw [hepoll, interest_deregisterInterest] at he'
    split at he'
    · cases he'
    · rename_i hnot
      obtain ⟨j, r₁, h, hopen, rfl, hentry⟩ := hs.live he'
      refine ⟨j, r₁, hlive.mpr ⟨?_, h⟩, hopen, rfl, hentry⟩
      rintro rfl
      obtain ⟨rfl, rfl⟩ := live_unique h hself
      -- the entry is its own, and the one in reach
      rw [if_neg (Bool.eq_false_iff.mp hopen)] at hown
      obtain ⟨e, he, hekey⟩ := Option.map_eq_some_iff.mp hown
      obtain ⟨file, hfile, he⟩ := Option.bind_eq_some_iff.mp he
      obtain ⟨-, -, rfl⟩ := file_of_key hk hs hself he hekey
      exact hnot ⟨hkey, hfile⟩
  · rw [hkeyFds, Function.update_apply]
    split
    · rename_i heq
      constructor
      · intro hnone
        cases hnone
      rintro ⟨j, r₁, h, hr⟩
      obtain ⟨hji, h⟩ := hlive.mp h
      exact absurd (hk.inj h hself (hr.trans heq)) hji
    · rename_i hkeyne
      rw [hs.keyFds]
      refine ⟨?_, fun ⟨j, r₁, h, hr⟩ => ⟨j, r₁, (hlive.mp h).2, hr⟩⟩
      rintro ⟨j, r₁, h, rfl⟩
      exact ⟨j, r₁, hlive.mpr ⟨hne h hkeyne, h⟩, rfl⟩
  · rw [hqueues, Finset.mem_erase, hs.queues]
    constructor
    · rintro ⟨hkeyne, number, j, r₁, h, rfl⟩
      exact ⟨number, j, r₁, hlive.mpr ⟨hne h hkeyne, h⟩, rfl⟩
    · rintro ⟨number, j, r₁, h, rfl⟩
      obtain ⟨hji, h⟩ := hlive.mp h
      exact ⟨fun heq => hji (hk.inj h hself heq), number, j, r₁, h, rfl⟩
  · exact known_set ht htasks (fun r₁ hr => ⟨r₁, hr, rfl, rfl⟩) (hs.delivered (hdelivered ▸ hmem))

theorem keys_of_subset (hk : Keys s) (hsub : ∀ {j fd r}, Live s' j fd r → Live s j fd r)
    (hgenerator : s.generator ≤ s'.generator) : Keys s' where
  lt h := (hk.lt (hsub h)).trans_le hgenerator
  inj h h' := hk.inj (hsub h) (hsub h')

/-- An orderly step. -/
theorem agree_step (hk : Keys s) (hs : Agree s) {a : Act} (ho : Orderly s a) (h : step s a = some s') :
    Keys s' ∧ Agree s' := by
  cases goes_of_step h with
  | openFile | dup => exact ⟨⟨hk.lt, hk.inj⟩, agree_alloc hs _ _⟩
  | close hfile => exact ⟨⟨hk.lt, hk.inj⟩, agree_close hs hfile ho⟩
  | spawn =>
    exact ⟨keys_of_subset hk (live_append rfl).mp le_rfl,
      agree_of_live hs (live_append rfl) (known_append rfl) rfl rfl rfl rfl rfl⟩
  | report hrunning he =>
    refine ⟨?_, agree_report hs he⟩
    unfold report
    split
    · exact ⟨hk.lt, hk.inj⟩
    · exact ⟨hk.lt, hk.inj⟩
  | poll | suspend => exact ⟨⟨hk.lt, hk.inj⟩, agree_of_live hs Iff.rfl id rfl rfl rfl rfl rfl⟩
  | refuse hi ht =>
    have hspawned : ∀ r, Phase.spawned ≠ .handling r := fun r heq => by cases heq
    have hrefused : ∀ e r, Phase.refused e ≠ .handling r := fun e r heq => by cases heq
    exact ⟨keys_of_subset hk (live_set_of_not ht hspawned (hrefused _) rfl).mp (Nat.le_succ _),
      agree_of_live hs (live_set_of_not ht hspawned (hrefused _) rfl) (known_set ht rfl fun r hr => by cases hr)
        rfl rfl rfl rfl rfl⟩
  | register hi ht hfile hnone =>
    exact ⟨keys_register hk ht rfl rfl, agree_register hk hs ht hnone rfl rfl rfl rfl rfl rfl⟩
  | notModified => exact ⟨hk, hs⟩
  | @modify i source _ it fd file r e hi ht hkey hfile he =>
    obtain rfl := keyFds_eq hk hs ⟨_, ht⟩ hkey
    have hreached : s.epoll.entry fd = some e := by
      rw [Epoll.entry, hfile]
      exact he
    exact ⟨keys_handling hk ht rfl rfl rfl, agree_modify hk hs ht he (ho i hi _ ht r rfl e hreached) rfl rfl rfl rfl
      rfl rfl⟩
  | @closeSource i fd it r file hi ht hopen hfile =>
    obtain ⟨hown, hlast, hothers⟩ := ho i hi _ ht r rfl
    obtain rfl : file = r.file := Option.some.inj (hfile.symm.trans hown)
    exact ⟨keys_handling hk ht rfl rfl rfl, agree_closeSource hs ht hlast hothers rfl rfl rfl rfl rfl rfl⟩
  | @finish i fd it r hi ht =>
    refine ⟨keys_of_subset hk (fun h => ?_) le_rfl,
      agree_finish hk hs ht (ho i hi _ ht r rfl) rfl rfl rfl rfl rfl rfl⟩
    exact ((live_set ht rfl).mp h).elim (fun h => nomatch h.2.2) And.right

/-- A close of the last descriptor of a file takes the entry of who watches it. -/
theorem not_agree_of_close {fd file : ℕ} (hepoll : s'.epoll = s.epoll.close fd file)
    (hlast : some file ∉ s.epoll.fds.set fd none) {j number : ℕ} {r : Receiver}
    (hj : Live s' j number r) (hopen : r.closed = false) (hfile : r.file = file) : ¬ Agree s' := by
  intro hs'
  obtain ⟨armed, he⟩ := hs'.watched hj hopen
  rw [hepoll, Epoll.interest_close, if_pos ⟨hfile, hlast⟩] at he
  cases he

/-- A step that is not orderly. -/
theorem not_agree_step (hk : Keys s) (hs : Agree s) {a : Act} (ho : ¬ Orderly s a) (h : step s a = some s') :
    ¬ Agree s' := by
  cases goes_of_step h with
  | close hfile =>
    intro hs'
    refine ho fun file hfile' hlast t hmem => Bool.eq_false_iff.mpr fun hwatches => ?_
    cases hfile.symm.trans hfile'
    obtain ⟨j, hj⟩ := List.mem_iff_getElem?.mp hmem
    obtain ⟨r, hlive, hopen, hrfile⟩ := live_of_watches hj hwatches
    exact absurd hs' (not_agree_of_close rfl hlast hlive hopen hrfile)
  | @closeSource i fd it r file hi ht hopen hfile =>
    have hself : Live s i fd r := ⟨it, ht⟩
    have hkeep {j number : ℕ} {r₁ : Receiver} (hji : j ≠ i) (h : Live s j number r₁) :
        Live { s with
          epoll := s.epoll.close fd file
          tasks := s.tasks.set i ⟨fd, it, .handling { r with closed := true }⟩ } j number r₁ :=
      (live_set ht rfl).mpr (.inr ⟨hji, h⟩)
    by_cases hgone : r.file = file ∧ some file ∉ s.epoll.fds.set fd none
    · -- another handler watches the file
      obtain ⟨rfl, hlast⟩ := hgone
      have hother : ∃ t ∈ s.tasks.eraseIdx i, t.watches r.file = true := by
        by_contra hnone
        refine ho fun i' hi' t ht' r' hr' => ?_
        cases hi.symm.trans hi'
        cases ht.symm.trans ht'
        cases hr'
        exact ⟨hfile, hlast, fun t hmem => Bool.eq_false_iff.mpr fun h => hnone ⟨t, hmem, h⟩⟩
      obtain ⟨t, hmem, hwatches⟩ := hother
      obtain ⟨j, hji, hj⟩ := List.mem_eraseIdx_iff_getElem?.mp hmem
      obtain ⟨r₁, hlive, hopen₁, hfile₁⟩ := live_of_watches hj hwatches
      exact not_agree_of_close rfl hlast (hkeep hji hlive) hopen₁ hfile₁
    · -- a descriptor that is left keeps the entry, which is nobody's now
      intro hs'
      obtain ⟨armed, he⟩ := hs.watched hself hopen
      have he' : (s.epoll.close fd file).interest fd r.file = some (r.entry armed) := by
        rw [Epoll.interest_close, if_neg hgone, he]
      obtain ⟨j, r₁, hj, hopen', -, hentry⟩ := hs'.live he'
      obtain ⟨-, -, heq⟩ | ⟨hne, hj⟩ := (live_set ht rfl).mp hj
      · cases heq
        cases hopen'
      · exact hne (hk.inj hj hself (congrArg Interest.key hentry))
  | @notModified i source it' it r hi ht hnone =>
    refine absurd (fun i' hi' t ht' r' hr' e he => ?_) ho
    cases hi.symm.trans hi'
    cases ht.symm.trans ht'
    cases hr'
    rw [hnone source (hs.keyFds.mpr ⟨i, r, ⟨it', ht⟩, rfl⟩)] at he
    cases he
  | @modify i source it' it fd file r e hi ht hkey hfile he =>
    have hself : Live s i source r := ⟨it', ht⟩
    obtain rfl := keyFds_eq hk hs hself hkey
    have hother : e.key ≠ r.key := by
      intro hown
      refine ho fun i' hi' t ht' r' hr' e' he' => ?_
      cases hi.symm.trans hi'
      cases ht.symm.trans ht'
      cases hr'
      rw [Epoll.entry, hfile, Option.bind_some] at he'
      cases he.symm.trans he'
      exact hown
    -- the handler whose entry it was still watches the file
    intro hs'
    obtain ⟨j, r₁, hj, hopen, rfl, hentry⟩ := hs.live he
    have hji : j ≠ i := by
      rintro rfl
      obtain ⟨-, rfl⟩ := live_unique hj hself
      exact hother (congrArg Interest.key hentry).symm
    obtain ⟨armed, he'⟩ := hs'.watched ((live_set ht rfl).mpr (.inr ⟨hji, hj⟩)) hopen
    rw [Epoll.setInterest_apply, if_pos ⟨rfl, rfl⟩] at he'
    exact hji (hk.inj hj hself (congrArg Interest.key (Option.some.inj he')).symm)
  | @finish i fd it r hi ht =>
    have hself : Live s i fd r := ⟨it, ht⟩
    have hkey : s.keyFds r.key = some fd := hs.keyFds.mpr ⟨i, r, hself, rfl⟩
    have hown : (s.epoll.entry fd).map Interest.key ≠ if r.closed then none else some r.key := by
      intro hown
      refine ho fun i' hi' t ht' r' hr' => ?_
      cases hi.symm.trans hi'
      cases ht.symm.trans ht'
      cases hr'
      exact hown
    intro hs'
    cases hclosed : r.closed with
    | true =>
      -- the entry that it takes is another's
      obtain ⟨e, he⟩ : ∃ e, s.epoll.entry fd = some e := by
        refine Option.ne_none_iff_exists'.mp fun hnone => hown ?_
        rw [hnone, hclosed]
        rfl
      obtain ⟨file, hfile, he⟩ := Option.bind_eq_some_iff.mp he
      obtain ⟨j, r₁, hj, hopen, rfl, -⟩ := hs.live he
      have hji : j ≠ i := by
        rintro rfl
        obtain ⟨-, rfl⟩ := live_unique hj hself
        exact Bool.false_ne_true (hopen.symm.trans hclosed)
      obtain ⟨armed, he'⟩ := hs'.watched ((live_set ht rfl).mpr (.inr ⟨hji, hj⟩)) hopen
      rw [interest_deregisterInterest, if_pos ⟨hkey, hfile⟩] at he'
      cases he'
    | false =>
      -- its own entry stays
      obtain ⟨armed, he⟩ := hs.watched hself hclosed
      have he' : (deregisterInterest s r.key).2.epoll.interest fd r.file = some (r.entry armed) := by
        rw [interest_deregisterInterest, if_neg, he]
        rintro ⟨-, hfile⟩
        refine hown ?_
        rw [Epoll.entry, hfile, Option.bind_some, he, hclosed]
        rfl
      obtain ⟨j, r₁, hj, -, -, hentry⟩ := hs'.live he'
      obtain ⟨-, -, heq⟩ | ⟨hne, hj⟩ := (live_set ht rfl).mp hj
      · cases heq
      · exact hne (hk.inj hj hself (congrArg Interest.key hentry))
  | _ => exact absurd trivial ho

end Steps

/-! ### Runs -/

theorem keys_init (generator : Key) : Keys (.init generator) := by
  constructor <;> simp [Live, State.init]

theorem agree_init (generator : Key) : Agree (.init generator) := by
  constructor <;> simp [Live, State.init]

/-- The handler of a sleep closes its timer before it is deregistered, in one
poll, and another thread may take the number meanwhile. -/
example : Runs.Taken step Orderly (.init 103) [.openFile, .spawn 0 (.read ||| .oneshot),
    .poll 0, .start none, .suspend,
    .report 0 0, .poll 0, .closeSource, .openFile, .finish] := by decide

/-- A handler that waits after it has closed its source: its deregistration takes
the entry of the next source of that number, whose handler goes on waiting. -/
example : (Runs.run step (.init 103) [.openFile, .spawn 0 .read, .poll 0, .start none, .closeSource, .suspend,
    .openFile, .spawn 0 .read, .poll 1, .start none, .suspend, .poll 0, .finish]).map
      (fun s => (s.queues, s.epoll.interest 0 1)) = some ({104}, none) := by decide

end Registration
end ClAsync
