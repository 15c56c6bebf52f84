/-
# The listener task

`listen_on` submits an `accept_multi` and spawns a task that loops over a
`select!` of the completion queue and a subscription. The body of the loop
never awaits, so the task suspends in the `select!` only, when both of its
futures are pending. `Steady` says that it does not spin: since it was resumed
every pass of the loop has consumed a queued result.

A key without a slot answers `Ready(None)` and keeps no waker, and `_ =>
continue` polls it again at once. The key has no slot before the worker has
added it, and after the result of the cancelled operation was taken out.
`steady_iff_present` says that nothing else makes the task spin, and `spins`
that it does so for as long as the slot is missing.

Key definitions: `step`, `Steady`, `Present`, `Inv`.
Key theorems: `steady_iff_present`, `spins` and `absent_cases`.
-/
import ClAsync.Io.Traffic
import ClAsync.Lib.Runs

namespace ClAsync
namespace Listener

open Runs

variable {τ κ φ : Type}

/-- Where the task is. `select!` polls its futures in an order of its own, one
after the other while they are pending. -/
inductive Pc
  | suspended
  | selecting (queuePending recvPending : Bool)
  /-- A connection has been accepted. -/
  | accepted
  | ended
  deriving DecidableEq, Repr

/-- The task and the completion queue of its worker. -/
structure State (τ κ φ : Type) where
  traffic : Traffic.State τ κ φ
  /-- The subscription has a notification, or is closed. -/
  notified : Bool
  pc : Pc
  /-- The passes of the loop since the task was resumed. -/
  iterations : ℕ
  /-- The results taken since. -/
  consumed : ℕ
  /-- The results that were queued then, or have been posted since. -/
  supply : ℕ

def State.init : State τ κ φ := ⟨.init, false, .suspended, 0, 0, 0⟩

inductive Act (τ : Type)
  /-- What else happens to the completion queue. -/
  | traffic (e : Traffic.Event τ)
  | notify
  /-- The executor polls the task. -/
  | resume
  /-- `select!` polls the completion queue. -/
  | pollQueue
  /-- `select!` polls the subscription. -/
  | pollRecv
  /-- What follows an accepted connection; `address_peer().unwrap()` may panic. -/
  | handle (panics : Bool)

/-- The results that a slot has to give. -/
def queued : Option (IoCompletionSlot τ κ φ) → ℕ
  | some ⟨some (.single _), _⟩ => 1
  | some ⟨some (.multi mcr), _⟩ => mcr.inner.length
  | _ => 0

/-- The task's operation is persistent and added once, and nobody else polls
for it. -/
def Allowed (key : Key) (t : Traffic.State τ κ φ) : Traffic.Event τ → Prop
  | .addEntry k op _ => k = key → op.duration = .persistent ∧ (t.log.lookup key).isNone = true
  | .complete .. => True
  | .poll k _ => k ≠ key

instance (key : Key) (t : Traffic.State τ κ φ) : ∀ e, Decidable (Allowed key t e)
  | .addEntry .. | .poll .. => by dsimp only [Allowed]; infer_instance
  | .complete .. => instDecidableTrue

/-- The results that the event queues for the task, at most. -/
def posts (key : Key) : Traffic.Event τ → ℕ
  | .complete k _ _ => if k = key then 1 else 0
  | _ => 0

/-- The loop goes round. -/
def State.next (s : State τ κ φ) : State τ κ φ :=
  { s with pc := .selecting false false, iterations := s.iterations + 1 }

/-- What the task does with the answer of the completion queue. -/
def State.receive (s : State τ κ φ) (recvPending : Bool) : Poll (Option (IoCompletionResult κ φ)) → State τ κ φ
  | .pending => { s with pc := if recvPending then .suspended else .selecting true false }
  | .ready (some (.ok (.data _))) => { s with pc := .accepted, consumed := s.consumed + 1 }
  | .ready (some _) => { s with consumed := s.consumed + 1 }.next
  | .ready none => s.next

variable [CompletableOperation τ κ φ]

/-- One step of the task `waker`, whose operation has the key, or of its
surroundings. -/
def step (key : Key) (waker : Waker) (s : State τ κ φ) : Act τ → Option (State τ κ φ)
  | .traffic e =>
    if Allowed key s.traffic e then
      (Traffic.step s.traffic e).map fun traffic => { s with traffic, supply := s.supply + posts key e }
    else none
  | .notify => some { s with notified := true }
  | .resume =>
    if s.pc = .suspended then
      some { s with
        pc := .selecting false false
        iterations := 0
        consumed := 0
        supply := queued (s.traffic.queue.lookup key) }
    else none
  | .pollQueue =>
    match s.pc with
    | .selecting false recvPending =>
      let (result, traffic) := s.traffic.poll key waker
      some ({ s with traffic }.receive recvPending result)
    | _ => none
  | .pollRecv =>
    match s.pc with
    | .selecting queuePending false =>
      some { s with pc := if s.notified then .ended else if queuePending then .suspended else .selecting false true }
    | _ => none
  | .handle panics =>
    match s.pc with
    | .accepted => some (if panics then { s with pc := .ended } else s.next)
    | _ => none

/-- The task has gone round at most once for each result that it consumed, and
these were queued when it was resumed or have been posted since. -/
structure Steady (s : State τ κ φ) : Prop where
  each : s.iterations ≤ s.consumed
  finite : s.consumed ≤ s.supply

omit [CompletableOperation τ κ φ] in
instance (s : State τ κ φ) : Decidable (Steady s) :=
  decidable_of_iff (s.iterations ≤ s.consumed ∧ s.consumed ≤ s.supply)
    ⟨fun h => ⟨h.1, h.2⟩, fun h => ⟨h.each, h.finite⟩⟩

/-- The task polls a slot that is there. -/
def Present (key : Key) (s : State τ κ φ) : Act τ → Prop
  | .pollQueue => (s.traffic.queue.lookup key).isSome = true
  | _ => True

/-- What each step finds, and what it does. -/
theorem step_cases {key : Key} {waker : Waker} {s s' : State τ κ φ} {a : Act τ} (h : step key waker s a = some s') :
    match a with
    | .traffic e => Allowed key s.traffic e ∧ ∃ traffic, Traffic.step s.traffic e = some traffic ∧
        s' = { s with traffic, supply := s.supply + posts key e }
    | .notify => s' = { s with notified := true }
    | .resume => s.pc = .suspended ∧ s' = { s with
        pc := .selecting false false
        iterations := 0
        consumed := 0
        supply := queued (s.traffic.queue.lookup key) }
    | .pollQueue => ∃ recvPending, s.pc = .selecting false recvPending ∧
        s' = { s with traffic := (s.traffic.poll key waker).2 }.receive recvPending (s.traffic.poll key waker).1
    | .pollRecv => ∃ queuePending, s.pc = .selecting queuePending false ∧ s' = { s with
        pc := if s.notified then .ended else if queuePending then .suspended else .selecting false true }
    | .handle panics => s.pc = .accepted ∧ s' = if panics then { s with pc := .ended } else s.next := by
  cases a with
  | traffic e =>
    simp only [step, Option.ite_none_right_eq_some, Option.map_eq_some_iff] at h
    obtain ⟨ha, traffic, ht, rfl⟩ := h
    exact ⟨ha, traffic, ht, rfl⟩
  | notify => exact (Option.some.inj h).symm
  | resume =>
    simp only [step, Option.ite_none_right_eq_some, Option.some.injEq] at h
    exact ⟨h.1, h.2.symm⟩
  | pollQueue =>
    simp only [step] at h
    split at h
    · rename_i recvPending hpc
      exact ⟨recvPending, hpc, (Option.some.inj h).symm⟩
    · cases h
  | pollRecv =>
    simp only [step] at h
    split at h
    · rename_i queuePending hpc
      exact ⟨queuePending, hpc, (Option.some.inj h).symm⟩
    · cases h
  | handle panics =>
    simp only [step] at h
    split at h
    · rename_i hpc
      exact ⟨hpc, (Option.some.inj h).symm⟩
    · cases h

/-! ### The queue of the task -/

omit [CompletableOperation τ κ φ] in
/-- A slot has a state, whatever the traffic was. -/
theorem state_of_slotOk {l : Option (Log κ φ)} {slot : IoCompletionSlot τ κ φ} (h : Traffic.SlotOk l (some slot)) :
    ∃ state, slot.state = some state := by
  cases h <;> exact ⟨_, rfl⟩

omit [CompletableOperation τ κ φ] in
/-- A poll takes out the result that it returns, and none if it is pending. A
slot that has a state never answers `Ready(None)`. -/
theorem queued_poll {slot : IoCompletionSlot τ κ φ} {state : IoCompletionState τ κ φ} (h : slot.state = some state)
    (waker : Waker) :
    match (slot.poll waker).1 with
    | .pending => queued (slot.poll waker).2 ≤ queued (some slot)
    | .ready (some _) => queued (slot.poll waker).2 + 1 ≤ queued (some slot)
    | .ready none => False := by
  obtain ⟨_, waker'⟩ := slot
  dsimp only at h
  subst h
  cases state with
  | notCompleted entry => exact le_refl _
  | single result => exact le_refl _
  | completed => exact le_refl _
  | multi mcr =>
    obtain ⟨inner, op, state⟩ := mcr
    cases inner with
    | nil => cases state <;> exact le_refl _
    | cons result rest =>
      show queued (IoCompletionSlot.poll _ waker).2 + 1 ≤ rest.length + 1
      cases state with
      | running => exact le_refl _
      | draining =>
        cases rest with
        | nil => exact le_refl _
        | cons _ _ => exact le_refl _

/-- A completion queues at most one result. -/
theorem queued_complete (slot : Option (IoCompletionSlot τ κ φ)) (resultCode : ℤ) :
    queued (slot.bind fun slot => (slot.complete resultCode).2) ≤ queued slot + 1 := by
  cases slot with
  | none => exact Nat.zero_le _
  | some slot =>
    obtain ⟨state, waker⟩ := slot
    cases state with
    | none => exact Nat.zero_le _
    | some state =>
      cases state with
      | notCompleted entry =>
        show queued (some ⟨some (entry.complete resultCode), waker⟩) ≤ 1
        simp only [IoEntry.complete, IoOperation.complete_duration]
        cases entry.op.duration
        · exact Nat.zero_le _
        · exact le_refl _
        · exact le_refl _
      | single result => exact Nat.zero_le _
      | multi mcr =>
        show (mcr.inner ++ [(mcr.op.complete resultCode).1]).length ≤ mcr.inner.length + 1
        rw [List.length_append, List.length_singleton]
      | completed => exact Nat.zero_le _

/-- The surroundings queue what they post. -/
theorem queued_traffic {key : Key} {t t' : Traffic.State τ κ φ} {e : Traffic.Event τ} (ha : Allowed key t e)
    (h : Traffic.step t e = some t') : queued (t'.queue.lookup key) ≤ queued (t.queue.lookup key) + posts key e := by
  obtain ⟨hkey, hother⟩ := Traffic.step_cases h
  by_cases hk : key = e.key
  · subst hk
    cases e with
    | addEntry k op waker =>
      simp only [Traffic.Event.key] at hkey ⊢
      generalize t.log.lookup k = l, t'.log.lookup k = l', t.queue.lookup k = slot, t'.queue.lookup k = slot' at hkey ⊢
      cases hkey
      exact Nat.zero_le _
    | complete k resultCode more =>
      simp only [Traffic.Event.key, posts, if_true] at hkey ⊢
      generalize t.log.lookup k = l, t'.log.lookup k = l', t.queue.lookup k = slot, t'.queue.lookup k = slot' at hkey ⊢
      cases hkey
      exact queued_complete _ _
    | poll k waker => exact absurd rfl ha
  · rw [(hother key hk).2]
    exact Nat.le_add_right _ _

/-! ### Every run -/

/-- Where the task is after as many passes as it has consumed results, one of
which it may not have handled. -/
structure Inv (key : Key) (s : State τ κ φ) : Prop where
  ok : Traffic.Ok s.traffic
  persistent : ∀ l ∈ s.traffic.log.lookup key, l.duration = .persistent
  balance : s.consumed + queued (s.traffic.queue.lookup key) ≤ s.supply
  passes : s.pc ≠ .ended → s.consumed = s.iterations + if s.pc = .accepted then 1 else 0
  each : s.iterations ≤ s.consumed

omit [CompletableOperation τ κ φ] in
theorem inv_init (key : Key) : Inv key (.init : State τ κ φ) where
  ok := Traffic.ok_init
  persistent l hl := by simp [State.init, Traffic.State.init] at hl
  balance := by simp [State.init, Traffic.State.init, queued]
  passes _ := rfl
  each := le_refl _

omit [CompletableOperation τ κ φ] in
theorem steady_of_inv {key : Key} {s : State τ κ φ} (h : Inv key s) : Steady s :=
  ⟨h.each, Nat.le_of_add_right_le h.balance⟩

omit [CompletableOperation τ κ φ] in
theorem Inv.consumed_of_selecting {key : Key} {s : State τ κ φ} {queuePending recvPending : Bool} (hs : Inv key s)
    (hpc : s.pc = .selecting queuePending recvPending) : s.consumed = s.iterations := by
  have h := hs.passes
  rw [hpc] at h
  simpa using h

/-- The surroundings leave the task's operation a persistent one. -/
theorem persistent_traffic {key : Key} {t t' : Traffic.State τ κ φ} {e : Traffic.Event τ}
    (hl : ∀ l ∈ t.log.lookup key, l.duration = .persistent) (ha : Allowed key t e)
    (h : Traffic.step t e = some t') : ∀ l ∈ t'.log.lookup key, l.duration = .persistent := by
  obtain ⟨hkey, hother⟩ := Traffic.step_cases h
  by_cases hk : key = e.key
  · subst hk
    generalize t.log.lookup e.key = l, t'.log.lookup e.key = l', t.queue.lookup e.key = slot,
      t'.queue.lookup e.key = slot' at hkey hl ⊢
    cases hkey with
    | addEntry k op waker =>
      intro l' hmem
      cases hmem
      exact (ha rfl).1
    | complete k resultCode more l _ _ =>
      intro l' hmem
      cases hmem
      exact hl l rfl
    | poll k waker => exact absurd rfl ha
  · rw [(hother key hk).1]
    exact hl

/-- So does a poll. -/
theorem persistent_poll {key : Key} {t : Traffic.State τ κ φ} (hl : ∀ l ∈ t.log.lookup key, l.duration = .persistent)
    (waker : Waker) : ∀ l ∈ (t.poll key waker).2.log.lookup key, l.duration = .persistent := by
  rw [(Traffic.poll_cases t key waker).2.1.1]
  intro l hmem
  obtain ⟨l₀, hl₀, rfl⟩ := Option.map_eq_some_iff.mp hmem
  exact hl l₀ hl₀

/-- The task keeps the invariant when it polls a slot that is there. -/
theorem inv_poll {key : Key} {waker : Waker} {s : State τ κ φ} {recvPending : Bool} (hs : Inv key s)
    (hpc : s.pc = .selecting false recvPending) (hpresent : (s.traffic.queue.lookup key).isSome = true) :
    Inv key ({ s with traffic := (s.traffic.poll key waker).2 }.receive recvPending (s.traffic.poll key waker).1) := by
  obtain ⟨slot, hslot⟩ := Option.isSome_iff_exists.mp hpresent
  obtain ⟨state, hstate⟩ := state_of_slotOk (hslot ▸ hs.ok key)
  obtain ⟨hresult, ⟨-, hqueue⟩, -⟩ := Traffic.poll_cases s.traffic key waker
  have hok : Traffic.Ok (s.traffic.poll key waker).2 := Traffic.ok_step (Traffic.step_poll s.traffic key waker) hs.ok
  have hpersistent := persistent_poll hs.persistent waker
  have hbalance := hs.balance
  have hpasses := hs.consumed_of_selecting hpc
  have hpoll := queued_poll hstate waker
  rw [hslot] at hresult hqueue hbalance
  simp only [Option.map_some, Option.getD_some, Option.bind_some] at hresult hqueue
  rw [← hqueue, ← hresult] at hpoll
  generalize (s.traffic.poll key waker).1 = result at hpoll ⊢
  cases result with
  | pending =>
    refine ⟨hok, hpersistent, ?_, fun _ => ?_, hs.each⟩
    · exact le_trans (Nat.add_le_add_left hpoll _) hbalance
    · cases recvPending <;> exact hpasses
  | ready result =>
    cases result with
    | none => exact hpoll.elim
    | some result =>
      have htaken : s.consumed + 1 + queued ((s.traffic.poll key waker).2.queue.lookup key) ≤ s.supply := by omega
      cases result with
      | error e => exact ⟨hok, hpersistent, htaken, fun _ => congrArg (· + 1) hpasses, Nat.add_le_add_right hs.each 1⟩
      | ok completion =>
        cases completion with
        | success =>
          exact ⟨hok, hpersistent, htaken, fun _ => congrArg (· + 1) hpasses, Nat.add_le_add_right hs.each 1⟩
        | data accepted =>
          exact ⟨hok, hpersistent, htaken, fun _ => congrArg (· + 1) hpasses, Nat.le_add_right_of_le hs.each⟩

theorem inv_step {key : Key} {waker : Waker} {s s' : State τ κ φ} {a : Act τ} (hs : Inv key s) (hc : Present key s a)
    (h : step key waker s a = some s') : Inv key s' := by
  cases a with
  | traffic e =>
    obtain ⟨ha, t, ht, rfl⟩ := step_cases h
    refine ⟨Traffic.ok_step ht hs.ok, persistent_traffic hs.persistent ha ht, ?_, hs.passes, hs.each⟩
    have hqueued := queued_traffic ha ht
    have hbalance := hs.balance
    show s.consumed + queued (t.queue.lookup key) ≤ s.supply + posts key e
    omega
  | notify =>
    cases step_cases h
    exact ⟨hs.ok, hs.persistent, hs.balance, hs.passes, hs.each⟩
  | resume =>
    obtain ⟨-, rfl⟩ := step_cases h
    exact ⟨hs.ok, hs.persistent, (Nat.zero_add _).le, fun _ => rfl, le_refl _⟩
  | pollQueue =>
    obtain ⟨recvPending, hpc, rfl⟩ := step_cases h
    exact inv_poll hs hpc hc
  | pollRecv =>
    obtain ⟨queuePending, hpc, rfl⟩ := step_cases h
    have hpasses := hs.consumed_of_selecting hpc
    refine ⟨hs.ok, hs.persistent, hs.balance, fun _ => ?_, hs.each⟩
    cases s.notified <;> cases queuePending <;> exact hpasses
  | handle panics =>
    obtain ⟨hpc, rfl⟩ := step_cases h
    have hpasses : s.consumed = s.iterations + 1 := by
      have h := hs.passes (by rw [hpc]; exact fun h => by cases h)
      rwa [hpc, if_pos rfl] at h
    cases panics with
    | true => exact ⟨hs.ok, hs.persistent, hs.balance, fun h => absurd rfl h, hs.each⟩
    | false => exact ⟨hs.ok, hs.persistent, hs.balance, fun _ => hpasses, hpasses.ge⟩

/-- A poll that finds no slot sends the loop round for nothing. -/
theorem not_steady_of_absent {key : Key} {waker : Waker} {s s' : State τ κ φ} {a : Act τ} (hs : Inv key s)
    (hc : ¬ Present key s a) (h : step key waker s a = some s') : ¬ Steady s' := by
  cases a with
  | pollQueue =>
    obtain ⟨recvPending, hpc, rfl⟩ := step_cases h
    have hpasses := hs.consumed_of_selecting hpc
    have habsent : s.traffic.queue.lookup key = none := Option.not_isSome_iff_eq_none.mp hc
    have hresult : (s.traffic.poll key waker).1 = .ready none := by
      rw [(Traffic.poll_cases s.traffic key waker).1, habsent]
      rfl
    rw [hresult]
    intro hsteady
    have heach : s.iterations + 1 ≤ s.consumed := hsteady.each
    omega
  | _ => exact absurd trivial hc

/-- **The task does not spin exactly if it finds a slot whenever it polls.** -/
theorem steady_iff_present (key : Key) (waker : Waker) (as : List (Act τ)) :
    Along (step key waker) Steady (.init : State τ κ φ) as ↔ Taken (step key waker) (Present key) .init as := by
  refine along_iff_taken (fun s a s' hs _ hc h => ?_) (fun s a s' hs _ hc h => not_steady_of_absent hs hc h)
    (inv_init key) (steady_of_inv (inv_init key))
  have hs' := inv_step hs hc h
  exact ⟨hs', steady_of_inv hs'⟩

omit [CompletableOperation τ κ φ] in
/-- The slot is missing before the operation was added, and after its
cancellation was taken out. -/
theorem absent_cases {key : Key} {s : State τ κ φ} (hs : Inv key s)
    (habsent : s.traffic.queue.lookup key = none) :
    s.traffic.log.lookup key = none ∨
      ∃ l ∈ s.traffic.log.lookup key, -ecanceled ∈ l.posted ∧ ∃ r ∈ l.returned, isCanceled r = true := by
  have hslot := hs.ok key
  have hpersistent := hs.persistent
  rw [habsent] at hslot
  generalize s.traffic.log.lookup key = l at hslot hpersistent ⊢
  cases hslot with
  | absent => exact .inl rfl
  | forgottenPolled => cases hpersistent _ rfl
  | singlePolled => cases hpersistent _ rfl
  | drained posted polled returned result _ hresult =>
    exact .inr ⟨_, rfl, by simp, result, by simp, hresult⟩

/-! ### A missing slot -/

/-- A step that the task makes by itself. -/
def Act.isOwn : Act τ → Bool
  | .traffic _ | .notify => false
  | .resume | .pollQueue | .pollRecv | .handle _ => true

/-- The task is awake, and has nothing to wait for. -/
structure Spinning (key : Key) (s : State τ κ φ) : Prop where
  absent : s.traffic.queue.lookup key = none
  notNotified : s.notified = false
  awake : ∃ recvPending, s.pc = .selecting false recvPending

/-- **As long as the slot is missing, the task spins**: it goes round without
suspending, whatever it polls first. -/
theorem spins {key : Key} {waker : Waker} {s s' : State τ κ φ} {a : Act τ} (hs : Spinning key s)
    (ha : a.isOwn = true) (h : step key waker s a = some s') :
    Spinning key s' ∧ s'.consumed = s.consumed ∧ (a = .pollQueue → s'.iterations = s.iterations + 1) := by
  obtain ⟨habsent, hnot, recvPending, hpc⟩ := hs
  cases a with
  | traffic e | notify => cases ha
  | resume | handle =>
    have hpc' := (step_cases h).1
    cases hpc.symm.trans hpc'
  | pollQueue =>
    obtain ⟨recvPending, -, rfl⟩ := step_cases h
    obtain ⟨hresult, ⟨-, hqueue⟩, -⟩ := Traffic.poll_cases s.traffic key waker
    rw [habsent] at hresult hqueue
    rw [hresult]
    exact ⟨⟨hqueue, hnot, false, rfl⟩, rfl, fun _ => rfl⟩
  | pollRecv =>
    obtain ⟨queuePending, hpc', rfl⟩ := step_cases h
    cases hpc.symm.trans hpc'
    refine ⟨⟨habsent, hnot, true, ?_⟩, rfl, fun h => (by cases h)⟩
    simp [hnot]

/-- And it can do so any number of times. -/
theorem spins_run {key : Key} {waker : Waker} (n : ℕ) {s : State τ κ φ} (hs : Spinning key s) :
    ∃ s', run (step key waker) s (List.replicate n .pollQueue) = some s' ∧ Spinning key s' ∧
      s'.consumed = s.consumed ∧ s'.iterations = s.iterations + n := by
  induction n generalizing s with
  | zero => exact ⟨s, rfl, hs, rfl, rfl⟩
  | succ n ih =>
    obtain ⟨s₁, h₁⟩ : ∃ s₁, step key waker s .pollQueue = some s₁ := by
      obtain ⟨recvPending, hpc⟩ := hs.awake
      simp [step, hpc]
    obtain ⟨hspinning, hconsumed, hiterations⟩ := spins hs rfl h₁
    obtain ⟨s', hrun, hs', hc, hi⟩ := ih hspinning
    refine ⟨s', ?_, hs', hc.trans hconsumed, ?_⟩
    · rw [List.replicate_succ, run, h₁]
      exact hrun
    · rw [hi, hiterations rfl]
      omega

/-- The task runs before the worker has added its operation. -/
def early : List (Act IoAcceptMultiData) := [.resume, .pollQueue]

/-- A connection is accepted, and the operation cancelled. -/
def cancelled : List (Act IoAcceptMultiData) :=
  [.traffic (.addEntry 0 .acceptMulti none), .resume, .pollQueue, .pollRecv, .traffic (.complete 0 7 true), .resume,
    .pollQueue, .handle false, .traffic (.complete 0 (-ecanceled) false), .pollQueue, .pollQueue]

theorem steady_fails : ¬ Along (step 0 1) Steady .init early ∧ ¬ Along (step 0 1) Steady .init cancelled := by
  decide

end Listener
end ClAsync
