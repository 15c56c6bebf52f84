/-
# Cancellation

The drop of a future submits an `AsyncCancel` of its operation as it would
submit any other operation: to the next worker of the round-robin. The keys
count from 0 for each worker, so on the ring of another worker the cancel is
for somebody else's operation (`isolated_fails`). It stays with its own in
the runs in which every cancel draws from the counter while it stands at the
worker of its future, or at one that is not available.

Key definitions: `Isolated`, `Steers`, `Own`.
Key theorems: `unavailable_step`, a worker that is not available is so for
good, and `isolated_of_steers`.
-/
import ClAsync.Pool.Delivery

namespace ClAsync
namespace Pool

open Runs

variable {τ κ φ ρ : Type}

/-- Every operation on a ring that the drop of a future has caused is an
`AsyncCancel` of the future's own operation: that operation was sent to the
same worker, and no other call has sent its key there. -/
def Isolated (s : State τ κ φ ρ) : Prop :=
  ∀ (f : ℕ) (fut : IoOperationFuture τ φ ρ) (v : ℕ) (key : Key) (m : Member τ κ φ),
    s.futures[f]? = some fut → fut.cancel = some (.sent v key) → s.workers[v]? = some m →
      ∀ entry ∈ m.loop.ctx.pushed, entry.key = key →
        ∃ target, entry.op = .cancelForget target ∧ fut.handle = some (v, target) ∧
          ∀ f' role, CallAt s f' role (.sent v target) → f' = f ∧ role = .submit

/-- The worker the counter stands at when a cancel draws from it, and the
worker of its future's handle. -/
def drawing (s : State τ κ φ ρ) : Act τ → Option (ℕ × ℕ)
  | .cancel f => do
    let fut ← s.futures[f]?
    let (v, _) ← fut.handle
    match ← fut.cancel with
    | .probing (_ + 1) => some (s.nextId % s.workers.length, v)
    | _ => none
  | _ => none

/-- The worker `v` is not available. -/
def Away (s : State τ κ φ ρ) (v : ℕ) : Prop := ∀ m ∈ s.workers[v]?, available m.loop.status = false

instance (s : State τ κ φ ρ) (v : ℕ) : Decidable (Away s v) :=
  inferInstanceAs (Decidable (∀ m ∈ s.workers[v]?, _))

/-- A cancel draws from the counter while it stands at the worker of its
future, or at one that is not available. -/
def Steers (s : State τ κ φ ρ) (a : Act τ) : Prop := ∀ p ∈ drawing s a, p.1 = p.2 ∨ Away s p.1

instance (s : State τ κ φ ρ) (a : Act τ) : Decidable (Steers s a) :=
  inferInstanceAs (Decidable (∀ p ∈ drawing s a, _))

theorem Steers.draw {s : State τ κ φ ρ} {f left v : ℕ} {target : Key} {fut : IoOperationFuture τ φ ρ}
    (h : Steers s (.cancel f)) (hf : s.futures[f]? = some fut) (hcancel : fut.cancel = some (.probing (left + 1)))
    (hhandle : fut.handle = some (v, target)) :
    s.nextId % s.workers.length = v ∨ Away s (s.nextId % s.workers.length) := by
  refine h (_, v) ?_
  simp only [drawing, hf, hhandle, hcancel, Option.bind_eq_bind, Option.bind_some, Option.mem_def]

theorem IoOperationFuture.Shaped.handle_of_cancel {fut : IoOperationFuture τ φ ρ} (h : fut.Shaped)
    {stage : Stage} (hcancel : fut.cancel = some stage) : ∃ loc, fut.handle = some loc := by
  by_cases hphase : fut.phase = .dropped
  · simp only [Shaped, hphase] at h
    refine Option.ne_none_iff_exists'.mp fun hnone => ?_
    cases hcancel.symm.trans (h hnone)
  · cases hcancel.symm.trans (h.cancel_eq_none hphase)

/-! ### Workers that are not available -/

/-- The part of the main loop between two calls of `poll_events`. -/
def turning : Worker.Pc → Bool
  | .complete | .retry | .recv | .submit | .check => true
  | _ => false

/-- A worker is idle when it is about to call `poll_events`, and busy or
stopping in the rest of the main loop. -/
def Timely (loop : Worker.State τ κ φ) : Prop :=
  (loop.pc = .poll → loop.status = .idle) ∧
    (turning loop.pc = true → loop.status = .busy ∨ loop.status = .stopping)

theorem timely_receive {loop : Worker.State τ κ φ} (h : Timely loop) (hpc : loop.pc = .recv)
    (msg : Message τ) (channel : List (Message τ)) : Timely (Worker.receive { loop with channel } msg) := by
  cases msg with
  | submitIo submission => exact h
  | shutdown => exact ⟨fun hpoll => (by cases hpc.symm.trans hpoll), fun _ => Or.inr rfl⟩
  | kill => exact ⟨nofun, nofun⟩
  | other => exact h

theorem timely_next {loop loop' : Worker.State τ κ φ} (h : Timely loop) (hgoes : Worker.Goes loop loop') :
    Timely loop' := by
  have hturning : ∀ pc, turning loop.pc = true → pc ≠ .poll →
      (pc = .poll → loop.status = .idle) ∧ (turning pc = true → loop.status = .busy ∨ loop.status = .stopping) :=
    fun pc hpc hne => ⟨fun hpoll => absurd hpoll hne, fun _ => h.2 hpc⟩
  cases hgoes with
  | complete hpc => exact hturning _ (by rw [hpc]; rfl) (by split <;> exact nofun)
  | retryNone hpc | retryFull _ _ hpc | recvNone hpc | submit hpc => exact hturning _ (by rw [hpc]; rfl) nofun
  | retryPush => exact h
  | receive msg channel hpc => exact timely_receive h hpc msg channel
  | shutdownReceive msg channel hpc =>
    cases msg with
    | kill => exact ⟨nofun, nofun⟩
    | _ => exact h
  | shutdownRecvNone | blockingSubmit | shutdownComplete | stop => exact ⟨nofun, nofun⟩

/-- No step that the worker takes by itself makes it available. -/
theorem unavailable_next {loop loop' : Worker.State τ κ φ} (haway : available loop.status = false)
    (hgoes : Worker.Goes loop loop') : available loop'.status = false := by
  cases hgoes with
  | receive msg | shutdownReceive msg =>
    cases msg with
    | shutdown | kill => first | exact haway | rfl
    | _ => exact haway
  | stop => rfl
  | _ => exact haway

section

variable [CompletableOperation τ κ φ]

theorem timely_step {loop loop' : Worker.State τ κ φ} {b : Worker.Act τ} (h : Timely loop)
    (hstep : Worker.step loop b = some loop') : Timely loop' := by
  cases Worker.step_cases hstep with
  | send | pollKey | item => exact h
  | interrupted | loop => exact ⟨fun _ => rfl, fun h => by cases h⟩
  | events message io shutdown =>
    refine ⟨nofun, fun _ => ?_⟩
    cases shutdown with
    | true => exact Or.inr rfl
    | false => exact Or.inl rfl
  | enter | stay | leave => exact ⟨nofun, nofun⟩
  | next _ hnext => exact timely_next h (Worker.next_cases hnext)

/-- A worker that is stopping, or has stopped, does not become available
again. -/
theorem unavailable_step {loop loop' : Worker.State τ κ φ} {b : Worker.Act τ} (h : Timely loop)
    (haway : available loop.status = false) (hstep : Worker.step loop b = some loop') :
    available loop'.status = false := by
  have hpoll : loop.pc ≠ .poll := fun hpc => by
    rw [h.1 hpc] at haway
    cases haway
  cases Worker.step_cases hstep with
  | send | pollKey | item | enter | stay | leave => exact haway
  | interrupted hpc | events _ _ _ hpc => exact absurd hpc hpoll
  | loop _ hpc hst =>
    rcases h.2 (by rw [hpc]; rfl) with hbusy | hstopping
    · rw [hbusy] at haway
      cases haway
    · exact absurd hstopping hst
  | next _ hnext => exact unavailable_next haway (Worker.next_cases hnext)

end

/-! ### Where the cancels go -/

/-- Every cancel that has settled on a worker has settled on that of its
future; one that is about to look at a worker is to look at that one, or at
one that is not available. -/
structure Own (s : State τ κ φ ρ) : Prop where
  settled : ∀ (f : ℕ) (fut : IoOperationFuture τ φ ρ) (stage : Stage) (v : ℕ), s.futures[f]? = some fut →
    fut.cancel = some stage → stage.worker = some v → ∃ target, fut.handle = some (v, target)
  probed : ∀ (f : ℕ) (fut : IoOperationFuture τ φ ρ) (left id : ℕ), s.futures[f]? = some fut →
    fut.cancel = some (.probed left id) → (∃ target, fut.handle = some (id, target)) ∨ Away s id
  timely : ∀ (v : ℕ) (m : Member τ κ φ), s.workers[v]? = some m → Timely m.loop

theorem own_init (n : ℕ) : Own (State.init n : State τ κ φ ρ) where
  settled f fut stage v hf := by simp [State.init] at hf
  probed f fut left id hf := by simp [State.init] at hf
  timely v m hm := by
    rw [List.eq_of_mem_replicate (List.mem_of_getElem? hm)]
    exact ⟨fun _ => rfl, fun h => by cases h⟩

variable [CompletableOperation τ κ φ] [TryFromCompletion κ ρ]

theorem timely_workers_step {s s' : State τ κ φ ρ} {a : Act τ} (h : Step s a s') (hown : Own s) (v : ℕ)
    (m' : Member τ κ φ) (hm' : s'.workers[v]? = some m') : Timely m'.loop := by
  obtain ⟨m, hm, hloop⟩ := loop_cases h hm'
  rcases hloop.worker with hloop | ⟨b, hstep, -⟩
  · rw [hloop]
    exact hown.timely v m hm
  · exact timely_step (hown.timely v m hm) hstep

theorem away_step {s s' : State τ κ φ ρ} {a : Act τ} (h : Step s a s') (hown : Own s) {v : ℕ}
    (haway : Away s v) : Away s' v := by
  intro m' hm'
  obtain ⟨m, hm, hloop⟩ := loop_cases h hm'
  rcases hloop.worker with hloop | ⟨b, hstep, -⟩
  · rw [hloop]
    exact haway m hm
  · exact unavailable_step (hown.timely v m hm) (haway m hm) hstep

theorem settled_step {s s' : State τ κ φ ρ} {a : Act τ} (h : Step s a s')
    (hs : ∀ fut ∈ s.futures, fut.Shaped) (hown : Own s) (f : ℕ) (fut' : IoOperationFuture τ φ ρ)
    (stage' : Stage) (v : ℕ) (hf' : s'.futures[f]? = some fut') (hcancel' : fut'.cancel = some stage')
    (hworker : stage'.worker = some v) : ∃ target, fut'.handle = some (v, target) := by
  have hcall : fut'.call .cancel = some stage' := hcancel'
  rcases call_cases h hs hf' hcall with
    ⟨fut, hf, hcancel, hhandle⟩ | ⟨_, rfl⟩ | ⟨fut, stage, submission, hf, hcancel, -, hd, hhandle⟩
  · rw [hhandle rfl]
    exact hown.settled f fut stage' v hf hcancel hworker
  · cases hworker
  · rw [hhandle rfl]
    generalize s'.workers = workers' at hd
    cases hd with
    | probe => cases hworker
    | search _ _ _ hstage' => rcases hstage' with rfl | ⟨_, rfl⟩ <;> cases hworker
    | choose left id m hm havailable =>
      cases hworker
      refine (hown.probed f fut left _ hf hcancel).resolve_right fun haway => ?_
      rw [haway m hm] at havailable
      cases havailable
    | draw id m hm => exact hown.settled f fut _ v hf hcancel hworker
    | send id key m hm => exact hown.settled f fut _ v hf hcancel hworker

theorem probed_step {s s' : State τ κ φ ρ} {a : Act τ} (h : Step s a s')
    (hs : ∀ fut ∈ s.futures, fut.Shaped) (hown : Own s) (hsteer : Steers s a) (f : ℕ)
    (fut' : IoOperationFuture τ φ ρ) (left id : ℕ) (hf' : s'.futures[f]? = some fut')
    (hcancel' : fut'.cancel = some (.probed left id)) :
    (∃ target, fut'.handle = some (id, target)) ∨ Away s' id := by
  have hcall : fut'.call .cancel = some (.probed left id) := hcancel'
  rcases call_cases h hs hf' hcall with
    ⟨fut, hf, hcancel, hhandle⟩ | ⟨_, hnew⟩ | ⟨fut, stage, submission, hf, hcancel, ha, hd, hhandle⟩
  · rw [hhandle rfl]
    exact (hown.probed f fut left id hf hcancel).imp_right (away_step h hown)
  · cases hnew
  · rw [hhandle rfl]
    generalize s'.workers = workers' at hd
    cases hd with
    | probe =>
      obtain ⟨⟨v, target⟩, hloc⟩ := (hs fut (List.mem_of_getElem? hf)).handle_of_cancel hcancel
      subst ha
      rcases hsteer.draw hf hcancel hloc with hv | haway
      · exact Or.inl ⟨target, by rw [hloc, hv]⟩
      · exact Or.inr (away_step h hown haway)
    | search _ _ _ hstage' => rcases hstage' with h | ⟨_, h⟩ <;> cases h

theorem own_step {s s' : State τ κ φ ρ} {a : Act τ} (h : Step s a s')
    (hs : ∀ fut ∈ s.futures, fut.Shaped) (hown : Own s) (hsteer : Steers s a) : Own s' where
  settled := settled_step h hs hown
  probed := probed_step h hs hown hsteer
  timely := timely_workers_step h hown

omit [CompletableOperation τ κ φ] [TryFromCompletion κ ρ] in
theorem isolated_of_own {s : State τ κ φ ρ} (hs : Delivered s) (hown : Own s) : Isolated s := by
  intro f fut v key m hf hcancel hm entry hentry hkey
  subst hkey
  obtain ⟨target, hhandle⟩ := hown.settled f fut _ v hf hcancel rfl
  -- The entry's call has the worker and the key of the cancel, so it is the cancel.
  obtain ⟨f₀, role, fut₀, hf₀, hcall₀, hop⟩ := hs.sent v m hm entry (List.mem_append_right _ hentry)
  obtain ⟨rfl, rfl⟩ := hs.ok.distinct f₀ f role .cancel _ _ _ ⟨fut₀, hf₀, hcall₀⟩
    ⟨fut, hf, hcancel⟩ rfl rfl
  cases hf.symm.trans hf₀
  obtain ⟨loc, hloc, hentry_op⟩ := hop rfl
  cases hhandle.symm.trans hloc
  refine ⟨target, hentry_op, hhandle, fun f' role hcall => ?_⟩
  have hsubmit : CallAt s f₀ .submit (.sent v target) :=
    ⟨fut, hf, (hs.ok.shaped fut (List.mem_of_getElem? hf)).call_of_handle hhandle⟩
  exact hs.ok.distinct f' f₀ role .submit _ _ _ hcall hsubmit rfl rfl

/-- **In every run of a pool in which each cancel draws from the counter while
it stands at the worker of its future or at one that is not available, and no
generator runs out of keys, every `AsyncCancel` on a ring is for the operation
of the future whose drop caused it.** -/
theorem isolated_of_steers (n : ℕ) {as : List (Act τ)}
    (h : Taken step (fun s a => Draws s a ∧ Steers s a) (State.init n : State τ κ φ ρ) as) :
    Along step Isolated (State.init n : State τ κ φ ρ) as := by
  refine along_of_invariant (I := fun s => Delivered s ∧ Own s) ?_ ?_ ⟨delivered_init n, own_init n⟩ h
  · intro s a s' hs hC h
    have hstep := step_cases h
    exact ⟨delivered_step hstep hs.1 hC.1, own_step hstep hs.1.ok.shaped hs.2 hC.2⟩
  · intro s hs
    exact isolated_of_own hs.1 hs.2

/-! ### Two runs of two workers -/

def close : IoOperation IoCloseData := ⟨.data .mk, .single⟩

/-- The future `f` is created and polled for the first time. -/
def submitted (f : ℕ) : List (Act IoCloseData) :=
  [.create close, .start f f, .submit f, .submit f, .submit f, .submit f]

/-- The future `f` is dropped and cancels. -/
def dropped (f : ℕ) : List (Act IoCloseData) :=
  [.drop f, .cancel f, .cancel f, .cancel f, .cancel f]

/-- The worker `v` takes two messages. -/
def received (v : ℕ) : List (Act IoCloseData) :=
  [.worker v (.events true false false), .worker v .next, .worker v .next, .worker v .next]

/-- Each of two futures is dropped while the round-robin is back at its
worker. -/
theorem isolated_inTurn :
    let as := submitted 0 ++ submitted 1 ++ dropped 0 ++ dropped 1 ++ received 0 ++ received 1
    (run step (State.init 2 : State IoCloseData Empty Empty Unit) as).isSome = true ∧
      Along step Isolated (State.init 2 : State IoCloseData Empty Empty Unit) as :=
  ⟨by decide, isolated_of_steers 2 (by decide)⟩

/-- Of three futures the first and the third are with the worker 0 and the
second with the worker 1, which gets the cancel of the first. -/
theorem isolated_fails :
    ¬ Along step Isolated (State.init 2 : State IoCloseData Empty Empty Unit)
      (submitted 0 ++ submitted 1 ++ submitted 2 ++ dropped 0 ++ received 1) := by
  intro h
  obtain ⟨s, hs, fut, hf, hhandle, hcancel, m, hm, entry, hentry, hkey⟩ :
      ∃ s ∈ run step (State.init 2 : State IoCloseData Empty Empty Unit)
        (submitted 0 ++ submitted 1 ++ submitted 2 ++ dropped 0 ++ received 1),
      ∃ fut ∈ s.futures[0]?, fut.handle = some (0, 0) ∧ fut.cancel = some (.sent 1 1) ∧
        ∃ m ∈ s.workers[1]?, ∃ entry ∈ m.loop.ctx.pushed, entry.key = 1 := by
    decide
  rw [← List.append_nil (_ ++ received 1)] at h
  obtain ⟨target, -, hown, -⟩ := h.of_run hs 0 fut 1 1 m hf hcancel hm entry hentry hkey
  cases hhandle.symm.trans hown

end Pool

end ClAsync
