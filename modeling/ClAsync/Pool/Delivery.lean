/-
# From a call to the worker

What the workers have been sent is what the calls have sent: every operation
assigned to a worker is that of a call, under the key the call has drawn, and
no worker is sent a key twice.

Key definitions: `IoOperationFuture.Keeps`, `LoopStep`, `Delivered`.
Key theorems: `future_step`, what a step leaves of a future; `loop_cases`,
what it does to the loop of a worker; and `delivered_step`.
-/
import ClAsync.Pool.Keys
import ClAsync.Worker.Submissions
import ClAsync.Lib.Runs

namespace ClAsync
namespace Pool

variable {τ κ φ ρ : Type}

/-! ### Futures -/

/-- A handle and a message that has been sent are for good. -/
structure IoOperationFuture.Keeps (fut fut' : IoOperationFuture τ φ ρ) : Prop where
  handle : ∀ loc, fut.handle = some loc → fut'.handle = some loc
  sent : ∀ role id key, fut.call role = some (.sent id key) → fut'.call role = some (.sent id key)

theorem IoOperationFuture.Keeps.refl (fut : IoOperationFuture τ φ ρ) : fut.Keeps fut :=
  ⟨fun _ h => h, fun _ _ _ h => h⟩

theorem IoOperationFuture.Shaped.handle_eq_none {fut : IoOperationFuture τ φ ρ} (h : fut.Shaped)
    (hphase : fut.phase = .created ∨ fut.phase.isPolling = true) : fut.handle = none := by
  unfold Shaped at h
  cases hp : fut.phase <;> rw [hp] at h hphase
  case created => exact h.1
  case polling => exact h.1
  all_goals rcases hphase with hphase | hphase <;> cases hphase

/-- Between its polls, the call of a future with a handle has sent its
message. -/
theorem IoOperationFuture.call_of_not_polling {fut : IoOperationFuture τ φ ρ}
    (h : fut.phase.isPolling = false) :
    fut.call .submit = fut.handle.map fun (id, key) => .sent id key := by
  simp only [IoOperationFuture.call]
  split
  · rename_i hp
    rw [hp] at h
    cases h
  · rfl

theorem IoOperationFuture.Shaped.call_of_handle {fut : IoOperationFuture τ φ ρ} (h : fut.Shaped) {id : ℕ}
    {key : Key} (hhandle : fut.handle = some (id, key)) : fut.call .submit = some (.sent id key) := by
  have hphase : fut.phase.isPolling = false := by
    refine eq_false_of_ne_true fun hp => ?_
    cases hhandle.symm.trans (h.handle_eq_none (Or.inr hp))
  rw [IoOperationFuture.call_of_not_polling hphase, hhandle]
  rfl

theorem Dispatched.not_sent {nextId : ℕ} {workers workers' : List (Member τ κ φ)}
    {submission : Key → IoSubmission τ} {stage stage' : Stage}
    (h : Dispatched nextId workers submission stage workers' stage') (id : ℕ) (key : Key) :
    stage ≠ .sent id key := by
  cases h with
  | search _ _ hsent => exact hsent id key
  | probe | choose | draw | send => exact nofun

theorem IoOperationFuture.Shaped.keeps_start {fut fut' : IoOperationFuture τ φ ρ} (h : fut.Shaped)
    (hphase : fut.phase = .created) (hhandle : fut'.handle = fut.handle)
    (hcancel : fut'.cancel = fut.cancel) : fut.Keeps fut' := by
  refine ⟨fun loc hloc => hhandle.trans hloc, ?_⟩
  rintro (_ | _) id key hcall
  · rw [IoOperationFuture.call_of_not_polling (by rw [hphase]; rfl),
      h.handle_eq_none (Or.inl hphase)] at hcall
    cases hcall
  · exact hcancel.trans hcall

theorem IoOperationFuture.Shaped.keeps_advance {fut : IoOperationFuture τ φ ρ} {op : IoOperation τ}
    {stage : Stage} (h : fut.Shaped) (hphase : fut.phase = .polling (op, stage))
    (hsent : ∀ id key, stage ≠ .sent id key) (op' : IoOperation τ) (e : WorkerDispatchError τ)
    (stage' : Stage) : fut.Keeps (fut.advance op' e stage') := by
  constructor
  · intro loc hloc
    cases hloc.symm.trans (h.handle_eq_none (Or.inr (by rw [hphase]; rfl)))
  · rintro (_ | _) id key hcall
    · simp only [IoOperationFuture.call, hphase, Option.some.injEq] at hcall
      exact absurd hcall (hsent id key)
    · cases stage' <;> exact hcall

theorem IoOperationFuture.keeps_answer {fut : IoOperationFuture τ φ ρ} (hphase : fut.phase = .pending)
    (w : Waker) (result : Poll (Except (IoError τ φ) ρ)) : fut.Keeps (fut.answer w result) := by
  refine ⟨fun _ h => h, ?_⟩
  rintro (_ | _) id key hcall
  · rw [IoOperationFuture.call_of_not_polling (by rw [hphase]; rfl)] at hcall
    rw [IoOperationFuture.call_of_not_polling]
    · exact hcall
    · simp only [IoOperationFuture.answer]
      split <;> rfl
  · exact hcall

theorem IoOperationFuture.Shaped.keeps_drop {fut : IoOperationFuture τ φ ρ} (h : fut.Shaped)
    (hphase : fut.phase.canDrop = true) (n : ℕ) : fut.Keeps (fut.drop n) := by
  refine ⟨fun _ h => h, ?_⟩
  rintro (_ | _) id key hcall
  · rwa [IoOperationFuture.call_of_not_polling (Wakers.Phase.isPolling_of_canDrop hphase)] at hcall
  · have hne : fut.phase ≠ .dropped := fun hp => by
      rw [hp] at hphase
      cases hphase
    cases hcall.symm.trans (h.cancel_eq_none hne)

theorem IoOperationFuture.keeps_cancel {fut : IoOperationFuture τ φ ρ} {stage : Stage}
    (hcancel : fut.cancel = some stage) (hsent : ∀ id key, stage ≠ .sent id key) (stage' : Stage) :
    fut.Keeps { fut with cancel := some stage' } := by
  refine ⟨fun _ h => h, ?_⟩
  rintro (_ | _) id key hcall
  · exact hcall
  · exact absurd (Option.some.inj (hcancel.symm.trans hcall)) (hsent id key)

variable [CompletableOperation τ κ φ] [TryFromCompletion κ ρ]

theorem future_step {s s' : State τ κ φ ρ} {a : Act τ} (h : Step s a s')
    (hs : ∀ fut ∈ s.futures, fut.Shaped) {f : ℕ} {fut : IoOperationFuture τ φ ρ}
    (hf : s.futures[f]? = some fut) : ∃ fut', s'.futures[f]? = some fut' ∧ fut.Keeps fut' := by
  have hset : ∀ {f₀ : ℕ} {fut₀ fut₁ : IoOperationFuture τ φ ρ}, s.futures[f₀]? = some fut₀ →
      fut₀.Keeps fut₁ → ∃ fut', (s.futures.set f₀ fut₁)[f]? = some fut' ∧ fut.Keeps fut' :=
    fun hf₀ hkeeps => Wakers.getElem?_set_rel IoOperationFuture.Keeps.refl hf₀ hkeeps hf
  cases h with
  | create op =>
    refine ⟨fut, ?_, .refl fut⟩
    rw [List.getElem?_append_left (List.getElem?_eq_some_iff.mp hf).1, hf]
  | start f₀ w fut₀ op hf₀ hphase =>
    exact hset hf₀ ((hs fut₀ (List.mem_of_getElem? hf₀)).keeps_start hphase rfl rfl)
  | submit f₀ nextId workers fut₀ op stage stage' e hf₀ hphase hd =>
    exact hset hf₀ ((hs fut₀ (List.mem_of_getElem? hf₀)).keeps_advance hphase hd.not_sent op e stage')
  | poll f₀ w fut₀ v key m hf₀ hphase hhandle hm =>
    exact hset hf₀ (IoOperationFuture.keeps_answer hphase w _)
  | drop f₀ fut₀ hf₀ hphase =>
    exact hset hf₀ ((hs fut₀ (List.mem_of_getElem? hf₀)).keeps_drop hphase _)
  | cancel f₀ nextId workers fut₀ stage stage' v target hf₀ hcancel hhandle hd =>
    exact hset hf₀ (IoOperationFuture.keeps_cancel hcancel hd.not_sent stage')
  | worker v a m loop hm ha hloop => exact ⟨fut, hf, .refl fut⟩
  | tick nextId => exact ⟨fut, hf, .refl fut⟩

/-! ### Workers -/

omit [TryFromCompletion κ ρ] in
/-- To the loop of a worker, a step of a call is nothing, or its message. -/
theorem Dispatched.loop {nextId : ℕ} {workers workers' : List (Member τ κ φ)} {submission : Key → IoSubmission τ}
    {stage stage' : Stage} (h : Dispatched nextId workers submission stage workers' stage') {v : ℕ}
    {m' : Member τ κ φ} (hm' : workers'[v]? = some m') :
    ∃ m, workers[v]? = some m ∧ (m'.loop = m.loop ∨ ∃ key, stage = .drawn v key ∧
      stage' = .sent v key ∧ Worker.step m.loop (.send (.submitIo (submission key))) = some m'.loop) := by
  cases h with
  | probe => exact ⟨m', hm', Or.inl rfl⟩
  | search => exact ⟨m', hm', Or.inl rfl⟩
  | choose => exact ⟨m', hm', Or.inl rfl⟩
  | draw id m hm =>
    rcases Wakers.getElem?_set_cases hm' with ⟨rfl, rfl⟩ | ⟨-, hm'⟩
    · exact ⟨m, hm, Or.inl rfl⟩
    · exact ⟨m', hm', Or.inl rfl⟩
  | send id key m hm =>
    rcases Wakers.getElem?_set_cases hm' with ⟨rfl, rfl⟩ | ⟨-, hm'⟩
    · exact ⟨m, hm, Or.inr ⟨key, rfl, rfl, rfl⟩⟩
    · exact ⟨m', hm', Or.inl rfl⟩

/-- What the step `a` does to the loop of the worker `v`. -/
inductive LoopStep (s : State τ κ φ ρ) (a : Act τ) (s' : State τ κ φ ρ) (v : ℕ)
    (loop loop' : Worker.State τ κ φ) : Prop
  | same (hloop : loop' = loop)
  | inner (b : Worker.Act τ) (hb : b.isInner = true) (hstep : Worker.step loop b = some loop')
  | poll (f : ℕ) (w : Waker) (fut : IoOperationFuture τ φ ρ) (key : Key) (ha : a = .poll f w)
      (hf : s.futures[f]? = some fut) (hhandle : fut.handle = some (v, key))
      (hstep : Worker.step loop (.pollKey key w) = some loop')
  | send (f : ℕ) (role : Role) (fut fut' : IoOperationFuture τ φ ρ) (submission : IoSubmission τ)
      (ha : a = role.act f) (hf : s.futures[f]? = some fut)
      (hcall : fut.call role = some (.drawn v submission.key)) (hf' : s'.futures[f]? = some fut')
      (hcall' : fut'.call role = some (.sent v submission.key))
      (hsubmit : role = .submit → fut'.result = .pending ∧ submission.waker = some fut'.waker)
      (hcancel : role = .cancel → ∃ loc, fut'.handle = some loc ∧ submission.op = .cancelForget loc.2)
      (hstep : Worker.step loop (.send (.submitIo submission)) = some loop')

theorem loop_cases {s s' : State τ κ φ ρ} {a : Act τ} (h : Step s a s') {v : ℕ} {m' : Member τ κ φ}
    (hm' : s'.workers[v]? = some m') :
    ∃ m, s.workers[v]? = some m ∧ LoopStep s a s' v m.loop m'.loop := by
  cases h with
  | create op => exact ⟨m', hm', .same rfl⟩
  | start => exact ⟨m', hm', .same rfl⟩
  | drop => exact ⟨m', hm', .same rfl⟩
  | tick => exact ⟨m', hm', .same rfl⟩
  | submit f nextId workers fut op stage stage' e hf hphase hd =>
    obtain ⟨m, hm, hloop | ⟨key, rfl, rfl, hstep⟩⟩ := hd.loop hm'
    · exact ⟨m, hm, .same hloop⟩
    · refine ⟨m, hm, .send f .submit fut _ ⟨key, op, some fut.waker⟩ rfl hf ?_
        (List.getElem?_set_self (List.getElem?_eq_some_iff.mp hf).1) rfl (fun _ => ⟨rfl, rfl⟩)
        Role.noConfusion hstep⟩
      simp only [IoOperationFuture.call, hphase]
  | cancel f nextId workers fut stage stage' v₀ target hf hcancel hhandle hd =>
    obtain ⟨m, hm, hloop | ⟨key, rfl, rfl, hstep⟩⟩ := hd.loop hm'
    · exact ⟨m, hm, .same hloop⟩
    · exact ⟨m, hm, .send f .cancel fut _ ⟨key, .cancelForget target, none⟩ rfl hf hcancel
        (List.getElem?_set_self (List.getElem?_eq_some_iff.mp hf).1) rfl Role.noConfusion
        (fun _ => ⟨(v₀, target), hhandle, rfl⟩) hstep⟩
  | poll f w fut v₀ key m hf hphase hhandle hm =>
    rcases Wakers.getElem?_set_cases hm' with ⟨rfl, rfl⟩ | ⟨-, hm'⟩
    · exact ⟨m, hm, .poll f w fut key rfl hf hhandle rfl⟩
    · exact ⟨m', hm', .same rfl⟩
  | worker v₀ b m loop hm hb hloop =>
    rcases Wakers.getElem?_set_cases hm' with ⟨rfl, rfl⟩ | ⟨-, hm'⟩
    · exact ⟨m, hm, .inner b hb hloop⟩
    · exact ⟨m', hm', .same rfl⟩

/-! ### Delivery -/

/-- The message of the call of `f` in `role` carried the operation `entry` to
the worker `v`. A cancel is for the key of its future's handle. -/
def SentBy (s : State τ κ φ ρ) (v : ℕ) (entry : IoEntry τ) (f : ℕ) (role : Role) : Prop :=
  ∃ fut, s.futures[f]? = some fut ∧ fut.call role = some (.sent v entry.key) ∧
    (role = .cancel → ∃ loc, fut.handle = some loc ∧ entry.op = .cancelForget loc.2)

structure Delivered (s : State τ κ φ ρ) : Prop where
  ok : Ok s
  traffic : ∀ (v : ℕ) (m : Member τ κ φ), s.workers[v]? = some m → Traffic.Ok m.loop.ctx.traffic
  ordered : ∀ (v : ℕ) (m : Member τ κ φ), s.workers[v]? = some m → Worker.Ordered m.loop
  sent : ∀ (v : ℕ) (m : Member τ κ φ), s.workers[v]? = some m →
    ∀ entry ∈ m.loop.assigned, ∃ f role, SentBy s v entry f role

omit [CompletableOperation τ κ φ] [TryFromCompletion κ ρ] in
theorem delivered_init (n : ℕ) : Delivered (State.init n : State τ κ φ ρ) := by
  have hm : ∀ (v : ℕ) (m : Member τ κ φ), (State.init n : State τ κ φ ρ).workers[v]? = some m →
      m.loop = .init := by
    intro v m hm
    rw [List.eq_of_mem_replicate (List.mem_of_getElem? hm)]
  refine ⟨ok_init n, fun v m hv => ?_, fun v m hv => ?_, fun v m hv entry hentry => ?_⟩
  · rw [hm v m hv]
    exact Traffic.ok_init
  · rw [hm v m hv]
    exact Worker.ordered_init
  · rw [hm v m hv] at hentry
    cases hentry

theorem sentBy_step {s s' : State τ κ φ ρ} {a : Act τ} (h : Step s a s')
    (hs : ∀ fut ∈ s.futures, fut.Shaped) {v f : ℕ} {entry : IoEntry τ} {role : Role}
    (hsent : SentBy s v entry f role) : SentBy s' v entry f role := by
  obtain ⟨fut, hf, hcall, hcancel⟩ := hsent
  obtain ⟨fut', hf', hkeeps⟩ := future_step h hs hf
  refine ⟨fut', hf', hkeeps.sent role v entry.key hcall, fun hrole => ?_⟩
  obtain ⟨loc, hloc, hop⟩ := hcancel hrole
  exact ⟨loc, hkeeps.handle loc hloc, hop⟩

omit [CompletableOperation τ κ φ] [TryFromCompletion κ ρ] in
/-- A call that is about to send its message is none of those that have. -/
theorem Delivered.key_not_mem {s : State τ κ φ ρ} (hs : Delivered s) {v f : ℕ} {m : Member τ κ φ}
    {role : Role} {key : Key} (hm : s.workers[v]? = some m) (hcall : CallAt s f role (.drawn v key)) :
    key ∉ Worker.keys m.loop.assigned := by
  intro hmem
  obtain ⟨entry, hentry, rfl⟩ := List.mem_map.mp hmem
  obtain ⟨f', role', fut', hf', hcall', -⟩ := hs.sent v m hm entry hentry
  obtain ⟨rfl, rfl⟩ := hs.ok.distinct f f' role role' _ _ _ hcall ⟨fut', hf', hcall'⟩ rfl rfl
  obtain ⟨fut, hf, hcall⟩ := hcall
  cases hf.symm.trans hf'
  cases hcall.symm.trans hcall'

omit [TryFromCompletion κ ρ] in
/-- To the loop of a worker a step is one step of its own, or none, and sends
it no submission but that of a call that has just drawn its key. -/
theorem LoopStep.worker {s s' : State τ κ φ ρ} {a : Act τ} {v : ℕ} {loop loop' : Worker.State τ κ φ}
    (h : LoopStep s a s' v loop loop') :
    loop' = loop ∨ ∃ b, Worker.step loop b = some loop' ∧ ∀ submission, b = .send (.submitIo submission) →
      ∃ f role, CallAt s f role (.drawn v submission.key) ∧ SentBy s' v submission.entry f role := by
  cases h with
  | same hloop => exact Or.inl hloop
  | inner b hb hstep =>
    refine Or.inr ⟨b, hstep, ?_⟩
    rintro submission rfl
    cases hb
  | poll _ _ _ _ _ _ _ hstep => exact Or.inr ⟨_, hstep, fun _ => nofun⟩
  | send f role fut fut' submission _ hf hcall hf' hcall' _ hcancel hstep =>
    refine Or.inr ⟨_, hstep, ?_⟩
    rintro submission' hact
    cases hact
    exact ⟨f, role, ⟨fut, hf, hcall⟩, fut', hf', hcall', hcancel⟩

theorem delivered_step {s s' : State τ κ φ ρ} {a : Act τ} (h : Step s a s') (hs : Delivered s)
    (hdraw : Draws s a) : Delivered s' := by
  refine ⟨ok_step h hs.ok hdraw, fun v m' hm' => ?_, fun v m' hm' => ?_, fun v m' hm' entry hentry => ?_⟩
  · obtain ⟨m, hm, hloop⟩ := loop_cases h hm'
    rcases hloop.worker with hloop | ⟨b, hstep, -⟩
    · rw [hloop]
      exact hs.traffic v m hm
    · exact Worker.ok_step (hs.traffic v m hm) hstep
  · obtain ⟨m, hm, hloop⟩ := loop_cases h hm'
    rcases hloop.worker with hloop | ⟨b, hstep, hsend⟩
    · rw [hloop]
      exact hs.ordered v m hm
    · refine Worker.ordered_step (Worker.step_passes hstep) (hs.ordered v m hm) fun submission hb => ?_
      obtain ⟨f, role, hcall, -⟩ := hsend submission hb
      exact hs.key_not_mem hm hcall
  · obtain ⟨m, hm, hloop⟩ := loop_cases h hm'
    have hkept : entry ∈ m.loop.assigned → ∃ f role, SentBy s' v entry f role := by
      intro hmem
      obtain ⟨f, role, hsent⟩ := hs.sent v m hm entry hmem
      exact ⟨f, role, sentBy_step h hs.ok.shaped hsent⟩
    rcases hloop.worker with hloop | ⟨b, hstep, hsend⟩
    · rw [hloop] at hentry
      exact hkept hentry
    · rcases (Worker.step_passes hstep).assigned with hp | ⟨submission, hb, hp⟩
      · exact hkept (hp.mem_iff.mp hentry)
      · rcases List.mem_cons.mp (hp.mem_iff.mp hentry) with rfl | hentry
        · obtain ⟨f, role, -, hsent⟩ := hsend submission hb
          exact ⟨f, role, hsent⟩
        · exact hkept hentry

end Pool

end ClAsync
