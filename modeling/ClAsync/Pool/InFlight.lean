/-
# Polls of an operation in flight

The first poll of a future sends its operation to a worker and leaves its
waker with the message. A later poll looks the operation up in the
completion queue, and takes it for lost when it is not there; it gets there
when the worker pushes it on the ring. A poll in between ends the future
with an error (`resolves_of_not_patient`); without such polls, every future
waits, with its waker in place, until its operation completes.

Key definitions: `Held`, `Awaiting`, `Patient`, `HandleStep`.
Key theorem: `awaiting_of_patient`.
-/
import ClAsync.Pool.Delivery

namespace ClAsync
namespace Pool

open Runs

variable {τ κ φ ρ : Type}

/-- Every future whose operation has been sent, until the first completion of
the operation is recorded: its latest poll returned `Pending`, and the waker
of that poll is with the operation. -/
def Held (s : State τ κ φ ρ) : Prop :=
  ∀ (f : ℕ) (fut : IoOperationFuture τ φ ρ) (v : ℕ) (key : Key), s.futures[f]? = some fut →
    fut.handle = some (v, key) → ∃ m, s.workers[v]? = some m ∧ (Worker.Completed m.loop key ∨
      fut.result = .pending ∧ Worker.InFlight m.loop key (some fut.waker))

/-- The same, and a completion of the operation wakes that waker. -/
def Awaiting [CompletableOperation τ κ φ] (s : State τ κ φ ρ) : Prop :=
  ∀ (f : ℕ) (fut : IoOperationFuture τ φ ρ) (v : ℕ) (key : Key), s.futures[f]? = some fut →
    fut.handle = some (v, key) → ∃ m, s.workers[v]? = some m ∧ (Worker.Completed m.loop key ∨
      fut.result = .pending ∧ Worker.InFlight m.loop key (some fut.waker) ∧
        ∀ resultCode more loop, Worker.step m.loop (.item key resultCode more) = some loop →
          (m.loop.ctx.traffic.queue.complete key resultCode).1 = some fut.waker)

/-- The worker and the key a later poll looks up. -/
def lookedUp (s : State τ κ φ ρ) : Act τ → Option (Member τ κ φ × Key)
  | .poll f _ => do
    let fut ← s.futures[f]?
    let (v, key) ← fut.handle
    let m ← s.workers[v]?
    some (m, key)
  | _ => none

/-- The operation of a future that is polled once more has been pushed on the
ring. -/
def Patient (s : State τ κ φ ρ) (a : Act τ) : Prop :=
  ∀ p ∈ lookedUp s a, p.2 ∈ Worker.keys p.1.loop.ctx.pushed

instance (s : State τ κ φ ρ) (a : Act τ) : Decidable (Patient s a) :=
  inferInstanceAs (Decidable (∀ p ∈ lookedUp s a, _))

theorem lookedUp_poll {s : State τ κ φ ρ} {f v : ℕ} {w : Waker} {key : Key}
    {fut : IoOperationFuture τ φ ρ} {m : Member τ κ φ} (hf : s.futures[f]? = some fut)
    (hhandle : fut.handle = some (v, key)) (hm : s.workers[v]? = some m) :
    lookedUp s (.poll f w) = some (m, key) := by
  simp only [lookedUp, hf, hhandle, hm, Option.bind_eq_bind, Option.bind_some]

variable [CompletableOperation τ κ φ] [TryFromCompletion κ ρ]

/-- Where the handle of a future of the new state comes from. -/
inductive HandleStep (s : State τ κ φ ρ) (a : Act τ) (s' : State τ κ φ ρ) (f : ℕ)
    (fut' : IoOperationFuture τ φ ρ) (v : ℕ) (key : Key) : Prop
  | kept (fut : IoOperationFuture τ φ ρ) (ha : ∀ w, a ≠ .poll f w) (hf : s.futures[f]? = some fut)
      (hhandle : fut.handle = some (v, key)) (hresult : fut'.result = fut.result)
      (hwaker : fut'.waker = fut.waker)
  | polled (fut : IoOperationFuture τ φ ρ) (w : Waker) (m m' : Member τ κ φ) (ha : a = .poll f w)
      (hf : s.futures[f]? = some fut) (hhandle : fut.handle = some (v, key))
      (hm : s.workers[v]? = some m) (hm' : s'.workers[v]? = some m')
      (hstep : Worker.step m.loop (.pollKey key w) = some m'.loop) (hwaker : fut'.waker = w)
      (hresult : fut'.result = IoOperationFuture.outcome (m.loop.ctx.traffic.poll key w).1)
  | sent (op : IoOperation τ) (m m' : Member τ κ φ) (hm' : s'.workers[v]? = some m')
      (hstep : Worker.step m.loop (.send (.submitIo ⟨key, op, some fut'.waker⟩)) = some m'.loop)
      (hresult : fut'.result = .pending)

theorem handle_cases {s s' : State τ κ φ ρ} {a : Act τ} (h : Step s a s')
    (hs : ∀ fut ∈ s.futures, fut.Shaped) {f v : ℕ} {key : Key} {fut' : IoOperationFuture τ φ ρ}
    (hf' : s'.futures[f]? = some fut') (hhandle' : fut'.handle = some (v, key)) :
    HandleStep s a s' f fut' v key := by
  cases h with
  | create op =>
    rcases Wakers.getElem?_append_cases hf' with rfl | hf
    · cases hhandle'
    · exact .kept fut' nofun hf hhandle' rfl rfl
  | start f₀ w fut op hf hphase =>
    rcases Wakers.getElem?_set_cases hf' with ⟨rfl, rfl⟩ | ⟨-, hf⟩
    · have hnone := (hs fut (List.mem_of_getElem? hf)).handle_eq_none (Or.inl hphase)
      cases hnone.symm.trans hhandle'
    · exact .kept fut' nofun hf hhandle' rfl rfl
  | submit f₀ nextId workers fut op stage stage' e hf hphase hd =>
    rcases Wakers.getElem?_set_cases hf' with ⟨rfl, rfl⟩ | ⟨-, hf⟩
    · have hnone := (hs fut (List.mem_of_getElem? hf)).handle_eq_none (Or.inr (by rw [hphase]; rfl))
      cases stage' with
      | sent id key₀ =>
        cases hhandle'
        cases hd with
        | search _ _ _ hstage' => rcases hstage' with h | ⟨_, h⟩ <;> cases h
        | send _ _ m hm =>
          exact .sent op m _ (List.getElem?_set_self (List.getElem?_eq_some_iff.mp hm).1) rfl rfl
      | _ => cases hnone.symm.trans hhandle'
    · exact .kept fut' nofun hf hhandle' rfl rfl
  | poll f₀ w fut v₀ key₀ m hf hphase hhandle hm =>
    rcases Wakers.getElem?_set_cases hf' with ⟨rfl, rfl⟩ | ⟨hne, hf⟩
    · cases hhandle.symm.trans hhandle'
      exact .polled fut w m _ rfl hf hhandle hm
        (List.getElem?_set_self (List.getElem?_eq_some_iff.mp hm).1) rfl rfl rfl
    · refine .kept fut' (fun w' ha => ?_) hf hhandle' rfl rfl
      cases ha
      exact hne rfl
  | drop f₀ fut hf hphase =>
    rcases Wakers.getElem?_set_cases hf' with ⟨rfl, rfl⟩ | ⟨-, hf⟩
    · exact .kept fut nofun hf hhandle' rfl rfl
    · exact .kept fut' nofun hf hhandle' rfl rfl
  | cancel f₀ nextId workers fut stage stage' v₀ target hf hcancel hhandle hd =>
    rcases Wakers.getElem?_set_cases hf' with ⟨rfl, rfl⟩ | ⟨-, hf⟩
    · exact .kept fut nofun hf hhandle' rfl rfl
    · exact .kept fut' nofun hf hhandle' rfl rfl
  | worker v₀ b m loop hm hb hloop => exact .kept fut' nofun hf' hhandle' rfl rfl
  | tick nextId => exact .kept fut' nofun hf' hhandle' rfl rfl

omit [TryFromCompletion κ ρ] in
/-- No other future polls the key of a handle. -/
theorem loop_kept {s s' : State τ κ φ ρ} {a : Act τ} {f v : ℕ} {key : Key}
    {fut : IoOperationFuture τ φ ρ} {loop loop' : Worker.State τ κ φ} (hs : Delivered s)
    (hf : s.futures[f]? = some fut) (hhandle : fut.handle = some (v, key)) (ha : ∀ w, a ≠ .poll f w)
    (hloop : LoopStep s a s' v loop loop') :
    loop' = loop ∨ ∃ b, Worker.step loop b = some loop' ∧ ∀ w, b ≠ .pollKey key w := by
  cases hloop with
  | same hloop => exact Or.inl hloop
  | inner b hb hstep =>
    refine Or.inr ⟨b, hstep, ?_⟩
    rintro w rfl
    cases hb
  | poll f₀ w fut₀ key₀ hact hf₀ hhandle₀ hstep =>
    refine Or.inr ⟨_, hstep, ?_⟩
    rintro w' hb
    cases hb
    have hcall : ∀ {f : ℕ} {fut : IoOperationFuture τ φ ρ}, s.futures[f]? = some fut →
        fut.handle = some (v, key) → CallAt s f .submit (.sent v key) := fun hf hhandle =>
      ⟨_, hf, (hs.ok.shaped _ (List.mem_of_getElem? hf)).call_of_handle hhandle⟩
    obtain ⟨rfl, -⟩ := hs.ok.distinct f₀ f _ _ _ _ _ (hcall hf₀ hhandle₀) (hcall hf hhandle) rfl rfl
    exact ha w hact
  | send f₀ role fut₀ fut₁ submission _ _ _ _ _ _ _ hstep => exact Or.inr ⟨_, hstep, fun _ => nofun⟩

theorem held_step {s s' : State τ κ φ ρ} {a : Act τ} (h : Step s a s') (hs : Delivered s)
    (hpatient : Patient s a) (hwait : Held s) : Held s' := by
  intro f fut' v key hf' hhandle'
  cases handle_cases h hs.ok.shaped hf' hhandle' with
  | kept fut ha hf hhandle hresult hwaker =>
    obtain ⟨m, hm, hin⟩ := hwait f fut v key hf hhandle
    obtain ⟨m', hm', -⟩ := generator_step h hm
    obtain ⟨m₀, hm₀, hloop⟩ := loop_cases h hm'
    cases hm.symm.trans hm₀
    refine ⟨m', hm', ?_⟩
    rw [hresult, hwaker]
    have hord := hs.ordered v m hm
    rcases loop_kept hs hf hhandle ha hloop with hloop | ⟨b, hstep, hb⟩
    · rwa [hloop]
    · rcases hin with hc | ⟨hpending, hin⟩
      · exact Or.inl (Worker.completed_step (Worker.step_passes hstep) hord hc)
      · rcases Worker.inFlight_step (Worker.step_passes hstep) hord hb hin with hin | hc
        · exact Or.inr ⟨hpending, hin⟩
        · exact Or.inl hc
  | polled fut w m m' ha hf hhandle hm hm' hstep hwaker hresult =>
    obtain ⟨m₀, hm₀, hin⟩ := hwait f fut v key hf hhandle
    cases hm.symm.trans hm₀
    refine ⟨m', hm', ?_⟩
    have hord := hs.ordered v m hm
    rcases hin with hc | ⟨-, hin⟩
    · exact Or.inl (Worker.completed_step (Worker.step_passes hstep) hord hc)
    · have hpushed := hpatient (m, key) (ha ▸ lookedUp_poll hf hhandle hm)
      obtain ⟨hpoll, hin⟩ := Worker.inFlight_poll hstep hord ((hord.logged key).mpr hpushed) hin
      rw [hresult, hwaker, hpoll]
      exact Or.inr ⟨rfl, hin⟩
  | sent op m m' hm' hstep hresult =>
    exact ⟨m', hm', Or.inr ⟨hresult, .pending _ (Worker.mem_pending_send hstep) rfl rfl⟩⟩

omit [TryFromCompletion κ ρ] in
theorem awaiting_of_held {s : State τ κ φ ρ} (hs : Delivered s) (hheld : Held s) : Awaiting s := by
  intro f fut v key hf hhandle
  obtain ⟨m, hm, hin⟩ := hheld f fut v key hf hhandle
  refine ⟨m, hm, hin.imp_right fun ⟨hresult, hin⟩ => ⟨hresult, hin, fun _ _ _ hstep => ?_⟩⟩
  exact Worker.inFlight_item hstep (hs.ordered v m hm) hin

/-- **In every run of a pool in which a future is polled once more only when
its operation has been pushed, and no generator runs out of keys, every poll
of an operation in flight returns `Pending` and leaves the waker that its
completion will wake.** -/
theorem awaiting_of_patient (n : ℕ) {as : List (Act τ)}
    (h : Taken step (fun s a => Draws s a ∧ Patient s a) (State.init n : State τ κ φ ρ) as) :
    Along step Awaiting (State.init n : State τ κ φ ρ) as := by
  have hinit : Held (State.init n : State τ κ φ ρ) := by
    intro f fut v key hf
    rw [State.init, List.getElem?_nil] at hf
    cases hf
  refine along_of_invariant (I := fun s => Delivered s ∧ Held s) ?_ ?_ ⟨delivered_init n, hinit⟩ h
  · intro s a s' hs hC h
    have hstep := step_cases h
    exact ⟨delivered_step hstep hs.1 hC.1, held_step hstep hs.1 hC.2 hs.2⟩
  · intro s hs
    exact awaiting_of_held hs.1 hs.2

/-- A poll of a future whose operation has been sent and not pushed ends it
with an error. -/
theorem resolves_of_not_patient {s s' : State τ κ φ ρ} {f : ℕ} {w : Waker}
    (h : step s (.poll f w) = some s') (hs : Delivered s) (hheld : Held s)
    (hpatient : ¬ Patient s (.poll f w)) :
    ∃ fut', s'.futures[f]? = some fut' ∧ fut'.result = .ready (.error (.processing
      (.unexpectedCompletionResult "Poll returned ready but no data was found"))) := by
  cases step_cases h with
  | poll _ _ fut v key m hf hphase hhandle hm =>
    refine ⟨_, List.getElem?_set_self (List.getElem?_eq_some_iff.mp hf).1, ?_⟩
    have hord := hs.ordered v m hm
    have hpushed : ¬ (m.loop.ctx.traffic.log.lookup key).isSome = true := by
      rw [hord.logged]
      intro hmem
      refine hpatient fun p hp => ?_
      rw [lookedUp_poll hf hhandle hm] at hp
      cases hp
      exact hmem
    obtain ⟨m₀, hm₀, ⟨l, hl, -⟩ | ⟨-, hin⟩⟩ := hheld f fut v key hf hhandle
    · cases hm.symm.trans hm₀
      rw [hl] at hpushed
      exact absurd rfl hpushed
    · cases hm.symm.trans hm₀
      cases hin with
      | pending submission hmem hkey _ =>
        have hnone := Worker.poll_of_pending hord (hs.traffic v m hm) hmem w
        rw [hkey] at hnone
        simp only [IoOperationFuture.answer, hnone]
        rfl
      | slot _ hlog _ => exact absurd hlog hpushed

/-! ### Two runs of one worker -/

/-- A future is created and polled for the first time. -/
def firstPoll : List (Act IoCloseData) :=
  [.create ⟨.data .mk, .single⟩, .start 0 0, .submit 0, .submit 0, .submit 0, .submit 0]

/-- The worker takes the message, submits and goes back to `poll_events`. -/
def iteration : List (Act IoCloseData) :=
  [.worker 0 (.events true false false), .worker 0 .next, .worker 0 .next, .worker 0 .next,
    .worker 0 .next, .worker 0 (.tasks false)]

/-- The future is polled twice before the kernel completes its operation, and
once after. -/
theorem awaiting_polledLater :
    let as := firstPoll ++ iteration ++ [.poll 0 5, .poll 0 7, .worker 0 (.events false true false),
      .worker 0 (.item 0 0 false), .poll 0 7]
    (run step (State.init 1 : State IoCloseData Empty Empty Unit) as).isSome = true ∧
      Along step Awaiting (State.init 1 : State IoCloseData Empty Empty Unit) as :=
  ⟨by decide, awaiting_of_patient 1 (by decide)⟩

/-- The future is polled again before the worker takes the message. -/
theorem awaiting_fails :
    ¬ Along step Awaiting (State.init 1 : State IoCloseData Empty Empty Unit)
      (firstPoll ++ [.poll 0 5]) := by
  intro h
  obtain ⟨s, hs, ⟨fut, hf, hhandle, hresult⟩, hlog⟩ :
      ∃ s ∈ run step (State.init 1 : State IoCloseData Empty Empty Unit) (firstPoll ++ [.poll 0 5]),
      (∃ fut ∈ s.futures[0]?, fut.handle = some (0, 0) ∧ fut.result.isPending = false) ∧
        ∀ m ∈ s.workers[0]?, m.loop.ctx.traffic.log.lookup 0 = none := by
    decide
  rw [← List.append_nil (_ ++ [_])] at h
  obtain ⟨m, hm, ⟨l, hl, -⟩ | ⟨hpending, -⟩⟩ := h.of_run hs 0 fut 0 0 hf hhandle
  · cases (hlog m hm).symm.trans hl
  · rw [hpending] at hresult
    cases hresult

end Pool

end ClAsync
