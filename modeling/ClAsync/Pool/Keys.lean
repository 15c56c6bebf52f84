/-
# The keys of a pool

Every future makes at most two calls of `submit_io_operation`, one with its
first poll and one with its drop. What a call has drawn, a worker and a key,
identifies it: as long as no `KeyGenerator` has given all its keys, no two
calls have the same.

Key definitions: `Role`, `IoOperationFuture.call`, `Ok`.
Key theorems: `call_cases`, where a call of the new state comes from, and
`ok_step`.
-/
import ClAsync.Pool.Dispatch

namespace ClAsync
namespace Pool

/-- The two calls of a future. -/
inductive Role
  | submit
  | cancel
  deriving DecidableEq, Repr

/-- The action that makes the next step of the call. -/
def Role.act {τ : Type} (f : ℕ) : Role → Act τ
  | submit => .submit f
  | cancel => .cancel f

/-- The call the action makes a step of. -/
def Act.call {τ : Type} : Act τ → Option (ℕ × Role)
  | submit f => some (f, .submit)
  | cancel f => some (f, .cancel)
  | _ => none

variable {τ κ φ ρ : Type}

/-- How far the call is. A future with a handle has sent its operation. -/
def IoOperationFuture.call (fut : IoOperationFuture τ φ ρ) : Role → Option Stage
  | .submit =>
    match fut.phase with
    | .polling (_, stage) => some stage
    | _ => fut.handle.map fun (id, key) => .sent id key
  | .cancel => fut.cancel

/-- A future has no handle before its first poll ends, and makes no cancel
before its drop or without a handle. -/
def IoOperationFuture.Shaped (fut : IoOperationFuture τ φ ρ) : Prop :=
  match fut.phase with
  | .created | .polling _ => fut.handle = none ∧ fut.cancel = none
  | .pending | .ready => fut.cancel = none
  | .dropped => fut.handle = none → fut.cancel = none

theorem IoOperationFuture.Shaped.cancel_eq_none {fut : IoOperationFuture τ φ ρ} (h : fut.Shaped)
    (hphase : fut.phase ≠ .dropped) : fut.cancel = none := by
  unfold Shaped at h
  cases hp : fut.phase <;> rw [hp] at h hphase
  case dropped => exact absurd rfl hphase
  case pending => exact h
  case ready => exact h
  case created => exact h.2
  case polling => exact h.2

theorem IoOperationFuture.Shaped.advance {fut : IoOperationFuture τ φ ρ} {op : IoOperation τ}
    {stage : Stage} (h : fut.Shaped) (hphase : fut.phase = .polling (op, stage)) (op' : IoOperation τ)
    (e : WorkerDispatchError τ) (stage' : Stage) : (fut.advance op' e stage').Shaped := by
  simp only [Shaped, hphase] at h
  cases stage' with
  | sent id key => exact h.2
  | failed => exact h.2
  | _ => exact h

/-- The call of an advancing first poll is where it has got to. -/
theorem IoOperationFuture.Shaped.call_advance {fut : IoOperationFuture τ φ ρ} {op : IoOperation τ}
    {stage : Stage} (h : fut.Shaped) (hphase : fut.phase = .polling (op, stage)) (op' : IoOperation τ)
    (e : WorkerDispatchError τ) (stage' : Stage) :
    (fut.advance op' e stage').call .submit = if stage' = .failed then none else some stage' := by
  simp only [Shaped, hphase] at h
  cases stage' with
  | failed => simp [IoOperationFuture.advance, IoOperationFuture.call, h.1]
  | _ => rfl

/-- The call of the future `f` in `role` is at `stage`. -/
def CallAt (s : State τ κ φ ρ) (f : ℕ) (role : Role) (stage : Stage) : Prop :=
  ∃ fut, s.futures[f]? = some fut ∧ fut.call role = some stage

/-- Replacing one worker by one whose generator is not behind leaves no
generator behind. -/
theorem generator_set {workers : List (Member τ κ φ)} {id v : ℕ} {m m' m₀ : Member τ κ φ}
    (hm : workers[id]? = some m) (hle : m.generator ≤ m'.generator) (hv : workers[v]? = some m₀) :
    ∃ m₁, (workers.set id m')[v]? = some m₁ ∧ m₀.generator ≤ m₁.generator :=
  Wakers.getElem?_set_rel (R := fun m m' => m.generator ≤ m'.generator) (fun _ => Nat.le_refl _) hm hle hv

theorem Dispatched.generator {nextId : ℕ} {workers workers' : List (Member τ κ φ)}
    {submission : Key → IoSubmission τ} {stage stage' : Stage}
    (h : Dispatched nextId workers submission stage workers' stage') {v : ℕ} {m : Member τ κ φ}
    (hv : workers[v]? = some m) : ∃ m', workers'[v]? = some m' ∧ m.generator ≤ m'.generator := by
  cases h with
  | probe => exact ⟨m, hv, Nat.le_refl _⟩
  | search => exact ⟨m, hv, Nat.le_refl _⟩
  | choose => exact ⟨m, hv, Nat.le_refl _⟩
  | draw id m₀ hm => exact generator_set hm (Nat.le_succ _) hv
  | send id key m₀ hm => exact generator_set hm (Nat.le_refl _) hv

variable [CompletableOperation τ κ φ] [TryFromCompletion κ ρ]

theorem generator_step {s s' : State τ κ φ ρ} {a : Act τ} (h : Step s a s') {v : ℕ}
    {m : Member τ κ φ} (hv : s.workers[v]? = some m) :
    ∃ m', s'.workers[v]? = some m' ∧ m.generator ≤ m'.generator := by
  cases h with
  | submit _ _ _ _ _ _ _ _ _ _ hd => exact hd.generator hv
  | cancel _ _ _ _ _ _ _ _ _ _ _ hd => exact hd.generator hv
  | poll _ _ _ _ _ m₀ _ _ _ hm => exact generator_set hm (Nat.le_refl _) hv
  | worker v₀ _ m₀ _ hm => exact generator_set hm (Nat.le_refl _) hv
  | create => exact ⟨m, hv, Nat.le_refl _⟩
  | start => exact ⟨m, hv, Nat.le_refl _⟩
  | drop => exact ⟨m, hv, Nat.le_refl _⟩
  | tick => exact ⟨m, hv, Nat.le_refl _⟩

theorem shaped_step {s s' : State τ κ φ ρ} {a : Act τ} (h : Step s a s')
    (hs : ∀ fut ∈ s.futures, fut.Shaped) : ∀ fut ∈ s'.futures, fut.Shaped := by
  cases h with
  | create op =>
    intro fut hfut
    rcases List.mem_append.mp hfut with hfut | hfut
    · exact hs fut hfut
    · rw [List.mem_singleton.mp hfut]
      exact ⟨rfl, rfl⟩
  | start f w fut op hf hphase =>
    refine Wakers.forall_mem_set hs ?_
    have hshaped := hs fut (List.mem_of_getElem? hf)
    simp only [IoOperationFuture.Shaped, hphase] at hshaped
    exact hshaped
  | submit f nextId workers fut op stage stage' e hf hphase hd =>
    exact Wakers.forall_mem_set hs ((hs fut (List.mem_of_getElem? hf)).advance hphase op e stage')
  | poll f w fut v key m hf hphase hhandle hm =>
    refine Wakers.forall_mem_set hs ?_
    have hnone := (hs fut (List.mem_of_getElem? hf)).cancel_eq_none (by rw [hphase]; exact nofun)
    simp only [IoOperationFuture.Shaped, IoOperationFuture.answer]
    generalize Poll.isPending _ = b
    cases b <;> exact hnone
  | drop f fut hf hphase =>
    refine Wakers.forall_mem_set hs fun (hnone : fut.handle = none) => ?_
    simp only [IoOperationFuture.drop, hnone, Option.map_none]
  | cancel f nextId workers fut stage stage' v target hf hcancel hhandle hd =>
    refine Wakers.forall_mem_set hs ?_
    have hdropped : fut.phase = .dropped := by
      by_contra hne
      cases hcancel.symm.trans ((hs fut (List.mem_of_getElem? hf)).cancel_eq_none hne)
    simp only [IoOperationFuture.Shaped, hdropped, hhandle]
    exact nofun
  | worker v a m loop hm ha hloop => exact hs
  | tick nextId => exact hs

/-- Where a call of the new state comes from: it was there before, or it has
just begun, or this step took it a stage further. -/
theorem call_cases {s s' : State τ κ φ ρ} {a : Act τ} (h : Step s a s')
    (hs : ∀ fut ∈ s.futures, fut.Shaped) {f : ℕ} {fut' : IoOperationFuture τ φ ρ} {role : Role}
    {stage' : Stage} (hf' : s'.futures[f]? = some fut') (hcall : fut'.call role = some stage') :
    (∃ fut, s.futures[f]? = some fut ∧ fut.call role = some stage' ∧
        (role = .cancel → fut'.handle = fut.handle)) ∨
      (∃ left, stage' = .probing left) ∨
      ∃ fut stage submission, s.futures[f]? = some fut ∧ fut.call role = some stage ∧
        a = role.act f ∧ Dispatched s.nextId s.workers submission stage s'.workers stage' ∧
        (role = .cancel → fut'.handle = fut.handle) := by
  cases h with
  | create op =>
    rcases Wakers.getElem?_append_cases hf' with rfl | hf
    · cases role <;> cases hcall
    · exact Or.inl ⟨fut', hf, hcall, fun _ => rfl⟩
  | start f₀ w fut op hf hphase =>
    rcases Wakers.getElem?_set_cases hf' with ⟨rfl, rfl⟩ | ⟨-, hf⟩
    · cases role with
      | submit =>
        cases hcall
        exact Or.inr (Or.inl ⟨_, rfl⟩)
      | cancel => exact Or.inl ⟨fut, hf, hcall, fun _ => rfl⟩
    · exact Or.inl ⟨fut', hf, hcall, fun _ => rfl⟩
  | submit f₀ nextId workers fut op stage stage'' e hf hphase hd =>
    rcases Wakers.getElem?_set_cases hf' with ⟨rfl, rfl⟩ | ⟨-, hf⟩
    · have hshaped := hs fut (List.mem_of_getElem? hf)
      cases role with
      | submit =>
        rw [hshaped.call_advance hphase] at hcall
        split at hcall <;> cases hcall
        refine Or.inr (Or.inr ⟨fut, stage, _, hf, ?_, rfl, hd, nofun⟩)
        simp only [IoOperationFuture.call, hphase]
      | cancel =>
        have hnone := (hshaped.advance hphase op e stage'').cancel_eq_none
          (by cases stage'' <;> exact nofun)
        cases hnone.symm.trans hcall
    · exact Or.inl ⟨fut', hf, hcall, fun _ => rfl⟩
  | poll f₀ w fut v key m hf hphase hhandle hm =>
    rcases Wakers.getElem?_set_cases hf' with ⟨rfl, rfl⟩ | ⟨-, hf⟩
    · refine Or.inl ⟨fut, hf, ?_, fun _ => rfl⟩
      cases role with
      | cancel => exact hcall
      | submit =>
        simp only [IoOperationFuture.call, IoOperationFuture.answer] at hcall
        simp only [IoOperationFuture.call, hphase]
        split at hcall
        · rename_i hpolling
          split at hpolling <;> cases hpolling
        · exact hcall
    · exact Or.inl ⟨fut', hf, hcall, fun _ => rfl⟩
  | drop f₀ fut hf hphase =>
    rcases Wakers.getElem?_set_cases hf' with ⟨rfl, rfl⟩ | ⟨-, hf⟩
    · cases role with
      | submit =>
        refine Or.inl ⟨fut, hf, ?_, nofun⟩
        cases hp : fut.phase <;> rw [hp] at hphase
        case polling => cases hphase
        all_goals
          simp only [IoOperationFuture.call, hp]
          exact hcall
      | cancel =>
        obtain ⟨-, -, rfl⟩ := Option.map_eq_some_iff.mp hcall
        exact Or.inr (Or.inl ⟨_, rfl⟩)
    · exact Or.inl ⟨fut', hf, hcall, fun _ => rfl⟩
  | cancel f₀ nextId workers fut stage stage'' v target hf hcancel hhandle hd =>
    rcases Wakers.getElem?_set_cases hf' with ⟨rfl, rfl⟩ | ⟨-, hf⟩
    · cases role with
      | submit => exact Or.inl ⟨fut, hf, hcall, nofun⟩
      | cancel =>
        cases hcall
        exact Or.inr (Or.inr ⟨fut, stage, _, hf, hcancel, rfl, hd, fun _ => rfl⟩)
    · exact Or.inl ⟨fut', hf, hcall, fun _ => rfl⟩
  | worker v a m loop hm ha hloop => exact Or.inl ⟨fut', hf', hcall, fun _ => rfl⟩
  | tick nextId => exact Or.inl ⟨fut', hf', hcall, fun _ => rfl⟩

/-- The worker whose generator the action draws a key from. -/
def drawnFrom (s : State τ κ φ ρ) (a : Act τ) : Option (Member τ κ φ) := do
  let (f, role) ← a.call
  let fut ← s.futures[f]?
  match ← fut.call role with
  | .chosen id => s.workers[id]?
  | _ => none

/-- A generator that gives a key has not given all its keys. -/
def Draws (s : State τ κ φ ρ) (a : Act τ) : Prop := ∀ m ∈ drawnFrom s a, m.generator < u64Count

instance (s : State τ κ φ ρ) (a : Act τ) : Decidable (Draws s a) :=
  inferInstanceAs (Decidable (∀ m ∈ drawnFrom s a, _))

omit [CompletableOperation τ κ φ] [TryFromCompletion κ ρ] in
theorem Draws.lt {s : State τ κ φ ρ} {f id : ℕ} {role : Role} {m : Member τ κ φ}
    (h : Draws s (role.act f)) (hcall : CallAt s f role (.chosen id)) (hm : s.workers[id]? = some m) :
    m.generator < u64Count := by
  obtain ⟨fut, hf, hc⟩ := hcall
  refine h m ?_
  have hact : (role.act f : Act τ).call = some (f, role) := by cases role <;> rfl
  simp only [drawnFrom, hact, hf, hc, hm, Option.bind_eq_bind, Option.bind_some, Option.mem_def]

/-- The calls have different keys, each of a key its generator has given. -/
structure Ok (s : State τ κ φ ρ) : Prop where
  shaped : ∀ fut ∈ s.futures, fut.Shaped
  bound : ∀ f role stage id key, CallAt s f role stage → stage.location = some (id, key) →
    ∃ m, s.workers[id]? = some m ∧ key < m.generator
  distinct : ∀ f f' role role' stage stage' loc, CallAt s f role stage → CallAt s f' role' stage' →
    stage.location = some loc → stage'.location = some loc → f = f' ∧ role = role'

omit [CompletableOperation τ κ φ] [TryFromCompletion κ ρ] in
theorem not_callAt_init {n f : ℕ} {role : Role} {stage : Stage} :
    ¬ CallAt (State.init n : State τ κ φ ρ) f role stage := by
  rintro ⟨fut, hf, -⟩
  rw [State.init, List.getElem?_nil] at hf
  cases hf

omit [CompletableOperation τ κ φ] [TryFromCompletion κ ρ] in
theorem ok_init (n : ℕ) : Ok (State.init n : State τ κ φ ρ) :=
  ⟨fun _ hfut => absurd hfut List.not_mem_nil, fun _ _ _ _ _ hcall => absurd hcall not_callAt_init,
    fun _ _ _ _ _ _ _ hcall => absurd hcall not_callAt_init⟩

/-- A location of the new state is one of the old, of the same call, or it is
drawn in this step. -/
theorem location_cases {s s' : State τ κ φ ρ} {a : Act τ} (h : Step s a s') (hs : Ok s) {f : ℕ}
    {role : Role} {stage' : Stage} {id : ℕ} {key : Key} (hcall : CallAt s' f role stage')
    (hloc : stage'.location = some (id, key)) :
    (∃ stage, CallAt s f role stage ∧ stage.location = some (id, key)) ∨
      ∃ m m', a = role.act f ∧ CallAt s f role (.chosen id) ∧ s.workers[id]? = some m ∧
        key = m.generator % u64Count ∧ s'.workers[id]? = some m' ∧ m'.generator = m.generator + 1 := by
  obtain ⟨fut', hf', hcall⟩ := hcall
  rcases call_cases h hs.shaped hf' hcall with
    ⟨fut, hf, hc, -⟩ | ⟨_, rfl⟩ | ⟨fut, stage, submission, hf, hc, ha, hd, -⟩
  · exact Or.inl ⟨stage', ⟨fut, hf, hc⟩, hloc⟩
  · cases hloc
  · generalize s'.workers = workers' at hd ⊢
    cases hd with
    | probe => cases hloc
    | search _ _ _ hstage' => rcases hstage' with rfl | ⟨_, rfl⟩ <;> cases hloc
    | choose => cases hloc
    | draw id₀ m hm =>
      obtain ⟨rfl, hkey⟩ := Prod.mk.inj (Option.some.inj hloc)
      exact Or.inr ⟨m, _, ha, ⟨fut, hf, hc⟩, hm, hkey.symm,
        List.getElem?_set_self (List.getElem?_eq_some_iff.mp hm).1, rfl⟩
    | send id₀ key₀ m hm =>
      cases hloc
      exact Or.inl ⟨.drawn id key, ⟨fut, hf, hc⟩, rfl⟩

theorem bound_step {s s' : State τ κ φ ρ} {a : Act τ} (h : Step s a s') (hs : Ok s) (f : ℕ)
    (role : Role) (stage' : Stage) (id : ℕ) (key : Key) (hcall : CallAt s' f role stage')
    (hloc : stage'.location = some (id, key)) :
    ∃ m, s'.workers[id]? = some m ∧ key < m.generator := by
  rcases location_cases h hs hcall hloc with ⟨stage, hc, hl⟩ | ⟨m, m', -, -, -, hkey, hm', hgen⟩
  · obtain ⟨m, hm, hlt⟩ := hs.bound f role stage id key hc hl
    obtain ⟨m', hm', hle⟩ := generator_step h hm
    exact ⟨m', hm', Nat.lt_of_lt_of_le hlt hle⟩
  · refine ⟨m', hm', ?_⟩
    rw [hkey, hgen]
    exact Nat.lt_succ_of_le (Nat.mod_le _ _)

omit [CompletableOperation τ κ φ] [TryFromCompletion κ ρ] in
/-- A key drawn now is none of those given before. -/
theorem fresh_of_draws {s : State τ κ φ ρ} {a : Act τ} (hs : Ok s) (hdraw : Draws s a) {f f' id : ℕ}
    {role role' : Role} {stage : Stage} {key : Key} {m : Member τ κ φ} (hc : CallAt s f role stage)
    (hl : stage.location = some (id, key)) (ha : a = role'.act f') (hc' : CallAt s f' role' (.chosen id))
    (hm : s.workers[id]? = some m) : key ≠ m.generator % u64Count := by
  intro hkey
  obtain ⟨m₀, hm₀, hlt⟩ := hs.bound f role stage id key hc hl
  cases hm.symm.trans hm₀
  subst ha
  have hmod := Nat.mod_eq_of_lt (hdraw.lt hc' hm)
  exact absurd (hkey.trans hmod) (Nat.ne_of_lt hlt)

theorem distinct_step {s s' : State τ κ φ ρ} {a : Act τ} (h : Step s a s') (hs : Ok s)
    (hdraw : Draws s a) (f f' : ℕ) (role role' : Role) (stage stage' : Stage) (loc : ℕ × Key)
    (hcall : CallAt s' f role stage) (hcall' : CallAt s' f' role' stage')
    (hloc : stage.location = some loc) (hloc' : stage'.location = some loc) : f = f' ∧ role = role' := by
  obtain ⟨id, key⟩ := loc
  rcases location_cases h hs hcall hloc with ⟨st, hc, hl⟩ | ⟨m, -, ha, hch, hm, hkey, -, -⟩
  · rcases location_cases h hs hcall' hloc' with ⟨st', hc', hl'⟩ | ⟨m', -, ha', hch', hm', hkey', -, -⟩
    · exact hs.distinct f f' role role' st st' _ hc hc' hl hl'
    · exact absurd hkey' (fresh_of_draws hs hdraw hc hl ha' hch' hm')
  · rcases location_cases h hs hcall' hloc' with ⟨st', hc', hl'⟩ | ⟨-, -, ha', -⟩
    · exact absurd hkey (fresh_of_draws hs hdraw hc' hl' ha hch hm)
    · have hact := ha.symm.trans ha'
      cases role <;> cases role' <;> cases hact <;> exact ⟨rfl, rfl⟩

theorem ok_step {s s' : State τ κ φ ρ} {a : Act τ} (h : Step s a s') (hs : Ok s) (hdraw : Draws s a) :
    Ok s' :=
  ⟨shaped_step h hs.shaped, bound_step h hs, distinct_step h hs hdraw⟩

end Pool

end ClAsync
