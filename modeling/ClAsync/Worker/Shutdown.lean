/-
# The wait of the shutdown loop

`blocking_submit` waits for as many completions as the completion queue has
slots. The kernel can post that many if every slot is that of an operation it
has not completed for good; a slot outlives the final completion of its
operation until somebody takes the result out, and if nobody can, for ever.

Key definitions: `outstanding`, `Log.retired`, `Satisfiable`, `Retired`.
Key theorems: `len_le_outstanding_iff`, for one state, and
`satisfiable_iff`, every run.
-/
import ClAsync.Worker.Loop
import ClAsync.Lib.Runs

namespace ClAsync

/-- The history of an ended operation that leaves no slot: a forgotten one was
polled after its completion, a single one returned its result, and a
persistent one returned its canceled result, which was not its first. -/
def Log.retired {κ φ : Type} (l : Log κ φ) : Bool :=
  match l.duration with
  | .zero => l.polled
  | .single => !l.returned.isEmpty
  | .persistent => l.posted ≠ [-ecanceled] ∧ l.returned.any isCanceled

namespace Traffic

variable {τ κ φ : Type}

/-- The operations, by key, whose final completion has not been consumed. -/
def outstanding (s : State τ κ φ) : Finset Key :=
  {k ∈ s.log.keys | (s.log.lookup k).any fun l => !l.ended}

theorem SlotOk.eq_none {slot : Option (IoCompletionSlot τ κ φ)}
    (hs : SlotOk (none : Option (Log κ φ)) slot) : slot = none := by
  cases hs
  rfl

/-- A slot is there until its operation has ended and is retired. -/
theorem SlotOk.isSome_iff {l : Log κ φ} {slot : Option (IoCompletionSlot τ κ φ)}
    (hs : SlotOk (some l) slot) : slot.isSome = true ↔ (l.ended = true → l.retired = false) := by
  unfold Log.retired
  cases hs with
  | notCompleted => simp [Log.new]
  | forgotten => simp
  | forgottenPolled => simp
  | single => simp
  | singlePolled => simp
  | running posted ended polled returned mcr w hstate hne hposted hresults =>
    have hr : ∀ r ∈ returned, isCanceled r = false := fun r hr => hresults r (List.mem_append_left _ hr)
    simpa using fun _ _ => hr
  | firstCanceled => simp
  | draining posted polled returned results mcr result w hstate hne hresult hinner hresults =>
    have hr : ∀ r ∈ returned, isCanceled r = false := fun r hr => hresults r (List.mem_append_left _ hr)
    simpa using fun _ => hr
  | drained posted polled returned result hne hresult => simp [hne, hresult]

theorem mem_outstanding {s : State τ κ φ} {k : Key} :
    k ∈ outstanding s ↔ ∃ l, s.log.lookup k = some l ∧ l.ended = false := by
  rw [outstanding, Finset.mem_filter, Finmap.mem_keys, ← Finmap.lookup_isSome]
  cases s.log.lookup k <;> simp

theorem outstanding_subset {s : State τ κ φ} (hs : Ok s) : outstanding s ⊆ s.queue.keys := by
  intro k hk
  obtain ⟨l, hl, hended⟩ := mem_outstanding.mp hk
  have hok := hs k
  rw [hl] at hok
  rw [IoCompletionQueue.mem_keys_iff, hok.isSome_iff, hended]
  exact nofun

/-- The queue has no more slots than there are outstanding operations if and
only if every ended operation is retired. -/
theorem len_le_outstanding_iff {s : State τ κ φ} (hs : Ok s) :
    s.queue.len ≤ (outstanding s).card ↔
      ∀ k, ∀ l ∈ s.log.lookup k, l.ended = true → l.retired = true := by
  have hsub : s.queue.len ≤ (outstanding s).card ↔ s.queue.keys ⊆ outstanding s :=
    ⟨fun h => (Finset.eq_of_subset_of_card_le (outstanding_subset hs) h).ge, Finset.card_le_card⟩
  rw [hsub]
  constructor
  · intro h k l hl hended
    by_contra hretired
    have hok := hs k
    rw [hl] at hok
    have hmem : k ∈ s.queue.keys := by
      rw [IoCompletionQueue.mem_keys_iff, hok.isSome_iff]
      exact fun _ => eq_false_of_ne_true hretired
    obtain ⟨l', hl', hended'⟩ := mem_outstanding.mp (h hmem)
    cases hl.symm.trans hl'
    cases hended.symm.trans hended'
  · intro h k hk
    rw [IoCompletionQueue.mem_keys_iff] at hk
    have hok := hs k
    cases hl : s.log.lookup k with
    | none =>
      rw [hl] at hok
      rw [hok.eq_none] at hk
      cases hk
    | some l =>
      rw [hl] at hok
      refine mem_outstanding.mpr ⟨l, hl, eq_false_of_ne_true fun hended => ?_⟩
      cases (h k l hl hended).symm.trans (hok.isSome_iff.mp hk hended)

end Traffic

namespace Worker

variable {τ κ φ : Type} [CompletableOperation τ κ φ]

/-- A call of `blocking_submit` waits for no more completions than there are
outstanding operations. -/
def Satisfiable (s : State τ κ φ) (a : Act τ) : Prop :=
  s.pc = .blockingSubmit → a = .next →
    s.ctx.traffic.queue.len ≤ (Traffic.outstanding s.ctx.traffic).card

/-- At a call of `blocking_submit`, every ended operation is retired. -/
def Retired (s : State τ κ φ) (a : Act τ) : Prop :=
  s.pc = .blockingSubmit → a = .next →
    ∀ k, ∀ l ∈ s.ctx.traffic.log.lookup k, l.ended = true → l.retired = true

/-- **In every run, the calls of `blocking_submit` wait for no more completions
than there are outstanding operations if and only if at each of them every
operation that has ended is retired.** -/
theorem satisfiable_iff (as : List (Act τ)) :
    Runs.Taken step Satisfiable (State.init : State τ κ φ) as ↔
      Runs.Taken step Retired State.init as := by
  refine Runs.taken_congr (I := fun s => Traffic.Ok s.ctx.traffic) ?_ ?_ as Traffic.ok_init
  · intro s a s' hs h
    exact ok_step hs h
  · intro s a hs
    unfold Satisfiable Retired
    rw [Traffic.len_le_outstanding_iff hs]

/-- A forgotten close completes; then the worker is told to shut down. -/
def closeThenShutdown : List (Act IoCloseData) :=
  [.send (.submitIo ⟨0, .closeForget, none⟩), .events true false false, .next, .next, .next, .next,
    .tasks false, .events false true false, .item 0 0 false, .next, .next, .next, .next, .tasks false,
    .send .shutdown, .events true false false, .next, .next, .next, .next, .tasks false, .next, .next]

theorem satisfiable_fails :
    ¬ Runs.Taken step Satisfiable (State.init : State IoCloseData Empty Empty) closeThenShutdown := by
  unfold Satisfiable
  decide

end Worker

end ClAsync
