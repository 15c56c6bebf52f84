/-
# Where the permits of a semaphore are

A permit is in the counter, in the hoard of a hungry future that has not
completed, or in a live `Permit`. `total` adds these up; it should stay the
number of permits the semaphore was made with.

It does not. A hungry future that collected permits in an earlier round
keeps its count when it returns `Ready` with a permit of the full weight,
and its `Drop` gives that count back a second time (`conservation_fails`).
`conservation_iff` says when the permits are conserved: exactly in the runs
in which no future with a count is dropped after it returned `Ready`, and
none completes with more collected than it wanted.
-/
import ClAsync.Sync.Semaphore
import Mathlib.Algebra.Order.BigOperators.Group.List
import Mathlib.Algebra.Order.Ring.Nat

namespace ClAsync
namespace Semaphore

open Wakers Runs

/-- The permits hoarded by a future that has not completed. -/
def hoard (f : SemaphoreFuture) : ℕ := if f.phase.isOpen then f.data.state.count else 0

/-- The weight of the live permit the future handed out. -/
def weight (f : SemaphoreFuture) : ℕ := f.data.permit.getD 0

def held (f : SemaphoreFuture) : ℕ := weight f + hoard f

/-- All the permits there are. -/
def total (s : State) : ℕ := s.permits + (s.futures.map held).sum

/-- The weight of all live permits. -/
def liveWeight (s : State) : ℕ := (s.futures.map weight).sum

/-- The permits are conserved, and no more than `P` are handed out. -/
def Conserved (P : ℕ) (s : State) : Prop := total s = P ∧ liveWeight s ≤ P

instance (P : ℕ) (s : State) : Decidable (Conserved P s) := inferInstanceAs (Decidable (_ ∧ _))

/-- What the `fetch_add` of the action adds to the counter. -/
def adds (s : State) : Act → ℕ
  | .dropFuture i => (s.futures[i]?.map fun f => if f.phase.canDrop then f.data.state.count else 0).getD 0
  | .dropPermit i => (s.futures[i]?.map weight).getD 0
  | _ => 0

/-- The `fetch_add` of the action does not wrap. -/
def NoWrap (s : State) (a : Act) : Prop := s.permits + adds s a < usizeCount

/-- The next step of the future's poll takes what the future needs. -/
def finishes (s : State) (f : SemaphoreFuture) : Bool :=
  match f.phase with
  | .polling (.exchangeNeeded _ read) => decide (s.permits = read)
  | _ => false

/-- The hoard changes hands once: a completing future has collected no more
than it wants, and a future dropped after it returned `Ready` has no count
left to give back. -/
def HandsOver (s : State) : Act → Prop
  | .step i => ∀ f ∈ s.futures[i]?, finishes s f = true → f.data.state.count ≤ f.data.desired
  | .dropFuture i => ∀ f ∈ s.futures[i]?, f.phase = .ready → f.data.state.count = 0
  | _ => True

instance (s : State) : ∀ a, Decidable (HandsOver s a)
  | .step _ | .dropFuture _ => by dsimp only [HandsOver]; infer_instance
  | .acquire _ | .acquireHungry _ | .poll _ _ | .dropPermit _ | .wakeNext _ => instDecidableTrue

/-! ### What a step does to the total -/

theorem hoard_of_open {f : SemaphoreFuture} (h : f.phase.isOpen = true) :
    hoard f = f.data.state.count := if_pos h

theorem held_new (n : ℕ) {st : SemaphoreFutureState} (h : st.count = 0) :
    held (.new ⟨n, st, none⟩) = 0 := by
  simp [held, weight, hoard, Future.new, h]

theorem held_wakeBy (w : ℕ) (f : SemaphoreFuture) : held (f.wakeBy w) = held f := by
  simp [held, weight, hoard]

theorem held_poll {f : SemaphoreFuture} (w : ℕ) (h : f.phase.canPoll = true) :
    held (f.poll w (.load false)) = held f := by
  have : hoard f = f.data.state.count := hoard_of_open (Phase.isOpen_of_canPoll h)
  simp only [held, this]
  rfl

/-- A step that does not complete the future leaves it with its count. -/
theorem held_advance {f : SemaphoreFuture} {st : SemaphoreFutureState} {next : Next}
    (h : next ≠ .ready) : held (advance f st next) = weight f + st.count := by
  cases next with
  | goto pc => rfl
  | ready => exact absurd rfl h
  | pending => rfl

theorem held_ready (f : SemaphoreFuture) (st : SemaphoreFutureState) :
    held (advance f st .ready) = f.data.desired := rfl

theorem held_dropped (f : SemaphoreFuture) : held f.drop = weight f := rfl

theorem total_addPermits (s : State) (n : ℕ) :
    total (addPermits s n) = (s.permits + n) % usizeCount + (s.futures.map held).sum := rfl

/-- A future's share is part of the total. -/
theorem held_le {s : State} {i : ℕ} {f : SemaphoreFuture} (hf : s.futures[i]? = some f) :
    s.permits + held f ≤ total s := by
  have := List.le_sum_of_mem (List.mem_map_of_mem (f := held) (List.mem_of_getElem? hf))
  unfold total
  omega

theorem liveWeight_le (s : State) : liveWeight s ≤ total s := by
  have : (s.futures.map weight).sum ≤ (s.futures.map held).sum :=
    List.sum_le_sum fun f _ => Nat.le_add_right _ _
  unfold liveWeight total
  omega

/-- Replacing a future by one that holds as much leaves the total. -/
theorem total_set {s : State} {i : ℕ} {f g : SemaphoreFuture} (hf : s.futures[i]? = some f)
    (h : held g = held f) : total { s with futures := s.futures.set i g } = total s := by
  have hset := sum_map_set held hf g
  unfold total
  simp only
  omega

theorem total_create (s : State) (n : ℕ) {st : SemaphoreFutureState} (h : st.count = 0) :
    total { s with futures := s.futures ++ [.new ⟨n, st, none⟩] } = total s := by
  simp [total, held_new n h]

theorem held_drop_of_count {f : SemaphoreFuture} (h : f.data.state.count = 0) :
    held f.drop = held f := by
  rw [held_dropped, held, hoard, h, ite_self, Nat.add_zero]

/-- A poll's atomic step moves permits between the counter and the future,
unless it completes a future that collected too much. -/
theorem total_poll_step {s : State} {i : ℕ} {f : SemaphoreFuture} {pc : Pc} {permits : ℕ}
    {st : SemaphoreFutureState} {next : Next} (hok : FutureOk f)
    (hlt : ∀ queued, pc = .exchangeAll queued s.permits → f.data.state.count + s.permits < usizeCount)
    (hf : s.futures[i]? = some f) (hp : f.phase = .polling pc)
    (hs : semFut f.data.desired f.data.state s.permits pc = (permits, st, next)) (queue : List ℕ) :
    total { s with permits := permits, wakerQueue := queue, futures := s.futures.set i (advance f st next) } +
        (if finishes s f then f.data.state.count - f.data.desired else 0) = total s := by
  have hopen : f.phase.isOpen = true := by rw [hp]; rfl
  have hnone : weight f = 0 := by simp [weight, hok.fresh hopen]
  have hheld : held f = f.data.state.count := by rw [held, hnone, hoard_of_open hopen, Nat.zero_add]
  have hset := sum_map_set held hf (advance f st next)
  rw [hheld] at hset
  unfold total
  rcases semFut_cases f.data.desired f.data.state s.permits pc with
    ⟨next', h, hne⟩ | ⟨queued, rfl, h⟩ | ⟨queued, rfl, h⟩
  · rw [h] at hs
    cases hs
    rw [held_advance hne, hnone, Nat.zero_add] at hset
    have hfin : finishes s f = false := by
      -- a successful first exchange would have completed the future
      simp only [finishes, hp]
      cases pc with
      | exchangeNeeded queued read =>
        by_cases hr : s.permits = read
        · simp only [semFut, if_pos hr, Prod.mk.injEq] at h
          exact absurd h.2.2.symm hne
        · simp [hr]
      | _ => rfl
    simp only [hfin, Bool.false_eq_true, if_false]
    omega
  · rw [h] at hs
    cases hs
    have hread := hok.read _ hp
    have hfin : finishes s f = true := by simp [finishes, hp]
    rw [held_ready] at hset
    simp only [PcOk, needed] at hread
    simp only [hfin, needed, if_true]
    omega
  · rw [h] at hs
    cases hs
    have hfin : finishes s f = false := by simp [finishes, hp]
    obtain ⟨⟨count, hst⟩, -⟩ := hok.read _ hp
    have hcol : (collect f.data.state s.permits).count = f.data.state.count + s.permits := by
      have hlt' := hlt queued rfl
      rw [hst] at hlt' ⊢
      exact Nat.mod_eq_of_lt hlt'
    have hne : queueOrWait queued ≠ .ready := by unfold queueOrWait; cases queued <;> simp
    rw [held_advance hne, hnone, hcol] at hset
    simp only [hfin, Bool.false_eq_true, if_false]
    omega

/-- A future dropped before it completes gives its hoard back. -/
theorem total_dropOpen {s : State} {i : ℕ} {f : SemaphoreFuture}
    (hlt : s.permits + f.data.state.count < usizeCount) (hf : s.futures[i]? = some f)
    (hopen : f.phase.isOpen = true) :
    total (addPermits { s with futures := s.futures.set i f.drop } f.data.state.count) = total s := by
  have hset := sum_map_set held hf f.drop
  rw [held_dropped, held, hoard_of_open hopen] at hset
  rw [total_addPermits, Nat.mod_eq_of_lt hlt]
  unfold total
  simp only
  omega

/-- A future dropped after it completed gives the same permits back again. -/
theorem total_dropReady {s : State} {i : ℕ} {f : SemaphoreFuture} (hf : s.futures[i]? = some f)
    (hr : f.phase = .ready) :
    total (addPermits { s with futures := s.futures.set i f.drop } f.data.state.count) + s.permits =
      total s + (s.permits + f.data.state.count) % usizeCount := by
  have hset := sum_map_set held hf f.drop
  have hh : held f = weight f := by simp [held, hoard, hr, Phase.isOpen]
  rw [held_dropped, hh] at hset
  rw [total_addPermits]
  unfold total
  simp only
  omega

/-- Dropping a live permit returns its weight to the counter. -/
theorem total_dropPermit {s : State} {i w : ℕ} {f : SemaphoreFuture} (hlt : s.permits + w < usizeCount)
    (hf : s.futures[i]? = some f) (hw : f.data.permit = some w) :
    total (addPermits { s with futures := s.futures.set i (dropPermit f) } w) = total s := by
  have hset := sum_map_set held hf (dropPermit f)
  have hf' : held f = w + hoard f := by simp [held, weight, hw]
  have hg' : held (dropPermit f) = hoard f := Nat.zero_add _
  rw [hf', hg'] at hset
  rw [total_addPermits, Nat.mod_eq_of_lt hlt]
  unfold total
  simp only
  omega

/-- The table the invariant of single futures speaks of, under a bound on the
permits. -/
def Wf (s : State) : Prop := ∀ f ∈ s.futures, FutureOk f

theorem wf_new (P : ℕ) : Wf (new P) := fun _ hf => by simp [new] at hf

theorem total_new (P : ℕ) : total (new P) = P := by simp [total, new]

/-- A step that hands the hoard over once conserves the permits; any other
step changes their number. -/
theorem total_step {s s' : State} {a : Act} (hwf : Wf s) (hlt : total s < usizeCount)
    (h : step s a = some s') : total s' = total s ↔ HandsOver s a := by
  cases step_cases h with
  | create n st a ha =>
    have h0 : st.count = 0 := by rcases ha with ⟨-, rfl⟩ | ⟨-, rfl⟩ <;> rfl
    have hok : HandsOver s a := by rcases ha with ⟨rfl, -⟩ | ⟨rfl, -⟩ <;> trivial
    exact iff_of_true (total_create s n h0) hok
  | poll i w f hf hp => exact iff_of_true (total_set hf (held_poll w hp)) trivial
  | step i f pc permits st next hf hp hs =>
    have hfok := hwf f (List.mem_of_getElem? hf)
    have hlt' : f.data.state.count + s.permits < usizeCount := by
      have hle := held_le hf
      rw [held, hoard_of_open (by rw [hp]; rfl)] at hle
      omega
    have hstep := total_poll_step hfok (fun _ _ => hlt') hf hp hs (pushed f.waker s.wakerQueue pc)
    have hok : HandsOver s (.step i) ↔ (finishes s f = true → f.data.state.count ≤ f.data.desired) := by
      simp [HandsOver, hf]
    rw [hok]
    by_cases hfin : finishes s f = true
    · rw [if_pos hfin] at hstep
      simp only [hfin, true_imp_iff]
      omega
    · rw [if_neg hfin] at hstep
      exact iff_of_true (by omega) fun h => absurd h hfin
  | dropEmpty i f hf hp hc =>
    have hok : HandsOver s (.dropFuture i) := by simp [HandsOver, hf, hc]
    exact iff_of_true (total_set hf (held_drop_of_count hc)) hok
  | dropHoard i f hf hp hc =>
    have hok : HandsOver s (.dropFuture i) ↔ f.phase ≠ .ready := by
      simp only [HandsOver, hf, Option.mem_def, Option.some.injEq, forall_eq']
      exact ⟨fun h hr => absurd (h hr) (by omega), fun h hr => absurd hr h⟩
    rw [hok]
    have hle := held_le hf
    by_cases hr : f.phase = .ready
    · -- the count is returned although the permit has it
      have hc' := (hwf f (List.mem_of_getElem? hf)).bounded
      have hne : (s.permits + f.data.state.count) % usizeCount ≠ s.permits := by
        rcases Nat.lt_or_ge (s.permits + f.data.state.count) usizeCount with hlt' | hge
        · rw [Nat.mod_eq_of_lt hlt']
          omega
        · rw [Nat.mod_eq_sub_mod hge, Nat.mod_eq_of_lt (by omega)]
          omega
      have hstep := total_dropReady hf hr
      exact iff_of_false (by omega) fun h => h hr
    · have hopen := Phase.isOpen_of_canDrop hp hr
      rw [held, hoard_of_open hopen] at hle
      exact iff_of_true (total_dropOpen (by omega) hf hopen) hr
  | dropPermit i f w hf hw =>
    have hle := held_le hf
    have hw' : weight f = w := by simp [weight, hw]
    rw [held, hw'] at hle
    exact iff_of_true (total_dropPermit (by omega) hf hw) trivial
  | wakeNone => exact iff_of_true rfl trivial
  | wakeOne r left w =>
    refine iff_of_true ?_ trivial
    simp only [total, sum_map_wake held_wakeBy]

/-! ### Runs -/

/-- While the permits are conserved no `fetch_add` wraps. -/
theorem noWrap_of_handsOver {s s' : State} {a : Act} (hlt : total s < usizeCount) (hok : HandsOver s a)
    (h : step s a = some s') : NoWrap s a := by
  have h0 : s.permits < usizeCount := lt_of_le_of_lt (Nat.le_add_right _ _) hlt
  cases step_cases h with
  | create n st a ha => rcases ha with ⟨rfl, -⟩ | ⟨rfl, -⟩ <;> simpa [NoWrap, adds] using h0
  | poll => simpa [NoWrap, adds] using h0
  | step => simpa [NoWrap, adds] using h0
  | dropEmpty i f hf hp hc => simpa [NoWrap, adds, hf, hc] using h0
  | dropHoard i f hf hp hc =>
    have hle := held_le hf
    have hr : f.phase ≠ .ready := by
      simp only [HandsOver, hf, Option.mem_def, Option.some.injEq, forall_eq'] at hok
      exact fun hr => absurd (hok hr) (by omega)
    rw [held, hoard_of_open (Phase.isOpen_of_canDrop hp hr)] at hle
    simp only [NoWrap, adds, hf, Option.map_some, hp, if_true, Option.getD_some]
    omega
  | dropPermit i f w hf hw =>
    have hle := held_le hf
    simp only [held] at hle
    simp only [NoWrap, adds, hf, Option.map_some, Option.getD_some]
    omega
  | wakeNone => simpa [NoWrap, adds] using h0
  | wakeOne => simpa [NoWrap, adds] using h0

/-- The permits of the semaphore made with `P`, as its runs keep them. -/
def Kept (P : ℕ) (s : State) : Prop := Wf s ∧ total s = P

theorem kept_new (P : ℕ) : Kept P (new P) := ⟨wf_new P, total_new P⟩

theorem Kept.conserved {P : ℕ} {s : State} (h : Kept P s) : Conserved P s :=
  ⟨h.2, h.2 ▸ liveWeight_le s⟩

theorem Kept.step {P : ℕ} (hP : P < usizeCount) {s s' : State} {a : Act} (hs : Kept P s)
    (hok : HandsOver s a) (h : step s a = some s') : Kept P s' :=
  ⟨futureOk_step hs.1 h, ((total_step hs.1 (hs.2 ▸ hP) h).mpr hok).trans hs.2⟩

/-- **The permits are conserved, and no `fetch_add` wraps, in exactly the runs
whose steps all hand the hoards over once.** -/
theorem conservation_iff {P : ℕ} (hP : P < usizeCount) (as : List Act) :
    Along step (Conserved P) (new P) as ∧ Taken step NoWrap (new P) as ↔
      Taken step HandsOver (new P) as := by
  have hiff : Along step (Conserved P) (new P) as ↔ Taken step HandsOver (new P) as := by
    refine along_iff_taken (I := Wf) ?_ ?_ (wf_new P) (kept_new P).conserved
    · intro s a s' hwf hs hok h
      have hs' := Kept.step hP ⟨hwf, hs.1⟩ hok h
      exact ⟨hs'.1, hs'.conserved⟩
    · intro s a s' hwf hs hbad h hs'
      exact hbad ((total_step hwf (hs.1 ▸ hP) h).mp (hs'.1.trans hs.1.symm))
  rw [hiff]
  refine ⟨fun h => h.1, fun h => ⟨h, ?_⟩⟩
  refine taken_of_taken (I := Kept P) ?_ (kept_new P) h
  exact fun s a s' hs hok h => ⟨hs.step hP hok h, noWrap_of_handsOver (hs.2 ▸ hP) hok h⟩

/-- Two permits, one of them out. A hungry future that wants both collects
the other, waits, and gets the first when it is returned. -/
def twoRounds : List Act :=
  [.acquire 1, .poll 0 0, .step 0, .step 0, .acquireHungry 2, .poll 1 1, .step 1, .step 1, .step 1,
    .step 1, .dropPermit 0, .wakeNext 0, .poll 1 1, .step 1, .step 1]

/-- Two rounds conserve the permits as long as the future is not dropped. -/
theorem conservation_twoRounds :
    Along step (Conserved 2) (new 2) twoRounds ∧ Taken step NoWrap (new 2) twoRounds :=
  (conservation_iff (by decide) twoRounds).mpr (by decide)

/-- Dropping the completed future makes a third permit. -/
theorem conservation_fails : ¬ Along step (Conserved 2) (new 2) (twoRounds ++ [.dropFuture 1]) := by
  decide

end Semaphore
end ClAsync
