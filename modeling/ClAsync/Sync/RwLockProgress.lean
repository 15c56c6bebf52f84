/-
# When the reader-writer lock gets stuck

At rest, with no guard alive, no poll and no drop under way and every
delivered wake-up answered by a poll, no call of the lock should be pending.
Two writers that each collected a share break this: neither gives its share
back, and nobody is left to wake them (`noDeadlock_fails`).

`noDeadlock_of_careful` shows what has to go wrong for a call to be stranded:
the writers' hoards swallow all the permits, the counter wraps, or, while a
call waits unwoken, a wake-up is spent on a call that is finished or dropped.
What carries the proof is
that while some call is asleep, something is going to look at the counter
again (`Settled`): a guard is alive, an `add_permits` call has wakers left to
pop, a woken call is still to be polled, or a poll is under way whose next
exchange will not fail.
-/
import ClAsync.Sync.RwLock
import ClAsync.Sync.WakerQueue

namespace ClAsync

open Wakers Runs

namespace Semaphore

/-! ### Calls that are stuck and calls that are not -/

/-- The future sleeps, or is about to, and nobody has woken it. -/
def Stuck (permits : ℕ) (f : SemaphoreFuture) : Prop :=
  f.woken = false ∧ (f.phase = .pending ∨ doomed permits f = true)

/-- The future will look at the counter again. -/
def Moving (permits : ℕ) (f : SemaphoreFuture) : Prop :=
  f.Roused ∨ (f.phase.isPolling = true ∧ doomed permits f = false)

instance (permits : ℕ) (f : SemaphoreFuture) : Decidable (Stuck permits f) :=
  inferInstanceAs (Decidable (_ ∧ _))

instance (permits : ℕ) (f : SemaphoreFuture) : Decidable (Moving permits f) :=
  inferInstanceAs (Decidable (_ ∨ _))

/-- If a future is stuck, a permit is alive, a waker is still to be popped
(`pops`), or some future will look at the counter again. -/
def Settled (permits : ℕ) (fs : List SemaphoreFuture) (pops : ℕ) : Prop :=
  (∃ f ∈ fs, Stuck permits f) →
    (∃ f ∈ fs, f.data.permit.isSome = true) ∨ 0 < pops ∨ ∃ f ∈ fs, Moving permits f

instance (permits : ℕ) (fs : List SemaphoreFuture) (pops : ℕ) : Decidable (Settled permits fs pops) :=
  inferInstanceAs (Decidable (_ → _))

section Settled

variable {permits pops i : ℕ} {fs : List SemaphoreFuture} {f g : SemaphoreFuture}

theorem settled_of_alive (hf : f ∈ fs) (h : f.data.permit.isSome = true) : Settled permits fs pops :=
  fun _ => Or.inl ⟨f, hf, h⟩

theorem settled_of_pops (h : 0 < pops) : Settled permits fs pops := fun _ => Or.inr (Or.inl h)

theorem settled_of_moving (hf : f ∈ fs) (h : Moving permits f) : Settled permits fs pops :=
  fun _ => Or.inr (Or.inr ⟨f, hf, h⟩)

/-- Replacing `f` by a `g` that is stuck only if `f` was, and keeps a permit
and a move of `f`, keeps the table settled. -/
theorem Settled.set (h : Settled permits fs pops) (hf : fs[i]? = some f)
    (hstuck : Stuck permits g → Stuck permits f)
    (halive : f.data.permit.isSome = true → g.data.permit.isSome = true)
    (hmove : Moving permits f → Moving permits g) : Settled permits (fs.set i g) pops := by
  rintro ⟨x, hx, hxs⟩
  have hold : ∃ x ∈ fs, Stuck permits x := by
    rcases List.mem_or_eq_of_mem_set hx with hx | rfl
    · exact ⟨x, hx, hxs⟩
    · exact ⟨f, List.mem_of_getElem? hf, hstuck hxs⟩
  have hkeep : ∀ P : SemaphoreFuture → Prop, (P f → P g) → (∃ y ∈ fs, P y) → ∃ y ∈ fs.set i g, P y := by
    rintro P hP ⟨y, hy, hyP⟩
    rcases mem_set_or_eq (y := g) hf hy with rfl | hy
    · exact ⟨g, mem_set_self hf, hP hyP⟩
    · exact ⟨y, hy, hyP⟩
  exact (h hold).imp (hkeep _ halive) (Or.imp_right (hkeep _ hmove))

theorem doomed_wakeBy (w : ℕ) (f : SemaphoreFuture) : doomed permits (f.wakeBy w) = doomed permits f := by
  simp [doomed]

/-- A wake-up leaves nobody stuck who was not. -/
theorem stuck_of_wakeBy {w : ℕ} (h : Stuck permits (f.wakeBy w)) : Stuck permits f := by
  refine ⟨?_, by simpa [doomed_wakeBy] using h.2⟩
  have hw := h.1
  rw [Future.wakeBy_woken, Bool.or_eq_false_iff] at hw
  exact hw.1

/-- A stuck future waits. -/
theorem waits_of_stuck (h : Stuck permits f) : f.Waits := by
  refine ⟨?_, h.1⟩
  rcases h.2 with h | h
  · rw [h]
    rfl
  · unfold doomed at h
    split at h
    · rename_i pc hp
      rw [hp]
      rfl
    · cases h

end Settled

/-- What an atomic step of a poll leads to: `Ready`; an empty counter; a poll
that is not doomed; or, of a doomed poll, its end or another doomed step. -/
theorem semFut_next {desired permits permits' : ℕ} {st st' : SemaphoreFutureState} {pc : Pc} {next : Next}
    (hd : st = .polite → desired ≤ 1)
    (hs : semFut desired st permits pc = (permits', st', next)) :
    next = .ready ∨ permits' = 0 ∨ (∃ pc', next = .goto pc' ∧ doomedPc permits' pc' = false) ∨
      (doomedPc permits pc = true ∧ permits' = permits ∧
        (next = .pending ∨ ∃ pc', next = .goto pc' ∧ doomedPc permits pc' = true)) := by
  cases polled_of_semFut hs with
  | enough queued => exact Or.inr (Or.inr (Or.inl ⟨_, rfl, by cases queued <;> simp [doomedPc]⟩))
  | short queued hlt =>
    cases st with
    | polite =>
      -- a polite poll needs one permit, so there is none
      have := hd rfl
      simp only [needed, SemaphoreFutureState.count] at hlt
      exact Or.inr (Or.inl (by omega))
    | hungry count =>
      by_cases hpos : 0 < permits
      · exact Or.inr (Or.inr (Or.inl ⟨_, if_pos hpos, by cases queued <;> simp [doomedPc]⟩))
      · exact Or.inr (Or.inl (by omega))
  | take => exact Or.inl rfl
  | goOn read hne =>
    refine Or.inr (Or.inr (Or.inr ⟨decide_eq_true hne, rfl, ?_⟩))
    rcases orHungry_cases st true read with ⟨hgoto, -⟩ | ⟨hwait, -⟩
    · exact Or.inr ⟨_, hgoto, decide_eq_true hne⟩
    · exact Or.inl hwait
  | takeAll => exact Or.inr (Or.inl rfl)
  | wait read hne => exact Or.inr (Or.inr (Or.inr ⟨decide_eq_true hne, rfl, Or.inl rfl⟩))
  | retry | retryAll | push => exact Or.inr (Or.inr (Or.inl ⟨_, rfl, rfl⟩))

theorem queued_of_stuck {permits : ℕ} {f : SemaphoreFuture} (h : Stuck permits f) : queued f = true := by
  rcases h.2 with h | h
  · simp [queued, h]
  · unfold doomed at h
    unfold queued
    split at h
    · rename_i pc hp
      rw [hp]
      cases pc with
      | load q => simp [doomedPc] at h
      | exchangeNeeded q read => cases q <;> simp_all [doomedPc, queuedPc]
      | exchangeAll q read => cases q <;> simp_all [doomedPc, queuedPc]
      | push => simp [doomedPc] at h
    · cases h

/-! ### Where the permits are -/

/-- The permits all pending hungry futures have collected. -/
def hoards (s : State) : ℕ := (s.futures.map hoard).sum

/-- If the permits are all there, and not all of them are hoarded, an empty
counter means that a permit is alive. -/
theorem alive_of_empty {max : ℕ} {s : State} (ht : max ≤ total s) (hh : hoards s < max)
    (h0 : s.permits = 0) : ∃ f ∈ s.futures, f.data.permit.isSome = true := by
  have hsum : (s.futures.map held).sum = (s.futures.map weight).sum + hoards s :=
    List.sum_map_add
  have hpos : (s.futures.map weight).sum ≠ 0 := by
    unfold total at ht
    omega
  by_contra hnone
  refine hpos (List.sum_eq_zero fun w hw => ?_)
  obtain ⟨f, hf, rfl⟩ := List.mem_map.mp hw
  have : f.data.permit = none := by
    rw [← Option.not_isSome_iff_eq_none]
    exact fun h => hnone ⟨f, hf, h⟩
  simp [weight, this]

/-- The next step of the future's poll takes all the permits there are. -/
def collects (s : State) (f : SemaphoreFuture) : Bool :=
  match f.phase with
  | .polling (.exchangeAll _ read) => decide (s.permits = read)
  | _ => false

/-- A step is careful, in a lock made with `max` permits: no poll collects
the last permits, so that together the hoards swallow all of them; the
counter does not wrap; and while a future waits unwoken no wake-up is lost,
popped for a future that no longer waits or dropped with a future that has
collected nothing. -/
def Careful (max : ℕ) (s : State) : Act → Prop
  | .step i => ∀ f ∈ s.futures[i]?, collects s f = true → hoards s + s.permits < max
  | .dropFuture i => NoWrap s (.dropFuture i) ∧
      ((∃ g ∈ s.futures, g.Waits) → ∀ f ∈ s.futures[i]?, f.Roused → f.data.state.count ≠ 0)
  | .dropPermit i => NoWrap s (.dropPermit i)
  | .wakeNext _ => (∃ g ∈ s.futures, g.Waits) →
      ∀ w ∈ s.wakerQueue.head?, ∃ f ∈ s.futures, f.waker = w ∧ f.phase.isWaiting = true
  | _ => True

instance (s : State) (a : Act) : Decidable (NoWrap s a) := inferInstanceAs (Decidable (_ < _))

instance (max : ℕ) (s : State) (a : Act) : Decidable (Careful max s a) := by
  cases a <;> (dsimp only [Careful]; infer_instance)

theorem hoard_wakeBy (w : ℕ) (f : SemaphoreFuture) : hoard (f.wakeBy w) = hoard f := by
  simp [hoard]

theorem hoard_advance_le (f : SemaphoreFuture) (st : SemaphoreFutureState) (next : Next) :
    hoard (advance f st next) ≤ st.count := by
  cases next with
  | goto pc => exact le_refl _
  | ready => exact Nat.zero_le _
  | pending => exact le_refl _

/-- The hoards of a careful run never swallow all the permits. -/
theorem hoards_step {max : ℕ} {s s' : State} {a : Act} (hI : hoards s < max) (hc : Careful max s a)
    (h : step s a = some s') : hoards s' < max := by
  have hle : ∀ {i : ℕ} {f g : SemaphoreFuture}, s.futures[i]? = some f → hoard g ≤ hoard f →
      ((s.futures.set i g).map hoard).sum < max := by
    intro i f g hf hg
    have := sum_map_set hoard hf g
    unfold hoards at hI
    omega
  cases step_cases h with
  | create n st a ha =>
    have h0 : st.count = 0 := by rcases ha with ⟨-, rfl⟩ | ⟨-, rfl⟩ <;> rfl
    simpa [hoards, hoard, Future.new, h0] using hI
  | poll i w f hf hp =>
    refine hle hf (le_of_eq ?_)
    rw [hoard_of_open (Phase.isOpen_of_canPoll hp)]
    rfl
  | step i f pc permits st next hf hp hs =>
    have hopen : hoard f = f.data.state.count := hoard_of_open (by rw [hp]; rfl)
    have hadv := hoard_advance_le f st next
    rcases semFut_cases f.data.desired f.data.state s.permits pc with
      ⟨n, h', -⟩ | ⟨q, rfl, h'⟩ | ⟨q, rfl, h'⟩
    · rw [h'] at hs
      cases hs
      exact hle hf (hopen ▸ hadv)
    · rw [h'] at hs
      cases hs
      exact hle hf (hopen ▸ hadv)
    · rw [h'] at hs
      cases hs
      have hlast := hc f hf (by simp [collects, hp])
      have hcol := count_collect_le f.data.state s.permits
      have hset := sum_map_set hoard hf (advance f (collect f.data.state s.permits) (queueOrWait q))
      unfold hoards at hlast ⊢
      simp only
      omega
  | dropEmpty i f hf => exact hle hf (Nat.zero_le _)
  | dropHoard i f hf => exact hle hf (Nat.zero_le _)
  | dropPermit i f w hf => exact hle hf (le_refl _)
  | wakeNone => exact hI
  | wakeOne r left w =>
    unfold hoards
    simp only [sum_map_wake hoard_wakeBy]
    exact hI

/-- A doomed poll stays where it is: stuck, unless somebody woke it. -/
theorem Settled.doomed {permits pops i : ℕ} {fs : List SemaphoreFuture} {f : SemaphoreFuture}
    {st : SemaphoreFutureState} {next : Next} (h : Settled permits fs pops) (hf : fs[i]? = some f)
    (hdoomed : doomed permits f = true) (hnext : next = .pending ∨ ∃ pc, next = .goto pc) :
    Settled permits (fs.set i (advance f st next)) pops := by
  have hwait : (advance f st next).phase.isWaiting = true := by
    rcases hnext with rfl | ⟨pc, rfl⟩ <;> rfl
  refine h.set hf (fun hg => ⟨?_, Or.inr hdoomed⟩) (fun ha => ?_) (fun hm => Or.inl ⟨hwait, ?_⟩)
  · rw [← advance_woken f st next]
    exact hg.1
  · rcases hnext with rfl | ⟨pc, rfl⟩ <;> exact ha
  · rw [advance_woken]
    rcases hm with hm | hm
    · exact hm.2
    · rw [hdoomed] at hm
      exact absurd hm.2 (by simp)

end Semaphore

namespace RwLock

open Semaphore (SemaphoreFuture)

/-- What a careful run of a lock made for `max` readers keeps. -/
structure Live (max : ℕ) (s : Semaphore.State) : Prop where
  wf : Semaphore.Wf s
  calls : ∀ f ∈ s.futures, CallOk max f
  total : max ≤ Semaphore.total s
  hoards : Semaphore.hoards s < max
  queue : Semaphore.InQueue s
  settled : Semaphore.Settled s.permits s.futures s.releases.sum

/-- A call that has not completed has collected less than all permits. -/
theorem Live.count_lt {max : ℕ} {s : Semaphore.State} (h : Live max s) {f : SemaphoreFuture}
    (hf : f ∈ s.futures) (hopen : f.phase.isOpen = true) : f.data.state.count < max := by
  have := List.le_sum_of_mem (List.mem_map_of_mem (f := Semaphore.hoard) hf)
  rw [Semaphore.hoard_of_open hopen] at this
  exact lt_of_le_of_lt this h.hoards

/-- In a careful run no permit gets lost: what a completed writer's hoard is
given back for a second time only adds to them. -/
theorem total_le_step {max : ℕ} (hmax : max < Semaphore.usizeCount) {s s' : Semaphore.State}
    {a : Semaphore.Act} (hL : Live max s) (hc : Semaphore.Careful max s a)
    (h : Semaphore.step s a = some s') : Semaphore.total s ≤ Semaphore.total s' := by
  cases Semaphore.step_cases h with
  | create n st a ha =>
    have h0 : st.count = 0 := by rcases ha with ⟨-, rfl⟩ | ⟨-, rfl⟩ <;> rfl
    exact le_of_eq (Semaphore.total_create s n h0).symm
  | poll i w f hf hp => exact le_of_eq (Semaphore.total_set hf (Semaphore.held_poll w hp)).symm
  | step i f pc permits st next hf hp hs =>
    have hmem := List.mem_of_getElem? hf
    have hopen : f.phase.isOpen = true := by rw [hp]; rfl
    have hlt : ∀ q, pc = .exchangeAll q s.permits →
        f.data.state.count + s.permits < Semaphore.usizeCount := by
      rintro q rfl
      have hlast := hc f hf (by simp [Semaphore.collects, hp])
      have hle := List.le_sum_of_mem (List.mem_map_of_mem (f := Semaphore.hoard) hmem)
      rw [Semaphore.hoard_of_open hopen] at hle
      unfold Semaphore.hoards at hlast
      omega
    have hstep := Semaphore.total_poll_step (hL.wf f hmem) hlt hf hp hs
      (Semaphore.pushed f.waker s.wakerQueue pc)
    have hcount : f.data.state.count ≤ f.data.desired := by
      have hlt := hL.count_lt hmem hopen
      rw [(hL.calls f hmem).desired]
      cases hst : f.data.state with
      | polite => exact Nat.zero_le _
      | hungry count =>
        rw [hst] at hlt
        exact le_of_lt hlt
    rw [Nat.sub_eq_zero_of_le hcount, ite_self, Nat.add_zero] at hstep
    exact le_of_eq hstep.symm
  | dropEmpty i f hf hp h0 =>
    exact le_of_eq (Semaphore.total_set hf (Semaphore.held_drop_of_count h0)).symm
  | dropHoard i f hf hp hpos =>
    have hnw := hc.1
    simp only [Semaphore.NoWrap, Semaphore.adds, hf, Option.map_some, hp, if_true, Option.getD_some] at hnw
    by_cases hr : f.phase = .ready
    · have := Semaphore.total_dropReady hf hr
      rw [Nat.mod_eq_of_lt hnw] at this
      omega
    · exact le_of_eq (Semaphore.total_dropOpen hnw hf (Phase.isOpen_of_canDrop hp hr)).symm
  | dropPermit i f w hf hw =>
    have hnw : Semaphore.NoWrap s (.dropPermit i) := hc
    have hw' : Semaphore.weight f = w := by simp [Semaphore.weight, hw]
    simp only [Semaphore.NoWrap, Semaphore.adds, hf, Option.map_some, Option.getD_some, hw'] at hnw
    exact le_of_eq (Semaphore.total_dropPermit hnw hf hw).symm
  | wakeNone => exact le_refl _
  | wakeOne r left w =>
    unfold Semaphore.total
    simp only [sum_map_wake Semaphore.held_wakeBy]
    exact le_refl _

/-- A careful step leaves a settled table settled. -/
theorem settled_step {max : ℕ} (hpos : 0 < max) {s s' : Semaphore.State} {a : Semaphore.Act}
    (hL : Live max s) (hc : Semaphore.Careful max s a) (h : Semaphore.step s a = some s')
    (ht : max ≤ Semaphore.total s') (hh : Semaphore.hoards s' < max) :
    Semaphore.Settled s'.permits s'.futures s'.releases.sum := by
  cases Semaphore.step_cases h with
  | create n st a =>
    rintro ⟨f, hf, hfs⟩
    have hold : f ∈ s.futures := by
      rcases List.mem_append.mp hf with hf | hf
      · exact hf
      · rw [List.mem_singleton.mp hf] at hfs
        rcases hfs.2 with h | h <;> cases h
    rcases hL.settled ⟨f, hold, hfs⟩ with ⟨g, hg, h⟩ | h | ⟨g, hg, h⟩
    · exact Or.inl ⟨g, List.mem_append_left _ hg, h⟩
    · exact Or.inr (Or.inl h)
    · exact Or.inr (Or.inr ⟨g, List.mem_append_left _ hg, h⟩)
  | poll i w f hf hp =>
    exact Semaphore.settled_of_moving (mem_set_self hf) (Or.inr ⟨rfl, rfl⟩)
  | step i f pc permits st next hf hp hs =>
    have hd : f.data.state = .polite → f.data.desired ≤ 1 := by
      intro hst
      rw [(hL.calls f (List.mem_of_getElem? hf)).desired, hst]
      exact le_refl _
    rcases Semaphore.semFut_next hd hs with rfl | h0 | ⟨pc', rfl, hpc'⟩ | ⟨hdoom, rfl, hend⟩
    · exact Semaphore.settled_of_alive (mem_set_self hf) rfl
    · obtain ⟨g, hg, hga⟩ := Semaphore.alive_of_empty ht hh h0
      exact Semaphore.settled_of_alive hg hga
    · exact Semaphore.settled_of_moving (mem_set_self hf) (Or.inr ⟨rfl, hpc'⟩)
    · exact hL.settled.doomed hf (by simp [Semaphore.doomed, hp, hdoom])
        (hend.imp_right (Exists.imp fun _ => And.left))
  | dropEmpty i f hf hp h0 =>
    intro hstuck
    have hwaits : ∃ g ∈ s.futures, g.Waits := by
      obtain ⟨x, hx, hxs⟩ := hstuck
      rcases List.mem_or_eq_of_mem_set hx with hx | rfl
      · exact ⟨x, hx, Semaphore.waits_of_stuck hxs⟩
      · rcases hxs.2 with h | h <;> cases h
    have hr : ¬ f.Roused := fun hr => hc.2 hwaits f hf hr h0
    refine hL.settled.set hf (fun hg => ?_) id (fun hm => ?_) hstuck
    · rcases hg.2 with h | h <;> cases h
    · rcases hm with hm | hm
      · exact absurd hm hr
      · rw [Phase.isPolling_of_canDrop hp] at hm
        cases hm.1
  | dropHoard i f hf hp hpos' =>
    refine Semaphore.settled_of_pops ?_
    simp only [Semaphore.addPermits, List.sum_append, List.sum_singleton]
    omega
  | dropPermit i f w hf hw =>
    refine Semaphore.settled_of_pops ?_
    have hcall := hL.calls f (List.mem_of_getElem? hf)
    have hw' : 0 < w := by
      rw [hcall.guard w hw, hcall.desired]
      split <;> omega
    simp only [Semaphore.addPermits, List.sum_append, List.sum_singleton]
    omega
  | wakeNone r left hr hq =>
    rintro ⟨f, hf, hfs⟩
    have := hL.queue f hf (Semaphore.queued_of_stuck hfs) hfs.1
    rw [hq] at this
    cases this
  | wakeOne r left w queue hr hq =>
    rintro ⟨x, hx, hxs⟩
    obtain ⟨y, hy, rfl⟩ := mem_wake.mp hx
    have hwaits := Semaphore.waits_of_stuck (Semaphore.stuck_of_wakeBy hxs)
    obtain ⟨f, hf, hfw, hwait⟩ := hc ⟨y, hy, hwaits⟩ w (by rw [hq]; rfl)
    refine Or.inr (Or.inr ⟨f.wakeBy w, mem_wake.mpr ⟨f, hf, rfl⟩, Or.inl ?_⟩)
    exact roused_wakeBy.mpr (Or.inr ⟨hwait, hfw⟩)

theorem Live.step {max : ℕ} (hpos : 0 < max) (hlt : max < Semaphore.usizeCount) {l l' : RwLock} {a : Act}
    (hl : Calls max l ∧ Live max l.semaphore) (hc : Semaphore.Careful max l.semaphore (lower l a))
    (h : step l a = some l') : Calls max l' ∧ Live max l'.semaphore := by
  have hs := (step_lower h).1
  have hcalls := calls_step hl.1 h
  have htotal := hl.2.total.trans (total_le_step hlt hl.2 hc hs)
  have hhoards := Semaphore.hoards_step hl.2.hoards hc hs
  exact ⟨hcalls, Semaphore.futureOk_step hl.2.wf hs, hcalls.2, htotal, hhoards,
    Semaphore.inQueue_step hl.2.queue hs, settled_step hpos hl.2 hc hs htotal hhoards⟩

theorem live_new {max : ℕ} (hpos : 0 < max) : Live max (Semaphore.new max) where
  wf := Semaphore.wf_new max
  calls f hf := by simp [Semaphore.new] at hf
  total := le_of_eq (Semaphore.total_new max).symm
  hoards := hpos
  queue f hf := by simp [Semaphore.new] at hf
  settled := fun ⟨f, hf, _⟩ => by simp [Semaphore.new] at hf

/-! ### At rest -/

/-- No guard is alive, no poll and no drop is under way, and every call that
was woken has been polled since. -/
def AtRest (l : RwLock) : Prop :=
  (∀ f ∈ l.semaphore.futures, isGuard f = false ∧ f.phase.isPolling = false ∧ f.phase ≠ .ready ∧
    (f.phase = .pending → f.woken = false)) ∧ ∀ r ∈ l.semaphore.releases, r = 0

/-- At rest no `read()` or `write()` is pending. -/
def NoDeadlock (l : RwLock) : Prop := AtRest l → ∀ f ∈ l.semaphore.futures, f.phase ≠ .pending

instance (l : RwLock) : Decidable (AtRest l) := inferInstanceAs (Decidable (_ ∧ _))

instance (l : RwLock) : Decidable (NoDeadlock l) := inferInstanceAs (Decidable (_ → _))

theorem noDeadlock_of_live {max : ℕ} {l : RwLock} (hl : Live max l.semaphore) : NoDeadlock l := by
  intro hrest f hf hp
  rcases hl.settled ⟨f, hf, (hrest.1 f hf).2.2.2 hp, Or.inl hp⟩ with ⟨g, hg, hga⟩ | hpops | ⟨g, hg, hgm⟩
  · -- the permit is that of a guard, or its future has just returned `Ready`
    obtain ⟨hguard, hpoll, hready, -⟩ := hrest.1 g hg
    cases hph : g.phase with
    | dropped => simp [isGuard, hph, hga] at hguard
    | ready => exact hready hph
    | _ =>
      have := (hl.wf g hg).fresh (by rw [hph]; rfl)
      simp [this] at hga
  · have : l.semaphore.releases.sum = 0 := List.sum_eq_zero hrest.2
    omega
  · obtain ⟨-, hpoll, -, hwoken⟩ := hrest.1 g hg
    rcases hgm with ⟨hwait, hw⟩ | ⟨hpolling, -⟩
    · cases hph : g.phase <;> simp_all [Phase.isWaiting, Phase.isPolling]
    · rw [hpoll] at hpolling
      cases hpolling

/-- Each step of the lock is careful (`Semaphore.Careful`). -/
def Careful (max : ℕ) (l : RwLock) (a : Act) : Prop := Semaphore.Careful max l.semaphore (lower l a)

instance (max : ℕ) (l : RwLock) (a : Act) : Decidable (Careful max l a) := by
  unfold Careful; infer_instance

/-- **No call is stranded**, in every run whose steps are careful, for any
number of readers the lock is made for. -/
theorem noDeadlock_of_careful {max : ℕ} (hpos : 0 < max) (hlt : max < Semaphore.usizeCount)
    {as : List Act} (h : Taken step (Careful max) (withMaxReaders max) as) :
    Along step NoDeadlock (withMaxReaders max) as := by
  refine along_of_invariant (I := fun l => Calls max l ∧ Live max l.semaphore) ?_ ?_
    ⟨calls_new max, live_new hpos⟩ h
  · intro l a l' hl hc hs
    exact Live.step hpos hlt hl hc hs
  · intro l hl
    exact noDeadlock_of_live hl.2

/-- A writer that collects in two rounds is careful, and so is its leaving. -/
theorem noDeadlock_writerCollects :
    Along step NoDeadlock (withMaxReaders 2) (writerCollects ++ [.finish 1, .dropGuard 1]) :=
  noDeadlock_of_careful (by decide) (by decide) (by decide)

/-- Two writers have one of two permits each, and nobody else is there. -/
theorem noDeadlock_fails : ¬ Along step NoDeadlock (withMaxReaders 2)
    (writerWaits ++ [.dropGuard 0, .wakeNext 0, .write, .poll 2 2, .step 2, .step 2, .step 2, .step 2,
      .poll 1 1, .step 1, .step 1, .step 1]) := by
  decide

end RwLock
end ClAsync
