/-
# When a waiter of the semaphore is left asleep

With no poll and no release under way and every delivered wake-up answered
by a poll, no pending future should need as few permits as there are in the
counter. It can: a poll whose exchange fails after it has queued its waker
gives up, whatever the counter says by then (`served_fails`), and a release
of one permit wakes one future, even when it needs more than that one.

What carries the proof is an account of the permits (`Accounted`). What lies
in the counter beyond the reach of a sleeping future belongs to somebody on
the way to it: each pop left stands for one permit, each future that was
woken for what it needs. `fetch_add` adds to both sides, a future that
returns `Ready` takes from both. The steps that only take from the right are
those that waste a wake-up (`Frugal` names them): `served_of_frugal` says
that nobody is left asleep in the runs without one, when no exchange of a
queued poll fails.
-/
import ClAsync.Sync.WakerQueue
import Mathlib.Algebra.Order.BigOperators.Group.List
import Mathlib.Algebra.Order.Ring.Nat

namespace ClAsync
namespace Semaphore

open Wakers Runs

/-! ### The account of the permits -/

/-- The permits the future still needs. -/
def lacks (f : SemaphoreFuture) : ℕ := needed f.data.desired f.data.state

/-- The future has been woken, and comes for what it needs: it is still to be
polled, or the poll under way answers the wake-up. -/
def Called (f : SemaphoreFuture) : Prop := f.Roused ∨ (f.phase.isPolling = true ∧ f.answers = true)

instance (f : SemaphoreFuture) : Decidable (Called f) := inferInstanceAs (Decidable (_ ∨ _))

/-- What the future is going to take from the counter. -/
def share (f : SemaphoreFuture) : ℕ := if Called f then lacks f else 0

/-- What a sleeping future needs is more than the counter has left for it,
once the pops left have had a permit each and those who were woken their
shares. -/
def Accounted (permits : ℕ) (fs : List SemaphoreFuture) (pops : ℕ) : Prop :=
  ∀ f ∈ fs, f.Asleep → permits < lacks f + pops + (fs.map share).sum

/-- The next step of a polite poll, its waker queued, finds some permits, but
fewer than the future needs. -/
def comesShort (permits : ℕ) (f : SemaphoreFuture) : Bool :=
  decide (f.phase = .polling (.load true) ∧ f.data.state = .polite ∧ 0 < permits ∧ permits < lacks f)

/-- The exchange of a poll that has queued its waker does not fail, unless the
future has been woken since. And while a future sleeps no step wastes a
wake-up: no poll that answers one comes short, no woken future is dropped, and
a waker is only popped for a future that waits for something and has not been
woken yet. -/
def Frugal (s : State) : Act → Prop
  | .step i => ∀ f ∈ s.futures[i]?, f.woken = false → doomed s.permits f = false ∧
      (f.answers = true → comesShort s.permits f = true → ¬ ∃ g ∈ s.futures, g.Asleep)
  | .dropFuture i => ∀ f ∈ s.futures[i]?, f.Roused → ¬ ∃ g ∈ s.futures, g.Asleep
  | .wakeNext _ => (∃ g ∈ s.futures, g.Asleep) → ∀ w ∈ s.wakerQueue.head?,
      ∃ f ∈ s.futures, f.waker = w ∧ f.phase.isWaiting = true ∧ ¬ Called f ∧ 0 < lacks f
  | _ => True

instance (s : State) : ∀ a, Decidable (Frugal s a)
  | .step _ | .dropFuture _ | .wakeNext _ => by dsimp only [Frugal]; infer_instance
  | .acquire _ | .acquireHungry _ | .poll _ _ | .dropPermit _ => instDecidableTrue

/-- No poll and no release is under way, and every future alive that was woken
has been polled since. -/
def Idle (s : State) : Prop :=
  (∀ f ∈ s.futures, f.phase.isPolling = false ∧ ¬ f.Roused) ∧ ∀ left ∈ s.releases, left = 0

/-- In an idle semaphore every pending future needs more than there is. -/
def Served (s : State) : Prop := Idle s → ∀ f ∈ s.futures, f.phase = .pending → ¬ lacks f ≤ s.permits

instance (s : State) : Decidable (Idle s) := inferInstanceAs (Decidable (_ ∧ _))

instance (s : State) : Decidable (Served s) :=
  inferInstanceAs (Decidable (_ → ∀ f ∈ s.futures, f.phase = .pending → ¬ _ ≤ _))

/-! ### What a poll asks for -/

/-- A poll only queues its waker, or takes everything, while that leaves it
something to ask for. -/
def wantsPc (desired : ℕ) (st : SemaphoreFutureState) : Pc → Prop
  | .load queued => queued = true → 0 < needed desired st
  | .exchangeNeeded queued _ => queued = true → 0 < needed desired st
  | .exchangeAll _ read => read < needed desired st
  | .push => 0 < needed desired st

/-- A future only goes to sleep while it needs something. -/
def Wants (f : SemaphoreFuture) : Prop :=
  f.woken = false → match f.phase with
    | .polling pc => wantsPc f.data.desired f.data.state pc
    | .pending => 0 < lacks f
    | _ => True

theorem orHungry_wants {desired read : ℕ} {st : SemaphoreFutureState} {queued : Bool}
    (hlt : read < needed desired st) {pc : Pc} (hn : orHungry st queued read = .goto pc) : wantsPc desired st pc := by
  rcases orHungry_cases st queued read with ⟨hgoto, -⟩ | ⟨hwait, -⟩
  · cases hgoto.symm.trans hn
    exact hlt
  · cases queued with
    | true => cases hwait.symm.trans hn
    | false =>
      cases hwait.symm.trans hn
      exact Nat.zero_lt_of_lt hlt

/-- What an atomic step leaves a poll to ask for, when its exchange does not
fail: it goes on with a need, or ends with one. -/
theorem semFut_wants {desired permits permits' : ℕ} {st st' : SemaphoreFutureState} {pc : Pc} {next : Next}
    (hw : wantsPc desired st pc) (hd : doomedPc permits pc = false)
    (hs : semFut desired st permits pc = (permits', st', next)) :
    (∀ pc', next = .goto pc' → wantsPc desired st' pc') ∧ (next = .pending → 0 < needed desired st') := by
  cases polled_of_semFut hs with
  | enough queued =>
    refine ⟨fun pc' h => ?_, fun h => by cases h⟩
    cases h
    exact hw
  | short queued hlt => exact ⟨fun pc' h => orHungry_wants hlt h, fun _ => Nat.zero_lt_of_lt hlt⟩
  | take => exact ⟨fun _ h => (by cases h), fun h => by cases h⟩
  | goOn read hne | wait read hne => exact absurd hne (of_decide_eq_false hd)
  | retry | retryAll =>
    refine ⟨fun pc' h => ?_, fun h => by cases h⟩
    cases h
    exact fun h => by cases h
  | takeAll queued =>
    -- what was read is less than what the future needs
    have hleft : 0 < needed desired (collect st permits) := by
      have hle := count_collect_le st permits
      simp only [wantsPc, needed] at hw ⊢
      omega
    cases queued with
    | false =>
      refine ⟨fun pc' h => ?_, fun h => by cases h⟩
      cases h
      exact hleft
    | true => exact ⟨fun _ h => (by cases h), fun _ => hleft⟩
  | push =>
    refine ⟨fun pc' h => ?_, fun h => by cases h⟩
    cases h
    exact fun _ => hw

theorem orHungry_eq_pending {st : SemaphoreFutureState} {queued : Bool} {read : ℕ} :
    orHungry st queued read = .pending ↔ queued = true ∧ (st = .polite ∨ read = 0) := by
  rcases orHungry_cases st queued read with ⟨hgoto, ⟨count, rfl⟩, hread⟩ | ⟨hwait, hst⟩
  · rw [hgoto]
    refine iff_of_false (fun h => by cases h) fun h => ?_
    rcases h.2 with h | h
    · cases h
    · omega
  · rw [hwait]
    cases queued with
    | true => exact iff_of_true rfl ⟨rfl, hst⟩
    | false => exact iff_of_false (fun h => by cases h) fun h => by cases h.1

/-- A poll that ends in `Pending`, and not because its exchange failed, leaves
an empty counter or found less than the future needs. -/
theorem semFut_pending {desired permits permits' : ℕ} {st st' : SemaphoreFutureState} {pc : Pc}
    (hs : semFut desired st permits pc = (permits', st', .pending)) :
    doomedPc permits pc = true ∨ permits' = 0 ∨
      (pc = .load true ∧ permits' = permits ∧ st' = st ∧ st = .polite ∧ permits < needed desired st) := by
  generalize hnext : Next.pending = next at hs
  cases polled_of_semFut hs with
  | enough | take | retry | retryAll | push => cases hnext
  | short queued hlt =>
    obtain ⟨rfl, hst | h0⟩ := orHungry_eq_pending.mp hnext.symm
    · exact Or.inr (Or.inr ⟨rfl, rfl, rfl, hst, hlt⟩)
    · exact Or.inr (Or.inl h0)
  | goOn read hne | wait read hne => exact Or.inl (decide_eq_true hne)
  | takeAll queued => exact Or.inr (Or.inl rfl)

theorem wants_wakeBy {f : SemaphoreFuture} (w : ℕ) (h : Wants f) : Wants (f.wakeBy w) := by
  intro hw
  rw [Future.wakeBy_woken, Bool.or_eq_false_iff] at hw
  rw [Future.wakeBy_phase]
  simpa [lacks] using h hw.1

/-- Every future keeps something to ask for, in frugal steps. -/
theorem wants_step {s s' : State} {a : Act} (hI : ∀ f ∈ s.futures, Wants f) (hc : Frugal s a)
    (h : step s a = some s') : ∀ f ∈ s'.futures, Wants f := by
  cases step_cases h with
  | create n st => exact List.forall_mem_append.mpr ⟨hI, List.forall_mem_singleton.mpr fun _ => trivial⟩
  | poll i w f hf hp => exact forall_mem_set hI fun _ h => by cases h
  | step i f pc permits st next hf hp hs =>
    refine forall_mem_set hI fun hwoken => ?_
    rw [advance_woken] at hwoken
    have hw := hI f (List.mem_of_getElem? hf) hwoken
    rw [hp] at hw
    have hdoomed : doomedPc s.permits pc = false := by
      simpa [doomed, hp] using (hc f hf hwoken).1
    obtain ⟨hgoto, hend⟩ := semFut_wants hw hdoomed hs
    cases next with
    | goto pc' => exact hgoto pc' rfl
    | ready => trivial
    | pending => exact hend rfl
  | dropEmpty i f => exact forall_mem_set hI fun _ => trivial
  | dropHoard i f => exact forall_mem_set hI fun _ => trivial
  | dropPermit i f w hf => exact forall_mem_set hI (hI f (List.mem_of_getElem? hf))
  | wakeNone => exact hI
  | wakeOne r left w => exact forall_mem_wake fun f hf => wants_wakeBy w (hI f hf)

/-! ### The account of a run -/

theorem share_of_called {f : SemaphoreFuture} (h : Called f) : share f = lacks f := if_pos h

theorem share_le_lacks (f : SemaphoreFuture) : share f ≤ lacks f := by
  unfold share
  split <;> omega

theorem called_of_polling {f : SemaphoreFuture} (hp : f.phase.isPolling = true) :
    Called f ↔ f.woken = true ∨ f.answers = true := by
  have hwait : f.phase.isWaiting = true := by
    cases h : f.phase with
    | polling pc => rfl
    | _ => rw [h] at hp; cases hp
  unfold Called Future.Roused
  rw [hp, hwait, eq_self_iff_true, true_and, true_and]

/-- A poll answers the wake-up of a future that was woken. -/
theorem called_poll {f : SemaphoreFuture} (w : ℕ) (pc : Pc) (hp : f.phase.canPoll = true) :
    Called (f.poll w pc) ↔ Called f := by
  rw [called_of_polling rfl]
  unfold Called Future.Roused
  cases h : f.phase with
  | polling pc => rw [h] at hp; cases hp
  | _ => simp [Future.poll, h, Phase.isPolling]

theorem share_of_not_roused {f : SemaphoreFuture} (hp : f.phase.canDrop = true) (hr : ¬ f.Roused) :
    share f = 0 := by
  refine if_neg ?_
  rintro (h | h)
  · exact hr h
  · rw [Phase.isPolling_of_canDrop hp] at h
    cases h.1

section Accounted

variable {permits permits' pops pops' i : ℕ} {fs : List SemaphoreFuture} {f g : SemaphoreFuture}

/-- An empty counter is accounted for, when those asleep need something. -/
theorem accounted_zero (h : ∀ f ∈ fs, f.Asleep → 0 < lacks f) : Accounted 0 fs pops := by
  intro f hf hs
  have := h f hf hs
  omega

/-- Replacing `f` by a `g` that does not sleep, when the counter loses what
the futures on their way and the pops lose. -/
theorem Accounted.set (h : Accounted permits fs pops) (hf : fs[i]? = some f) (hg : ¬ g.Asleep)
    (hle : permits' + share f + pops ≤ permits + share g + pops') : Accounted permits' (fs.set i g) pops' := by
  have hsum := sum_map_set share hf g
  intro x hx hxs
  rcases List.mem_or_eq_of_mem_set hx with hx | rfl
  · have := h x hx hxs
    omega
  · exact absurd hxs hg

/-- `fetch_add` leaves a pop for each permit it adds. -/
theorem Accounted.addPermits {s : State} (h : Accounted s.permits s.futures s.releases.sum) (n : ℕ) :
    Accounted (addPermits s n).permits (addPermits s n).futures (addPermits s n).releases.sum := by
  intro f hf hs
  have hlt := h f hf hs
  have hmod : (s.permits + n) % usizeCount ≤ s.permits + n := Nat.mod_le _ _
  simp only [Semaphore.addPermits, List.sum_append, List.sum_singleton]
  omega

theorem called_wakeBy {w : ℕ} (h : Called f) : Called (f.wakeBy w) := by
  rcases h with hr | hp
  · exact Or.inl (roused_wakeBy.mpr (Or.inl hr))
  · refine Or.inr ⟨by rw [Future.wakeBy_phase]; exact hp.1, ?_⟩
    rw [Future.wakeBy_answers]
    exact hp.2

theorem share_wakeBy_le (w : ℕ) (f : SemaphoreFuture) : share f ≤ share (f.wakeBy w) := by
  by_cases hc : Called f
  · rw [share_of_called hc, share_of_called (called_wakeBy hc), lacks, lacks, Future.wakeBy_data]
  · rw [share, if_neg hc]
    exact Nat.zero_le _

/-- A waiting future that is woken comes for its share. -/
theorem share_wakeBy_of_waiting (h : f.phase.isWaiting = true) : share (f.wakeBy f.waker) = lacks f := by
  have hr : (f.wakeBy f.waker).Roused := roused_wakeBy.mpr (Or.inr ⟨h, rfl⟩)
  rw [share_of_called (Or.inl hr), lacks, lacks, Future.wakeBy_data]

/-- The futures a wake-up leaves asleep were asleep, and as they are. -/
theorem Accounted.of_wake {w : ℕ} (h : ∀ x ∈ fs, x.Asleep →
    permits < lacks x + pops + ((wake w fs).map share).sum) : Accounted permits (wake w fs) pops := by
  intro x hx hxs
  obtain ⟨y, hy, rfl⟩ := mem_wake.mp hx
  have := h y hy (asleep_wakeBy.mp hxs).1
  rwa [lacks, Future.wakeBy_data]

/-- Waking one who was not woken before raises what those woken are going to
take. -/
theorem sum_share_wake_lt (hf : f ∈ fs) (hwait : f.phase.isWaiting = true) (hc : ¬ Called f) (hl : 0 < lacks f) :
    (fs.map share).sum < ((wake f.waker fs).map share).sum := by
  rw [wake, List.map_map]
  refine List.sum_lt_sum _ _ (fun g _ => share_wakeBy_le f.waker g) ⟨f, hf, ?_⟩
  rw [share, if_neg hc, Function.comp_apply, share_wakeBy_of_waiting hwait]
  exact hl

end Accounted

/-- What a frugal run keeps. -/
structure Watched (s : State) : Prop where
  ok : ∀ f ∈ s.futures, FutureOk f
  wants : ∀ f ∈ s.futures, Wants f
  queue : InQueue s
  accounted : Accounted s.permits s.futures s.releases.sum

theorem lacks_pos_of_asleep {f : SemaphoreFuture} (hw : Wants f) (hs : f.Asleep) : 0 < lacks f := by
  have := hw hs.2
  rwa [hs.1] at this

/-- A poll that ends having found less than the future needs keeps the
account, unless it answers a wake-up that another future sleeps without. -/
theorem accounted_short {s : State} (hA : Accounted s.permits s.futures s.releases.sum) {i : ℕ}
    {f : SemaphoreFuture} (hf : s.futures[i]? = some f) (hp : f.phase.isPolling = true)
    (hlt : s.permits < lacks f) (hw : f.woken = false) (hc : f.answers = true → ¬ ∃ g ∈ s.futures, g.Asleep) :
    Accounted s.permits (s.futures.set i (advance f f.data.state .pending)) s.releases.sum := by
  have hsum := sum_map_set share hf (advance f f.data.state .pending)
  have hcalled := called_of_polling hp
  intro x hx hxs
  rcases List.mem_or_eq_of_mem_set hx with hx | rfl
  · have hnot : f.answers ≠ true := fun ha => hc ha ⟨x, hx, hxs⟩
    have hshare : share f = 0 := if_neg (by rw [hcalled, hw]; simpa using hnot)
    have := hA x hx hxs
    omega
  · have hlacks : lacks (advance f f.data.state .pending) = lacks f := rfl
    omega

/-- An atomic step of a poll keeps the account, if it is frugal. -/
theorem accounted_poll_step {s : State} (hW : Watched s) {i permits : ℕ} {f : SemaphoreFuture} {pc : Pc}
    {st : SemaphoreFutureState} {next : Next} (hc : Frugal s (.step i)) (hf : s.futures[i]? = some f)
    (hp : f.phase = .polling pc) (hs : semFut f.data.desired f.data.state s.permits pc = (permits, st, next))
    (hwants : ∀ g ∈ s.futures.set i (advance f st next), Wants g) :
    Accounted permits (s.futures.set i (advance f st next)) s.releases.sum := by
  have hpoll : f.phase.isPolling = true := by rw [hp]; rfl
  have hempty : permits = 0 →
      Accounted permits (s.futures.set i (advance f st next)) s.releases.sum := by
    rintro rfl
    exact accounted_zero fun g hg hgs => lacks_pos_of_asleep (hwants g hg) hgs
  rcases semFut_cases f.data.desired f.data.state s.permits pc with
    ⟨n, h, hn⟩ | ⟨q, rfl, h⟩ | ⟨q, rfl, h⟩
  · -- nothing is taken: the poll goes on, or it ends
    rw [h] at hs
    obtain ⟨rfl, rfl, rfl⟩ := Prod.mk.injEq _ _ _ _ ▸ hs
    cases next with
    | goto pc' =>
      refine hW.accounted.set hf (fun hg => by cases hg.1) (le_of_eq ?_)
      have hsame : Called (advance f f.data.state (.goto pc')) ↔ Called f :=
        (called_of_polling rfl).trans (called_of_polling hpoll).symm
      have hshare : share (advance f f.data.state (.goto pc')) = share f := if_congr hsame rfl rfl
      rw [hshare]
    | ready => exact absurd rfl hn
    | pending =>
      cases hw : f.woken with
      | true =>
        -- it is going to be polled again
        have hroused : (advance f f.data.state .pending).Roused := ⟨rfl, hw⟩
        refine hW.accounted.set hf (fun hg => absurd (hg.2.symm.trans hw) (by simp)) (le_of_eq ?_)
        rw [share_of_called ((called_of_polling hpoll).mpr (Or.inl hw)), share_of_called (Or.inl hroused)]
        rfl
      | false =>
        rcases semFut_pending h with hdoom | h0 | ⟨rfl, -, -, hst, hlt⟩
        · have := (hc f hf hw).1
          simp [doomed, hp, hdoom] at this
        · exact hempty h0
        · by_cases h0 : s.permits = 0
          · exact hempty h0
          · have hshort : comesShort s.permits f = true :=
              decide_eq_true ⟨hp, hst, Nat.pos_of_ne_zero h0, hlt⟩
            exact accounted_short hW.accounted hf hpoll hlt hw fun ha => (hc f hf hw).2 ha hshort
  · -- the exchange takes what the future needs, which is no less than its share
    rw [h] at hs
    obtain ⟨rfl, rfl, rfl⟩ := Prod.mk.injEq _ _ _ _ ▸ hs
    have hle : lacks f ≤ s.permits := (hW.ok f (List.mem_of_getElem? hf)).read _ hp
    refine hW.accounted.set hf (fun hg => by cases hg.1) ?_
    have hshare := share_le_lacks f
    unfold lacks at hle hshare
    omega
  · rw [h] at hs
    obtain ⟨rfl, rfl, rfl⟩ := Prod.mk.injEq _ _ _ _ ▸ hs
    exact hempty rfl

/-- Dropping a future that nobody woke takes nothing from the account. -/
theorem accounted_drop {s : State} (hW : Watched s) {i : ℕ} {f : SemaphoreFuture}
    (hc : Frugal s (.dropFuture i)) (hf : s.futures[i]? = some f) (hp : f.phase.canDrop = true) :
    Accounted s.permits (s.futures.set i f.drop) s.releases.sum := by
  by_cases hr : f.Roused
  · rintro x hx hxs
    rcases List.mem_or_eq_of_mem_set hx with hx | rfl
    · exact absurd ⟨x, hx, hxs⟩ (hc f hf hr)
    · cases hxs.1
  · refine hW.accounted.set hf (fun hg => by cases hg.1) ?_
    rw [share_of_not_roused hp hr]
    omega

/-- A frugal step keeps the account. -/
theorem accounted_step {s s' : State} {a : Act} (hW : Watched s) (hc : Frugal s a)
    (h : step s a = some s') : Accounted s'.permits s'.futures s'.releases.sum := by
  have hwants := wants_step hW.wants hc h
  cases step_cases h with
  | create n st =>
    intro f hf hs
    have hnew : share (.new ⟨n, st, none⟩) = 0 := by
      simp [share, Called, Future.new, Phase.isPolling, Phase.isWaiting, Future.Roused]
    rcases List.mem_append.mp hf with hf | hf
    · have := hW.accounted f hf hs
      simpa [hnew] using this
    · rw [List.mem_singleton.mp hf] at hs
      cases hs.1
  | poll i w f hf hp =>
    show Accounted s.permits (s.futures.set i (f.poll w (.load false))) s.releases.sum
    have hshare : share (f.poll w (Pc.load false)) = share f := if_congr (called_poll w _ hp) rfl rfl
    refine hW.accounted.set hf (fun hg => by cases hg.1) (le_of_eq ?_)
    rw [hshare]
  | step i f pc permits st next hf hp hs => exact accounted_poll_step hW hc hf hp hs hwants
  | dropEmpty i f hf hp => exact accounted_drop hW hc hf hp
  | dropHoard i f hf hp =>
    have hdrop := accounted_drop hW hc hf hp
    exact @Accounted.addPermits { s with futures := s.futures.set i f.drop } hdrop _
  | dropPermit i f weight hf hw =>
    -- who has a permit is ready or dropped
    have hphase : ¬ (dropPermit f).Asleep := by
      intro hs
      have := (hW.ok f (List.mem_of_getElem? hf)).fresh (by rw [show f.phase = .pending from hs.1]; rfl)
      rw [this] at hw
      cases hw
    have hset := hW.accounted.set hf hphase (le_of_eq rfl)
    exact @Accounted.addPermits { s with futures := s.futures.set i (dropPermit f) } hset _
  | wakeNone r left hr hq =>
    intro f hf hs
    have := hW.queue f hf (by rw [queued, hs.1]) hs.2
    rw [hq] at this
    cases this
  | wakeOne r left w queue hr hq =>
    have hsum := sum_set_releases hr left
    show Accounted s.permits (wake w s.futures) (s.releases.set r left).sum
    refine Accounted.of_wake fun x hx hxs => ?_
    obtain ⟨f, hf, rfl, hwait, hcalled, hlacks⟩ := hc ⟨x, hx, hxs⟩ w (by rw [hq]; rfl)
    have hlt := sum_share_wake_lt hf hwait hcalled hlacks
    have := hW.accounted x hx hxs
    omega

theorem Watched.step {s s' : State} {a : Act} (hW : Watched s) (hc : Frugal s a)
    (h : step s a = some s') : Watched s' where
  ok := futureOk_step hW.ok h
  wants := wants_step hW.wants hc h
  queue := inQueue_step hW.queue h
  accounted := accounted_step hW hc h

theorem watched_new (permits : ℕ) : Watched (new permits) where
  ok f hf := by simp [new] at hf
  wants f hf := by simp [new] at hf
  queue f hf := by simp [new] at hf
  accounted f hf := by simp [new] at hf

/-- When all is idle, nobody comes for a share, and those asleep need more than
there is. -/
theorem served_of_watched {s : State} (hW : Watched s) : Served s := by
  intro ⟨hfutures, hreleases⟩ f hf hp
  have hasleep : f.Asleep := by
    refine ⟨hp, ?_⟩
    by_contra hw
    exact (hfutures f hf).2 ⟨by rw [hp]; rfl, by simpa using hw⟩
  have hpops : s.releases.sum = 0 := List.sum_eq_zero hreleases
  have hshares : (s.futures.map share).sum = 0 := by
    refine List.sum_eq_zero fun n hn => ?_
    obtain ⟨g, hg, rfl⟩ := List.mem_map.mp hn
    obtain ⟨hpoll, hroused⟩ := hfutures g hg
    refine if_neg ?_
    rintro (h | h)
    · exact hroused h
    · rw [hpoll] at h
      cases h.1
  have := hW.accounted f hf hasleep
  omega

/-- **No satisfiable waiter is left asleep**, in every run whose steps are
frugal, for any number of permits. -/
theorem served_of_frugal {permits : ℕ} {as : List Act} (h : Taken step Frugal (new permits) as) :
    Along step Served (new permits) as :=
  along_of_invariant (fun _ _ _ hW hc hs => Watched.step hW hc hs) (fun _ hW => served_of_watched hW)
    (watched_new permits) h

/-- A waiter of one permit and one that collects are both woken by the permit
they wait for, and both complete. -/
theorem served_twoWaiters : Along step Served (new 2)
    [.acquire 2, .poll 0 0, .step 0, .step 0, .acquire 1, .poll 1 1, .step 1, .step 1, .step 1,
      .acquireHungry 2, .poll 2 2, .step 2, .step 2, .step 2, .dropPermit 0, .wakeNext 0, .wakeNext 0,
      .poll 1 1, .step 1, .step 1, .poll 2 2, .step 2, .step 2, .step 2, .step 2, .dropPermit 1, .wakeNext 1,
      .poll 2 2, .step 2, .step 2] :=
  served_of_frugal (by decide)

/-- A future reads an empty counter, the permits come back before it queues,
and another takes one of the two between its load and its exchange. -/
theorem served_fails : ¬ Along step Served (new 2)
    [.acquire 2, .poll 0 0, .step 0, .step 0, .acquire 1, .poll 1 1, .step 1, .dropPermit 0, .wakeNext 0,
      .step 1, .step 1, .acquire 1, .poll 2 2, .step 2, .step 2, .step 1] := by
  decide

end Semaphore
end ClAsync
