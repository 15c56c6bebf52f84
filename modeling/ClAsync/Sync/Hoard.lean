/-
# What a hungry future collects

A hungry future takes everything there is when it is not enough for what it
still needs. `Short` says so of the result: it never has more than it wants,
and less than that when its poll returns `Pending`.

A poll that has queued its waker takes everything after it failed to take
what it needs, too, with the value that was enough. If the counter has come
back to that value by then, the poll collects all it wanted and more, and
waits. `short_iff_lacking` says that nothing else goes wrong: the futures stay
short exactly in the runs in which what is taken is less than what is needed.

Key definitions: `Short`, `Lacking`, `Hoarding`.
Key theorem: `short_iff_lacking`.
-/
import ClAsync.Sync.SemaphoreProgress

namespace ClAsync
namespace Semaphore

open Wakers Runs

/-- A hungry future has at most what it wants, and less when it waits. -/
def ShortFuture (f : SemaphoreFuture) : Prop :=
  f.data.state ≠ .polite → f.data.state.count ≤ f.data.desired ∧
    (f.phase = .pending → f.data.state.count < f.data.desired)

instance (f : SemaphoreFuture) : Decidable (ShortFuture f) := inferInstanceAs (Decidable (_ → _ ∧ (_ → _)))

def Short (s : State) : Prop := ∀ f ∈ s.futures, ShortFuture f

instance (s : State) : Decidable (Short s) := inferInstanceAs (Decidable (∀ f ∈ s.futures, _))

/-- The poll is about to take everything, and the counter is what it read. -/
def takesAll (permits : ℕ) (f : SemaphoreFuture) : Bool :=
  match f.phase with
  | .polling (.exchangeAll _ read) => decide (permits = read)
  | _ => false

/-- A poll that takes everything needs more, unless its count overflows. -/
def Lacking (s : State) : Act → Prop
  | .step i => ∀ f ∈ s.futures[i]?, takesAll s.permits f = true →
      s.permits < lacks f ∨ usizeCount ≤ f.data.state.count + s.permits
  | _ => True

instance (s : State) : ∀ a, Decidable (Lacking s a)
  | .step _ => by dsimp only [Lacking]; infer_instance
  | .acquire _ | .acquireHungry _ | .poll _ _ | .dropFuture _ | .dropPermit _ | .wakeNext _ => instDecidableTrue

/-! ### What a poll collects -/

/-- A poll only queues its waker, or takes everything, while it needs
something; and before it has queued, it takes everything when that is less
than it needs. -/
def needsPc (desired : ℕ) (st : SemaphoreFutureState) : Pc → Prop
  | .load queued => queued = true → 0 < needed desired st
  | .exchangeNeeded queued _ => queued = true → 0 < needed desired st
  | .exchangeAll queued read => 0 < needed desired st ∧ (queued = false → read < needed desired st)
  | .push => 0 < needed desired st

theorem orHungry_needs {desired read : ℕ} {st : SemaphoreFutureState} {queued : Bool} (h : 0 < needed desired st)
    (hread : queued = false → read < needed desired st) {pc : Pc} (hn : orHungry st queued read = .goto pc) :
    needsPc desired st pc := by
  rcases orHungry_cases st queued read with ⟨hgoto, -⟩ | ⟨hwait, -⟩
  · cases hgoto.symm.trans hn
    exact ⟨h, hread⟩
  · cases queued with
    | true => cases hwait.symm.trans hn
    | false =>
      cases hwait.symm.trans hn
      exact h

/-- An atomic step goes on with a need, and waits with one that it found. -/
theorem semFut_needs {desired permits permits' : ℕ} {st st' : SemaphoreFutureState} {pc : Pc} {next : Next}
    (hw : needsPc desired st pc) (hs : semFut desired st permits pc = (permits', st', next)) :
    (∀ pc', next = .goto pc' → needsPc desired st' pc') ∧ (next = .pending → 0 < needed desired st) := by
  cases polled_of_semFut hs with
  | enough queued =>
    refine ⟨fun pc' h => ?_, fun h => by cases h⟩
    cases h
    exact hw
  | short queued hlt =>
    have hneeds : 0 < needed desired st := Nat.zero_lt_of_lt hlt
    exact ⟨fun pc' h => orHungry_needs hneeds (fun _ => hlt) h, fun _ => hneeds⟩
  | take => exact ⟨fun _ h => (by cases h), fun h => by cases h⟩
  | goOn read => exact ⟨fun pc' h => orHungry_needs (hw rfl) (fun h => by cases h) h, fun _ => hw rfl⟩
  | retry | retryAll =>
    refine ⟨fun pc' h => ?_, fun h => by cases h⟩
    cases h
    exact fun h => by cases h
  | takeAll queued =>
    cases queued with
    | false =>
      refine ⟨fun pc' h => ?_, fun h => by cases h⟩
      cases h
      -- what was read is less than what the future needs
      have hlt := hw.2 rfl
      have hle := count_collect_le st permits
      simp only [needsPc, needed] at hlt ⊢
      omega
    | true => exact ⟨fun _ h => (by cases h), fun _ => hw.1⟩
  | wait => exact ⟨fun _ h => (by cases h), fun _ => hw.1⟩
  | push =>
    refine ⟨fun pc' h => ?_, fun h => by cases h⟩
    cases h
    exact fun _ => hw

/-- What a future has while its polls take less than they need: never too
much, and a need wherever the poll queues or waits. -/
structure Hoarding (f : SemaphoreFuture) : Prop where
  ok : FutureOk f
  le : f.data.state.count ≤ f.data.desired
  wants : ∀ pc, f.phase = .polling pc → needsPc f.data.desired f.data.state pc
  waits : f.phase = .pending → f.data.state.count < f.data.desired

theorem short_of_hoarding {f : SemaphoreFuture} (h : Hoarding f) : ShortFuture f := fun _ => ⟨h.le, h.waits⟩

theorem takesAll_of_polling {f : SemaphoreFuture} {queued : Bool} {permits : ℕ}
    (hp : f.phase = .polling (.exchangeAll queued permits)) : takesAll permits f = true := by
  simp [takesAll, hp]

/-- Less than a future needs leaves it with less than it wants; so does a sum
that wraps around. -/
theorem count_collect_lt_desired {desired permits : ℕ} {st : SemaphoreFutureState} (hpermits : permits < usizeCount)
    (hle : st.count < desired) (hbounded : st.count < usizeCount)
    (hlack : permits < needed desired st ∨ usizeCount ≤ st.count + permits) : (collect st permits).count < desired := by
  cases st with
  | polite => exact hle
  | hungry count =>
    simp only [collect, SemaphoreFutureState.count, needed] at hle hbounded hlack ⊢
    obtain hlack | hwrap := hlack
    · calc (count + permits) % usizeCount ≤ count + permits := Nat.mod_le _ _
        _ < desired := by omega
    · have hmod : (count + permits) % usizeCount = count + permits - usizeCount := by
        rw [Nat.mod_eq_sub_mod hwrap, Nat.mod_eq_of_lt (by omega)]
      omega

/-- An atomic step leaves the count, or adds all the permits to it. -/
theorem count_semFut_le {f : SemaphoreFuture} {pc : Pc} {permits permits' : ℕ} {st : SemaphoreFutureState} {next : Next}
    (hf : Hoarding f) (hp : f.phase = .polling pc) (hpermits : permits < usizeCount)
    (hs : semFut f.data.desired f.data.state permits pc = (permits', st, next))
    (hc : takesAll permits f = true → permits < lacks f ∨ usizeCount ≤ f.data.state.count + permits) :
    st = f.data.state ∨ st.count < f.data.desired := by
  cases polled_of_semFut hs with
  | takeAll queued =>
    have hneeds : 0 < needed f.data.desired f.data.state := (hf.wants _ hp).1
    refine .inr (count_collect_lt_desired hpermits ?_ hf.ok.bounded (hc (takesAll_of_polling hp)))
    unfold needed at hneeds
    omega
  | _ => exact .inl rfl

theorem hoarding_advance {f : SemaphoreFuture} {pc : Pc} {permits permits' : ℕ} {st : SemaphoreFutureState} {next : Next}
    (hf : Hoarding f) (hp : f.phase = .polling pc) (hpermits : permits < usizeCount)
    (hs : semFut f.data.desired f.data.state permits pc = (permits', st, next))
    (hc : takesAll permits f = true → permits < lacks f ∨ usizeCount ≤ f.data.state.count + permits) :
    Hoarding (advance f st next) := by
  have hok : FutureOk (advance f st next) := futureOk_inv.advance f pc _ _ st next hp hs hf.ok
  have hcount := count_semFut_le hf hp hpermits hs hc
  have hle : st.count ≤ f.data.desired := hcount.elim (fun h => h ▸ hf.le) le_of_lt
  obtain ⟨hgoto, hend⟩ := semFut_needs (hf.wants pc hp) hs
  cases next with
  | goto pc' =>
    refine ⟨hok, hle, fun pc'' h => ?_, fun h => (by cases h)⟩
    cases h
    exact hgoto pc' rfl
  | ready => exact ⟨hok, hle, fun _ h => (by cases h), fun h => (by cases h)⟩
  | pending =>
    refine ⟨hok, hle, fun _ h => (by cases h), fun _ => ?_⟩
    obtain rfl | hlt := hcount
    · have hneeds : 0 < needed f.data.desired f.data.state := hend rfl
      show f.data.state.count < f.data.desired
      unfold needed at hneeds
      omega
    · exact hlt

/-! ### What every run collects -/

theorem hoarding_new (n : ℕ) {st : SemaphoreFutureState} (h : st = .polite ∨ st = .hungry 0) :
    Hoarding (.new ⟨n, st, none⟩) := by
  refine ⟨futureOk_new n h, ?_, fun _ h => (by cases h), fun h => (by cases h)⟩
  rcases h with rfl | rfl <;> exact Nat.zero_le n

theorem hoarding_wakeBy {f : SemaphoreFuture} (w : ℕ) (h : Hoarding f) : Hoarding (f.wakeBy w) where
  ok := futureOk_inv.wake f w h.ok
  le := by simpa using h.le
  wants := by simpa using h.wants
  waits := by simpa using h.waits

/-- The counter is a `usize`, and every future hoards. -/
structure HoardInv (s : State) : Prop where
  permits : s.permits < usizeCount
  futures : ∀ f ∈ s.futures, Hoarding f

theorem semFut_permits_lt {desired permits permits' : ℕ} {st st' : SemaphoreFutureState} {pc : Pc} {next : Next}
    (hs : semFut desired st permits pc = (permits', st', next)) (h : permits < usizeCount) : permits' < usizeCount := by
  cases polled_of_semFut hs with
  | take => exact lt_of_le_of_lt (Nat.sub_le _ _) h
  | takeAll => exact lt_of_le_of_lt (Nat.zero_le _) h
  | _ => exact h

theorem hoardInv_step {s s' : State} {a : Act} (hI : HoardInv s) (hc : Lacking s a) (h : step s a = some s') :
    HoardInv s' := by
  have hmem {i : ℕ} {f : SemaphoreFuture} (hf : s.futures[i]? = some f) : Hoarding f :=
    hI.futures f (List.mem_of_getElem? hf)
  have hwraps (n : ℕ) : (s.permits + n) % usizeCount < usizeCount := Nat.mod_lt _ (by decide)
  cases step_cases h with
  | create n st _ ha =>
    have hnew := hoarding_new n (ha.imp (·.2) (·.2))
    exact ⟨hI.permits, List.forall_mem_append.mpr ⟨hI.futures, List.forall_mem_singleton.mpr hnew⟩⟩
  | poll i w f hf hp =>
    have hold := hmem hf
    refine ⟨hI.permits, forall_mem_set hI.futures ⟨futureOk_inv.poll f w hp hold.ok, hold.le, fun pc h => ?_,
      fun h => (by cases h)⟩⟩
    cases h
    exact fun h => (by cases h)
  | step i f pc permits st next hf hp hs =>
    exact ⟨semFut_permits_lt hs hI.permits,
      forall_mem_set hI.futures (hoarding_advance (hmem hf) hp hI.permits hs (hc f hf))⟩
  | dropEmpty i f hf hp =>
    have hold := hmem hf
    exact ⟨hI.permits, forall_mem_set hI.futures ⟨futureOk_inv.drop f hp hold.ok, hold.le, fun _ h => (by cases h),
      fun h => (by cases h)⟩⟩
  | dropHoard i f hf hp =>
    have hold := hmem hf
    exact ⟨hwraps _, forall_mem_set hI.futures ⟨futureOk_inv.drop f hp hold.ok, hold.le, fun _ h => (by cases h),
      fun h => (by cases h)⟩⟩
  | dropPermit i f weight hf hw =>
    have hold := hmem hf
    exact ⟨hwraps _, forall_mem_set hI.futures ⟨futureOk_inv.dropPermit f weight hw hold.ok, hold.le, hold.wants,
      hold.waits⟩⟩
  | wakeNone => exact ⟨hI.permits, hI.futures⟩
  | wakeOne r left w => exact ⟨hI.permits, forall_mem_wake fun f hf => hoarding_wakeBy w (hI.futures f hf)⟩

/-- A poll that takes as much as it needs, or more, does so after it has
queued its waker, and returns `Pending`. -/
theorem not_short_of_not_lacking {s s' : State} {a : Act} (hI : HoardInv s) (hc : ¬ Lacking s a)
    (h : step s a = some s') : ¬ Short s' := by
  cases step_cases h with
  | create n st _ ha =>
    obtain ⟨rfl, -⟩ | ⟨rfl, -⟩ := ha <;> exact absurd trivial hc
  | step i f pc permits st next hf hp hs =>
    have hold := hI.futures f (List.mem_of_getElem? hf)
    simp only [Lacking, hf, Option.mem_def, Option.some.injEq, forall_eq', not_forall, not_or, not_lt, not_le] at hc
    obtain ⟨htakes, hneeds, hfits⟩ := hc
    obtain ⟨queued, rfl⟩ : ∃ queued, pc = .exchangeAll queued s.permits := by
      cases pc with
      | exchangeAll queued read =>
        simp only [takesAll, hp, decide_eq_true_eq] at htakes
        exact ⟨queued, by rw [htakes]⟩
      | _ => simp [takesAll, hp] at htakes
    obtain ⟨hpos, hunqueued⟩ := hold.wants _ hp
    obtain ⟨⟨count, hcount⟩, -⟩ := hold.ok.read _ hp
    cases queued with
    | false => exact absurd (hunqueued rfl) (Nat.not_lt.mpr hneeds)
    | true =>
      simp only [semFut, if_true, Prod.mk.injEq] at hs
      obtain ⟨-, rfl, rfl⟩ := hs
      intro hshort
      have hmem : advance f (collect f.data.state s.permits) .pending ∈
          s.futures.set i (advance f (collect f.data.state s.permits) .pending) :=
        List.mem_set (List.getElem?_eq_some_iff.mp hf).1 _
      have hlt := (hshort _ hmem (by simp [advance, hcount, collect])).2 rfl
      simp only [advance, lacks, needed, hcount, collect, SemaphoreFutureState.count] at hlt hneeds hfits
      rw [Nat.mod_eq_of_lt hfits] at hlt
      omega
  | _ => exact absurd trivial hc

/-- **The hungry futures stay short exactly in the runs in which a poll that
takes everything needs more.** -/
theorem short_iff_lacking {permits : ℕ} (hpermits : permits < usizeCount) (as : List Act) :
    Along step Short (new permits) as ↔ Taken step Lacking (new permits) as := by
  have hnew : ∀ f ∈ (new permits).futures, Hoarding f := fun f hf => (by cases hf)
  have hshort {s : State} (hI : HoardInv s) : Short s := fun f hf => short_of_hoarding (hI.futures f hf)
  refine along_iff_taken (fun s a s' hI _ hc h => ?_) (fun s a s' hI _ hc h => not_short_of_not_lacking hI hc h)
    ⟨hpermits, hnew⟩ (hshort ⟨hpermits, hnew⟩)
  have hI' := hoardInv_step hI hc h
  exact ⟨hI', hshort hI'⟩

/-- A future of two permits collects them one by one. -/
def collected : List Act :=
  [.acquire 1, .poll 0 0, .step 0, .step 0, .acquireHungry 2, .poll 1 1, .step 1, .step 1, .step 1, .step 1,
    .dropPermit 0, .wakeNext 0, .poll 1 1, .step 1, .step 1]

theorem short_collected : Along step Short (new 2) collected :=
  (short_iff_lacking (by decide) collected).mpr (by decide)

/-- The future has collected one permit and reads the other; it is taken
before the poll does, and comes back. -/
def takenBetween : List Act :=
  [.acquire 1, .poll 0 0, .step 0, .step 0, .acquireHungry 2, .poll 1 1, .step 1, .step 1, .step 1, .dropPermit 0,
    .step 1, .acquire 1, .poll 2 2, .step 2, .step 2, .step 1, .dropPermit 2, .step 1]

theorem short_fails : ¬ Along step Short (new 2) takenBetween := by
  decide

end Semaphore
end ClAsync
