/-
# The traffic of a completion queue

A completion queue with everything that can be done to it, in any order: the
entries the worker adds, the completions of the kernel, and polls of any keys
by any wakers. The kernel completes an operation once, or, if the operation
is persistent, any number of times; a completion says whether more will
follow (`IORING_CQE_F_MORE`, which the program does not read), and none
follows `ECANCELED`.

Along with the queue the state keeps a `Log` of each operation: what the
kernel has posted for it and which results polls have returned. `SlotOk`
tells what the slot holds after any such history, and `ok_step` is its
invariance.
-/
import ClAsync.Io.Completion

namespace ClAsync

/-- The history of the operation last added under a key: the codes posted for
it, whether the last of them is its final one, the results polls returned,
and whether it has been polled since the final code. -/
structure Log (κ φ : Type) where
  duration : IoDuration
  posted : List ℤ
  ended : Bool
  returned : List (IoCompletionResult κ φ)
  polled : Bool
  deriving DecidableEq

namespace Log

variable {κ φ : Type}

/-- The history of an operation just added. -/
def new (duration : IoDuration) : Log κ φ := ⟨duration, [], false, [], false⟩

/-- What the kernel may post: nothing after a final code, and only for a
persistent operation a code that is not final and not `ECANCELED`. -/
def MayPost (l : Log κ φ) (resultCode : ℤ) (more : Bool) : Prop :=
  l.ended = false ∧ (more = true → l.duration = .persistent ∧ resultCode ≠ -ecanceled)

instance (l : Log κ φ) (resultCode : ℤ) (more : Bool) : Decidable (l.MayPost resultCode more) :=
  inferInstanceAs (Decidable (_ ∧ _))

/-- The code is posted, and is the last unless `more`. -/
def post (l : Log κ φ) (resultCode : ℤ) (more : Bool) : Log κ φ :=
  { l with posted := l.posted ++ [resultCode], ended := !more }

/-- A poll returned `result`. -/
def record (l : Log κ φ) (result : Poll (Option (IoCompletionResult κ φ))) : Log κ φ :=
  { l with
    returned := match result with
      | .ready (some result) => l.returned ++ [result]
      | _ => l.returned
    polled := l.polled || l.ended }

end Log

namespace Traffic

variable {τ κ φ : Type}

/-- The completion queue of a worker, and the history of each key in it. -/
structure State (τ κ φ : Type) where
  queue : IoCompletionQueue τ κ φ
  log : Finmap fun _ : Key => Log κ φ

/-- No operation has been added. -/
def State.init : State τ κ φ := ⟨∅, ∅⟩

/-- What happens to the queue. A completion carries its code, and whether more
are to come. -/
inductive Event (τ : Type)
  | addEntry (key : Key) (op : IoOperation τ) (waker : Option Waker)
  | complete (key : Key) (resultCode : ℤ) (more : Bool)
  | poll (key : Key) (waker : Waker)

/-- The key that the event is about. -/
def Event.key : Event τ → Key
  | addEntry key _ _ => key
  | complete key _ _ => key
  | poll key _ => key

/-- The event starts the history of its key. -/
def Event.isAdd : Event τ → Bool
  | addEntry .. => true
  | complete .. | poll .. => false

/-! ### What a slot holds -/

/-- The slot of an operation with the given history. -/
inductive SlotOk : Option (Log κ φ) → Option (IoCompletionSlot τ κ φ) → Prop
  | absent : SlotOk none none
  | notCompleted (entry : IoEntry τ) (w : Option Waker) :
      SlotOk (some (.new entry.op.duration)) (some ⟨some (.notCompleted entry), w⟩)
  /-- A forgotten operation that completed; its slot stays until it is polled. -/
  | forgotten (resultCode : ℤ) (w : Option Waker) :
      SlotOk (some ⟨.zero, [resultCode], true, [], false⟩) (some ⟨some .completed, w⟩)
  | forgottenPolled (resultCode : ℤ) : SlotOk (some ⟨.zero, [resultCode], true, [], true⟩) none
  | single (resultCode : ℤ) (result : IoCompletionResult κ φ) (w : Option Waker) :
      SlotOk (some ⟨.single, [resultCode], true, [], false⟩) (some ⟨some (.single result), w⟩)
  | singlePolled (resultCode : ℤ) (result : IoCompletionResult κ φ) :
      SlotOk (some ⟨.single, [resultCode], true, [result], true⟩) none
  | running (posted : List ℤ) (ended polled : Bool) (returned : List (IoCompletionResult κ φ))
      (mcr : IoMultiCompletionResult τ κ φ) (w : Option Waker) (hstate : mcr.state = .running)
      (hne : posted ≠ []) (hposted : -ecanceled ∉ posted)
      (hresults : ∀ r ∈ returned ++ mcr.inner, isCanceled r = false) :
      SlotOk (some ⟨.persistent, posted, ended, returned, polled⟩) (some ⟨some (.multi mcr), w⟩)
  /-- `ECANCELED` was the first completion: `IoEntry::complete` does not look
  for it, and the slot never drains. -/
  | firstCanceled (polled : Bool) (returned : List (IoCompletionResult κ φ))
      (mcr : IoMultiCompletionResult τ κ φ) (result : IoCompletionResult κ φ) (w : Option Waker)
      (hstate : mcr.state = .running) (hresult : isCanceled result = true)
      (hresults : returned ++ mcr.inner = [result]) :
      SlotOk (some ⟨.persistent, [-ecanceled], true, returned, polled⟩)
        (some ⟨some (.multi mcr), w⟩)
  | draining (posted : List ℤ) (polled : Bool) (returned results : List (IoCompletionResult κ φ))
      (mcr : IoMultiCompletionResult τ κ φ) (result : IoCompletionResult κ φ) (w : Option Waker)
      (hstate : mcr.state = .draining) (hne : posted ≠ []) (hresult : isCanceled result = true)
      (hinner : mcr.inner = results ++ [result])
      (hresults : ∀ r ∈ returned ++ results, isCanceled r = false) :
      SlotOk (some ⟨.persistent, posted ++ [-ecanceled], true, returned, polled⟩)
        (some ⟨some (.multi mcr), w⟩)
  | drained (posted : List ℤ) (polled : Bool) (returned : List (IoCompletionResult κ φ))
      (result : IoCompletionResult κ φ) (hne : posted ≠ []) (hresult : isCanceled result = true) :
      SlotOk (some ⟨.persistent, posted ++ [-ecanceled], true, returned ++ [result], polled⟩) none

/-- A poll of a persistent operation that has completed. -/
theorem SlotOk.multiPoll {l : Log κ φ} {mcr : IoMultiCompletionResult τ κ φ} {w : Option Waker}
    (w' : Waker) (hs : SlotOk (some l) (some ⟨some (.multi mcr), w⟩)) :
    let polled := IoCompletionSlot.poll ⟨some (.multi mcr), w⟩ w'
    SlotOk (some (l.record polled.1)) polled.2 := by
  obtain ⟨inner, op, state⟩ := mcr
  cases hs with
  | running posted ended polled returned _ _ hstate hne hposted hresults =>
    subst hstate
    cases inner with
    | nil => exact .running posted ended _ returned _ _ rfl hne hposted hresults
    | cons r rest =>
      refine .running posted ended _ (returned ++ [r]) ⟨rest, op, .running⟩ w rfl hne hposted ?_
      rwa [List.append_assoc]
  | firstCanceled polled returned _ result _ hstate hresult hresults =>
    subst hstate
    cases inner with
    | nil => exact .firstCanceled _ returned _ result _ rfl hresult hresults
    | cons r rest =>
      refine .firstCanceled _ (returned ++ [r]) ⟨rest, op, .running⟩ result w rfl hresult ?_
      rwa [List.append_assoc]
  | draining posted polled returned results _ result _ hstate hne hresult hinner hresults =>
    subst hstate
    cases results with
    | nil =>
      cases hinner
      exact .drained posted _ returned result hne hresult
    | cons r rest =>
      subst hinner
      have hpoll : IoCompletionSlot.poll
          ⟨some (.multi ⟨r :: rest ++ [result], op, .draining⟩), w⟩ w' =
          (.ready (some r), some ⟨some (.multi ⟨rest ++ [result], op, .draining⟩), w⟩) := by
        simp [IoCompletionSlot.poll, IoCompletionSlot.tryExtractResult,
          IoCompletionState.intoResult, IoCompletionSlot.isValidState]
      rw [hpoll]
      refine .draining posted _ (returned ++ [r]) rest _ result w rfl hne hresult rfl ?_
      rwa [List.append_assoc]

theorem SlotOk.poll {l : Option (Log κ φ)} {slot : Option (IoCompletionSlot τ κ φ)} (w' : Waker)
    (hs : SlotOk l slot) :
    SlotOk (l.map fun l => l.record ((slot.map fun slot => (slot.poll w').1).getD (.ready none)))
      (slot.bind fun slot => (slot.poll w').2) := by
  cases hs with
  | absent => exact .absent
  | notCompleted entry w => exact .notCompleted entry (some w')
  | forgotten resultCode w => exact .forgottenPolled resultCode
  | forgottenPolled resultCode => exact .forgottenPolled resultCode
  | single resultCode result w => exact .singlePolled resultCode result
  | singlePolled resultCode result => exact .singlePolled resultCode result
  | running posted ended polled returned mcr w hstate hne hposted hresults =>
    exact multiPoll w' (.running posted ended polled returned mcr w hstate hne hposted hresults)
  | firstCanceled polled returned mcr result w hstate hresult hresults =>
    exact multiPoll w' (.firstCanceled polled returned mcr result w hstate hresult hresults)
  | draining posted polled returned results mcr result w hstate hne hresult hinner hresults =>
    exact multiPoll w'
      (.draining posted polled returned results mcr result w hstate hne hresult hinner hresults)
  | drained posted polled returned result hne hresult =>
    exact .drained posted _ returned result hne hresult

/-- In every state of every run, the slots are as the histories say. -/
def Ok (s : State τ κ φ) : Prop := ∀ k, SlotOk (s.log.lookup k) (s.queue.lookup k)

theorem ok_init : Ok (State.init : State τ κ φ) := fun _ => .absent

variable [CompletableOperation τ κ φ]

/-- The first code the kernel posts. -/
theorem SlotOk.firstComplete (entry : IoEntry τ) (w : Option Waker) {resultCode : ℤ} {more : Bool}
    (h : (Log.new entry.op.duration : Log κ φ).MayPost resultCode more) :
    SlotOk (some ((Log.new entry.op.duration).post resultCode more))
      (some ⟨some (entry.complete resultCode), w⟩) := by
  have hdur : (entry.op.complete resultCode).2.duration = entry.op.duration :=
    IoOperation.complete_duration entry.op resultCode
  have hcan := IoOperation.isCanceled_complete entry.op resultCode
  simp only [IoEntry.complete, hdur]
  cases hd : entry.op.duration with
  | zero =>
    obtain rfl : more = false := eq_false_of_ne_true fun hm => by cases hd.symm.trans (h.2 hm).1
    exact .forgotten resultCode w
  | single =>
    obtain rfl : more = false := eq_false_of_ne_true fun hm => by cases hd.symm.trans (h.2 hm).1
    exact .single resultCode _ w
  | persistent =>
    by_cases hcode : resultCode = -ecanceled
    · obtain rfl : more = false := eq_false_of_ne_true fun hm => (h.2 hm).2 hcode
      subst hcode
      exact .firstCanceled false [] _ _ w rfl (by rw [hcan]; rfl) rfl
    · refine .running [resultCode] (!more) false [] _ w rfl (by simp) ?_ ?_
      · rw [List.mem_singleton]
        exact fun he => hcode he.symm
      · intro r hr
        rw [List.nil_append] at hr
        rw [List.mem_singleton.mp hr, hcan, decide_eq_false hcode]

/-- A further code for a running persistent operation. -/
theorem SlotOk.multiComplete {posted : List ℤ} {returned : List (IoCompletionResult κ φ)}
    {mcr : IoMultiCompletionResult τ κ φ} {polled more : Bool} (w : Option Waker) {resultCode : ℤ}
    (hstate : mcr.state = .running) (hne : posted ≠ []) (hposted : -ecanceled ∉ posted)
    (hresults : ∀ r ∈ returned ++ mcr.inner, isCanceled r = false)
    (hmore : resultCode = -ecanceled → more = false) :
    SlotOk (some ⟨.persistent, posted ++ [resultCode], !more, returned, polled⟩)
      (some ⟨some (.multi (mcr.complete resultCode)), w⟩) := by
  have hcan := IoOperation.isCanceled_complete mcr.op resultCode
  by_cases hcode : resultCode = -ecanceled
  · obtain rfl := hmore hcode
    subst hcode
    refine .draining posted polled returned mcr.inner _ (mcr.op.complete (-ecanceled)).1 w ?_ hne ?_
      rfl hresults
    · simp only [IoMultiCompletionResult.complete, hcan, decide_true, ↓reduceIte]
    · rw [hcan]
      exact decide_eq_true rfl
  · refine .running (posted ++ [resultCode]) (!more) polled returned _ w ?_ (by simp) ?_ ?_
    · simp only [IoMultiCompletionResult.complete, hcan, decide_eq_false hcode, Bool.false_eq_true,
        ↓reduceIte, hstate]
    · rw [List.mem_append, List.mem_singleton]
      rintro (hm | he)
      · exact hposted hm
      · exact hcode he.symm
    · intro r hr
      simp only [IoMultiCompletionResult.complete] at hr
      rw [← List.append_assoc, List.mem_append, List.mem_singleton] at hr
      rcases hr with hr | rfl
      · exact hresults r hr
      · rw [hcan, decide_eq_false hcode]

theorem SlotOk.complete {l : Log κ φ} {slot : Option (IoCompletionSlot τ κ φ)} {resultCode : ℤ}
    {more : Bool} (hs : SlotOk (some l) slot) (h : l.MayPost resultCode more) :
    SlotOk (some (l.post resultCode more)) (slot.bind fun slot => (slot.complete resultCode).2) := by
  cases hs with
  | notCompleted entry w => exact firstComplete entry w h
  | running posted ended polled _ mcr w hstate hne hposted hresults =>
    exact multiComplete w hstate hne hposted hresults fun hcode =>
      eq_false_of_ne_true fun hm => (h.2 hm).2 hcode
  | _ => cases h.1

/-! ### Steps, one key at a time -/

/-- An entry is added, and the history of its key begins anew. -/
def State.addEntry (s : State τ κ φ) (key : Key) (op : IoOperation τ) (waker : Option Waker) :
    State τ κ φ :=
  ⟨s.queue.addEntry key ⟨op, key⟩ waker, s.log.insert key (.new op.duration)⟩

/-- A completion that the kernel may post is consumed. -/
def State.complete (s : State τ κ φ) (key : Key) (resultCode : ℤ) (more : Bool) :
    Option (State τ κ φ) :=
  match s.log.lookup key with
  | none => none
  | some l =>
    if l.MayPost resultCode more then
      some ⟨(s.queue.complete key resultCode).2, s.log.insert key (l.post resultCode more)⟩
    else none

/-- The queue is polled, and the result recorded. -/
def State.poll (s : State τ κ φ) (key : Key) (w : Waker) :
    Poll (Option (IoCompletionResult κ φ)) × State τ κ φ :=
  let polled := s.queue.poll key w
  (polled.1, ⟨polled.2, match s.log.lookup key with
    | none => s.log
    | some l => s.log.insert key (l.record polled.1)⟩)

/-- One event. -/
def step (s : State τ κ φ) : Event τ → Option (State τ κ φ)
  | .addEntry key op waker => some (s.addEntry key op waker)
  | .complete key resultCode more => s.complete key resultCode more
  | .poll key w => some (s.poll key w).2

theorem step_poll (s : State τ κ φ) (key : Key) (w : Waker) :
    step s (.poll key w) = some (s.poll key w).2 := rfl

/-- What a step does to the log and the slot of its key. -/
inductive SlotStep : Event τ → Option (Log κ φ) → Option (IoCompletionSlot τ κ φ) →
    Option (Log κ φ) → Option (IoCompletionSlot τ κ φ) → Prop
  | addEntry (key : Key) (op : IoOperation τ) (waker : Option Waker) (l : Option (Log κ φ))
      (slot : Option (IoCompletionSlot τ κ φ)) :
      SlotStep (.addEntry key op waker) l slot (some (.new op.duration))
        (some (.new ⟨op, key⟩ waker))
  | complete (key : Key) (resultCode : ℤ) (more : Bool) (l : Log κ φ)
      (slot : Option (IoCompletionSlot τ κ φ)) (h : l.MayPost resultCode more) :
      SlotStep (.complete key resultCode more) (some l) slot (some (l.post resultCode more))
        (slot.bind fun slot => (slot.complete resultCode).2)
  | poll (key : Key) (w : Waker) (l : Option (Log κ φ)) (slot : Option (IoCompletionSlot τ κ φ)) :
      SlotStep (.poll key w) l slot
        (l.map fun l => l.record ((slot.map fun slot => (slot.poll w).1).getD (.ready none)))
        (slot.bind fun slot => (slot.poll w).2)

/-- A step is a step of its key's log and slot, and leaves the other keys
alone. -/
theorem step_cases {s s' : State τ κ φ} {e : Event τ} (h : step s e = some s') :
    SlotStep e (s.log.lookup e.key) (s.queue.lookup e.key)
      (s'.log.lookup e.key) (s'.queue.lookup e.key) ∧
    ∀ k, k ≠ e.key → s'.log.lookup k = s.log.lookup k ∧ s'.queue.lookup k = s.queue.lookup k := by
  cases e with
  | addEntry key op waker =>
    cases h
    simp only [Event.key, State.addEntry, IoCompletionQueue.lookup_addEntry, ↓reduceIte,
      Finmap.lookup_insert]
    exact ⟨.addEntry .., fun k hk => ⟨Finmap.lookup_insert_of_ne _ hk, if_neg hk⟩⟩
  | complete key resultCode more =>
    simp only [step, State.complete] at h
    split at h
    · cases h
    · rename_i l hl
      split at h
      · rename_i hm
        cases h
        simp only [Event.key, IoCompletionQueue.lookup_complete, ↓reduceIte, hl,
          Finmap.lookup_insert]
        exact ⟨.complete _ _ _ _ _ hm, fun k hk => ⟨Finmap.lookup_insert_of_ne _ hk, if_neg hk⟩⟩
      · cases h
  | poll key w =>
    have hp := SlotStep.poll key w (s.log.lookup key) (s.queue.lookup key)
    obtain rfl : (s.poll key w).2 = s' := Option.some.inj h
    simp only [Event.key, State.poll, IoCompletionQueue.lookup_poll, ↓reduceIte]
    cases hl : s.log.lookup key with
    | none =>
      rw [hl] at hp
      rw [hl]
      exact ⟨hp, fun k hk => ⟨rfl, if_neg hk⟩⟩
    | some l =>
      rw [hl] at hp
      rw [Finmap.lookup_insert, IoCompletionQueue.poll_fst]
      exact ⟨hp, fun k hk => ⟨Finmap.lookup_insert_of_ne _ hk, if_neg hk⟩⟩

/-- A completion, on the log and the slot of its key and on the others. -/
theorem complete_cases {t t' : State τ κ φ} {key : Key} {resultCode : ℤ} {more : Bool} (h : t.complete key resultCode more = some t') :
    (∃ l, t.log.lookup key = some l ∧ t'.log.lookup key = some (l.post resultCode more) ∧
      t'.queue.lookup key = (t.queue.lookup key).bind fun slot => (slot.complete resultCode).2) ∧
    ∀ k, k ≠ key → t'.log.lookup k = t.log.lookup k ∧ t'.queue.lookup k = t.queue.lookup k := by
  obtain ⟨hkey, hother⟩ := step_cases (e := .complete key resultCode more) h
  refine ⟨?_, hother⟩
  simp only [Event.key] at hkey
  generalize t.log.lookup key = l, t'.log.lookup key = l', t.queue.lookup key = slot,
    t'.queue.lookup key = slot' at hkey ⊢
  cases hkey with
  | complete _ _ _ l slot hm => exact ⟨l, rfl, rfl, rfl⟩

/-- A completion that may be posted can be consumed. -/
theorem complete_isSome {t : State τ κ φ} {key : Key} {l : Log κ φ} {resultCode : ℤ} {more : Bool} (hl : t.log.lookup key = some l)
    (hm : l.MayPost resultCode more) : ∃ t', t.complete key resultCode more = some t' := by
  unfold State.complete
  rw [hl]
  simp only [if_pos hm]
  exact ⟨_, rfl⟩

/-- A poll, likewise. -/
theorem poll_cases (t : State τ κ φ) (key : Key) (w : Waker) :
    (t.poll key w).1 = ((t.queue.lookup key).map fun slot => (slot.poll w).1).getD (.ready none) ∧
    ((t.poll key w).2.log.lookup key = (t.log.lookup key).map (fun l => l.record
        (((t.queue.lookup key).map fun slot => (slot.poll w).1).getD (.ready none))) ∧
      (t.poll key w).2.queue.lookup key = ((t.queue.lookup key).bind fun slot => (slot.poll w).2)) ∧
    ∀ k, k ≠ key → (t.poll key w).2.log.lookup k = t.log.lookup k ∧
      (t.poll key w).2.queue.lookup k = t.queue.lookup k := by
  obtain ⟨hkey, hother⟩ := step_cases (step_poll t key w)
  refine ⟨IoCompletionQueue.poll_fst w, ?_, hother⟩
  simp only [Event.key] at hkey
  generalize t.log.lookup key = l, (t.poll key w).2.log.lookup key = l', t.queue.lookup key = slot,
    (t.poll key w).2.queue.lookup key = slot' at hkey ⊢
  cases hkey with
  | poll _ _ l slot => exact ⟨rfl, rfl⟩

omit [CompletableOperation τ κ φ] in
/-- A new entry, likewise. -/
theorem addEntry_lookup (t : State τ κ φ) (key : Key) (op : IoOperation τ)
    (waker : Option Waker) :
    (t.addEntry key op waker).log.lookup key = some (.new op.duration) ∧
    (t.addEntry key op waker).queue.lookup key = some (.new ⟨op, key⟩ waker) ∧
    ∀ k, k ≠ key → (t.addEntry key op waker).log.lookup k = t.log.lookup k ∧
      (t.addEntry key op waker).queue.lookup k = t.queue.lookup k := by
  refine ⟨Finmap.lookup_insert _, Finmap.lookup_insert _, fun k hk => ⟨?_, ?_⟩⟩
  · exact Finmap.lookup_insert_of_ne _ hk
  · exact Finmap.lookup_insert_of_ne _ hk

/-- A property of every key's log and slot is kept by a step if the step of
its key keeps it. -/
theorem forall_key_step {P : Option (Log κ φ) → Option (IoCompletionSlot τ κ φ) → Prop}
    {s s' : State τ κ φ} {e : Event τ} (h : step s e = some s')
    (hP : ∀ k, P (s.log.lookup k) (s.queue.lookup k))
    (hkey : P (s'.log.lookup e.key) (s'.queue.lookup e.key)) :
    ∀ k, P (s'.log.lookup k) (s'.queue.lookup k) := by
  intro k
  by_cases hk : k = e.key
  · rw [hk]
    exact hkey
  · obtain ⟨hl, hq⟩ := (step_cases h).2 k hk
    rw [hl, hq]
    exact hP k

theorem SlotStep.slotOk {e : Event τ} {l l' : Option (Log κ φ)}
    {slot slot' : Option (IoCompletionSlot τ κ φ)} (h : SlotStep e l slot l' slot')
    (hs : SlotOk l slot) : SlotOk l' slot' := by
  cases h with
  | addEntry key op waker _ _ => exact .notCompleted ⟨op, key⟩ waker
  | complete key resultCode more l _ hm => exact hs.complete hm
  | poll key w => exact hs.poll w

/-- No event but `addEntry` starts the history of a key, and none takes a code
back. -/
theorem log_step {s s' : State τ κ φ} {e : Event τ} (h : step s e = some s')
    (he : e.isAdd = false) (k : Key) :
    (s.log.lookup k = none ∧ s'.log.lookup k = none) ∨
      ∃ l l', s.log.lookup k = some l ∧ s'.log.lookup k = some l' ∧
        (l.posted ≠ [] → l'.posted ≠ []) := by
  obtain ⟨hkey, hother⟩ := step_cases h
  by_cases hk : k = e.key
  · subst hk
    generalize s.log.lookup e.key = l, s'.log.lookup e.key = l', s.queue.lookup e.key = slot,
      s'.queue.lookup e.key = slot' at hkey ⊢
    cases hkey with
    | addEntry key op waker => cases he
    | complete key resultCode more l =>
      exact Or.inr ⟨l, l.post resultCode more, rfl, rfl, fun _ => by simp [Log.post]⟩
    | poll key w =>
      cases l with
      | none => exact Or.inl ⟨rfl, rfl⟩
      | some l => exact Or.inr ⟨l, l.record _, rfl, rfl, id⟩
  · rw [(hother k hk).1]
    cases s.log.lookup k with
    | none => exact Or.inl ⟨rfl, rfl⟩
    | some l => exact Or.inr ⟨l, l, rfl, rfl, id⟩

theorem ok_step {s s' : State τ κ φ} {e : Event τ} (h : step s e = some s') (hs : Ok s) : Ok s' :=
  forall_key_step h hs ((step_cases h).1.slotOk (hs e.key))

end Traffic

end ClAsync
