/-
# The delivery of completion results

What polls of a key return, against what the kernel completes for its
operation. A single operation has one result, a persistent one the results of
all its completions, each from what the ones before have left of the
operation (`IoOperation.results`). `Holds` says where these results are: those
not yet returned are in the slot, in order, and a slot that has lost its
state has none left to give.

Key theorem: `delivered`. Results are returned once each and in order, a poll
is pending when none is left and the slot is there, and the waker of a
pending poll is the one the next completion wakes.
-/
import ClAsync.Io.Traffic
import ClAsync.Lib.Runs

namespace ClAsync

variable {τ κ φ : Type} [CompletableOperation τ κ φ]

namespace IoOperation

/-- What the completions leave of the operation. -/
def after (op : IoOperation τ) : List ℤ → IoOperation τ
  | [] => op
  | code :: codes => (op.complete code).2.after codes

/-- The results of the completions, in order. -/
def results (op : IoOperation τ) : List ℤ → List (IoCompletionResult κ φ)
  | [] => []
  | code :: codes => (op.complete code).1 :: (op.complete code).2.results codes

theorem after_concat (code : ℤ) : ∀ (op : IoOperation τ) (codes : List ℤ),
    op.after (codes ++ [code]) = ((op.after codes).complete code).2
  | _, [] => rfl
  | op, c :: codes => after_concat code (op.complete c).2 codes

theorem results_concat (code : ℤ) : ∀ (op : IoOperation τ) (codes : List ℤ),
    op.results (codes ++ [code]) = op.results codes ++ [((op.after codes).complete code).1]
  | _, [] => rfl
  | op, c :: codes => congrArg ((op.complete c).1 :: ·) (results_concat code (op.complete c).2 codes)

end IoOperation

/-- The results of the operation that polls have not returned yet. -/
def Log.due (l : Log κ φ) (op : IoOperation τ) : List (IoCompletionResult κ φ) :=
  (op.results l.posted).drop l.returned.length

namespace Traffic

open Runs

/-! ### Where the results are -/

/-- The slot of `op` with the given history holds the results that are due. -/
inductive Holds (op : IoOperation τ) : Log κ φ → Option (IoCompletionSlot τ κ φ) → Prop
  | notCompleted (key : Key) (w : Option Waker) :
      Holds op (.new op.duration) (some ⟨some (.notCompleted ⟨op, key⟩), w⟩)
  | single (resultCode : ℤ) (polled : Bool) (w : Option Waker) :
      Holds op ⟨op.duration, [resultCode], true, [], polled⟩
        (some ⟨some (.single (op.complete resultCode).1), w⟩)
  | multi (l : Log κ φ) (mcr : IoMultiCompletionResult τ κ φ) (w : Option Waker)
      (hop : mcr.op = op.after l.posted) (hresults : l.returned ++ mcr.inner = op.results l.posted)
      (hdraining : mcr.state = .draining → l.ended = true ∧ mcr.inner ≠ []) :
      Holds op l (some ⟨some (.multi mcr), w⟩)
  | removed (l : Log κ φ) (hended : l.ended = true) (hresults : l.returned = op.results l.posted) :
      Holds op l none

variable {op : IoOperation τ} {l : Log κ φ} {slot : Option (IoCompletionSlot τ κ φ)}

theorem Holds.returned_append_due (h : Holds op l slot) : l.returned ++ l.due op = op.results l.posted := by
  unfold Log.due
  cases h with
  | notCompleted => rfl
  | single => rfl
  | multi _ mcr _ _ hresults => rw [← hresults, List.drop_left]
  | removed _ _ hresults => rw [← hresults, List.drop_length, List.append_nil]

theorem Holds.complete (hd : op.duration ≠ .zero) {resultCode : ℤ} {more : Bool} (h : Holds op l slot)
    (hm : l.MayPost resultCode more) :
    Holds op (l.post resultCode more) (slot.bind fun slot => (slot.complete resultCode).2) := by
  obtain ⟨hended, hmore⟩ := hm
  cases h with
  | notCompleted key w =>
    have hdur : (op.complete resultCode).2.duration = op.duration := IoOperation.complete_duration op resultCode
    simp only [IoCompletionSlot.complete, IoCompletionState.complete, IoEntry.complete, hdur,
      Option.bind_some, Option.map_some]
    cases hop : op.duration with
    | zero => exact absurd hop hd
    | single =>
      obtain rfl : more = false := eq_false_of_ne_true fun hm => by cases hop.symm.trans (hmore hm).1
      have hsingle : Holds op _ _ := .single resultCode false w
      rwa [hop] at hsingle
    | persistent => exact .multi _ _ w rfl rfl fun hdr => by cases hdr
  | single => cases hended
  | multi _ mcr w hop hresults hdraining =>
    refine .multi _ _ w ?_ ?_ ?_
    · simp only [IoMultiCompletionResult.complete, Log.post, IoOperation.after_concat, hop]
    · simp only [IoMultiCompletionResult.complete, Log.post, IoOperation.results_concat, hop,
        ← List.append_assoc, hresults]
    · have hcan := IoOperation.isCanceled_complete mcr.op resultCode
      simp only [IoMultiCompletionResult.complete, Log.post, hcan]
      intro hdr
      refine ⟨?_, by simp⟩
      by_cases hcode : resultCode = -ecanceled
      · have : more = false := eq_false_of_ne_true fun hm => (hmore hm).2 hcode
        rw [this]
        rfl
      · rw [decide_eq_false hcode] at hdr
        rw [(hdraining hdr).1] at hended
        cases hended
  | removed _ hended' => cases hended'.symm.trans hended

/-- What a poll by `w` returns and leaves, by what is due. -/
structure Polled (op : IoOperation τ) (l : Log κ φ) (slot : Option (IoCompletionSlot τ κ φ)) (w : Waker)
    (result : Poll (Option (IoCompletionResult κ φ))) (slot' : Option (IoCompletionSlot τ κ φ)) : Prop where
  holds : Holds op (l.record result) slot'
  ready : ∀ r rest, l.due op = r :: rest → result = .ready (some r)
  pending : l.due op = [] → slot.isSome → result = .pending ∧ slot'.bind (fun slot => slot.waker) = some w
  gone : l.due op = [] → slot = none → result = .ready none

theorem Holds.poll (w : Waker) (h : Holds op l slot) :
    Polled op l slot w ((slot.map fun slot => (slot.poll w).1).getD (.ready none))
      (slot.bind fun slot => (slot.poll w).2) := by
  have hdue := h.returned_append_due
  cases h with
  | notCompleted key w' =>
    exact ⟨.notCompleted key (some w), fun r rest hr => (List.cons_ne_nil r rest hr.symm).elim,
      fun _ _ => ⟨rfl, rfl⟩, fun _ hs => by cases hs⟩
  | single resultCode polled w' =>
    refine ⟨.removed _ rfl rfl, ?_, fun hr => (by cases hr), fun _ hs => (by cases hs)⟩
    intro r rest hr
    obtain ⟨rfl, -⟩ := List.cons.inj hr
    rfl
  | multi _ mcr w' hop hresults hdraining =>
    obtain ⟨inner, op', state⟩ := mcr
    have hinner : l.due op = inner := List.append_cancel_left (hdue.trans hresults.symm)
    cases inner with
    | nil =>
      have hstate : state = .running := by
        cases state with
        | running => rfl
        | draining => exact absurd rfl (hdraining rfl).2
      subst hstate
      refine ⟨.multi _ _ _ hop hresults (fun h => by cases h), ?_, fun _ _ => ⟨rfl, rfl⟩, fun _ hs => by cases hs⟩
      exact fun r rest hr => (List.cons_ne_nil r rest (hr.symm.trans hinner)).elim
    | cons r rest =>
      have hfst : (IoCompletionSlot.poll ⟨some (.multi ⟨r :: rest, op', state⟩), w'⟩ w).1 = .ready (some r) := rfl
      refine ⟨?_, ?_, fun hr => (List.cons_ne_nil r rest (hinner.symm.trans hr)).elim, fun _ hs => by cases hs⟩
      · have hall : l.returned ++ [r] ++ rest = op.results l.posted := by rw [List.append_assoc]; exact hresults
        rw [Option.map_some, Option.getD_some, hfst, Option.bind_some]
        by_cases hlast : state = .draining ∧ rest = []
        · obtain ⟨rfl, rfl⟩ := hlast
          refine .removed _ (hdraining rfl).1 ?_
          rwa [List.append_nil] at hall
        · have hsnd : (IoCompletionSlot.poll ⟨some (.multi ⟨r :: rest, op', state⟩), w'⟩ w).2 =
              some ⟨some (.multi ⟨rest, op', state⟩), w'⟩ := by
            simp [IoCompletionSlot.poll, IoCompletionSlot.tryExtractResult, IoCompletionState.intoResult,
              IoCompletionSlot.isValidState, hlast]
          rw [hsnd]
          exact .multi _ _ w' hop hall fun hdr => ⟨(hdraining hdr).1, fun hnil => hlast ⟨hdr, hnil⟩⟩
      · intro r' rest' hr
        obtain ⟨rfl, -⟩ := List.cons.inj (hinner.symm.trans hr)
        rfl
  | removed _ hended hresults =>
    have hnil : l.due op = [] := List.append_cancel_left (hdue.trans (by rw [hresults, List.append_nil]))
    refine ⟨.removed _ hended hresults, ?_, fun _ hs => (by cases hs), fun _ _ => rfl⟩
    exact fun r rest hr => (List.cons_ne_nil r rest (hr.symm.trans hnil)).elim

/-- A poll takes the first of the results that are due. -/
theorem Polled.due {w : Waker} {result : Poll (Option (IoCompletionResult κ φ))}
    {slot' : Option (IoCompletionSlot τ κ φ)} (h : Polled op l slot w result slot') :
    (l.record result).due op = (l.due op).tail := by
  cases hdue : l.due op with
  | nil =>
    have hsame : (l.record result).returned = l.returned := by
      cases slot with
      | none => rw [h.gone hdue rfl]; rfl
      | some slot => rw [(h.pending hdue rfl).1]; rfl
    unfold Log.due at hdue ⊢
    rw [hsame]
    exact hdue
  | cons r rest =>
    rw [h.ready r rest hdue]
    unfold Log.due at hdue ⊢
    simp only [Log.record, List.length_append, List.length_singleton]
    rw [← List.tail_drop, hdue]

/-! ### Runs -/

/-- The history and the slot of `key` are those of the operation `op`. -/
def Carries (op : IoOperation τ) (key : Key) (l : Log κ φ) (s : State τ κ φ) : Prop :=
  s.log.lookup key = some l ∧ Holds op l (s.queue.lookup key)

variable {key : Key} {s s' : State τ κ φ} {e : Event τ} {es : List (Event τ)}

theorem carries_addEntry (s : State τ κ φ) (key : Key) (op : IoOperation τ) (waker : Option Waker) :
    Carries op key (.new op.duration) (s.addEntry key op waker) := by
  refine ⟨Finmap.lookup_insert _, ?_⟩
  simp only [State.addEntry, IoCompletionQueue.lookup_addEntry, ↓reduceIte]
  exact .notCompleted key waker

/-- An event of another key changes nothing of this one. -/
theorem Carries.other (hc : Carries op key l s) (hk : e.key ≠ key) (h : step s e = some s') :
    Carries op key l s' ∧ s'.queue.lookup key = s.queue.lookup key := by
  obtain ⟨hlog, hqueue⟩ := (step_cases h).2 key (Ne.symm hk)
  exact ⟨⟨hlog.trans hc.1, hqueue ▸ hc.2⟩, hqueue⟩

theorem Carries.poll (hc : Carries op key l s) (w : Waker) :
    ∃ result, (s.poll key w).1 = result ∧ Carries op key (l.record result) (s.poll key w).2 ∧
      Polled op l (s.queue.lookup key) w result ((s.poll key w).2.queue.lookup key) := by
  have hp := hc.2.poll w
  have hqueue : (s.poll key w).2.queue.lookup key = (s.queue.lookup key).bind fun slot => (slot.poll w).2 := by
    simp only [State.poll, IoCompletionQueue.lookup_poll, ↓reduceIte]
  have hfst : (s.queue.poll key w).1 = _ := IoCompletionQueue.poll_fst w
  rw [← hqueue, ← hfst] at hp
  refine ⟨(s.poll key w).1, rfl, ⟨?_, hp.holds⟩, hp⟩
  simp only [State.poll, hc.1, Finmap.lookup_insert]

theorem Carries.step (hd : op.duration ≠ .zero) (hc : Carries op key l s) (he : e.key = key → e.isAdd = false)
    (h : step s e = some s') : ∃ l', Carries op key l' s' := by
  by_cases hk : e.key = key
  · subst hk
    cases e with
    | addEntry => cases he rfl
    | complete key resultCode more =>
      obtain ⟨hkey, -⟩ := step_cases h
      obtain ⟨hl, hs⟩ := hc
      simp only [Event.key] at hkey hl hs ⊢
      unfold Carries
      rw [hl] at hkey
      generalize s.queue.lookup key = slot, s'.log.lookup key = l', s'.queue.lookup key = slot' at hkey hs ⊢
      cases hkey with
      | complete _ _ _ _ _ hm => exact ⟨_, rfl, hs.complete hd hm⟩
    | poll key w =>
      cases h
      obtain ⟨result, -, hc', -⟩ := hc.poll w
      exact ⟨_, hc'⟩
  · exact ⟨l, (hc.other hk h).1⟩

/-- A run that only polls the key takes the results that are due, one a poll. -/
theorem Carries.polls (hc : Carries op key l s) (hes : ∀ e ∈ es, e.key = key → ∃ w, e = .poll key w)
    (h : run Traffic.step s es = some s') :
    ∃ l', Carries op key l' s' ∧ l'.posted = l.posted ∧
      l'.due op = (l.due op).drop (es.countP fun e => e.key = key) := by
  induction es generalizing l s with
  | nil =>
    cases h
    exact ⟨l, hc, rfl, rfl⟩
  | cons e es ih =>
    obtain ⟨s₁, hs₁, h⟩ := Option.bind_eq_some_iff.mp h
    have hes' : ∀ e ∈ es, e.key = key → ∃ w, e = .poll key w := fun e he => hes e (List.mem_cons_of_mem _ he)
    by_cases hk : e.key = key
    · obtain ⟨w, rfl⟩ := hes e (List.mem_cons_self ..) hk
      cases hs₁
      obtain ⟨result, -, hc₁, hp⟩ := hc.poll w
      obtain ⟨l', hc', hposted, hdue⟩ := ih hc₁ hes' h
      refine ⟨l', hc', hposted, ?_⟩
      rw [hdue, hp.due, List.countP_cons_of_pos (by simpa using hk), List.drop_tail]
    · obtain ⟨l', hc', hposted, hdue⟩ := ih (hc.other hk hs₁).1 hes' h
      exact ⟨l', hc', hposted, by rw [hdue, List.countP_cons_of_neg (by simpa using hk)]⟩

/-- All results have been returned, and `w` waits in the slot. -/
def Waits (op : IoOperation τ) (key : Key) (w : Waker) (s : State τ κ φ) : Prop :=
  ∃ l, Carries op key l s ∧ l.due op = [] ∧ ((s.queue.lookup key).bind fun slot => slot.waker) = some w

theorem Polled.waits {w : Waker} {result : Poll (Option (IoCompletionResult κ φ))}
    (hp : Polled op l slot w result (s.queue.lookup key)) (hc : Carries op key (l.record result) s)
    (hdue : l.due op = []) (hs : slot.isSome) : Waits op key w s :=
  ⟨_, hc, by rw [hp.due, hdue, List.tail_nil], (hp.pending hdue hs).2⟩

/-- It stays so until the next completion, whatever happens to the other keys. -/
theorem Waits.step {w : Waker} (hw : Waits op key w s) (he : e.key = key → e = .poll key w)
    (h : step s e = some s') : Waits op key w s' := by
  obtain ⟨l, hc, hdue, hwaker⟩ := hw
  by_cases hk : e.key = key
  · cases he hk
    cases h
    obtain ⟨result, -, hc', hp⟩ := hc.poll w
    refine hp.waits hc' hdue ?_
    obtain ⟨slot, hslot, -⟩ := Option.bind_eq_some_iff.mp hwaker
    rw [hslot]
    rfl
  · obtain ⟨hc', hqueue⟩ := hc.other hk h
    exact ⟨l, hc', hdue, by rw [hqueue, hwaker]⟩

/-- What is delivered for the operation `op` of a key, in the state `s` where
its history is `l`. -/
structure Delivers (op : IoOperation τ) (key : Key) (s : State τ κ φ) (l : Log κ φ) : Prop where
  /-- The results returned are the first of those completed. -/
  inOrder : l.returned <+: op.results l.posted
  /-- As many polls of the key as results are missing return them all. -/
  complete : ∀ es s', (∀ e ∈ es, e.key = key → ∃ w, e = .poll key w) → run Traffic.step s es = some s' →
    (op.results l.posted).length ≤ l.returned.length + es.countP (fun e => e.key = key) →
    ∃ l', s'.log.lookup key = some l' ∧ l'.returned = op.results l.posted
  pending : ∀ w, (s.poll key w).1 = .pending ↔ l.returned = op.results l.posted ∧ key ∈ s.queue.keys
  /-- After a pending poll by `w` and until the next completion, which may be
  preceded by more polls by `w` and by anything on other keys, it is `w` that
  a completion wakes. -/
  woken : ∀ w es s', (s.poll key w).1 = .pending → (∀ e ∈ es, e.key = key → e = .poll key w) →
    run Traffic.step (s.poll key w).2 es = some s' → ∀ resultCode, (s'.queue.complete key resultCode).1 = some w
  /-- What is done on the key leaves the slots of other keys alone. -/
  others : ∀ e s', Traffic.step s e = some s' → e.key = key →
    ∀ k, k ≠ key → s'.log.lookup k = s.log.lookup k ∧ s'.queue.lookup k = s.queue.lookup k

theorem due_eq_nil_iff (hc : Carries op key l s) : l.due op = [] ↔ l.returned = op.results l.posted := by
  have hdue := hc.2.returned_append_due
  constructor
  · intro h
    rwa [h, List.append_nil] at hdue
  · intro h
    unfold Log.due
    rw [h, List.drop_length]

theorem Carries.pending_iff (hc : Carries op key l s) (w : Waker) :
    (s.poll key w).1 = .pending ↔ l.due op = [] ∧ (s.queue.lookup key).isSome := by
  obtain ⟨result, hresult, -, hp⟩ := hc.poll w
  rw [hresult]
  constructor
  · rintro rfl
    cases hdue : l.due op with
    | nil =>
      refine ⟨rfl, ?_⟩
      by_contra hnone
      rw [Option.not_isSome_iff_eq_none] at hnone
      cases hp.gone hdue hnone
    | cons r rest => cases hp.ready r rest hdue
  · rintro ⟨hdue, hsome⟩
    exact (hp.pending hdue hsome).1

theorem Carries.delivers (hc : Carries op key l s) : Delivers op key s l where
  inOrder := ⟨l.due op, hc.2.returned_append_due⟩
  complete es s' hes h hlen := by
    obtain ⟨l', hc', hposted, hdue⟩ := hc.polls hes h
    refine ⟨l', hc'.1, ?_⟩
    rw [← hposted]
    refine (due_eq_nil_iff hc').mp ?_
    rw [hdue, List.drop_eq_nil_iff]
    unfold Log.due
    rw [List.length_drop]
    omega
  pending w := by rw [hc.pending_iff, due_eq_nil_iff hc, IoCompletionQueue.mem_keys_iff]
  woken w es s' hpending hes h resultCode := by
    obtain ⟨hdue, hsome⟩ := (hc.pending_iff w).mp hpending
    obtain ⟨result, -, hc', hp⟩ := hc.poll w
    have hwaits : Waits op key w s' :=
      invariant_of_run (fun s a s' hw ha h => Waits.step hw ha h) (hp.waits hc' hdue hsome) hes h
    rw [IoCompletionQueue.complete_fst, hwaits.choose_spec.2.2]
  others e s' h hk k hne := (step_cases h).2 k (hk ▸ hne)

/-- **Results are delivered exactly once, in order, and never unwoken.** From
the entry of a single or persistent operation on, whatever is completed and
polled in any order. -/
theorem delivered (s₀ : State τ κ φ) (key : Key) (op : IoOperation τ) (waker : Option Waker)
    (hd : op.duration ≠ .zero) (es : List (Event τ)) (hes : ∀ e ∈ es, e.key = key → e.isAdd = false)
    (s : State τ κ φ) (h : run step (s₀.addEntry key op waker) es = some s) :
    ∃ l, s.log.lookup key = some l ∧ Delivers op key s l := by
  obtain ⟨l, hc⟩ := invariant_of_run (I := fun s => ∃ l, Carries op key l s)
    (fun _ _ _ ⟨_, hc⟩ he h => hc.step hd he h) ⟨_, carries_addEntry s₀ key op waker⟩ hes h
  exact ⟨l, hc.1, hc.delivers⟩

/-- A listener accepts two connections; one poll returns the first. -/
def twoConnections : List (Event IoAcceptMultiData) :=
  [.poll 0 1, .complete 0 7 true, .complete 0 8 true, .poll 0 1]

theorem delivered_twoConnections :
    ∃ s l, run step (State.init.addEntry 0 .acceptMulti none) twoConnections = some s ∧
      s.log.lookup 0 = some l ∧ Delivers IoOperation.acceptMulti 0 s l := by
  obtain ⟨s, hs⟩ : ∃ s, run step (State.init.addEntry 0 .acceptMulti none) twoConnections = some s :=
    Option.isSome_iff_exists.mp (by decide)
  obtain ⟨l, hl, hdelivers⟩ := delivered State.init 0 .acceptMulti none (by decide) twoConnections
    (by decide) s hs
  exact ⟨s, l, hs, hl, hdelivers⟩

end Traffic

end ClAsync
