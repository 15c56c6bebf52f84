/-
# The reclamation of completion slots

A slot should leave the completion queue as soon as nothing more can be
delivered for its operation: with the first completion of a forgotten
operation, with the poll that returns the result of a single one, and with
the poll that returns the canceled result of a persistent one. The keys of
the queue are then exactly those of the operations that still owe something.

Two steps break this. `IoEntry::complete` answers the completion of a
forgotten operation with the state `Completed`, which the slot keeps until
somebody polls a key nobody holds; and it starts a persistent operation as
`Running` whatever its first result is, so that a persistent operation whose
first completion is `ECANCELED` never drains.

Key definitions: `Log.owes`, `Reclaimed`, `Reclaims`.
Key theorems: `fresh_step`, one step, and `reclaimed_iff`, every run.
-/
import ClAsync.Io.Traffic
import ClAsync.Lib.Runs

namespace ClAsync

/-- Something is still to be delivered for the operation: the result of a single
one, and of a persistent one anything until a poll has returned a canceled
result. One whose last completion is another error so still owes. -/
def Log.owes {κ φ : Type} (l : Log κ φ) : Bool :=
  match l.duration with
  | .zero => l.posted.isEmpty
  | .single => l.returned.isEmpty
  | .persistent => l.returned.all fun result => !isCanceled result

namespace Traffic

variable {τ κ φ : Type}

/-- The keys of the operations that still owe something. -/
def owing (s : State τ κ φ) : Finset Key := {k ∈ s.log.keys | (s.log.lookup k).any Log.owes}

/-- The slots are those of the operations that still owe something. -/
def Reclaimed (s : State τ κ φ) : Prop := s.queue.keys = owing s

instance (s : State τ κ φ) : Decidable (Reclaimed s) := inferInstanceAs (Decidable (_ = _))

theorem len_of_reclaimed {s : State τ κ φ} (h : Reclaimed s) : s.queue.len = (owing s).card :=
  congrArg Finset.card h

/-- `Reclaimed`, for one key. -/
def Fresh (l : Option (Log κ φ)) (slot : Option (IoCompletionSlot τ κ φ)) : Prop :=
  slot.isSome = l.any Log.owes

theorem reclaimed_iff_fresh {s : State τ κ φ} :
    Reclaimed s ↔ ∀ k, Fresh (s.log.lookup k) (s.queue.lookup k) := by
  unfold Reclaimed Fresh
  rw [Finset.ext_iff]
  refine forall_congr' fun k => ?_
  rw [IoCompletionQueue.mem_keys_iff, owing, Finset.mem_filter, Finmap.mem_keys,
    ← Finmap.lookup_isSome]
  generalize (s.queue.lookup k).isSome = b
  cases s.log.lookup k <;> simp

/-- The histories after which the slot, if it is there, should not be. -/
def Leaked (l : Log κ φ) : Prop :=
  l.duration = .zero ∧ l.posted ≠ [] ∨
  l.duration = .persistent ∧ l.posted = [-ecanceled] ∧ l.returned ≠ []

theorem ne_singleton_of_not_mem {posted : List ℤ} (h : -ecanceled ∉ posted) : posted ≠ [-ecanceled] := by
  rintro rfl
  exact h (List.mem_singleton_self _)

theorem SlotOk.fresh_iff {l : Log κ φ} {slot : Option (IoCompletionSlot τ κ φ)}
    (hs : SlotOk (some l) slot) : Fresh (some l) slot ↔ (slot.isSome → ¬ Leaked l) := by
  unfold Fresh Leaked Log.owes
  cases hs with
  | notCompleted entry w => cases entry.op.duration <;> simp [Log.new]
  | forgotten => simp
  | forgottenPolled => simp
  | single => simp
  | singlePolled => simp
  | running posted ended polled returned mcr w hstate hne hposted hresults =>
    have hp := ne_singleton_of_not_mem hposted
    have hr : ∀ r ∈ returned, isCanceled r = false := fun r hr => hresults r (List.mem_append_left _ hr)
    simpa [hp] using hr
  | firstCanceled polled returned mcr result w hstate hresult hresults =>
    cases returned with
    | nil => simp
    | cons r rest =>
      simp only [List.cons_append, List.cons.injEq] at hresults
      simp [hresults.1, hresult]
  | draining posted polled returned results mcr result w hstate hne hresult hinner hresults =>
    have hr : ∀ r ∈ returned, isCanceled r = false := fun r hr => hresults r (List.mem_append_left _ hr)
    simpa [hne] using hr
  | drained posted polled returned result hne hresult => simp [hresult]

/-- The steps that reclaim: all but the completion of a forgotten operation
and the poll of a persistent one for which the kernel has posted `ECANCELED`
and nothing else. -/
def Reclaims (e : Event τ) (l : Option (Log κ φ)) : Prop :=
  match e with
  | .addEntry .. => True
  | .complete .. => ∀ l' ∈ l, l'.duration ≠ .zero
  | .poll .. => ∀ l' ∈ l, ¬ (l'.duration = .persistent ∧ l'.posted = [-ecanceled])

variable [CompletableOperation τ κ φ]

/-- A step from the slots of the owing operations leads to such slots if and
only if it reclaims. -/
theorem fresh_step {e : Event τ} {l l' : Option (Log κ φ)}
    {slot slot' : Option (IoCompletionSlot τ κ φ)} (h : SlotStep e l slot l' slot')
    (hs : SlotOk l slot) (hf : Fresh l slot) : Fresh l' slot' ↔ Reclaims e l := by
  have hs' := h.slotOk hs
  cases h with
  | addEntry key op waker l slot =>
    rw [hs'.fresh_iff]
    simp [Leaked, Log.new, Reclaims]
  | complete key resultCode more l slot hm =>
    rw [hs'.fresh_iff]
    cases hs with
    | notCompleted entry w =>
      simp only [Reclaims, Leaked, Log.post, Log.new, IoCompletionSlot.complete,
        IoCompletionState.complete]
      cases entry.op.duration <;> simp
    | running posted ended polled returned mcr w hstate hne hposted hresults =>
      simp [Reclaims, Leaked, Log.post, List.append_eq_singleton_iff, hne]
    | _ => cases hm.1
  | poll key w' =>
    cases l with
    | none =>
      cases hs
      simp [Fresh, Reclaims]
    | some l =>
      rw [Option.map_some, hs'.fresh_iff]
      simp only [Leaked, Log.record, Reclaims, Option.mem_some_iff,
        forall_eq']
      cases hs with
      | notCompleted entry w => simp [Log.new]
      | forgotten => simp [Fresh, Log.owes] at hf
      | forgottenPolled => simp
      | single => simp
      | singlePolled => simp
      | running posted ended polled returned mcr w hstate hne hposted hresults =>
        simp [ne_singleton_of_not_mem hposted]
      | firstCanceled polled returned mcr result w hstate hresult hresults =>
        obtain ⟨inner, op, state⟩ := mcr
        subst hstate
        cases returned with
        | nil =>
          -- The slot has the canceled result only, and returns it here.
          subst hresults
          simp [IoCompletionSlot.poll, IoCompletionSlot.tryExtractResult,
            IoCompletionState.intoResult, IoCompletionSlot.isValidState]
        | cons r rest =>
          simp only [List.cons_append, List.cons.injEq] at hresults
          simp [Fresh, Log.owes, hresults.1, hresult] at hf
      | draining posted polled returned results mcr result w hstate hne hresult hinner hresults =>
        simp [hne]
      | drained posted polled returned result hne hresult => simp [hne]

/-- **In every run, the completion queue holds the slots of the operations
that still owe something, and no others, if and only if no forgotten
operation completes and no persistent operation is polled whose only code so
far is `ECANCELED`.** -/
theorem reclaimed_iff (es : List (Event τ)) :
    Runs.Along step Reclaimed (State.init : State τ κ φ) es ↔
      Runs.Taken step (fun s e => Reclaims e (s.log.lookup e.key)) State.init es := by
  have hstep : ∀ s e s', Ok s → Reclaimed s → step s e = some s' →
      (Reclaimed s' ↔ Reclaims e ((s : State τ κ φ).log.lookup e.key)) := by
    intro s e s' hs hr h
    rw [reclaimed_iff_fresh] at hr ⊢
    rw [← fresh_step (step_cases h).1 (hs e.key) (hr e.key)]
    exact ⟨fun h' => h' e.key, fun hkey => forall_key_step h hr hkey⟩
  exact Runs.along_iff_taken
    (fun s e s' hs hr hC h => ⟨ok_step h hs, (hstep s e s' hs hr h).mpr hC⟩)
    (fun s e s' hs hr hC h hr' => hC ((hstep s e s' hs hr h).mp hr')) ok_init rfl

/-- A forgotten close keeps its slot when it completes. -/
def closeForgotten : List (Event IoCloseData) := [.addEntry 0 .closeForget none, .complete 0 0 false]

/-- A listener is canceled before its first connection; the poll that returns
the canceled result keeps the slot. -/
def listenerCanceled : List (Event IoAcceptMultiData) :=
  [.addEntry 0 .acceptMulti (some 1), .complete 0 (-125) false, .poll 0 1]

theorem reclaimed_fails :
    ¬ Runs.Along step Reclaimed State.init closeForgotten ∧
      ¬ Runs.Along step Reclaimed State.init listenerCanceled := by
  decide

end Traffic

end ClAsync
