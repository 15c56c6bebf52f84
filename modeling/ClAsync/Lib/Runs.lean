/-
# Runs of a partial transition function

A system is a partial function `step : σ → α → Option σ`: what action `a`
does in state `s`, or `none` when it cannot be taken there. A run is a list
of actions; it ends at the first action that cannot be taken.

* `Along step P s as`: every state the run visits, the first and the last
  included, satisfies `P`.
* `Taken step C s as`: every action the run takes satisfies `C` in the state
  it is taken in.

`along_of_taken` is the induction rule for an invariant that the steps
meeting `C` keep, `along_of_invariant` the one for what follows from it.
`along_iff_taken` is the exact form: when a step from a good state is good if
and only if it meets `C`, a run stays good if and only if all its steps meet
`C`.
-/
import Mathlib.Data.Option.Basic
import Mathlib.Tactic.Common

namespace Runs

variable {σ α : Type*} (step : σ → α → Option σ)

/-- Every state visited satisfies `P`. -/
def Along (P : σ → Prop) : σ → List α → Prop
  | s, [] => P s
  | s, a :: as => P s ∧ ∀ s' ∈ step s a, Along P s' as

/-- Every step taken satisfies `C` in the state before it. -/
def Taken (C : σ → α → Prop) : σ → List α → Prop
  | _, [] => True
  | s, a :: as => ∀ s' ∈ step s a, C s a ∧ Taken C s' as

/-- The state the run ends in, if all its actions can be taken. -/
def run : σ → List α → Option σ
  | s, [] => some s
  | s, a :: as => (step s a).bind fun s' => run s' as

instance Along.decidable (P : σ → Prop) [DecidablePred P] :
    ∀ (s : σ) (as : List α), Decidable (Along step P s as)
  | s, [] => inferInstanceAs (Decidable (P s))
  | s, a :: as =>
    have : DecidablePred fun s' => Along step P s' as := fun s' => Along.decidable P s' as
    inferInstanceAs (Decidable (P s ∧ ∀ s' ∈ step s a, Along step P s' as))

instance Taken.decidable (C : σ → α → Prop) [∀ s a, Decidable (C s a)] :
    ∀ (s : σ) (as : List α), Decidable (Taken step C s as)
  | _, [] => inferInstanceAs (Decidable True)
  | s, a :: as =>
    have : DecidablePred fun s' => C s a ∧ Taken step C s' as := fun s' =>
      have := Taken.decidable C s' as
      inferInstanceAs (Decidable (_ ∧ _))
    inferInstanceAs (Decidable (∀ s' ∈ step s a, C s a ∧ Taken step C s' as))

variable {step}

theorem Along.head {P : σ → Prop} : ∀ {s : σ} {as : List α}, Along step P s as → P s
  | _, [], h => h
  | _, _ :: _, h => h.1

theorem run_append : ∀ (s : σ) (as bs : List α),
    run step s (as ++ bs) = (run step s as).bind fun s' => run step s' bs
  | _, [], _ => rfl
  | s, a :: as, bs => by
    rw [List.cons_append, run, run, Option.bind_assoc]
    exact congrArg _ (funext fun s₁ => run_append s₁ as bs)

/-- What a run says of the states it visits it says of those of its end. -/
theorem Along.of_run {P : σ → Prop} : ∀ {s s' : σ} {as bs : List α}, run step s as = some s' →
    Along step P s (as ++ bs) → Along step P s' bs
  | s, s', [], bs, h, hP => Option.some.inj h ▸ hP
  | s, s', a :: as, bs, h, hP => by
    obtain ⟨s₁, hs₁, h⟩ := Option.bind_eq_some_iff.mp h
    exact (hP.2 s₁ hs₁).of_run h

theorem Taken.of_run {C : σ → α → Prop} : ∀ {s s' : σ} {as bs : List α}, run step s as = some s' →
    Taken step C s (as ++ bs) → Taken step C s' bs
  | s, s', [], bs, h, hC => Option.some.inj h ▸ hC
  | s, s', a :: as, bs, h, hC => by
    obtain ⟨s₁, hs₁, h⟩ := Option.bind_eq_some_iff.mp h
    exact (hC s₁ hs₁).2.of_run h

/-- A run that goes on where another ends. -/
theorem Along.append {P : σ → Prop} : ∀ {s s' : σ} {as bs : List α}, Along step P s as → run step s as = some s' →
    Along step P s' bs → Along step P s (as ++ bs)
  | s, s', [], bs, _, h, hP => Option.some.inj h ▸ hP
  | s, s', a :: as, bs, hP, h, hP' => by
    obtain ⟨s₁, hs₁, h⟩ := Option.bind_eq_some_iff.mp h
    refine ⟨hP.1, fun s₂ hs₂ => ?_⟩
    obtain rfl := Option.some.inj (hs₁.symm.trans hs₂)
    exact (hP.2 s₁ hs₁).append h hP'

theorem Along.mono {P Q : σ → Prop} (hPQ : ∀ s, P s → Q s) :
    ∀ {s : σ} {as : List α}, Along step P s as → Along step Q s as
  | s, [], h => hPQ s h
  | s, _ :: _, h => ⟨hPQ s h.1, fun s' hs => (h.2 s' hs).mono hPQ⟩

/-- The induction rule for runs: an invariant that every step meeting `C`
keeps holds in every state of a run all of whose steps meet `C`. -/
theorem along_of_taken {I : σ → Prop} {C : σ → α → Prop}
    (hstep : ∀ s a s', I s → C s a → step s a = some s' → I s') :
    ∀ {s : σ} {as : List α}, I s → Taken step C s as → Along step I s as
  | _, [], hI, _ => hI
  | s, a :: _, hI, hC => ⟨hI, fun s' hs =>
      along_of_taken hstep (hstep s a s' hI (hC s' hs).1 hs) (hC s' hs).2⟩

/-- An invariant that the steps of a run keep holds at its end. -/
theorem invariant_of_run {I : σ → Prop} {C : α → Prop} (hstep : ∀ s a s', I s → C a → step s a = some s' → I s') :
    ∀ {s s' : σ} {as : List α}, I s → (∀ a ∈ as, C a) → run step s as = some s' → I s'
  | _, _, [], hI, _, h => Option.some.inj h ▸ hI
  | s, _, a :: _, hI, hC, h => by
    obtain ⟨s₁, hs₁, h⟩ := Option.bind_eq_some_iff.mp h
    have hI₁ := hstep s a s₁ hI (hC a (List.mem_cons_self ..)) hs₁
    exact invariant_of_run hstep hI₁ (fun a ha => hC a (List.mem_cons_of_mem _ ha)) h

/-- The rule for a property that follows from such an invariant. -/
theorem along_of_invariant {I P : σ → Prop} {C : σ → α → Prop}
    (hstep : ∀ s a s', I s → C s a → step s a = some s' → I s') (hP : ∀ s, I s → P s)
    {s : σ} {as : List α} (hI : I s) (hC : Taken step C s as) : Along step P s as :=
  (along_of_taken hstep hI hC).mono hP

/-- The rule for an invariant that every step keeps. -/
theorem along_of_step {I P : σ → Prop} (hstep : ∀ s a s', I s → step s a = some s' → I s') (hP : ∀ s, I s → P s) :
    ∀ {s : σ} (as : List α), I s → Along step P s as
  | s, [], hI => hP s hI
  | s, a :: as, hI => ⟨hP s hI, fun s' hs => along_of_step hstep hP as (hstep s a s' hI hs)⟩

/-- What an invariant says of the steps meeting `C` out of its states, it says
of every step of a run all of whose steps meet `C`. -/
theorem taken_of_taken {I : σ → Prop} {C D : σ → α → Prop}
    (hstep : ∀ s a s', I s → C s a → step s a = some s' → I s' ∧ D s a) :
    ∀ {s : σ} {as : List α}, I s → Taken step C s as → Taken step D s as
  | _, [], _, _ => trivial
  | s, a :: _, hI, hC => fun s' hs =>
    have h := hstep s a s' hI (hC s' hs).1 hs
    ⟨h.2, taken_of_taken hstep h.1 (hC s' hs).2⟩

/-- Conditions that agree in the states of an invariant are met by the same
runs. -/
theorem taken_congr {I : σ → Prop} {C D : σ → α → Prop}
    (hstep : ∀ s a s', I s → step s a = some s' → I s') (h : ∀ s a, I s → (C s a ↔ D s a)) :
    ∀ {s : σ} (as : List α), I s → (Taken step C s as ↔ Taken step D s as)
  | _, [], _ => Iff.rfl
  | s, a :: as, hI => forall₂_congr fun s' hs =>
      and_congr (h s a hI) (taken_congr hstep h as (hstep s a s' hI hs))

/-- Properties that agree in the states of an invariant are those of the same
runs. -/
theorem along_congr {I P Q : σ → Prop} (hstep : ∀ s a s', I s → step s a = some s' → I s')
    (h : ∀ s, I s → (P s ↔ Q s)) :
    ∀ {s : σ} (as : List α), I s → (Along step P s as ↔ Along step Q s as)
  | s, [], hI => h s hI
  | s, a :: as, hI => and_congr (h s hI) (forall₂_congr fun s' hs => along_congr hstep h as (hstep s a s' hI hs))

/-- The exact form of the rule: from a good state, the steps meeting `C` and
only these lead to good states. -/
theorem along_iff_taken {I P : σ → Prop} {C : σ → α → Prop}
    (hgood : ∀ s a s', I s → P s → C s a → step s a = some s' → I s' ∧ P s')
    (hbad : ∀ s a s', I s → P s → ¬ C s a → step s a = some s' → ¬ P s')
    {s : σ} {as : List α} (hI : I s) (hP : P s) :
    Along step P s as ↔ Taken step C s as := by
  induction as generalizing s with
  | nil => exact ⟨fun _ => trivial, fun _ => hP⟩
  | cons a as ih =>
    constructor
    · intro h s' hs
      have hC : C s a := by
        by_contra hC
        exact hbad s a s' hI hP hC hs (h.2 s' hs).head
      obtain ⟨hI', hP'⟩ := hgood s a s' hI hP hC hs
      exact ⟨hC, (ih hI' hP').mp (h.2 s' hs)⟩
    · intro h
      refine ⟨hP, fun s' hs => ?_⟩
      obtain ⟨hI', hP'⟩ := hgood s a s' hI hP (h s' hs).1 hs
      exact (ih hI' hP').mpr (h s' hs).2

end Runs
