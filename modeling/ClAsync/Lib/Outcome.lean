/-
# What a call comes to

A call that can fail returns a value or an error. One that dereferences raw
pointers, unwraps and loops can also panic, touch memory outside of what is
allocated for it, or never return. `Outcome ε α` has all of these, and `bind`
runs what follows a call that returned a value.

A call `Returns P` when it returns, and a value that it returns satisfies
`P`.

`collect` is the loop that puts the values of calls into a list, and returns
the first error; what it had and what it has not reached is dropped then.
-/
import Mathlib.Tactic.Common

namespace Calls

/-- What a call comes to. -/
inductive Outcome (ε α : Type)
  | ok (a : α)
  | err (e : ε)
  | panics
  /-- Memory is read or written outside of an allocation, or not where it is
  aligned. -/
  | undefined
  | diverges
  deriving DecidableEq, Repr

namespace Outcome

variable {ε ε' α β : Type}

/-- What follows a call that returned a value. -/
def bind : Outcome ε α → (α → Outcome ε β) → Outcome ε β
  | ok a, f => f a
  | err e, _ => err e
  | panics, _ => panics
  | undefined, _ => undefined
  | diverges, _ => diverges

/-- `map_err`, and the conversion of errors by `?`. -/
def mapErr (f : ε → ε') : Outcome ε α → Outcome ε' α
  | ok a => ok a
  | err e => err (f e)
  | panics => panics
  | undefined => undefined
  | diverges => diverges

/-- What is not there is outside of the allocation. -/
def ofOption : Option α → Outcome ε α
  | some a => ok a
  | none => undefined

@[simp] theorem ok_bind (a : α) (f : α → Outcome ε β) : (ok a).bind f = f a := rfl

theorem bind_assoc {γ : Type} (x : Outcome ε α) (f : α → Outcome ε β) (g : β → Outcome ε γ) :
    (x.bind f).bind g = x.bind fun a => (f a).bind g := by
  cases x <;> rfl

theorem bind_ok (x : Outcome ε α) : x.bind ok = x := by
  cases x <;> rfl

@[simp] theorem mapErr_ok (f : ε → ε') (a : α) : (ok a).mapErr f = ok a := rfl

@[simp] theorem ofOption_some (a : α) : ofOption (some a) = (ok a : Outcome ε α) := rfl

theorem bind_eq_ok {x : Outcome ε α} {f : α → Outcome ε β} {b : β} :
    x.bind f = ok b ↔ ∃ a, x = ok a ∧ f a = ok b := by
  cases x <;> simp [bind]

theorem bind_eq_err {x : Outcome ε α} {f : α → Outcome ε β} {e : ε} :
    x.bind f = err e ↔ x = err e ∨ ∃ a, x = ok a ∧ f a = err e := by
  cases x <;> simp [bind]

theorem mapErr_eq_ok {f : ε → ε'} {x : Outcome ε α} {a : α} : x.mapErr f = ok a ↔ x = ok a := by
  cases x <;> simp [mapErr]

theorem ofOption_eq_ok {x : Option α} {a : α} : (ofOption x : Outcome ε α) = ok a ↔ x = some a := by
  cases x <;> simp [ofOption]

theorem ofOption_ne_err {x : Option α} {e : ε} : (ofOption x : Outcome ε α) ≠ err e := by
  cases x <;> simp [ofOption]

/-! ### Calls that return -/

/-- A value that satisfies `P`, or an error. -/
def Returns (P : α → Prop) : Outcome ε α → Prop
  | ok a => P a
  | err _ => True
  | _ => False

instance Returns.decidable (P : α → Prop) [DecidablePred P] : (x : Outcome ε α) → Decidable (x.Returns P)
  | ok a => inferInstanceAs (Decidable (P a))
  | err _ => inferInstanceAs (Decidable True)
  | panics => inferInstanceAs (Decidable False)
  | undefined => inferInstanceAs (Decidable False)
  | diverges => inferInstanceAs (Decidable False)

section Returns

variable {P : α → Prop} {Q : β → Prop}

@[simp] theorem returns_ok {a : α} : (ok a : Outcome ε α).Returns P ↔ P a := Iff.rfl

@[simp] theorem returns_err {e : ε} : (err e : Outcome ε α).Returns P ↔ True := Iff.rfl

@[simp] theorem returns_panics : (panics : Outcome ε α).Returns P ↔ False := Iff.rfl

@[simp] theorem returns_undefined : (undefined : Outcome ε α).Returns P ↔ False := Iff.rfl

theorem returns_iff {x : Outcome ε α} : x.Returns P ↔ (∃ a, x = ok a ∧ P a) ∨ ∃ e, x = err e := by
  cases x <;> simp [Returns]

theorem returns_bind {x : Outcome ε α} {f : α → Outcome ε β} :
    (x.bind f).Returns Q ↔ x.Returns fun a => (f a).Returns Q := by
  cases x <;> rfl

theorem returns_mapErr {f : ε → ε'} {x : Outcome ε α} : (x.mapErr f).Returns P ↔ x.Returns P := by
  cases x <;> rfl

theorem returns_ofOption {x : Option α} : (ofOption x : Outcome ε α).Returns P ↔ ∃ a, x = some a ∧ P a := by
  cases x <;> simp [ofOption, Returns]

theorem Returns.mono {P' : α → Prop} {x : Outcome ε α} (h : x.Returns P) (hP : ∀ a, P a → P' a) : x.Returns P' := by
  cases x with
  | ok a => exact hP a h
  | _ => exact h

end Returns

end Outcome

/-! ### Calls in a loop -/

section Collect

variable {α β ε σ : Type}

/-- `for x in xs { done.push(f(x)?) }`, with the state that the calls change.
`undo` is what the drops do at an error, to what was made and what is left. -/
def collect (f : α → σ → Except ε β × σ) (undo : List β → List α → σ → σ) :
    List α → List β → σ → Except ε (List β) × σ
  | [], done, s => (.ok done, s)
  | x :: xs, done, s =>
    match f x s with
    | (.ok y, s) => collect f undo xs (done ++ [y]) s
    | (.error e, s) => (.error e, undo done xs s)

/-- What the loop comes to when the call for `x k` succeeds, with `y k`, just
when `P k` holds, and the `k` calls before it leave the state `state k`. -/
theorem collect_range (f : α → σ → Except ε β × σ) (undo : List β → List α → σ → σ) {n : ℕ}
    (x : ℕ → α) (y : ℕ → β) (state : ℕ → σ) (P : ℕ → Prop)
    (hok : ∀ k < n, P k → f (x k) (state k) = (.ok (y k), state (k + 1)))
    (herr : ∀ k < n, ¬ P k → ∃ e s, f (x k) (state k) = (.error e, s)) :
    ((∀ i < n, P i) ∧
      collect f undo ((List.range n).map x) [] (state 0) = (.ok ((List.range n).map y), state n)) ∨
    ∃ k < n, (∀ i < k, P i) ∧ ¬ P k ∧ ∃ e s, f (x k) (state k) = (.error e, s) ∧
      collect f undo ((List.range n).map x) [] (state 0) =
        (.error e, undo ((List.range k).map y) ((List.range' (k + 1) (n - (k + 1))).map x) s) := by
  -- by induction on the calls that are left, of which `k` have been made
  suffices H : ∀ m k, k + m = n → (∀ i < k, P i) →
      ((∀ i < n, P i) ∧
        collect f undo ((List.range' k m).map x) ((List.range k).map y) (state k) =
          (.ok ((List.range n).map y), state n)) ∨
      ∃ k' < n, (∀ i < k', P i) ∧ ¬ P k' ∧ ∃ e s, f (x k') (state k') = (.error e, s) ∧
        collect f undo ((List.range' k m).map x) ((List.range k).map y) (state k) =
          (.error e, undo ((List.range k').map y) ((List.range' (k' + 1) (n - (k' + 1))).map x) s) by
    simpa [List.range_eq_range'] using H n 0 (by omega) (by simp)
  intro m
  induction m with
  | zero =>
    intro k hk hP
    obtain rfl : k = n := by omega
    exact .inl ⟨hP, by simp [collect]⟩
  | succ m ih =>
    intro k hk hP
    simp only [List.range'_succ, List.map_cons, collect]
    by_cases hPk : P k
    · rw [hok k (by omega) hPk]
      have hdone : (List.range k).map y ++ [y k] = (List.range (k + 1)).map y := by simp [List.range_succ]
      simp only [hdone]
      refine ih (k + 1) (by omega) fun i hi => ?_
      rcases Nat.lt_succ_iff_lt_or_eq.mp hi with hi | rfl
      · exact hP i hi
      · exact hPk
    · obtain ⟨e, s, hf⟩ := herr k (by omega) hPk
      refine .inr ⟨k, by omega, hP, hPk, e, s, hf, ?_⟩
      rw [hf, show n - (k + 1) = m by omega]

end Collect
end Calls
