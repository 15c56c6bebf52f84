/-
# Durations and times

`Duration` and `SystemTime` of the standard library, as seconds and
nanoseconds below a billion. A duration has as many seconds as a `u64`, a
time as many before and after the epoch as an `i64`; what is out of range is a
panic, or `None` where the arithmetic is checked.

Key definitions: `Duration`, `SystemTime`, `checkedAdd`, `checkedSub`.
Key theorems: `checkedAdd_unixEpoch` and `checkedSub_unixEpoch`, the time that
is a duration away from the epoch.
-/
import ClAsync.Lib.Outcome
import Mathlib.Algebra.Order.Ring.Int
import Mathlib.Tactic.Ring

namespace Time

open Calls

/-! ### Durations -/

/-- A `std::time::Duration`. -/
structure Duration where
  secs : ℕ
  nanos : ℕ
  secs_lt : secs < 2 ^ 64
  nanos_lt : nanos < 10 ^ 9
  deriving Repr

/-- `Duration::from_secs`. -/
def Duration.fromSecs (secs : ℕ) (h : secs < 2 ^ 64) : Duration := ⟨secs, 0, h, by decide⟩

/-- `Duration::new`: whole seconds in the nanoseconds are carried over. -/
def Duration.new {ε : Type} (secs nanos : ℕ) : Outcome ε Duration :=
  if h : secs + nanos / 10 ^ 9 < 2 ^ 64 then
    .ok ⟨secs + nanos / 10 ^ 9, nanos % 10 ^ 9, h, Nat.mod_lt _ (by decide)⟩
  else .panics

/-- `Duration::as_nanos`. -/
def Duration.asNanos (d : Duration) : ℕ := d.secs * 10 ^ 9 + d.nanos

/-! ### Times -/

/-- `std::time::SystemTime`: seconds from the epoch, of an `i64`, and
nanoseconds. -/
structure SystemTime where
  secs : ℤ
  nanos : ℕ
  le_secs : -2 ^ 63 ≤ secs
  secs_lt : secs < 2 ^ 63
  nanos_lt : nanos < 10 ^ 9
  deriving DecidableEq, Repr

namespace SystemTime

/-- `duration_since(UNIX_EPOCH)`, in seconds and nanoseconds. -/
def durationSinceEpoch (t : SystemTime) : Option (ℕ × ℕ) :=
  if 0 ≤ t.secs then some (t.secs.toNat, t.nanos) else none

/-- `UNIX_EPOCH + Duration::new(secs, nanos)`, which panics when the seconds do
not fit an `i64`. -/
def epochPlus {ε : Type} (secs : UInt64) (nanos : UInt32) : Outcome ε SystemTime :=
  if h : secs.toNat + nanos.toNat / 10 ^ 9 < 2 ^ 63 then
    .ok ⟨(secs.toNat + nanos.toNat / 10 ^ 9 : ℕ), nanos.toNat % 10 ^ 9, by omega, by omega,
      Nat.mod_lt _ (by omega)⟩
  else .panics

/-- `duration_since(UNIX_EPOCH)` has an answer. -/
def NotBeforeEpoch (t : SystemTime) : Prop := 0 ≤ t.secs

instance (t : SystemTime) : Decidable t.NotBeforeEpoch := inferInstanceAs (Decidable (0 ≤ t.secs))

/-- The time in whole microseconds. -/
def truncated (t : SystemTime) : SystemTime :=
  { t with nanos := t.nanos / 1000 * 1000, nanos_lt := by have := t.nanos_lt; omega }

/-- The time as it is read, in nanoseconds from the epoch. -/
def sinceEpoch (t : SystemTime) : ℤ := t.secs * 10 ^ 9 + t.nanos

end SystemTime

/-- `UNIX_EPOCH`. -/
def unixEpoch : SystemTime := ⟨0, 0, by decide, by decide, by decide⟩

/-- `SystemTime::checked_add`. -/
def checkedAdd (t : SystemTime) (d : Duration) : Option SystemTime :=
  if h : t.secs + d.secs + ((t.nanos + d.nanos) / 10 ^ 9 : ℕ) < 2 ^ 63 then
    some ⟨t.secs + d.secs + ((t.nanos + d.nanos) / 10 ^ 9 : ℕ), (t.nanos + d.nanos) % 10 ^ 9,
      by have := t.le_secs; omega, h, Nat.mod_lt _ (by decide)⟩
  else none

/-- `SystemTime::checked_sub`. -/
def checkedSub (t : SystemTime) (d : Duration) : Option SystemTime :=
  let borrow := if t.nanos < d.nanos then 1 else 0
  if h : -2 ^ 63 ≤ t.secs - d.secs - (borrow : ℕ) then
    some ⟨t.secs - d.secs - (borrow : ℕ), t.nanos + borrow * 10 ^ 9 - d.nanos, h,
      by have := t.secs_lt; omega, by
        have := t.nanos_lt
        have := d.nanos_lt
        simp only [borrow]
        split <;> omega⟩
  else none

/-! ### Around the epoch -/

/-- A duration after the epoch. -/
theorem checkedAdd_unixEpoch {d : Duration} (t : SystemTime) (hsecs : (d.secs : ℤ) = t.secs)
    (hnanos : d.nanos = t.nanos) : checkedAdd unixEpoch d = some t := by
  obtain ⟨secs, nanos, hle, hlt, hnanos'⟩ := t
  dsimp only at hsecs hnanos
  have hcarry : (unixEpoch.nanos + d.nanos) / 10 ^ 9 = 0 ∧ (unixEpoch.nanos + d.nanos) % 10 ^ 9 = nanos := by
    simp only [unixEpoch]
    omega
  have hsum : unixEpoch.secs + d.secs + ((0 : ℕ) : ℤ) = secs := by simpa [unixEpoch] using hsecs
  unfold checkedAdd
  simp only [hcarry, hsum]
  exact dif_pos hlt

theorem checkedAdd_unixEpoch_of_le {d : Duration} (h : 2 ^ 63 ≤ d.secs) : checkedAdd unixEpoch d = none := by
  unfold checkedAdd
  exact dif_neg (by simp only [unixEpoch]; omega)

/-- A duration before the epoch. -/
theorem checkedSub_unixEpoch {d : Duration} (t : SystemTime)
    (h : (d.secs * 10 ^ 9 + d.nanos : ℤ) + (t.secs * 10 ^ 9 + t.nanos) = 0) : checkedSub unixEpoch d = some t := by
  obtain ⟨secs, nanos, hle, hlt, hnanos⟩ := t
  have hnanos' := d.nanos_lt
  dsimp only at h
  obtain ⟨borrow, hborrow, hsecs, hrest⟩ : ∃ borrow : ℕ, (if unixEpoch.nanos < d.nanos then 1 else 0) = borrow ∧
      secs = unixEpoch.secs - d.secs - borrow ∧ nanos = unixEpoch.nanos + borrow * 10 ^ 9 - d.nanos := by
    by_cases hzero : d.nanos = 0
    · refine ⟨0, if_neg (by rw [hzero]; exact Nat.not_lt_zero _), ?_⟩
      simp only [unixEpoch]
      omega
    · refine ⟨1, if_pos (Nat.pos_of_ne_zero hzero), ?_⟩
      simp only [unixEpoch]
      omega
  unfold checkedSub
  simp only [hborrow]
  rw [dif_pos (hsecs ▸ hle), Option.some.injEq, SystemTime.mk.injEq]
  exact ⟨hsecs.symm, hrest.symm⟩

end Time
