/-
# A broadcast channel

A channel of bounded capacity whose messages are for every receiver. A
receiver is at a position, the number of messages it is past; a clone starts
at the position of the receiver that it is cloned from. A message is kept
until every active receiver is past it, and a broadcast waits while the
channel keeps as many messages as it has room for.

`kept_of_start` is what a receiver that never receives comes to: the channel
keeps all that was ever sent.
-/
import Mathlib.Data.List.ReduceOption
import Mathlib.Tactic.Common

namespace Broadcast

/-- `α` are the messages, `ρ` what is known of a receiver. -/
structure Channel (α ρ : Type) where
  capacity : ℕ
  sent : List α
  /-- The receivers in the order they came, `none` when dropped, each with its
  position. -/
  receivers : List (Option (ρ × ℕ))
  deriving DecidableEq, Repr

namespace Channel

variable {α ρ : Type} (c : Channel α ρ)

/-- Some active receiver is still to receive message `k`. -/
def Keeps (k : ℕ) : Prop := ∃ r ∈ c.receivers.reduceOption, r.2 ≤ k

instance (k : ℕ) : Decidable (c.Keeps k) := inferInstanceAs (Decidable (∃ r ∈ c.receivers.reduceOption, r.2 ≤ k))

/-- How many messages the channel keeps. -/
def kept : ℕ := (List.range c.sent.length).countP fun k => c.Keeps k

/-- `none` when the broadcast waits for room. -/
def broadcast (a : α) : Option (Channel α ρ) :=
  if c.kept < c.capacity then some { c with sent := c.sent ++ [a] } else none

/-- The receiver `i`, with the number of its next message, unless it was dropped. -/
def receiver (i : ℕ) : Option (ρ × ℕ) := c.receivers[i]?.join

/-- A receiver for `r` that has the messages of receiver `i` before it. -/
def clone (i : ℕ) (r : ρ) : Option (Channel α ρ) :=
  (c.receiver i).map fun source => { c with receivers := c.receivers ++ [some (r, source.2)] }

/-- The messages that receiver `i` has before it. -/
def pending (i : ℕ) : List α := ((c.receiver i).map fun r => c.sent.drop r.2).getD []

/-- Receiver `i` receives `n` messages. -/
def advance (i n : ℕ) : Channel α ρ :=
  { c with receivers := c.receivers.modify i (Option.map fun r => (r.1, r.2 + n)) }

/-- A receiver is dropped. -/
def drop (i : ℕ) : Channel α ρ := { c with receivers := c.receivers.set i none }

/-- What a receiver is part of changes. -/
def update (i : ℕ) (r : ρ) : Channel α ρ :=
  { c with receivers := c.receivers.modify i (Option.map fun r' => (r, r'.2)) }

variable {c}

/-- While some receiver is at the start, every message is kept. -/
theorem kept_of_start {r : ρ} (h : some (r, 0) ∈ c.receivers) : c.kept = c.sent.length := by
  have hall : ∀ k ∈ List.range c.sent.length, decide (c.Keeps k) = true := fun k _ => by
    rw [decide_eq_true_iff]
    exact ⟨(r, 0), List.reduceOption_mem_iff.mpr h, Nat.zero_le k⟩
  rw [kept, List.countP_eq_length.mpr hall, List.length_range]

theorem broadcast_eq_some {a : α} {c' : Channel α ρ} :
    c.broadcast a = some c' ↔ c.kept < c.capacity ∧ c' = { c with sent := c.sent ++ [a] } := by
  unfold broadcast
  by_cases hlt : c.kept < c.capacity
  · rw [if_pos hlt, Option.some_inj]
    exact ⟨fun h => ⟨hlt, h.symm⟩, fun h => h.2.symm⟩
  · rw [if_neg hlt]
    exact ⟨fun h => (by cases h), fun h => absurd h.1 hlt⟩

/-- What is done with the other receivers leaves the first where it is. -/
theorem head_modify {f : Option (ρ × ℕ) → Option (ρ × ℕ)} {i : ℕ} {r : Option (ρ × ℕ)}
    (h : c.receivers.head? = some r) (hi : i ≠ 0) : (c.receivers.modify i f).head? = some r := by
  cases hrs : c.receivers with
  | nil =>
    rw [hrs] at h
    cases h
  | cons r' rs =>
    rw [hrs] at h
    obtain ⟨i, rfl⟩ := Nat.exists_eq_succ_of_ne_zero hi
    simpa using h

end Channel
end Broadcast
