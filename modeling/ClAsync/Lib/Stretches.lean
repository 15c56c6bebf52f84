/-
# The longest stretch of a value in a list

A stretch of `a` is a number of `a`s side by side. `Longest a l before n after`
says where the longest one of `l` stands, the leftmost if there are several.
`concat_longer`, `concat_shorter` and `concat_other` follow it while the list
grows at its end, which is how a loop over the list finds it.
-/
import Mathlib.Data.List.Infix
import Mathlib.Data.List.TakeDrop
import Mathlib.Tactic.Common

namespace Stretches

variable {α β : Type*} {a b : α} {l before after : List α} {m n k : ℕ}

/-- The first of the longest runs of `a` in `l`: `n` of them, between `before` and
`after`. -/
structure Longest (a : α) (l before : List α) (n : ℕ) (after : List α) : Prop where
  eq : l = before ++ (List.replicate n a ++ after)
  longest : ∀ m, List.replicate m a <:+: l → m ≤ n
  leftmost : ∀ before' after', l = before' ++ (List.replicate n a ++ after') → before.length ≤ before'.length

/-- A stretch at the end of a list is part of the last one. -/
theorem le_of_suffix (hlast : before.getLast? ≠ some a) (h : List.replicate m a <:+ before ++ List.replicate k a) :
    m ≤ k := by
  by_contra hlt
  rw [Nat.not_le] at hlt
  obtain ⟨x, hx⟩ := h
  obtain ⟨d, rfl⟩ := Nat.exists_eq_add_of_lt hlt
  have hsplit : (x ++ List.replicate (d + 1) a) ++ List.replicate k a = before ++ List.replicate k a := by
    rw [← hx, List.append_assoc, ← List.replicate_add]
    congr 2
    omega
  have hbefore := List.append_cancel_right hsplit
  rw [List.replicate_succ', ← List.append_assoc] at hbefore
  exact hlast (by rw [← hbefore, List.getLast?_concat])

/-- A stretch of a longer list ends before the new element, or with it. -/
theorem infix_concat (h : List.replicate m a <:+: l ++ [b]) :
    List.replicate m a <:+: l ∨ List.replicate m a <:+ l ++ [b] :=
  (List.infix_concat_iff.mp h).symm

/-- A stretch that something follows was there before the last element. -/
theorem eq_of_concat {x y : List α} (h : l ++ [b] = x ++ (List.replicate m a ++ y)) (hy : y ≠ []) :
    l = x ++ (List.replicate m a ++ y.dropLast) := by
  have hdrop := congrArg List.dropLast h
  rwa [List.dropLast_concat, List.dropLast_append_of_ne_nil (by simp [hy]), List.dropLast_append_of_ne_nil hy]
    at hdrop

section Concat

variable (hend : l = before ++ List.replicate k a) (hlast : before.getLast? ≠ some a)
include hend hlast

theorem le_of_suffix_concat (h : List.replicate m a <:+ l ++ [a]) : m ≤ k + 1 := by
  apply le_of_suffix hlast
  rwa [List.replicate_succ', ← List.append_assoc, ← hend]

/-- The stretch at the end gets longer than all others. -/
theorem Longest.concat_longer (hshort : ∀ m, List.replicate m a <:+: l → m ≤ k) :
    Longest a (l ++ [a]) before (k + 1) [] where
  eq := by rw [List.append_nil, List.replicate_succ', ← List.append_assoc, ← hend]
  longest m hm := by
    rcases infix_concat hm with hm | hm
    · exact Nat.le_succ_of_le (hshort m hm)
    · exact le_of_suffix_concat hend hlast hm
  leftmost before' after' h := by
    by_cases hafter : after' = []
    · subst hafter
      have hlen := congrArg List.length h
      rw [hend] at hlen
      simp only [List.length_append, List.length_replicate, List.length_cons, List.length_nil] at hlen
      omega
    · have hle := hshort (k + 1) ⟨before', after'.dropLast, by
        rw [List.append_assoc]
        exact (eq_of_concat h hafter).symm⟩
      omega

/-- The stretch at the end gets longer, but not longer than the longest. -/
theorem Longest.concat_shorter {front back : List α} (h : Longest a l front n back) (hn : k + 1 ≤ n) :
    Longest a (l ++ [a]) front n (back ++ [a]) where
  eq := by rw [h.eq, List.append_assoc, List.append_assoc]
  longest m hm := by
    rcases infix_concat hm with hm | hm
    · exact h.longest m hm
    · exact Nat.le_trans (le_of_suffix_concat hend hlast hm) hn
  leftmost before' after' heq := by
    by_cases hafter : after' = []
    · subst hafter
      have hlen := congrArg List.length heq
      rw [h.eq] at hlen
      have hsuffix : n ≤ k + 1 := le_of_suffix_concat hend hlast ⟨before', by rw [heq, List.append_nil]⟩
      have hfront := congrArg List.length h.eq
      rw [hend] at hfront
      simp only [List.length_append, List.length_replicate, List.length_cons, List.length_nil] at hlen hfront
      omega
    · exact h.leftmost before' after'.dropLast (eq_of_concat heq hafter)

end Concat

/-- The stretch at the end is over. -/
theorem Longest.concat_other (h : Longest a l before n after) (hn : 0 < n) (hb : b ≠ a) :
    Longest a (l ++ [b]) before n (after ++ [b]) where
  eq := by rw [h.eq, List.append_assoc, List.append_assoc]
  longest m hm := by
    rcases infix_concat hm with hm | hm
    · exact h.longest m hm
    · cases m with
      | zero => exact Nat.zero_le n
      | succ m =>
        rw [List.replicate_succ'] at hm
        have hends := hm.getLast (by simp)
        simp only [List.getLast_append_singleton] at hends
        exact absurd hends.symm hb
  leftmost before' after' heq := by
    by_cases hafter : after' = []
    · subst hafter
      obtain ⟨k, rfl⟩ := Nat.exists_eq_succ_of_ne_zero (Nat.pos_iff_ne_zero.mp hn)
      have hends := congrArg List.getLast? heq
      rw [List.append_nil, List.replicate_succ', ← List.append_assoc, List.getLast?_concat,
        List.getLast?_concat] at hends
      exact absurd (Option.some.inj hends) hb
    · exact h.leftmost before' after'.dropLast (eq_of_concat heq hafter)

/-- The longest stretch of an image is the image of the longest stretch. -/
theorem Longest.of_map {f : α → β} (hf : ∀ x ∈ l, f x = f a → x = a) {front back : List β}
    (h : Longest (f a) (l.map f) front n back) :
    ∃ before after, front = before.map f ∧ back = after.map f ∧ Longest a l before n after := by
  obtain ⟨before, rest, rfl, hbefore, hrest⟩ := List.map_eq_append_iff.mp h.eq
  obtain ⟨middle, after, rfl, hmiddle, hafter⟩ := List.map_eq_append_iff.mp hrest
  have hreplicate : middle = List.replicate n a := by
    obtain ⟨hlen, hall⟩ := List.eq_replicate_iff.mp hmiddle
    rw [List.length_map] at hlen
    refine List.eq_replicate_iff.mpr ⟨hlen, fun x hx => hf x ?_ (hall _ (List.mem_map_of_mem hx))⟩
    exact List.mem_append_right _ (List.mem_append_left _ hx)
  refine ⟨before, after, hbefore.symm, hafter.symm, by rw [hreplicate], fun m hm => ?_, fun x y hxy => ?_⟩
  · have hmap := hm.map f
    rw [List.map_replicate] at hmap
    exact h.longest m hmap
  · have hmap : (before ++ (middle ++ after)).map f = x.map f ++ (List.replicate n (f a) ++ y.map f) := by
      rw [hxy, List.map_append, List.map_append, List.map_replicate]
    have hle := h.leftmost _ _ hmap
    rwa [← hbefore, List.length_map, List.length_map] at hle

end Stretches
