/-
# Futures, their polls and their wakers

A concurrent object whose waiters are futures keeps a queue of the wakers
its polls left behind, and wakes them from it. What such objects share is
here, over the program counter `π` of a poll and the data `δ` a future
carries.

* `Future`: one future of the table, with the phase of its life, the waker
  of its latest poll and whether that waker has been woken since the poll
  began.
* `wake w`: the futures last polled with the waker `w` are woken; `wakeAll ws`
  is that for a queue of wakers.

A table of futures is a list, a future its index. The lemmas at the end say
what replacing one future (`List.set`) and waking do to the members of the
table and to sums over it.
-/
import Mathlib.Algebra.BigOperators.Group.List.Basic
import Mathlib.Algebra.Ring.Nat
import Mathlib.Tactic.Common

namespace Wakers

/-- The life of a future: created, suspended after a poll that returned
`Pending`, in the middle of a poll, done after one that returned `Ready`,
and dropped. -/
inductive Phase (π : Type)
  | created
  | pending
  | polling (pc : π)
  | ready
  | dropped
  deriving DecidableEq, Repr

namespace Phase

variable {π : Type}

/-- A poll is under way. -/
def isPolling : Phase π → Bool
  | polling _ => true
  | _ => false

/-- The future still waits: it is suspended or being polled. -/
def isWaiting : Phase π → Bool
  | pending => true
  | polling _ => true
  | _ => false

/-- The future has not returned `Ready` and is not dropped. -/
def isOpen : Phase π → Bool
  | created => true
  | pending => true
  | polling _ => true
  | _ => false

/-- The future may be polled: it has not returned `Ready`, is not dropped and
no poll of it is under way. -/
def canPoll : Phase π → Bool
  | created => true
  | pending => true
  | _ => false

/-- The future exists and no poll of it is under way. -/
def canDrop : Phase π → Bool
  | created => true
  | pending => true
  | ready => true
  | _ => false

theorem isOpen_of_canPoll {p : Phase π} (h : p.canPoll = true) : p.isOpen = true := by
  cases p <;> simp_all [canPoll, isOpen]

theorem isOpen_of_canDrop {p : Phase π} (h : p.canDrop = true) (hr : p ≠ ready) : p.isOpen = true := by
  cases p <;> simp_all [canDrop, isOpen]

theorem isPolling_of_canDrop {p : Phase π} (h : p.canDrop = true) : p.isPolling = false := by
  cases p <;> first | rfl | cases h

end Phase

/-- A future with its latest waker. -/
structure Future (π δ : Type) where
  phase : Phase π
  waker : ℕ
  /-- The waker has been woken since the latest poll began. -/
  woken : Bool
  /-- The latest poll found the future woken; kept for the proofs, no step reads it. -/
  answers : Bool
  data : δ
  deriving DecidableEq, Repr

namespace Future

variable {π δ : Type}

def new (d : δ) : Future π δ := ⟨.created, 0, false, false, d⟩

/-- A poll with the waker `w` begins at `pc`. -/
def poll (f : Future π δ) (w : ℕ) (pc : π) : Future π δ :=
  { f with phase := .polling pc, waker := w, woken := false, answers := f.phase.isWaiting && f.woken }

def drop (f : Future π δ) : Future π δ := { f with phase := .dropped }

/-- Suspended, and nobody has woken it since its last poll. -/
def Asleep (f : Future π δ) : Prop := f.phase = .pending ∧ f.woken = false

/-- Still waiting, and nobody has woken it since its last poll began. -/
def Waits (f : Future π δ) : Prop := f.phase.isWaiting = true ∧ f.woken = false

/-- Woken, and still waiting for what it was woken for. -/
def Roused (f : Future π δ) : Prop := f.phase.isWaiting = true ∧ f.woken = true

instance [DecidableEq π] (f : Future π δ) : Decidable f.Asleep :=
  inferInstanceAs (Decidable (_ ∧ _))

instance (f : Future π δ) : Decidable f.Waits := inferInstanceAs (Decidable (_ ∧ _))

instance (f : Future π δ) : Decidable f.Roused := inferInstanceAs (Decidable (_ ∧ _))

/-- What a wake-up with the waker `w` does to one future. -/
def wakeBy (w : ℕ) (f : Future π δ) : Future π δ := if f.waker = w then { f with woken := true } else f

@[simp] theorem wakeBy_phase (w : ℕ) (f : Future π δ) : (f.wakeBy w).phase = f.phase := by
  unfold wakeBy; split <;> rfl

@[simp] theorem wakeBy_waker (w : ℕ) (f : Future π δ) : (f.wakeBy w).waker = f.waker := by
  unfold wakeBy; split <;> rfl

@[simp] theorem wakeBy_data (w : ℕ) (f : Future π δ) : (f.wakeBy w).data = f.data := by
  unfold wakeBy; split <;> rfl

@[simp] theorem wakeBy_answers (w : ℕ) (f : Future π δ) : (f.wakeBy w).answers = f.answers := by
  unfold wakeBy; split <;> rfl

theorem wakeBy_woken (w : ℕ) (f : Future π δ) :
    (f.wakeBy w).woken = (f.woken || decide (f.waker = w)) := by
  unfold wakeBy; split <;> simp_all

end Future

variable {π δ : Type}

/-- The waker `w` is woken. -/
def wake (w : ℕ) (fs : List (Future π δ)) : List (Future π δ) := fs.map (Future.wakeBy w)

theorem mem_wake {w : ℕ} {fs : List (Future π δ)} {f : Future π δ} :
    f ∈ wake w fs ↔ ∃ f₀ ∈ fs, f₀.wakeBy w = f := List.mem_map

theorem forall_mem_wake {w : ℕ} {fs : List (Future π δ)} {P : Future π δ → Prop} (h : ∀ f ∈ fs, P (f.wakeBy w)) :
    ∀ f ∈ wake w fs, P f := List.forall_mem_map.mpr h

/-- Who has a waker in a queue and is not woken by the first one has it in the
rest of the queue. -/
theorem mem_queue_of_wake {w : ℕ} {ws : List ℕ} {fs : List (Future π δ)} {queued : Future π δ → Bool}
    (hqueued : ∀ f, queued (f.wakeBy w) = queued f)
    (h : ∀ f ∈ fs, queued f = true → f.woken = false → f.waker ∈ w :: ws) :
    ∀ f ∈ wake w fs, queued f = true → f.woken = false → f.waker ∈ ws := by
  refine forall_mem_wake fun f hf hq hw => ?_
  rw [hqueued] at hq
  rw [Future.wakeBy_woken, Bool.or_eq_false_iff, decide_eq_false_iff_not] at hw
  rw [Future.wakeBy_waker]
  exact (List.mem_cons.mp (h f hf hq hw.1)).resolve_left hw.2

theorem sum_map_wake {g : Future π δ → ℕ} (hg : ∀ w f, g (f.wakeBy w) = g f) (w : ℕ)
    (fs : List (Future π δ)) : ((wake w fs).map g).sum = (fs.map g).sum := by
  simp only [wake, List.map_map]
  exact congrArg List.sum (List.map_congr_left fun f _ => hg w f)

/-- A wake-up rouses the waiting futures of the waker. -/
theorem roused_wakeBy {f : Future π δ} {w : ℕ} :
    (f.wakeBy w).Roused ↔ f.Roused ∨ (f.phase.isWaiting = true ∧ f.waker = w) := by
  unfold Future.Roused
  rw [Future.wakeBy_phase, Future.wakeBy_woken, Bool.or_eq_true, decide_eq_true_eq, and_or_left]

/-- The futures of other wakers sleep on. -/
theorem asleep_wakeBy {f : Future π δ} {w : ℕ} : (f.wakeBy w).Asleep ↔ f.Asleep ∧ f.waker ≠ w := by
  unfold Future.Asleep
  rw [Future.wakeBy_phase, Future.wakeBy_woken, Bool.or_eq_false_iff, decide_eq_false_iff_not, and_assoc]

/-- The wakers `ws` are woken in order. -/
def wakeAll (ws : List ℕ) (fs : List (Future π δ)) : List (Future π δ) := ws.foldl (fun fs w => wake w fs) fs

/-- Entry by entry, the wakers change whether a future is woken, and nothing
else. -/
theorem getElem?_wakeAll {f : Future π δ} {i : ℕ} : ∀ (ws : List ℕ) {fs : List (Future π δ)}, fs[i]? = some f →
    ∃ b, (wakeAll ws fs)[i]? = some { f with woken := b }
  | [], _, h => ⟨f.woken, h⟩
  | w :: ws, fs, h => by
    have hw : (wake w fs)[i]? = some (f.wakeBy w) := by
      rw [wake, List.getElem?_map, h, Option.map_some]
    obtain ⟨b, hb⟩ := getElem?_wakeAll ws hw
    refine ⟨b, ?_⟩
    unfold wakeAll at hb ⊢
    rw [List.foldl_cons, hb]
    unfold Future.wakeBy
    split <;> rfl

/-- The futures still asleep are those that slept with other wakers. -/
theorem asleep_of_mem_wakeAll {f : Future π δ} (hf : f.Asleep) : ∀ (ws : List ℕ) (fs : List (Future π δ)),
    f ∈ wakeAll ws fs → f ∈ fs ∧ f.waker ∉ ws
  | [], _, h => ⟨h, List.not_mem_nil⟩
  | w :: ws, fs, h => by
    obtain ⟨hmem, hws⟩ := asleep_of_mem_wakeAll hf ws (wake w fs) h
    obtain ⟨f₀, hf₀, heq⟩ := mem_wake.mp hmem
    have hsleep : f₀.Asleep ∧ f₀.waker ≠ w := asleep_wakeBy.mp (heq ▸ hf)
    have hsame : f = f₀ := by
      rw [← heq, Future.wakeBy, if_neg hsleep.2]
    rw [hsame] at hws ⊢
    exact ⟨hf₀, List.not_mem_cons_of_ne_of_not_mem hsleep.2 hws⟩

section Table

variable {τ : Type} {fs : List τ} {i : ℕ} {x y f : τ}

/-- Replacing entry `x` keeps every other member. -/
theorem mem_set_or_eq (hx : fs[i]? = some x) (hf : f ∈ fs) : f = x ∨ f ∈ fs.set i y := by
  obtain ⟨j, hj⟩ := List.mem_iff_getElem?.mp hf
  by_cases h : i = j
  · subst h
    rw [hx] at hj
    exact Or.inl (Option.some.inj hj).symm
  · refine Or.inr (List.mem_iff_getElem?.mpr ⟨j, ?_⟩)
    rw [List.getElem?_set_ne h, hj]

theorem mem_set_self (hx : fs[i]? = some x) : y ∈ fs.set i y := by
  obtain ⟨h, -⟩ := List.getElem?_eq_some_iff.mp hx
  exact List.mem_set h y

/-- A property of every member survives replacing `x` by a `y` that has it. -/
theorem forall_mem_set {P : τ → Prop} (hP : ∀ f ∈ fs, P f) (hy : P y) : ∀ f ∈ fs.set i y, P f := by
  intro f hf
  rcases List.mem_or_eq_of_mem_set hf with hf | rfl
  · exact hP f hf
  · exact hy

/-- An entry of the table with `y` at `i` is `y`, or the old one. -/
theorem getElem?_set_cases {j : ℕ} (h : (fs.set i y)[j]? = some f) :
    (j = i ∧ f = y) ∨ (j ≠ i ∧ fs[j]? = some f) := by
  rw [List.getElem?_set] at h
  by_cases hj : i = j
  · rw [if_pos hj] at h
    split at h <;> cases h
    exact Or.inl ⟨hj.symm, rfl⟩
  · rw [if_neg hj] at h
    exact Or.inr ⟨fun he => hj he.symm, h⟩

/-- Replacing one member by one it is related to relates every member to the
one in its place. -/
theorem getElem?_set_rel {R : τ → τ → Prop} (hR : ∀ f, R f f) (hx : fs[i]? = some x) (hxy : R x y)
    {j : ℕ} (hf : fs[j]? = some f) : ∃ f', (fs.set i y)[j]? = some f' ∧ R f f' := by
  by_cases h : i = j
  · subst h
    cases hx.symm.trans hf
    exact ⟨y, List.getElem?_set_self (List.getElem?_eq_some_iff.mp hx).1, hxy⟩
  · exact ⟨f, by rw [List.getElem?_set_ne h, hf], hR f⟩

theorem getElem?_append_cases {j : ℕ} (h : (fs ++ [y])[j]? = some f) : f = y ∨ fs[j]? = some f := by
  rw [List.getElem?_append] at h
  split at h
  · exact Or.inr h
  · exact Or.inl (List.mem_singleton.mp (List.mem_of_getElem? h))

/-- Replacing `x` by `y` moves a sum over the table by `g y - g x`. -/
theorem sum_map_set (g : τ → ℕ) : ∀ {fs : List τ} {i : ℕ} {x : τ}, fs[i]? = some x → ∀ y : τ,
    ((fs.set i y).map g).sum + g x = (fs.map g).sum + g y
  | [], _, _, h, _ => by simp at h
  | a :: fs, 0, x, h, y => by
    simp only [List.getElem?_cons_zero, Option.some.injEq] at h
    subst h
    simp only [List.set_cons_zero, List.map_cons, List.sum_cons]
    omega
  | a :: fs, i + 1, x, h, y => by
    simp only [List.getElem?_cons_succ] at h
    have ih := sum_map_set g h y
    simp only [List.set_cons_succ, List.map_cons, List.sum_cons]
    omega

/-- A member's share of a sum over the table. -/
theorem le_sum_map (g : τ → ℕ) (hx : fs[i]? = some x) : g x ≤ (fs.map g).sum := by
  induction fs generalizing i with
  | nil => simp at hx
  | cons a fs ih =>
    rw [List.map_cons, List.sum_cons]
    cases i with
    | zero =>
      simp only [List.getElem?_cons_zero, Option.some.injEq] at hx
      rw [hx]
      omega
    | succ i =>
      have := ih (by simpa using hx)
      omega

/-- And a count by what the two count for. -/
theorem countP_set_add (p : τ → Bool) (hx : fs[i]? = some x) (y : τ) :
    (fs.set i y).countP p + (if p x then 1 else 0) = fs.countP p + if p y then 1 else 0 := by
  obtain ⟨hlt, rfl⟩ := List.getElem?_eq_some_iff.mp hx
  have hpos : (if p fs[i] then 1 else 0) ≤ fs.countP p := by
    split
    · exact List.countP_pos_iff.mpr ⟨_, List.getElem_mem hlt, ‹_›⟩
    · exact Nat.zero_le _
  rw [List.countP_set hlt]
  omega

/-- A list made of the members is made of one and of the others. -/
theorem flatMap_perm {σ : Type} (g : τ → List σ) (hx : fs[i]? = some x) :
    (fs.flatMap g).Perm (g x ++ (fs.eraseIdx i).flatMap g) := by
  induction fs generalizing i with
  | nil => simp at hx
  | cons a fs ih =>
    cases i with
    | zero =>
      simp only [List.getElem?_cons_zero, Option.some.injEq] at hx
      rw [hx, List.eraseIdx_cons_zero, List.flatMap_cons]
    | succ i =>
      rw [List.eraseIdx_cons_succ, List.flatMap_cons, List.flatMap_cons]
      refine ((ih (by simpa using hx)).append_left (g a)).trans ?_
      rw [← List.append_assoc, ← List.append_assoc]
      exact List.perm_append_comm.append_right _

/-- Replacing one leaves the others. -/
theorem flatMap_set_perm {σ : Type} (g : τ → List σ) (hx : fs[i]? = some x) (y : τ) :
    ((fs.set i y).flatMap g).Perm (g y ++ (fs.eraseIdx i).flatMap g) := by
  have hy : (fs.set i y)[i]? = some y := List.getElem?_set_self (List.getElem?_eq_some_iff.mp hx).1
  have hperm := flatMap_perm g hy
  rwa [List.eraseIdx_set_eq] at hperm

end Table

end Wakers
