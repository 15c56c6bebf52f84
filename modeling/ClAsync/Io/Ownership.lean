/-
# Who gets a descriptor

A descriptor that the kernel returned should become one `OwnedFdAsync`: it
was handed to the owner of its operation, or `IoContext::complete` and polls
can still hand it over (`Recoverable`). Nobody but the owner has the key of
the operation, and neither its slot nor the result closes a descriptor when
it goes. So a descriptor is lost when the owner is dropped before it was
polled out, and when the kernel returns it to an operation that has no owner
any more. Nothing else loses one.

Key definitions: `Recoverable`, `Owned`, `Keeps`.
Key theorems: `recoverable_iff`, `settled_step`, `owned_iff_keeps`.
-/
import ClAsync.Io.Descriptors
import ClAsync.Lib.Runs

namespace ClAsync
namespace Descriptors

open Runs

variable {s s' : State}

/-! ### What can still be polled out -/

/-- Completions and polls can still bring every descriptor of the key that the
kernel returned to an owner. -/
def Recoverable (s : State) (key : Key) : Prop :=
  ∃ n s', run step s (List.replicate s.ring.length .complete ++ List.replicate n (.poll key 0)) = some s' ∧
    s'.handed key = s'.returned key

/-- Where nobody owns the operation, nothing is left to poll out. -/
def State.Settled (s : State) : Prop := ∀ key, s.owners key = none → s.unclaimed key = []

/-- A poll makes an owner of a single operation the last only when nothing is
left. -/
theorem unclaimed_of_gone (hs : Inv s) {key : Key} {owner : Owner} (howner : s.owners key = some owner) (waker : Waker)
    (hgone : owner.after (s.traffic.poll key waker).1 = none) : (s.polled key waker owner).unclaimed key = [] := by
  obtain ⟨hresult, ⟨-, hqueue⟩, -⟩ := Traffic.poll_cases s.traffic key waker
  have hfuture : owner = .future ∧ (s.traffic.poll key waker).1 ≠ .pending := by
    cases owner with
    | future => exact ⟨rfl, fun hpending => by rw [hpending] at hgone; cases hgone⟩
    | handle => cases hgone
    | listener => cases hgone
  obtain ⟨rfl, hready⟩ := hfuture
  rcases (hs.keys key).poll_single (hs.single key howner).2 waker with hpending | ⟨hwaiting, hposted⟩
  · exact absurd (hresult.trans hpending) hready
  · unfold State.unclaimed State.polled
    simp only [hqueue, hwaiting]
    show [] ++ (s.posted key).flatMap _ = []
    rw [hposted]
    rfl

/-- All that the ring holds can be consumed, and no owner notices. -/
theorem run_complete (hs : Inv s) : ∃ s', run step s (List.replicate s.ring.length .complete) = some s' ∧
    Inv s' ∧ s'.ring = [] ∧ s'.owners = s.owners ∧ s'.handed = s.handed ∧ s'.returned = s.returned := by
  generalize hn : s.ring.length = n
  induction n generalizing s with
  | zero => exact ⟨s, rfl, hs, List.eq_nil_of_length_eq_zero hn, rfl, rfl, rfl⟩
  | succ n ih =>
    obtain ⟨cqe, ring, hring⟩ := List.exists_cons_of_length_eq_add_one hn
    have hkey := hs.keys cqe.key
    rw [posted_cons hring] at hkey
    have hlog : ∃ l, s.traffic.log.lookup cqe.key = some l := by
      apply Option.ne_none_iff_exists'.mp
      intro hnone
      cases hkey.unprepared hnone
    obtain ⟨l, hl⟩ := hlog
    obtain ⟨traffic, htraffic⟩ := Traffic.complete_isSome hl (hkey.posts l hl).1
    have hstep : step s .complete = some { s with ring, traffic } := by
      simp only [step, hring, htraffic, Option.map_some]
    have hlength : ring.length = n := by
      rw [hring, List.length_cons] at hn
      omega
    obtain ⟨s', hrun, hs', hempty, howners, hhanded, hreturned⟩ := ih (inv_complete hs hring htraffic) hlength
    refine ⟨s', ?_, hs', hempty, howners, hhanded, hreturned⟩
    rw [List.replicate_succ, run, hstep]
    exact hrun

/-- An owner that goes on polling gets all that was returned. -/
theorem run_poll (hs : Inv s) (hring : s.ring = []) {key : Key} (hsettled : s.owners key = none → s.unclaimed key = []) :
    ∃ n s', run step s (List.replicate n (.poll key 0)) = some s' ∧ s'.handed key = s'.returned key := by
  generalize hm : ((s.traffic.queue.lookup key).elim [] results).length = m
  induction m using Nat.strong_induction_on generalizing s with
  | _ m ih =>
  by_cases hunclaimed : s.unclaimed key = []
  · have hconserved := hs.conserved key
    rw [hunclaimed, List.append_nil] at hconserved
    exact ⟨0, s, rfl, hconserved⟩
  obtain ⟨owner, howner⟩ := Option.ne_none_iff_exists'.mp fun hnone => hunclaimed (hsettled hnone)
  obtain ⟨hresult, ⟨-, hqueue⟩, -⟩ := Traffic.poll_cases s.traffic key 0
  have hsettled' : (s.polled key 0 owner).owners key = none → (s.polled key 0 owner).unclaimed key = [] := by
    intro hgone
    apply unclaimed_of_gone hs howner
    unfold State.polled at hgone
    simp only [Function.update_self] at hgone
    exact hgone
  -- The slot holds a result, and the poll takes one.
  have hlt : (((s.polled key 0 owner).traffic.queue.lookup key).elim [] results).length < m := by
    unfold State.polled
    simp only [hqueue]
    have hposted : s.posted key = [] := by
      unfold State.posted
      rw [hring, List.filter_nil]
    unfold State.unclaimed at hunclaimed
    rw [hposted, List.flatMap_nil, List.append_nil] at hunclaimed
    cases hslot : s.traffic.queue.lookup key with
    | none =>
      rw [hslot] at hunclaimed
      exact absurd rfl hunclaimed
    | some slot =>
      rw [hslot] at hunclaimed hm
      rw [← hm]
      refine results_poll_lt (fun hnil => hunclaimed ?_) 0
      show (results slot).filterMap descriptor = []
      rw [hnil, List.filterMap_nil]
  obtain ⟨n, s', hrun, hhanded⟩ := ih _ hlt (inv_poll hs howner 0) hring hsettled' rfl
  refine ⟨n + 1, s', ?_, hhanded⟩
  rw [List.replicate_succ, run, step_poll howner]
  exact hrun

theorem recoverable_iff (hs : Inv s) (key : Key) :
    Recoverable s key ↔ (s.owners key = none → s.unclaimed key = []) := by
  obtain ⟨s₁, hrun₁, hs₁, hring, howners, hhanded, hreturned⟩ := run_complete hs
  constructor
  · rintro ⟨n, s', hrun, hall⟩ hnone
    rw [run_append, hrun₁, Option.bind_some] at hrun
    -- There is nobody to poll.
    have hsame : s₁ = s' := by
      cases n with
      | zero => exact Option.some.inj hrun
      | succ n =>
        have hpoll : step s₁ (.poll key 0) = none := by
          simp only [step, howners, hnone]
        rw [List.replicate_succ, run, hpoll] at hrun
        cases hrun
    have hconserved := hs.conserved key
    rw [← hsame, hhanded, hreturned] at hall
    rw [← hall] at hconserved
    exact List.append_right_eq_self.mp hconserved
  · intro hsettled
    have hsettled₁ : s₁.owners key = none → s₁.unclaimed key = [] := by
      intro hnone
      rw [howners] at hnone
      have hconserved := hs.conserved key
      have hconserved₁ := hs₁.conserved key
      rw [hsettled hnone, List.append_nil] at hconserved
      rw [hhanded, hreturned, ← hconserved] at hconserved₁
      exact List.append_right_eq_self.mp hconserved₁
    obtain ⟨n, s', hrun, hall⟩ := run_poll hs₁ hring hsettled₁
    refine ⟨n, s', ?_, hall⟩
    rw [run_append, hrun₁, Option.bind_some]
    exact hrun

/-- Every descriptor returned is one owner's, or can still be polled out by
the owner of its operation. -/
def Owned (s : State) : Prop := ∀ key, Recoverable s key

theorem owned_iff_settled (hs : Inv s) : Owned s ↔ s.Settled := forall_congr' fun key => recoverable_iff hs key

/-- The kernel returns descriptors to operations with an owner, and an owner
is dropped when nothing of its operation is left to poll. -/
def Keeps (s : State) : Event → Prop
  | .post key resultCode _ => 0 ≤ resultCode → s.owners key ≠ none
  | .drop key => s.unclaimed key = []
  | _ => True

/-- The descriptors in flight for a key grow by those the kernel returns. -/
theorem unclaimed_of_returned (hs : Inv s) (hs' : Inv s') {key : Key} (fds : List ℕ)
    (hhanded : s'.handed key = s.handed key) (hreturned : s'.returned key = s.returned key ++ fds) :
    s'.unclaimed key = s.unclaimed key ++ fds := by
  have hconserved := hs.conserved key
  have hconserved' := hs'.conserved key
  rw [hhanded, hreturned, ← hconserved, List.append_assoc] at hconserved'
  exact List.append_cancel_left hconserved'

theorem unclaimed_of_same (hs : Inv s) (hs' : Inv s') {key : Key} (hhanded : s'.handed key = s.handed key)
    (hreturned : s'.returned key = s.returned key) : s'.unclaimed key = s.unclaimed key := by
  have h := unclaimed_of_returned hs hs' [] hhanded (by rw [hreturned, List.append_nil])
  rwa [List.append_nil] at h

/-- Every step but these two keeps the descriptors. -/
theorem settled_step {e : Event} (hs : Inv s) (hsettled : s.Settled) (h : step s e = some s') :
    s'.Settled ↔ Keeps s e := by
  have hs' := inv_step hs h
  cases e with
  | submit key data owner waker =>
    obtain ⟨-, -, rfl⟩ := step_cases h
    refine iff_of_true (fun k hk => ?_) trivial
    rcases eq_or_ne k key with rfl | hne
    · simp only [Function.update_self] at hk
      cases hk
    · simp only [Function.update_of_ne hne] at hk
      exact hsettled k hk
  | prepare key =>
    obtain ⟨op, waker, -, rfl⟩ := step_cases h
    refine iff_of_true (fun k hk => ?_) trivial
    rw [unclaimed_of_same hs hs' rfl rfl]
    exact hsettled k hk
  | post key resultCode more =>
    obtain ⟨l, -, -, rfl⟩ := step_cases h
    have hunclaimed := unclaimed_of_returned hs hs' (descriptors resultCode) rfl (Function.update_self key ..)
    constructor
    · intro hall hcode hnone
      rw [hall key hnone, hsettled key hnone, descriptors, if_neg (by omega)] at hunclaimed
      cases hunclaimed
    · intro hkeeps k hk
      rcases eq_or_ne k key with rfl | hne
      · rw [hunclaimed, hsettled k hk, descriptors, if_pos, List.append_nil]
        by_contra hcode
        exact hkeeps (by omega) hk
      · rw [unclaimed_of_same hs hs' rfl (Function.update_of_ne hne ..)]
        exact hsettled k hk
  | complete =>
    obtain ⟨cqe, ring, traffic, -, -, rfl⟩ := step_cases h
    refine iff_of_true (fun k hk => ?_) trivial
    rw [unclaimed_of_same hs hs' rfl rfl]
    exact hsettled k hk
  | poll key waker =>
    obtain ⟨owner, howner, rfl⟩ := step_cases h
    refine iff_of_true (fun k hk => ?_) trivial
    rcases eq_or_ne k key with rfl | hne
    · apply unclaimed_of_gone hs howner
      unfold State.polled at hk
      simp only [Function.update_self] at hk
      exact hk
    · rw [unclaimed_of_same hs hs' (Function.update_of_ne hne ..) rfl]
      unfold State.polled at hk
      simp only [Function.update_of_ne hne] at hk
      exact hsettled k hk
  | drop key =>
    have heq : s' = _ := step_cases h
    subst heq
    constructor
    · intro hall
      exact hall key (Function.update_self ..)
    · intro hkeeps k hk
      rcases eq_or_ne k key with rfl | hne
      · exact hkeeps
      · simp only [Function.update_of_ne hne] at hk
        exact hsettled k hk

theorem owned_init : Owned State.init := (owned_iff_settled inv_init).mpr fun _ _ => rfl

/-- **No descriptor is lost if and only if** the kernel returns descriptors
only to operations that have their owner, and no owner is dropped before it
has polled out what was returned. -/
theorem owned_iff_keeps (es : List Event) : Along step Owned State.init es ↔ Taken step Keeps State.init es := by
  refine along_iff_taken (I := Inv) (fun s e s' hs howned hkeeps h => ?_) (fun s e s' hs howned hlost h howned' => ?_)
    inv_init owned_init
  · have hs' := inv_step hs h
    have hsettled := (settled_step hs ((owned_iff_settled hs).mp howned) h).mpr hkeeps
    exact ⟨hs', (owned_iff_settled hs').mpr hsettled⟩
  · have hsettled' := (owned_iff_settled (inv_step hs h)).mp howned'
    exact hlost ((settled_step hs ((owned_iff_settled hs).mp howned) h).mp hsettled')

/-- A run loses what is left of an operation without an owner. -/
theorem not_owned_of_run {es : List Event} {key : Key} {fd : ℕ} {fds : List ℕ}
    (hlost : (run step State.init es).map (fun s => (s.owners key, s.unclaimed key)) = some (none, fd :: fds)) :
    ¬ Along step Owned State.init es := by
  intro howned
  obtain ⟨s, hrun, hs⟩ := Option.map_eq_some_iff.mp hlost
  obtain ⟨hnone, hunclaimed⟩ := Prod.mk.inj hs
  have hinv : Inv s := invariant_of_run (fun _ _ _ hs (_ : True) h => inv_step hs h) inv_init (fun _ _ => trivial) hrun
  have hrest : Along step Owned State.init (es ++ []) := by
    rw [List.append_nil]
    exact howned
  have hend : Along step Owned s [] := Along.of_run hrun hrest
  rw [(recoverable_iff hinv key).mp (hend key) hnone] at hunclaimed
  cases hunclaimed

/-- A file is opened, and the future dropped before it is polled again. -/
def droppedLate : List Event :=
  [.submit 0 (.openAt ⟨some [47]⟩) .future (some 0), .prepare 0, .post 0 7 false, .complete, .drop 0]

/-- The future is dropped before the file is open, and its cancel comes too late. -/
def droppedEarly : List Event :=
  [.submit 0 (.openAt ⟨some [47]⟩) .future (some 0), .prepare 0, .poll 0 0, .drop 0, .post 0 7 false]

/-- A listener ends with one of two connections polled out. -/
def listenerEnds : List Event :=
  [.submit 0 (.acceptMulti .mk) .listener none, .prepare 0, .post 0 7 true, .post 0 8 true, .complete, .complete,
    .poll 0 0, .drop 0]

theorem owned_fails : ¬ Along step Owned State.init droppedLate ∧ ¬ Along step Owned State.init droppedEarly ∧
    ¬ Along step Owned State.init listenerEnds :=
  ⟨@not_owned_of_run _ 0 7 [] rfl, @not_owned_of_run _ 0 7 [] rfl, @not_owned_of_run _ 0 8 [] rfl⟩

end Descriptors
end ClAsync
