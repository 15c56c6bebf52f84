/-
# The file that an operation finds

An operation has the number of a descriptor, and a number is free again as soon
as the descriptor is closed. A close goes to a worker of its own, so it can
overtake the operations that a future submitted before it was dropped; even on
one worker, those that wait for room on the ring. The kernel then finds no file
for them, or another's, which it reads or writes.

A run in which no close overtakes an operation is one in which each operation
finds its own file (`named_iff`). So it is if nobody drops an `OwnedFdAsync`
while operations on it are on their way (`named_of_rests`), which the borrow by
their futures does not see to.

Key definitions: `Named`, `Orders`, `Rests`.
Key theorems: `named_step`, `not_named_step`; `named_iff` and `named_of_rests`,
every run.
-/
import ClAsync.Io.Closing

namespace ClAsync
namespace Closing

/-- The operations on their way that are not on the ring of the worker. -/
def State.behind (s : State) (v : ℕ) : List FdData :=
  match s.pool.workers[v]? with
  | none => []
  | some m => Member.pendingData m ++ others s.pool.workers v

/-- Every operation that the kernel has taken found the file it was for, and those
on their way still would. -/
def Named (s : State) : Prop :=
  (∀ x ∈ s.kernel.met, x.2 = some x.1.owner) ∧ ∀ d ∈ s.onWay, d.close = false → s.kernel.file d.fd = some d.owner

/-- No close comes before an operation on its descriptor: one that the kernel takes,
or one of a `drop` that cannot hand it to a worker. -/
def Orders (s : State) : Act → Prop
  | .worker v a => ∀ l₁ d l₂, s.takes v a = l₁ ++ d :: l₂ → d.close = true →
      ∀ u ∈ l₂ ++ s.behind v, u.close = false → u.owner ≠ d.owner
  | .close o => s.closeFails o = true → ∀ u ∈ s.onWay, u.close = false → u.owner ≠ o
  | .openFile | .make _ | .drop _ | .client _ => True

/-- Nobody drops an `OwnedFdAsync` while operations on it are on their way. -/
def Rests (s : State) : Act → Prop
  | .drop o => ∀ u ∈ s.onWay, u.close = false → u.owner ≠ o
  | .openFile | .make _ | .close _ | .worker _ _ | .client _ => True

namespace Kernel

variable {k : Kernel}

theorem met_openFile (o : ℕ) : (k.openFile o).met = k.met := by
  unfold openFile
  split <;> rfl

theorem mem_met_take {d : FdData} {x : FdData × Option ℕ} :
    x ∈ (k.take d).met ↔ x ∈ k.met ∨ d.close = false ∧ x = (d, k.file d.fd) := by
  unfold take
  cases h : d.close <;> simp [close]

/-- What the kernel finds for an operation is the file after those before it. -/
theorem mem_met_foldl {x : FdData × Option ℕ} : ∀ (ds : List FdData) (k : Kernel), x ∈ (ds.foldl take k).met ↔
    x ∈ k.met ∨ ∃ l₁ l₂, ds = l₁ ++ x.1 :: l₂ ∧ x.1.close = false ∧ x.2 = (l₁.foldl take k).file x.1.fd
  | [], k => by simp
  | d :: ds, k => by
    rw [List.foldl_cons, mem_met_foldl ds, mem_met_take, or_assoc]
    refine or_congr_right ?_
    constructor
    · rintro (⟨hclose, rfl⟩ | ⟨l₁, l₂, rfl, hclose, hfile⟩)
      · exact ⟨[], ds, rfl, hclose, rfl⟩
      · exact ⟨d :: l₁, l₂, rfl, hclose, hfile⟩
    · rintro ⟨l₁, l₂, heq, hclose, hfile⟩
      cases l₁ with
      | nil =>
        obtain ⟨rfl, rfl⟩ := List.cons.inj heq
        exact Or.inl ⟨hclose, Prod.ext rfl hfile⟩
      | cons d' l₁ =>
        obtain ⟨rfl, rfl⟩ := List.cons.inj heq
        exact Or.inr ⟨l₁, l₂, rfl, hclose, hfile⟩

end Kernel

section Named

variable {s s' : State}

/-- When the kernel takes anything from a worker, what is left is behind it. -/
theorem ways_behind {v : ℕ} {m m' : Member} {d : FdData} {ds : List FdData} (hm : s.pool.workers[v]? = some m)
    (htook : Took m m' ds) (hd : d ∈ ds) :
    ((s.pool.workers.set v m').flatMap Member.data).Perm (s.behind v) := by
  have hset := ways_set hm m'
  cases htook with
  | keep | returns => cases hd
  | submit _ hdata =>
    rw [hdata] at hset
    simpa only [State.behind, hm] using hset

/-- Operations of one owner name one descriptor. -/
theorem fd_of_owner {d d' : FdData} (hs : Inv s) (hd : d ∈ s.onWay) (hd' : d' ∈ s.onWay) (h : d'.owner = d.owner) :
    d'.fd = d.fd := by
  obtain ⟨x, hx, hfd, -⟩ := hs.data d hd
  obtain ⟨x', hx', hfd', -⟩ := hs.data d' hd'
  rw [h] at hx'
  cases hx.symm.trans hx'
  exact hfd'.symm.trans hfd

/-- A close of another's descriptor leaves the file. -/
theorem fd_ne_of_owner {d u : FdData} (hs : Inv s) (hd : d ∈ s.onWay) (hclose : d.close = true)
    (hu : s.kernel.file u.fd = some u.owner) (hne : u.owner ≠ d.owner) : d.fd ≠ u.fd := by
  intro hfd
  obtain ⟨x, -, -, hgone⟩ := hs.data d hd
  have hfile := (hgone hclose).2
  rw [hfd, hu] at hfile
  exact hne (Option.some.inj hfile)

theorem named_worker {v : ℕ} {a : Worker.Act FdData} {m m' : Member} (hs : Inv s) (hnamed : Named s)
    (horders : Orders s (.worker v a)) (hm : s.pool.workers[v]? = some m) (htook : Took m m' (s.takes v a)) :
    Named ⟨(s.takes v a).foldl Kernel.take s.kernel, s.owners,
      ⟨s.pool.nextId, s.pool.workers.set v m', s.pool.futures⟩, s.lenders⟩ := by
  obtain ⟨lost, hways, -⟩ := ways_worker hm htook
  have htaken : ∀ d ∈ s.takes v a, d ∈ s.onWay := fun d hd => hways.mem_iff.mpr (List.mem_append_left _ hd)
  refine ⟨fun x hx => ?_, fun u hu huse => ?_⟩
  · rcases (Kernel.mem_met_foldl _ _).mp hx with hx | ⟨l₁, l₂, heq, huse, hfile⟩
    · exact hnamed.1 x hx
    · have hfound := hnamed.2 x.1 (htaken x.1 (by simp [heq])) huse
      rw [hfile]
      refine Kernel.file_foldl_take_of_some hfound fun d hd hclose => ?_
      obtain ⟨l, l', rfl⟩ := List.append_of_mem hd
      have hne := horders l d (l' ++ x.1 :: l₂) (by simp [heq]) hclose x.1 (by simp) huse
      exact fd_ne_of_owner hs (htaken d (by simp [heq])) hclose hfound hne
  · have hfound := hnamed.2 u (hways.mem_iff.mpr (List.mem_append_right _ (List.mem_append_right _ hu))) huse
    refine Kernel.file_foldl_take_of_some hfound fun d hd hclose => ?_
    obtain ⟨l₁, l₂, heq⟩ := List.append_of_mem hd
    have hbehind : u ∈ s.behind v := (ways_behind hm htook hd).mem_iff.mp hu
    have hne := horders l₁ d l₂ heq hclose u (List.mem_append_right _ hbehind) huse
    exact fd_ne_of_owner hs (htaken d hd) hclose hfound hne

theorem named_step {a : Act} (hs : Inv s) (hnamed : Named s) (horders : Orders s a) (h : Goes s a s') : Named s' := by
  cases h with
  | openFile =>
    refine ⟨fun x hx => hnamed.1 x (by rwa [Kernel.met_openFile] at hx), fun d hd huse => ?_⟩
    exact Kernel.file_openFile_of_some (hnamed.2 d hd huse)
  | make | drop => exact hnamed
  | search _ _ _ hways => exact ⟨hnamed.1, fun d hd => hnamed.2 d (hways.mem_iff.mp hd)⟩
  | send _ _ _ hways =>
    refine ⟨hnamed.1, fun d hd huse => ?_⟩
    rcases List.mem_cons.mp (hways.mem_iff.mp hd) with rfl | hd
    · cases huse
    · exact hnamed.2 d hd huse
  | @fails o owner stage pool ho hphase hfails hways =>
    refine ⟨hnamed.1, fun d hd huse => ?_⟩
    have hd := hways.mem_iff.mp hd
    have hfound := hnamed.2 d hd huse
    rw [Kernel.file_close, if_neg]
    · exact hfound
    · intro hfd
      have hopened := hs.opened o owner ho (by simp [hphase])
      rw [← hfd, hfound] at hopened
      exact horders hfails d hd huse (Option.some.inj hopened)
  | worker hm _ htook => exact named_worker hs hnamed horders hm htook
  | client hserved =>
    refine ⟨hnamed.1, fun d hd huse => ?_⟩
    rcases ways_client hs hserved with hways | ⟨o, owner, ho, hlive, hways⟩
    · exact hnamed.2 d (hways.mem_iff.mp hd) huse
    · rcases List.mem_cons.mp (hways.mem_iff.mp hd) with rfl | hd
      · exact hs.opened o owner ho (by simp [hlive])
      · exact hnamed.2 d hd huse

theorem not_named_step {a : Act} (hs : Inv s) (horders : ¬ Orders s a) (h : Goes s a s') : ¬ Named s' := by
  intro hnamed
  cases h with
  | openFile | make | drop | client => exact horders trivial
  | search _ _ hfails | send _ _ hfails => exact horders fun h => by simp [hfails] at h
  | @fails o owner stage pool ho hphase hfails hways =>
    simp only [Orders, hfails, not_forall, forall_const] at horders
    obtain ⟨u, hu, huse, howner⟩ := horders
    have hfound := hnamed.2 u (hways.mem_iff.mpr hu) huse
    obtain ⟨x, hx, hfd, -⟩ := hs.data u hu
    rw [not_not.mp howner] at hx
    cases ho.symm.trans hx
    rw [Kernel.file_close, if_pos hfd.symm] at hfound
    cases hfound
  | @worker v a m w hm _ htook =>
    simp only [Orders, not_forall] at horders
    obtain ⟨l₁, d, l₂, heq, hclose, u, hu, huse, howner⟩ := horders
    have howner := not_not.mp howner
    obtain ⟨lost, hways, -⟩ := ways_worker hm htook
    have hd : d ∈ s.takes v a := by simp [heq]
    have htaken : ∀ d ∈ s.takes v a, d ∈ s.onWay := fun d hd => hways.mem_iff.mpr (List.mem_append_left _ hd)
    rcases List.mem_append.mp hu with hu | hu
    · -- it is taken after the close, and finds no file
      obtain ⟨l, l', rfl⟩ := List.append_of_mem hu
      have hfd := fd_of_owner hs (htaken d hd) (htaken u (by simp [heq])) howner
      have hmet := hnamed.1 (u, ((l₁ ++ d :: l).foldl Kernel.take s.kernel).file u.fd)
        ((Kernel.mem_met_foldl _ _).mpr (Or.inr ⟨l₁ ++ d :: l, l', by simp [heq], huse, rfl⟩))
      exact (Kernel.file_of_foldl_take hmet).2 d (by simp) hclose hfd.symm
    · -- it is still on its way
      have hway := (ways_behind hm htook hd).mem_iff.mpr hu
      have hold : u ∈ s.onWay := hways.mem_iff.mpr (List.mem_append_right _ (List.mem_append_right _ hway))
      have hfd := fd_of_owner hs (htaken d hd) hold howner
      exact (Kernel.file_of_foldl_take (hnamed.2 u hway huse)).2 d hd hclose hfd.symm

end Named

theorem named_init (n : ℕ) : Named (.init n) :=
  ⟨fun x hx => by simp [State.init] at hx, fun d hd => by simp [onWay_init] at hd⟩

/-- **Every operation finds the file it was for, and those on their way still would,
as long as no close overtakes an operation on its descriptor, and no longer.** -/
theorem named_iff (n : ℕ) (as : List Act) :
    Runs.Along step Named (.init n) as ↔ Runs.Taken step Orders (.init n) as :=
  Runs.along_iff_taken (I := Inv)
    (fun _ _ _ hs hnamed horders h => ⟨inv_step hs (goes_of_step h), named_step hs hnamed horders (goes_of_step h)⟩)
    (fun _ _ _ hs _ horders h => not_named_step hs horders (goes_of_step h)) (inv_init n) (named_init n)

/-- A worker with something to receive goes through its loop up to the submission of
what it receives, one message. -/
def rounds (v : ℕ) : List Act :=
  [.worker v (.events true false false), .worker v .next, .worker v .next, .worker v .next, .worker v .next,
    .worker v (.tasks false)]

/-- The first poll of a future, up to its message to a worker. -/
def firstPoll (f : ℕ) : List Act :=
  [.client (.start f 0), .client (.submit f), .client (.submit f), .client (.submit f), .client (.submit f)]

/-- A `drop`, up to its message to a worker. -/
def dropAll (o : ℕ) : List Act := [.drop o, .close o, .close o, .close o, .close o]

-- An operation is submitted to one worker, its future dropped, then the file. The close is taken by another
-- worker first, and the operation acts on the file that is opened next.
example : (Runs.run step (.init 2) ([.openFile, .make 0] ++ firstPoll 0 ++ [.client (.drop 0)] ++ dropAll 0 ++
    rounds 1 ++ [.openFile] ++ rounds 0)).map (fun s => s.kernel) =
      some ⟨[some 1], [(⟨0, 0, false⟩, some 1)]⟩ := by decide +kernel

/-! ### Files that are dropped at rest -/

/-- The operations on their way, the closes apart, have an owner still. -/
def Quiet (s : State) : Prop :=
  ∀ u ∈ s.onWay, u.close = false → ∃ owner, s.owners[u.owner]? = some owner ∧ owner.phase = .live

section Quiet

variable {s s' : State}

theorem quiet_set {o : ℕ} {owner : OwnedFdAsync} {phase : Phase} {pool : Clients} {kernel : Kernel} (hq : Quiet s)
    (ho : s.owners[o]? = some owner)
    (hways : ∀ u ∈ pool.workers.flatMap Member.data, u.close = false → u ∈ s.onWay ∧ u.owner ≠ o) :
    Quiet ⟨kernel, s.owners.set o ⟨owner.fd, phase⟩, pool, s.lenders⟩ := by
  intro u hu huse
  obtain ⟨hold, hne⟩ := hways u hu huse
  obtain ⟨x, hx, hlive⟩ := hq u hold huse
  obtain ⟨x', hx', -, heq⟩ := owners_of_set phase ho hx
  exact ⟨x', hx', by rw [heq hne]; exact hlive⟩

theorem owner_ne_of_dropping {o : ℕ} {owner : OwnedFdAsync} {stage : Pool.Stage} (hq : Quiet s)
    (ho : s.owners[o]? = some owner) (hphase : owner.phase = .dropping stage) {u : FdData} (hu : u ∈ s.onWay)
    (huse : u.close = false) : u.owner ≠ o := by
  rintro rfl
  obtain ⟨x, hx, hlive⟩ := hq u hu huse
  cases ho.symm.trans hx
  cases hphase.symm.trans hlive

theorem quiet_step {a : Act} (hs : Inv s) (hq : Quiet s) (hrests : Rests s a) (h : Goes s a s') : Quiet s' := by
  cases h with
  | openFile =>
    intro u hu huse
    obtain ⟨owner, ho, hlive⟩ := hq u hu huse
    exact ⟨owner, getElem?_append_of_some ho, hlive⟩
  | make => exact hq
  | drop ho => exact quiet_set hq ho fun u hu huse => ⟨hu, hrests u hu huse⟩
  | search ho hphase _ hways | fails ho hphase _ hways =>
    refine quiet_set hq ho fun u hu huse => ?_
    have hu := hways.mem_iff.mp hu
    exact ⟨hu, owner_ne_of_dropping hq ho hphase hu huse⟩
  | send ho hphase _ hways =>
    refine quiet_set hq ho fun u hu huse => ?_
    rcases List.mem_cons.mp (hways.mem_iff.mp hu) with rfl | hu
    · cases huse
    · exact ⟨hu, owner_ne_of_dropping hq ho hphase hu huse⟩
  | worker hm _ htook =>
    obtain ⟨lost, hways, -⟩ := ways_worker hm htook
    exact fun u hu => hq u (hways.mem_iff.mpr (List.mem_append_right _ (List.mem_append_right _ hu)))
  | client hserved =>
    intro u hu huse
    rcases ways_client hs hserved with hways | ⟨o, owner, ho, hlive, hways⟩
    · exact hq u (hways.mem_iff.mp hu) huse
    · rcases List.mem_cons.mp (hways.mem_iff.mp hu) with rfl | hu
      · exact ⟨owner, ho, hlive⟩
      · exact hq u hu huse

/-- Then the closes are of others. -/
theorem orders_of_quiet {a : Act} (hs : Inv s) (hq : Quiet s) (h : Goes s a s') : Orders s a := by
  cases h with
  | openFile | make | drop | client => trivial
  | search _ _ hfails | send _ _ hfails => exact fun h => by simp [hfails] at h
  | fails ho hphase => exact fun _ u hu huse => owner_ne_of_dropping hq ho hphase hu huse
  | @worker v a m w hm _ htook =>
    intro l₁ d l₂ heq hclose u hu huse howner
    have hd : d ∈ s.takes v a := by simp [heq]
    obtain ⟨lost, hways, -⟩ := ways_worker hm htook
    have hway : u ∈ s.onWay := by
      rcases List.mem_append.mp hu with hu | hu
      · exact hways.mem_iff.mpr (List.mem_append_left _ (by simp [heq, hu]))
      · have hway := (ways_behind hm htook hd).mem_iff.mpr hu
        exact hways.mem_iff.mpr (List.mem_append_right _ (List.mem_append_right _ hway))
    obtain ⟨x, hx, -, hgone⟩ := hs.data d (hways.mem_iff.mpr (List.mem_append_left _ hd))
    obtain ⟨x', hx', hlive⟩ := hq u hway huse
    rw [howner] at hx'
    cases hx.symm.trans hx'
    cases (hgone hclose).1.symm.trans hlive

end Quiet

/-- **If nobody drops an `OwnedFdAsync` while operations on it are on their way, every
operation finds the file it was for.** -/
theorem named_of_rests (n : ℕ) (as : List Act) (hrests : Runs.Taken step Rests (.init n) as) :
    Runs.Along step Named (.init n) as := by
  refine Runs.along_of_invariant (I := fun s => Inv s ∧ Quiet s ∧ Named s) (C := Rests)
    (fun s a s' hs hrests h => ?_) (fun s hs => hs.2.2)
    ⟨inv_init n, fun u hu => by simp [onWay_init] at hu, named_init n⟩ hrests
  obtain ⟨hinv, hquiet, hnamed⟩ := hs
  have hgoes := goes_of_step h
  exact ⟨inv_step hinv hgoes, quiet_step hinv hquiet hrests hgoes,
    named_step hinv hnamed (orders_of_quiet hinv hquiet hgoes) hgoes⟩

instance : ∀ s a, Decidable (Rests s a)
  | _, .drop _ => by dsimp only [Rests]; infer_instance
  | _, .openFile | _, .make _ | _, .close _ | _, .worker _ _ | _, .client _ => instDecidableTrue

/-- A file is used, dropped once the operation is taken, and its descriptor used
again. -/
def useThenDrop : List Act :=
  [.openFile, .make 0] ++ firstPoll 0 ++ rounds 0 ++ [.client (.drop 0)] ++ dropAll 0 ++ rounds 1 ++ [.openFile]

theorem named_of_rests_useThenDrop :
    (Runs.run step (.init 2) useThenDrop).map (fun s => s.kernel) = some ⟨[some 1], [(⟨0, 0, false⟩, some 0)]⟩ ∧
      Runs.Along step Named (.init 2) useThenDrop :=
  ⟨by decide +kernel, named_of_rests 2 useThenDrop (by decide +kernel)⟩

end Closing
end ClAsync
