/-
# Descriptors in completion results

`OpenAt`, `Accept` and `AcceptMulti` complete with a descriptor. Until it is
turned into an `OwnedFdAsync`, it is a bare `RawFd`: in the completion the
kernel posts, then in the result that `IoContext::complete` leaves in the slot
of the operation, then in the hands of whoever polls the key. That is the
owner of the operation: a future of a `File` or a `Directory`, which is gone
once a poll of it was ready; the task of a listener, which polls on until it
ends; or the holder of the submission's handle.

An owner can be dropped at any time. A future asks the kernel for a cancel
then, which may come too late or find nothing; the others do not even ask.
What the kernel makes of it shows in the completions it posts.

Wherever a descriptor is, it is counted: those handed to an owner, those that
slots hold and those in the ring are the ones the kernel returned, key by key
and in order (`Inv.conserved`).

Key definitions: `Owner`, `State`, `step`, `Inv`.
Key theorems: `step_cases`, `inv_step`.
-/
import ClAsync.Io.Traffic
import Mathlib.Logic.Function.Basic

namespace ClAsync

/-! ### Operations that return a descriptor -/

/-- `IoOpenAtData`, less its settings. -/
structure IoOpenAtData where
  path : Option (List UInt8)
  deriving DecidableEq, Repr

/-- `IoFileCompletion`. -/
structure IoFileCompletion where
  fd : ℕ
  path : List UInt8
  deriving DecidableEq, Repr

/-- `IoAcceptData`, less the address the kernel fills in. -/
inductive IoAcceptData
  | mk
  deriving DecidableEq, Repr

/-- The `IoType`s that return a descriptor. -/
inductive FdData
  | openAt (data : IoOpenAtData)
  | accept (data : IoAcceptData)
  | acceptMulti (data : IoAcceptMultiData)
  deriving DecidableEq, Repr

/-- The `IoCompletion`s that carry one. -/
inductive FdCompletion
  | file (completion : IoFileCompletion)
  | accept (completion : IoAcceptCompletion)
  deriving DecidableEq, Repr

/-- The path is taken by the first completion; a further one would find it
empty. -/
instance : CompletableOperation FdData FdCompletion Empty where
  getCompletion
    | .openAt data, resultCode => (.data (.file ⟨resultCode, data.path.getD []⟩), .openAt { data with path := none })
    | .accept data, resultCode => (.data (.accept ⟨resultCode⟩), .accept data)
    | .acceptMulti data, resultCode => (.data (.accept ⟨resultCode⟩), .acceptMulti data)

/-- `IoOperation::open_at`, `accept`, `accept_multi`. -/
def FdData.operation : FdData → IoOperation FdData
  | openAt data => ⟨.data (.openAt data), .single⟩
  | accept data => ⟨.data (.accept data), .single⟩
  | acceptMulti data => ⟨.data (.acceptMulti data), .persistent⟩

/-- The descriptor that is delivered. -/
def FdCompletion.fd : FdCompletion → ℕ
  | file completion => completion.fd
  | accept completion => completion.fd

/-- What a poll of such an operation returns. -/
abbrev FdResult := IoCompletionResult FdCompletion Empty

/-- The slot of such an operation. -/
abbrev FdSlot := IoCompletionSlot FdData FdCompletion Empty

/-- Its history. -/
abbrev FdLog := Log FdCompletion Empty

namespace Descriptors

open Traffic (SlotOk)

/-- The descriptor of a result. -/
def descriptor : FdResult → Option ℕ
  | .ok (.data completion) => some completion.fd
  | _ => none

/-- The descriptor that the kernel returns with a code. -/
def descriptors (resultCode : ℤ) : List ℕ := if resultCode < 0 then [] else [resultCode.toNat]

/-- The results that a slot holds. -/
def results (slot : FdSlot) : List FdResult :=
  match slot.state with
  | some (.single result) => [result]
  | some (.multi mcr) => mcr.inner
  | _ => []

/-- The descriptors that the slot of a key holds, if there is one. -/
def waiting (slot : Option FdSlot) : List ℕ := (slot.elim [] results).filterMap descriptor

/-- The result of a poll. -/
def taken : Poll (Option FdResult) → List FdResult
  | .ready (some result) => [result]
  | _ => []

/-! ### The system -/

/-- A completion in the ring. -/
structure Cqe where
  key : Key
  resultCode : ℤ
  more : Bool
  deriving DecidableEq, Repr

/-- Who polls the key of an operation. -/
inductive Owner
  | future
  | handle
  | listener
  deriving DecidableEq, Repr

/-- The files and directories are opened by futures, and a listener accepts
many connections. -/
def Owner.takes : Owner → FdData → Bool
  | future, .openAt _ => true
  | listener, .acceptMulti _ => true
  | handle, _ => true
  | _, _ => false

/-- The owner after its poll: a future that was ready is gone. -/
def Owner.after : Owner → Poll (Option FdResult) → Option Owner
  | future, .ready _ => none
  | owner, _ => some owner

/-- `submitted` are the operations on their way to the worker, `ring` the
completions `IoContext::complete` has not come to, `returned` the descriptors
that the kernel returned and `handed` those that polls returned to an owner,
which is when an `OwnedFdAsync` is made of them (by the holder of a handle
itself). -/
structure State where
  submitted : Key → Option (IoOperation FdData × Option Waker)
  owners : Key → Option Owner
  ring : List Cqe
  traffic : Traffic.State FdData FdCompletion Empty
  returned : Key → List ℕ
  handed : Key → List ℕ

/-- Nothing has been submitted. -/
def State.init : State := ⟨fun _ => none, fun _ => none, [], .init, fun _ => [], fun _ => []⟩

/-- What the kernel does with descriptors, and the worker with completions. -/
inductive Event
  | submit (key : Key) (data : FdData) (owner : Owner) (waker : Option Waker)
  | prepare (key : Key)
  | post (key : Key) (resultCode : ℤ) (more : Bool)
  | complete
  | poll (key : Key) (waker : Waker)
  | drop (key : Key)
  deriving DecidableEq, Repr

/-- The history of an operation after the completions `cqes`. -/
def postAll (l : FdLog) (cqes : List Cqe) : FdLog := cqes.foldl (fun l cqe => l.post cqe.resultCode cqe.more) l

namespace State

/-- The completions of the key in the ring. -/
def posted (s : State) (key : Key) : List Cqe := s.ring.filter fun cqe => cqe.key = key

/-- The operation's history, as the kernel knows it. -/
def kernelLog (s : State) (key : Key) : Option FdLog :=
  (s.traffic.log.lookup key).map fun l => postAll l (s.posted key)

/-- The descriptors of the key that were returned and not polled out. -/
def unclaimed (s : State) (key : Key) : List ℕ :=
  waiting (s.traffic.queue.lookup key) ++ (s.posted key).flatMap fun cqe => descriptors cqe.resultCode

end State

/-- One event. -/
def step (s : State) : Event → Option State
  | .submit key data owner waker =>
    -- `KeyGenerator` gives every submission a key of its own.
    if s.submitted key = none ∧ s.traffic.log.lookup key = none ∧ owner.takes data then
      some { s with
        submitted := Function.update s.submitted key (some (data.operation, waker))
        owners := Function.update s.owners key (some owner) }
    else none
  | .prepare key =>
    match s.submitted key with
    | some (op, waker) =>
      some { s with
        submitted := Function.update s.submitted key none
        traffic := s.traffic.addEntry key op waker }
    | none => none
  | .post key resultCode more =>
    match s.kernelLog key with
    | some l =>
      if l.MayPost resultCode more then
        some { s with
          ring := s.ring ++ [⟨key, resultCode, more⟩]
          returned := Function.update s.returned key (s.returned key ++ descriptors resultCode) }
      else none
    | none => none
  | .complete =>
    match s.ring with
    | [] => none
    | cqe :: ring =>
      (s.traffic.complete cqe.key cqe.resultCode cqe.more).map fun traffic => { s with ring, traffic }
  | .poll key waker =>
    match s.owners key with
    | some owner =>
      let (result, traffic) := s.traffic.poll key waker
      some { s with
        owners := Function.update s.owners key (owner.after result)
        traffic
        handed := Function.update s.handed key (s.handed key ++ (taken result).filterMap descriptor) }
    | none => none
  | .drop key =>
    if (s.owners key).isSome then some { s with owners := Function.update s.owners key none } else none

/-! ### The descriptors of one slot -/

/-- The operation is one that returns descriptors. -/
def IsFd (op : IoOperation FdData) : Prop := (∃ data, op.t = .data data) ∧ op.duration ≠ .zero

/-- The operation that a slot still has is one that returns descriptors. -/
def Carries (slot : FdSlot) : Prop :=
  match slot.state with
  | some (.notCompleted entry) => IsFd entry.op
  | some (.multi mcr) => IsFd mcr.op
  | _ => True

theorem isFd_operation (data : FdData) : IsFd data.operation := by
  cases data <;> exact ⟨⟨_, rfl⟩, fun h => by cases h⟩

/-- The result of a completion has the descriptor that its code is. -/
theorem descriptor_complete {op : IoOperation FdData} (hop : IsFd op) (resultCode : ℤ) :
    [(op.complete resultCode).1].filterMap descriptor = descriptors resultCode ∧ IsFd (op.complete resultCode).2 := by
  obtain ⟨⟨data, hdata⟩, hduration⟩ := hop
  obtain ⟨t, duration⟩ := op
  subst hdata
  unfold IoOperation.complete descriptors
  by_cases hneg : resultCode < 0
  · simp only [if_pos hneg, IoType.getFailure]
    exact ⟨rfl, ⟨_, rfl⟩, hduration⟩
  · simp only [if_neg hneg, IoType.getCompletion]
    refine ⟨?_, ⟨_, rfl⟩, hduration⟩
    cases data <;> rfl

/-- A completion that the kernel may post adds its descriptor to the slot. -/
theorem waiting_complete {l : FdLog} {slot : Option FdSlot} {resultCode : ℤ} {more : Bool} (hs : SlotOk (some l) slot)
    (hcarries : ∀ slot' ∈ slot, Carries slot') (hm : l.MayPost resultCode more) :
    waiting (slot.bind fun slot => (slot.complete resultCode).2) = waiting slot ++ descriptors resultCode ∧
      ∀ slot' ∈ slot.bind fun slot => (slot.complete resultCode).2, Carries slot' := by
  cases hs with
  | notCompleted entry w =>
    have hop : IsFd entry.op := hcarries _ rfl
    obtain ⟨hdescriptor, hnext⟩ := descriptor_complete hop resultCode
    have hduration : (entry.op.complete resultCode).2.duration = entry.op.duration :=
      IoOperation.complete_duration entry.op resultCode
    simp only [Option.bind_some, IoCompletionSlot.complete, IoCompletionState.complete, Option.map_some,
      IoEntry.complete, hduration, Option.mem_some_iff, forall_eq']
    cases hd : entry.op.duration with
    | zero => exact absurd hd hop.2
    | single => exact ⟨hdescriptor, trivial⟩
    | persistent => exact ⟨hdescriptor, hnext⟩
  | running posted ended polled returned mcr w hstate hne hposted hresults =>
    have hop : IsFd mcr.op := hcarries _ rfl
    obtain ⟨hdescriptor, hnext⟩ := descriptor_complete hop resultCode
    simp only [Option.bind_some, IoCompletionSlot.complete, IoCompletionState.complete, Option.map_some,
      Option.mem_some_iff, forall_eq']
    refine ⟨?_, hnext⟩
    show (mcr.inner ++ [(mcr.op.complete resultCode).1]).filterMap descriptor = mcr.inner.filterMap descriptor ++ _
    rw [List.filterMap_append, hdescriptor]
  | _ => cases hm.1

/-- A poll takes the first of the results that the slot holds, and leaves the
others. -/
theorem results_poll (slot : FdSlot) (w : Waker) :
    results slot = taken (slot.poll w).1 ++ (slot.poll w).2.elim [] results := by
  obtain ⟨state, w'⟩ := slot
  cases state with
  | none => rfl
  | some state =>
    cases state with
    | notCompleted entry => rfl
    | single result => rfl
    | completed => rfl
    | multi mcr =>
      obtain ⟨inner, op, state⟩ := mcr
      cases inner with
      | nil => cases state <;> rfl
      | cons result rest =>
        cases state with
        | running => rfl
        | draining => cases rest <;> rfl

/-- It takes one if there is one. -/
theorem results_poll_lt {slot : FdSlot} (h : results slot ≠ []) (w : Waker) :
    ((slot.poll w).2.elim [] results).length < (results slot).length := by
  have htaken : taken (slot.poll w).1 ≠ [] := by
    obtain ⟨state, w'⟩ := slot
    cases state with
    | none => exact absurd rfl h
    | some state =>
      cases state with
      | notCompleted entry => exact absurd rfl h
      | single result => exact List.cons_ne_nil _ _
      | completed => exact absurd rfl h
      | multi mcr =>
        obtain ⟨inner, op, state⟩ := mcr
        cases inner with
        | nil => exact absurd rfl h
        | cons result rest => exact List.cons_ne_nil _ _
  have hpos := List.length_pos_of_ne_nil htaken
  rw [results_poll slot w, List.length_append]
  omega

theorem carries_poll {slot : FdSlot} (h : Carries slot) (w : Waker) : ∀ slot' ∈ (slot.poll w).2, Carries slot' := by
  intro slot' hslot'
  obtain ⟨state, w'⟩ := slot
  cases state with
  | none => cases hslot'
  | some state =>
    cases state with
    | notCompleted entry =>
      obtain rfl := Option.some.inj hslot'
      exact h
    | single result => cases hslot'
    | completed => cases hslot'
    | multi mcr =>
      have hmulti : ∃ inner state w'', slot' = ⟨some (.multi ⟨inner, mcr.op, state⟩), w''⟩ := by
        obtain ⟨inner, op, state⟩ := mcr
        cases inner with
        | nil => cases state <;> first | exact ⟨_, _, _, (Option.some.inj hslot').symm⟩ | cases hslot'
        | cons result rest =>
          cases state with
          | running => exact ⟨_, _, _, (Option.some.inj hslot').symm⟩
          | draining => cases rest <;> first | exact ⟨_, _, _, (Option.some.inj hslot').symm⟩ | cases hslot'
      obtain ⟨inner, state, w'', rfl⟩ := hmulti
      exact h

/-! ### The completions of one key -/

/-- The kernel may post the completions one after the other. -/
def Posts (l : FdLog) : List Cqe → Prop
  | [] => True
  | cqe :: cqes => l.MayPost cqe.resultCode cqe.more ∧ Posts (l.post cqe.resultCode cqe.more) cqes

theorem posts_concat {cqe : Cqe} : ∀ {cqes : List Cqe} {l : FdLog}, Posts l cqes →
    (postAll l cqes).MayPost cqe.resultCode cqe.more → Posts l (cqes ++ [cqe])
  | [], _, _, hm => ⟨hm, trivial⟩
  | _ :: _, _, h, hm => ⟨h.1, posts_concat h.2 hm⟩

theorem eq_nil_of_posts {l : FdLog} {cqes : List Cqe} (h : Posts l cqes) (hended : l.ended = true) : cqes = [] := by
  cases cqes with
  | nil => rfl
  | cons cqe cqes => cases hended.symm.trans h.1.1

/-- What has been polled is nothing to the kernel. -/
theorem posts_congr : ∀ {cqes : List Cqe} {l l' : FdLog}, l'.duration = l.duration → l'.ended = l.ended →
    Posts l cqes → Posts l' cqes
  | [], _, _, _, _, _ => trivial
  | cqe :: cqes, l, l', hduration, hended, h => by
    obtain ⟨⟨hopen, hmore⟩, hrest⟩ := h
    have hpost : (l'.post cqe.resultCode cqe.more).duration = (l.post cqe.resultCode cqe.more).duration := hduration
    refine ⟨⟨hended.trans hopen, fun hm => ?_⟩, posts_congr hpost rfl hrest⟩
    rw [hduration]
    exact hmore hm

/-- What a key has in the log, in the queue and in the ring. -/
structure KeyOk (l : Option FdLog) (slot : Option FdSlot) (cqes : List Cqe) : Prop where
  slotOk : SlotOk l slot
  carries : ∀ slot' ∈ slot, Carries slot'
  posts : ∀ l' ∈ l, Posts l' cqes
  unprepared : l = none → cqes = []

theorem KeyOk.complete {l : FdLog} {slot : Option FdSlot} {cqe : Cqe} {cqes : List Cqe}
    (h : KeyOk (some l) slot (cqe :: cqes)) :
    KeyOk (some (l.post cqe.resultCode cqe.more)) (slot.bind fun slot => (slot.complete cqe.resultCode).2) cqes := by
  obtain ⟨hm, hrest⟩ := h.posts l rfl
  refine ⟨h.slotOk.complete hm, (waiting_complete h.slotOk h.carries hm).2, fun l' hl' => ?_, fun hnone => by cases hnone⟩
  obtain rfl := Option.some.inj hl'
  exact hrest

theorem KeyOk.post {l : FdLog} {slot : Option FdSlot} {cqe : Cqe} {cqes : List Cqe} (h : KeyOk (some l) slot cqes)
    (hm : (postAll l cqes).MayPost cqe.resultCode cqe.more) : KeyOk (some l) slot (cqes ++ [cqe]) := by
  refine ⟨h.slotOk, h.carries, fun l' hl' => ?_, fun hnone => by cases hnone⟩
  obtain rfl := Option.some.inj hl'
  exact posts_concat (h.posts l rfl) hm

theorem KeyOk.poll {l : Option FdLog} {slot : Option FdSlot} {cqes : List Cqe} (h : KeyOk l slot cqes) (w : Waker) :
    KeyOk (l.map fun l => l.record ((slot.map fun slot => (slot.poll w).1).getD (.ready none)))
      (slot.bind fun slot => (slot.poll w).2) cqes := by
  refine ⟨h.slotOk.poll w, fun slot' hslot' => ?_, fun l' hl' => ?_, fun hnone => h.unprepared ?_⟩
  · obtain ⟨slot, hslot, hpoll⟩ := Option.bind_eq_some_iff.mp hslot'
    exact carries_poll (h.carries slot hslot) w slot' hpoll
  · obtain ⟨l, hl, rfl⟩ := Option.map_eq_some_iff.mp hl'
    exact posts_congr (l := l) rfl rfl (h.posts l hl)
  · exact Option.map_eq_none_iff.mp hnone

/-- The descriptors of the slot are those the poll takes and those it leaves. -/
theorem waiting_poll (slot : Option FdSlot) (w : Waker) :
    waiting slot = (taken ((slot.map fun slot => (slot.poll w).1).getD (.ready none))).filterMap descriptor ++
      waiting (slot.bind fun slot => (slot.poll w).2) := by
  cases slot with
  | none => rfl
  | some slot =>
    show (results slot).filterMap descriptor = _
    rw [results_poll slot w, List.filterMap_append]
    rfl

/-- A poll of an operation that completes once is pending, or leaves nothing
to poll. -/
theorem KeyOk.poll_single {l : Option FdLog} {slot : Option FdSlot} {cqes : List Cqe} (h : KeyOk l slot cqes)
    (hsingle : ∀ l' ∈ l, l'.duration = .single) (w : Waker) :
    (slot.map fun slot => (slot.poll w).1).getD (.ready none) = .pending ∨
      waiting (slot.bind fun slot => (slot.poll w).2) = [] ∧ cqes = [] := by
  have hslot := h.slotOk
  cases hslot with
  | absent => exact .inr ⟨rfl, h.unprepared rfl⟩
  | notCompleted entry w' => exact .inl rfl
  | single resultCode result w' => exact .inr ⟨rfl, eq_nil_of_posts (h.posts _ rfl) rfl⟩
  | singlePolled resultCode result => exact .inr ⟨rfl, eq_nil_of_posts (h.posts _ rfl) rfl⟩
  | _ => cases hsingle _ rfl

/-! ### The invariant -/

/-- What every reachable state is like. -/
structure Inv (s : State) : Prop where
  keys : ∀ key, KeyOk (s.traffic.log.lookup key) (s.traffic.queue.lookup key) (s.posted key)
  fresh : ∀ key, s.submitted key ≠ none → s.traffic.log.lookup key = none
  operation : ∀ key op waker, s.submitted key = some (op, waker) → IsFd op
  single : ∀ key, s.owners key = some .future →
    (∀ op waker, s.submitted key = some (op, waker) → op.duration = .single) ∧
    ∀ l ∈ s.traffic.log.lookup key, l.duration = .single
  conserved : ∀ key, s.handed key ++ s.unclaimed key = s.returned key

theorem inv_init : Inv State.init := by
  refine ⟨fun _ => ⟨.absent, fun _ h => ?_, fun _ h => ?_, fun _ => rfl⟩, fun _ h => absurd rfl h, fun _ _ _ h => ?_,
    fun _ h => ?_, fun _ => rfl⟩
  all_goals cases h

variable {s s' : State}

/-- Before the worker has prepared an operation nothing is there for its key. -/
theorem Inv.unclaimed_of_fresh (hs : Inv s) {key : Key} (h : s.traffic.log.lookup key = none) : s.unclaimed key = [] := by
  have hkey := hs.keys key
  have hslot := hkey.slotOk
  unfold State.unclaimed
  rw [hkey.unprepared h]
  rw [h] at hslot
  generalize s.traffic.queue.lookup key = slot at hslot ⊢
  cases hslot
  rfl

theorem inv_submit (hs : Inv s) {key : Key} {data : FdData} {owner : Owner} {waker : Option Waker}
    (h : s.traffic.log.lookup key = none) (howner : owner.takes data = true) :
    Inv { s with
      submitted := Function.update s.submitted key (some (data.operation, waker))
      owners := Function.update s.owners key (some owner) } := by
  refine ⟨hs.keys, fun k hk => ?_, fun k op w hk => ?_, fun k hk => ⟨fun op w hop => ?_, fun l hl => ?_⟩, hs.conserved⟩
  all_goals rcases eq_or_ne k key with rfl | hne
  · exact h
  · simp only [Function.update_of_ne hne] at hk
    exact hs.fresh k hk
  · simp only [Function.update_self, Option.some.injEq, Prod.mk.injEq] at hk
    rw [← hk.1]
    exact isFd_operation data
  · simp only [Function.update_of_ne hne] at hk
    exact hs.operation k op w hk
  · simp only [Function.update_self, Option.some.injEq, Prod.mk.injEq] at hk hop
    rw [hk] at howner
    rw [← hop.1]
    cases data <;> first | rfl | cases howner
  · simp only [Function.update_of_ne hne] at hk hop
    exact (hs.single k hk).1 op w hop
  · rw [show s.traffic.log.lookup k = none from h] at hl
    cases hl
  · simp only [Function.update_of_ne hne] at hk
    exact (hs.single k hk).2 l hl

theorem inv_prepare (hs : Inv s) {key : Key} {op : IoOperation FdData} {waker : Option Waker}
    (h : s.submitted key = some (op, waker)) :
    Inv { s with
      submitted := Function.update s.submitted key none
      traffic := s.traffic.addEntry key op waker } := by
  have hfresh : s.traffic.log.lookup key = none := hs.fresh key (by rw [h]; exact Option.some_ne_none _)
  have hunclaimed := hs.unclaimed_of_fresh hfresh
  obtain ⟨hlog, hqueue, hother⟩ := Traffic.addEntry_lookup s.traffic key op waker
  have hposted : s.posted key = [] := (hs.keys key).unprepared hfresh
  refine ⟨fun k => ?_, fun k hk => ?_, fun k op' w hk => ?_, fun k hk => ⟨fun op' w hop => ?_, fun l hl => ?_⟩,
    fun k => ?_⟩
  all_goals rcases eq_or_ne k key with rfl | hne
  · simp only [hlog, hqueue]
    refine ⟨.notCompleted ⟨op, k⟩ waker, fun slot hslot => ?_, fun l hl => ?_, fun hnone => by cases hnone⟩
    · obtain rfl := Option.some.inj hslot
      exact hs.operation k op waker h
    · show Posts l (s.posted k)
      rw [hposted]
      trivial
  · simp only [(hother k hne).1, (hother k hne).2]
    exact hs.keys k
  · simp only [Function.update_self] at hk
    exact absurd rfl hk
  · simp only [Function.update_of_ne hne] at hk
    exact (hother k hne).1.trans (hs.fresh k hk)
  · simp only [Function.update_self] at hk
    cases hk
  · simp only [Function.update_of_ne hne] at hk
    exact hs.operation k op' w hk
  · simp only [Function.update_self] at hop
    cases hop
  · simp only [Function.update_of_ne hne] at hop
    exact (hs.single k hk).1 op' w hop
  · simp only [hlog] at hl
    obtain rfl := Option.some.inj hl
    exact (hs.single k hk).1 op waker h
  · simp only [(hother k hne).1] at hl
    exact (hs.single k hk).2 l hl
  · have hconserved := hs.conserved k
    rw [hunclaimed] at hconserved
    unfold State.unclaimed
    simp only [hqueue]
    show s.handed k ++ ([] ++ (s.posted k).flatMap _) = _
    rw [hposted]
    exact hconserved
  · unfold State.unclaimed
    simp only [(hother k hne).2]
    exact hs.conserved k

theorem inv_post (hs : Inv s) {key : Key} {l : FdLog} {resultCode : ℤ} {more : Bool} (hl : s.kernelLog key = some l)
    (hm : l.MayPost resultCode more) :
    Inv { s with
      ring := s.ring ++ [⟨key, resultCode, more⟩]
      returned := Function.update s.returned key (s.returned key ++ descriptors resultCode) } := by
  obtain ⟨l₀, hlog, rfl⟩ := Option.map_eq_some_iff.mp hl
  let cqe : Cqe := ⟨key, resultCode, more⟩
  have hposted : (s.ring ++ [cqe]).filter (fun cqe => cqe.key = key) = s.posted key ++ [cqe] := by
    rw [List.filter_append, List.filter_cons_of_pos (by exact decide_eq_true rfl), List.filter_nil, State.posted]
  have hrest : ∀ k, k ≠ key → (s.ring ++ [cqe]).filter (fun cqe => cqe.key = k) = s.posted k := by
    intro k hne
    rw [List.filter_append, List.filter_cons_of_neg, List.filter_nil, List.append_nil, State.posted]
    exact fun heq => hne (of_decide_eq_true heq).symm
  refine ⟨fun k => ?_, hs.fresh, hs.operation, hs.single, fun k => ?_⟩
  all_goals rcases eq_or_ne k key with rfl | hne
  · have hkey := hs.keys k
    unfold State.posted at hposted ⊢
    rw [hposted]
    rw [hlog] at hkey ⊢
    exact hkey.post hm
  · unfold State.posted at hrest ⊢
    rw [hrest k hne]
    exact hs.keys k
  · have hconserved := hs.conserved k
    unfold State.unclaimed State.posted at *
    rw [hposted]
    simp only [List.flatMap_append, List.flatMap_cons, List.flatMap_nil, List.append_nil, Function.update_self]
    rw [← hconserved]
    simp only [List.append_assoc, cqe]
  · have hconserved := hs.conserved k
    unfold State.unclaimed State.posted at *
    rw [hrest k hne]
    simp only [Function.update_of_ne hne]
    exact hconserved

theorem posted_cons {cqe : Cqe} {ring : List Cqe} (hring : s.ring = cqe :: ring) :
    s.posted cqe.key = cqe :: ring.filter fun c => c.key = cqe.key := by
  unfold State.posted
  rw [hring, List.filter_cons_of_pos (by exact decide_eq_true rfl)]

/-- `IoContext::complete` moves a descriptor from the ring to its slot. -/
theorem inv_complete (hs : Inv s) {cqe : Cqe} {ring : List Cqe} {traffic : Traffic.State FdData FdCompletion Empty}
    (hring : s.ring = cqe :: ring) (h : s.traffic.complete cqe.key cqe.resultCode cqe.more = some traffic) :
    Inv { s with ring, traffic } := by
  obtain ⟨⟨l, hl, hl', hqueue⟩, hother⟩ := Traffic.complete_cases h
  have hposted := posted_cons hring
  have hrest : ∀ k, k ≠ cqe.key → s.posted k = ring.filter fun c => c.key = k := by
    intro k hne
    unfold State.posted
    rw [hring, List.filter_cons_of_neg]
    exact fun heq => hne (of_decide_eq_true heq).symm
  have hkey := hs.keys cqe.key
  rw [hl, hposted] at hkey
  refine ⟨fun k => ?_, fun k hk => ?_, hs.operation, fun k hk => ⟨(hs.single k hk).1, fun l' hlog => ?_⟩, fun k => ?_⟩
  all_goals rcases eq_or_ne k cqe.key with rfl | hne
  · simp only [hl', hqueue]
    exact hkey.complete
  · have hk := hs.keys k
    rw [hrest k hne] at hk
    simp only [(hother k hne).1, (hother k hne).2]
    exact hk
  · have hnone := hs.fresh cqe.key hk
    rw [hl] at hnone
    cases hnone
  · exact (hother k hne).1.trans (hs.fresh k hk)
  · simp only [hl'] at hlog
    obtain rfl := Option.some.inj hlog
    exact (hs.single cqe.key hk).2 l hl
  · simp only [(hother k hne).1] at hlog
    exact (hs.single k hk).2 l' hlog
  · have hconserved := hs.conserved cqe.key
    have hm := (hkey.posts l rfl).1
    unfold State.unclaimed at hconserved ⊢
    rw [hposted, List.flatMap_cons] at hconserved
    simp only [hqueue, (waiting_complete hkey.slotOk hkey.carries hm).1]
    rw [List.append_assoc]
    exact hconserved
  · have hconserved := hs.conserved k
    unfold State.unclaimed at hconserved ⊢
    rw [hrest k hne] at hconserved
    simp only [(hother k hne).2]
    exact hconserved

/-- What a poll of `key` by its owner makes of the state. -/
def State.polled (s : State) (key : Key) (waker : Waker) (owner : Owner) : State :=
  { s with
    owners := Function.update s.owners key (owner.after (s.traffic.poll key waker).1)
    traffic := (s.traffic.poll key waker).2
    handed := Function.update s.handed key
      (s.handed key ++ (taken (s.traffic.poll key waker).1).filterMap descriptor) }

theorem Owner.eq_of_after {owner owner' : Owner} {result : Poll (Option FdResult)}
    (h : owner.after result = some owner') : owner = owner' := by
  cases owner <;> cases result <;> first | exact Option.some.inj h | cases h

theorem inv_poll (hs : Inv s) {key : Key} {owner : Owner} (howner : s.owners key = some owner) (waker : Waker) :
    Inv (s.polled key waker owner) := by
  obtain ⟨hresult, ⟨hlog, hqueue⟩, hother⟩ := Traffic.poll_cases s.traffic key waker
  refine ⟨fun k => ?_, fun k hk => ?_, hs.operation, fun k hk => ?_, fun k => ?_⟩
  all_goals
    unfold State.polled at *
    rcases eq_or_ne k key with rfl | hne
  · simp only [hlog, hqueue]
    exact (hs.keys k).poll waker
  · simp only [(hother k hne).1, (hother k hne).2]
    exact hs.keys k
  · simp only [hlog, hs.fresh k hk, Option.map_none]
  · exact (hother k hne).1.trans (hs.fresh k hk)
  · simp only [Function.update_self] at hk
    have hfuture : s.owners k = some .future := by rw [howner, Owner.eq_of_after hk]
    refine ⟨(hs.single k hfuture).1, fun l hl => ?_⟩
    simp only [hlog] at hl
    obtain ⟨l₀, hl₀, rfl⟩ := Option.map_eq_some_iff.mp hl
    exact (hs.single k hfuture).2 l₀ hl₀
  · simp only [Function.update_of_ne hne] at hk
    simp only [(hother k hne).1]
    exact hs.single k hk
  · have hconserved := hs.conserved k
    unfold State.unclaimed at hconserved ⊢
    rw [waiting_poll _ waker] at hconserved
    simp only [Function.update_self, hqueue, hresult]
    rw [List.append_assoc, ← List.append_assoc _ _ (List.flatMap ..)]
    exact hconserved
  · have hconserved := hs.conserved k
    unfold State.unclaimed at hconserved ⊢
    simp only [Function.update_of_ne hne, (hother k hne).2]
    exact hconserved

theorem inv_drop (hs : Inv s) (key : Key) : Inv { s with owners := Function.update s.owners key none } := by
  refine ⟨hs.keys, hs.fresh, hs.operation, fun k hk => ?_, hs.conserved⟩
  rcases eq_or_ne k key with rfl | hne
  · simp only [Function.update_self] at hk
    cases hk
  · simp only [Function.update_of_ne hne] at hk
    exact hs.single k hk

/-- What each step finds, and what it does. -/
theorem step_cases {e : Event} (h : step s e = some s') :
    match e with
    | .submit key data owner waker => s.traffic.log.lookup key = none ∧ owner.takes data = true ∧
        s' = { s with
          submitted := Function.update s.submitted key (some (data.operation, waker))
          owners := Function.update s.owners key (some owner) }
    | .prepare key => ∃ op waker, s.submitted key = some (op, waker) ∧
        s' = { s with
          submitted := Function.update s.submitted key none
          traffic := s.traffic.addEntry key op waker }
    | .post key resultCode more => ∃ l, s.kernelLog key = some l ∧ l.MayPost resultCode more ∧
        s' = { s with
          ring := s.ring ++ [⟨key, resultCode, more⟩]
          returned := Function.update s.returned key (s.returned key ++ descriptors resultCode) }
    | .complete => ∃ cqe ring traffic, s.ring = cqe :: ring ∧
        s.traffic.complete cqe.key cqe.resultCode cqe.more = some traffic ∧ s' = { s with ring, traffic }
    | .poll key waker => ∃ owner, s.owners key = some owner ∧ s' = s.polled key waker owner
    | .drop key => s' = { s with owners := Function.update s.owners key none } := by
  cases e with
  | submit key data owner waker =>
    simp only [step] at h
    split at h
    · rename_i hfresh
      exact ⟨hfresh.2.1, hfresh.2.2, (Option.some.inj h).symm⟩
    · cases h
  | prepare key =>
    simp only [step] at h
    split at h
    · rename_i op waker hsubmitted
      exact ⟨op, waker, hsubmitted, (Option.some.inj h).symm⟩
    · cases h
  | post key resultCode more =>
    simp only [step] at h
    split at h
    · rename_i l hl
      split at h
      · rename_i hm
        exact ⟨l, hl, hm, (Option.some.inj h).symm⟩
      · cases h
    · cases h
  | complete =>
    simp only [step] at h
    split at h
    · cases h
    · rename_i cqe ring hring
      obtain ⟨traffic, htraffic, rfl⟩ := Option.map_eq_some_iff.mp h
      exact ⟨cqe, ring, traffic, hring, htraffic, rfl⟩
  | poll key waker =>
    simp only [step] at h
    split at h
    · rename_i owner howner
      exact ⟨owner, howner, (Option.some.inj h).symm⟩
    · cases h
  | drop key =>
    simp only [step] at h
    split at h
    · exact (Option.some.inj h).symm
    · cases h

theorem step_poll {key : Key} {owner : Owner} (howner : s.owners key = some owner) (waker : Waker) :
    step s (.poll key waker) = some (s.polled key waker owner) := by
  simp only [step, howner]
  rfl

theorem inv_step {e : Event} (hs : Inv s) (h : step s e = some s') : Inv s' := by
  cases e with
  | submit key data owner waker =>
    obtain ⟨hfresh, howner, rfl⟩ := step_cases h
    exact inv_submit hs hfresh howner
  | prepare key =>
    obtain ⟨op, waker, hsubmitted, rfl⟩ := step_cases h
    exact inv_prepare hs hsubmitted
  | post key resultCode more =>
    obtain ⟨l, hl, hm, rfl⟩ := step_cases h
    exact inv_post hs hl hm
  | complete =>
    obtain ⟨cqe, ring, traffic, hring, htraffic, rfl⟩ := step_cases h
    exact inv_complete hs hring htraffic
  | poll key waker =>
    obtain ⟨owner, howner, rfl⟩ := step_cases h
    exact inv_poll hs howner waker
  | drop key =>
    have heq : s' = _ := step_cases h
    subst heq
    exact inv_drop hs key

end Descriptors
end ClAsync
