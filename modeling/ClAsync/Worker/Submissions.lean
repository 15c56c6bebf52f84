/-
# The way of a submission

A submission sent to a worker is in its channel, then perhaps in
`waiting_submissions`, and then its operation is on the ring, with a slot in
the completion queue. Every step moves at most one submission on, and none is
lost or doubled. So as long as a worker is sent no key twice, each of its
operations is, from the moment it is sent until its first completion, either
pending or in a slot that is not completed, with its waker at hand.

Key definitions: `pending`, `assigned`, `Passes`, `Ordered`, `InFlight`.
Key theorems: `step_passes`, `ordered_step`, `inFlight_step` and
`inFlight_poll`.
-/
import ClAsync.Worker.Loop

namespace ClAsync

def Message.submission? {τ : Type} : Message τ → Option (IoSubmission τ)
  | submitIo submission => some submission
  | shutdown | kill | other => none

def IoSubmission.entry {τ : Type} (submission : IoSubmission τ) : IoEntry τ :=
  ⟨submission.op, submission.key⟩

namespace Worker

variable {τ κ φ : Type}

/-- The submissions on their way to the ring. -/
def State.pending (s : State τ κ φ) : List (IoSubmission τ) :=
  s.channel.filterMap Message.submission? ++ s.waitingSubmissions

/-- Every operation the worker has been sent. -/
def State.assigned (s : State τ κ φ) : List (IoEntry τ) :=
  s.pending.map IoSubmission.entry ++ s.ctx.pushed

/-! ### One step -/

/-- What the step `a` does to the submissions and the completion queue. -/
inductive Passes [CompletableOperation τ κ φ] (a : Act τ) (s s' : State τ κ φ) : Prop
  | keep (hpending : s'.pending.Perm s.pending) (hpushed : s'.ctx.pushed = s.ctx.pushed)
      (htraffic : s'.ctx.traffic = s.ctx.traffic)
  | send (submission : IoSubmission τ) (ha : a = .send (.submitIo submission))
      (hpending : s'.pending.Perm (submission :: s.pending)) (hctx : s'.ctx = s.ctx)
  | push (submission : IoSubmission τ) (hpending : s.pending.Perm (submission :: s'.pending))
      (hctx : s'.ctx = s.ctx.push submission)
  | item (key : Key) (resultCode : ℤ) (more : Bool) (hpending : s'.pending.Perm s.pending)
      (hpushed : s'.ctx.pushed = s.ctx.pushed)
      (htraffic : Traffic.step s.ctx.traffic (.complete key resultCode more) = some s'.ctx.traffic)
  | poll (key : Key) (w : Waker) (ha : a = .pollKey key w) (hpending : s'.pending.Perm s.pending)
      (hpushed : s'.ctx.pushed = s.ctx.pushed)
      (htraffic : Traffic.step s.ctx.traffic (.poll key w) = some s'.ctx.traffic)

theorem pending_of_eq {s s' : State τ κ φ} (hchannel : s'.channel = s.channel)
    (hwaiting : s'.waitingSubmissions = s.waitingSubmissions) : s'.pending = s.pending := by
  rw [State.pending, State.pending, hchannel, hwaiting]

theorem pending_cons {s : State τ κ φ} {msg : Message τ} {channel : List (Message τ)}
    (h : s.channel = msg :: channel) :
    s.pending = msg.submission?.toList ++ channel.filterMap Message.submission? ++ s.waitingSubmissions := by
  rw [State.pending, h, List.filterMap_cons]
  cases msg.submission? <;> rfl

theorem submission?_eq_none {msg : Message τ} (h : ∀ submission, msg ≠ .submitIo submission) :
    msg.submission? = none := by
  cases msg with
  | submitIo submission => exact absurd rfl (h submission)
  | _ => rfl

variable [CompletableOperation τ κ φ]

theorem mem_pending_send {s s' : State τ κ φ} {submission : IoSubmission τ}
    (h : step s (.send (.submitIo submission)) = some s') : submission ∈ s'.pending := by
  cases h
  refine List.mem_append_left _ (List.mem_filterMap.mpr ⟨.submitIo submission, ?_, rfl⟩)
  exact List.mem_append_right _ List.mem_cons_self

theorem Passes.of_ctx {a : Act τ} {s s' : State τ κ φ} (hpending : s'.pending.Perm s.pending)
    (hctx : s'.ctx = s.ctx) : Passes a s s' :=
  .keep hpending (by rw [hctx]) (by rw [hctx])

theorem step_passes {s s' : State τ κ φ} {a : Act τ} (h : step s a = some s') : Passes a s s' := by
  cases step_moves h with
  | keep hchannel hwaiting hctx => exact .of_ctx (.of_eq (pending_of_eq hchannel hwaiting)) hctx
  | send msg ha hchannel hwaiting hctx =>
    have hp : s'.pending =
        s.channel.filterMap Message.submission? ++ msg.submission?.toList ++ s.waitingSubmissions := by
      rw [State.pending, hchannel, hwaiting, List.filterMap_append, List.filterMap_cons]
      cases msg.submission? <;> rfl
    cases hmsg : msg with
    | submitIo submission =>
      refine .send submission (hmsg ▸ ha) ?_ hctx
      rw [hp, hmsg, State.pending, Message.submission?, Option.toList_some, List.append_assoc]
      exact List.perm_middle
    | _ =>
      rw [hmsg] at hp
      refine .of_ctx (.of_eq ?_) hctx
      simpa [Message.submission?, State.pending] using hp
  | receive msg hmsg hchannel hwaiting hctx =>
    refine .of_ctx (.of_eq ?_) hctx
    rw [pending_cons hchannel, submission?_eq_none hmsg, State.pending, hwaiting]
    rfl
  | receivePush submission hchannel hwaiting hctx =>
    refine .push submission (.of_eq ?_) hctx
    rw [pending_cons hchannel, State.pending, hwaiting]
    rfl
  | receiveFull submission hchannel hwaiting hctx =>
    refine .of_ctx ?_ hctx
    rw [pending_cons hchannel, State.pending, hwaiting, ← List.append_assoc]
    exact List.perm_append_singleton submission _
  | retryPush submission hchannel hwaiting hctx =>
    refine .push submission ?_ hctx
    rw [State.pending, State.pending, hchannel, hwaiting]
    exact List.perm_middle
  | retryFull submission waiting hchannel hwaiting hwaiting' hctx =>
    refine .of_ctx ?_ hctx
    rw [State.pending, State.pending, hchannel, hwaiting, hwaiting']
    exact (List.perm_append_singleton submission waiting).append_left _
  | submit hchannel hwaiting hctx =>
    refine .keep (.of_eq (pending_of_eq hchannel hwaiting)) ?_ ?_
    · rw [hctx, IoContext.pushed_submit]
    · rw [hctx, IoContext.traffic_submit]
  | item key resultCode more hchannel hwaiting hctx =>
    obtain ⟨-, traffic, htraffic, hctx⟩ := IoContext.completeItem_cases hctx
    refine .item key resultCode more (.of_eq (pending_of_eq hchannel hwaiting)) ?_ ?_
    · rw [hctx]
      rfl
    · rw [hctx]
      exact htraffic
  | poll key w ha hchannel hwaiting hctx =>
    refine .poll key w ha (.of_eq (pending_of_eq hchannel hwaiting)) ?_ ?_
    · rw [hctx]
      rfl
    · rw [hctx]
      rfl

omit [CompletableOperation τ κ φ] in
theorem assigned_of_perm {s s' : State τ κ φ} (hpending : s'.pending.Perm s.pending)
    (hpushed : s'.ctx.pushed = s.ctx.pushed) : s'.assigned.Perm s.assigned := by
  rw [State.assigned, hpushed]
  exact (hpending.map _).append_right _

omit [CompletableOperation τ κ φ] in
theorem pushed_push (ctx : IoContext τ κ φ) (submission : IoSubmission τ) :
    (ctx.push submission).pushed = ctx.pushed ++ [submission.entry] := (List.append_assoc ..).symm

/-- No step loses or doubles an operation; a submission that is sent adds its
own. -/
theorem Passes.assigned {a : Act τ} {s s' : State τ κ φ} (h : Passes a s s') :
    s'.assigned.Perm s.assigned ∨
      ∃ submission, a = .send (.submitIo submission) ∧
        s'.assigned.Perm (submission.entry :: s.assigned) := by
  cases h with
  | keep hpending hpushed _ => exact Or.inl (assigned_of_perm hpending hpushed)
  | send submission ha hpending hctx =>
    refine Or.inr ⟨submission, ha, ?_⟩
    rw [State.assigned, hctx]
    exact (hpending.map _).append_right _
  | push submission hpending hctx =>
    refine Or.inl ?_
    rw [State.assigned, State.assigned, hctx, pushed_push, ← List.append_assoc]
    exact (List.perm_append_singleton _ _).trans ((hpending.map _).append_right _).symm
  | item _ _ _ hpending hpushed _ => exact Or.inl (assigned_of_perm hpending hpushed)
  | poll _ _ _ hpending hpushed _ => exact Or.inl (assigned_of_perm hpending hpushed)

/-! ### Keys -/

/-- The keys of the operations. -/
def keys (entries : List (IoEntry τ)) : List Key := entries.map IoEntry.key

/-- No key is assigned twice, and the completion queue knows of the pushed
operations. -/
structure Ordered (s : State τ κ φ) : Prop where
  nodup : (keys s.assigned).Nodup
  logged : ∀ k, (s.ctx.traffic.log.lookup k).isSome = true ↔ k ∈ keys s.ctx.pushed

omit [CompletableOperation τ κ φ] in
theorem ordered_init : Ordered (State.init : State τ κ φ) :=
  ⟨List.nodup_nil, fun k => by simp [State.init, IoContext.new, Traffic.State.init, IoContext.pushed, keys]⟩

omit [CompletableOperation τ κ φ] in
/-- The completion queue does not know of a pending operation. -/
theorem Ordered.lookup_pending {s : State τ κ φ} (hs : Ordered s) {submission : IoSubmission τ}
    (h : submission ∈ s.pending) : s.ctx.traffic.log.lookup submission.key = none := by
  refine Option.not_isSome_iff_eq_none.mp fun hsome => ?_
  have hnodup := hs.nodup
  rw [keys, State.assigned, List.map_append, List.nodup_append] at hnodup
  refine hnodup.2.2 submission.key ?_ submission.key ((hs.logged _).mp hsome) rfl
  rw [List.map_map]
  exact List.mem_map_of_mem h

omit [CompletableOperation τ κ φ] in
theorem Ordered.pending_unique {s : State τ κ φ} (hs : Ordered s) {submission other : IoSubmission τ}
    (h : submission ∈ s.pending) (hother : other ∈ s.pending) (hkey : other.key = submission.key) :
    other = submission := by
  have hnodup := hs.nodup
  rw [keys, State.assigned, List.map_append, List.nodup_append, List.map_map] at hnodup
  exact List.inj_on_of_nodup_map hnodup.1 hother h hkey

/-- What an event of the completion queue that adds no entry leaves of the
histories. -/
theorem isSome_lookup_step {s s' : Traffic.State τ κ φ} {e : Traffic.Event τ}
    (h : Traffic.step s e = some s') (he : e.isAdd = false) (k : Key) :
    (s'.log.lookup k).isSome = (s.log.lookup k).isSome := by
  rcases Traffic.log_step h he k with ⟨hnone, hnone'⟩ | ⟨l, l', hl, hl', -⟩
  · rw [hnone, hnone']
  · rw [hl, hl']
    rfl

/-- A worker that is sent no key twice stays ordered. -/
theorem ordered_step {a : Act τ} {s s' : State τ κ φ} (h : Passes a s s') (hs : Ordered s)
    (hnew : ∀ submission, a = .send (.submitIo submission) → submission.key ∉ keys s.assigned) :
    Ordered s' := by
  constructor
  · rcases h.assigned with hp | ⟨submission, ha, hp⟩
    · exact (hp.map _).nodup_iff.mpr hs.nodup
    · exact (hp.map _).nodup_iff.mpr (List.nodup_cons.mpr ⟨hnew submission ha, hs.nodup⟩)
  · intro k
    cases h with
    | keep _ hpushed htraffic => rw [hpushed, htraffic, hs.logged]
    | send _ _ _ hctx => rw [hctx, hs.logged]
    | push submission _ hctx =>
      rw [hctx, pushed_push, keys, List.map_append, List.mem_append, List.map_singleton,
        List.mem_singleton]
      by_cases hk : k = submission.key
      · rw [hk]
        simp [IoContext.push, Traffic.State.addEntry, IoSubmission.entry]
      · have hlog : (s.ctx.push submission).traffic.log.lookup k = s.ctx.traffic.log.lookup k :=
          Finmap.lookup_insert_of_ne _ hk
        rw [hlog, hs.logged]
        exact ⟨Or.inl, fun hmem => hmem.resolve_right hk⟩
    | item _ _ _ _ hpushed htraffic =>
      rw [hpushed, isSome_lookup_step htraffic rfl, hs.logged]
    | poll _ _ _ _ hpushed htraffic =>
      rw [hpushed, isSome_lookup_step htraffic rfl, hs.logged]

/-! ### In flight -/

/-- The first completion of the operation has been recorded. -/
def Completed (s : State τ κ φ) (key : Key) : Prop :=
  ∃ l, s.ctx.traffic.log.lookup key = some l ∧ l.posted ≠ []

theorem completed_of_complete {s s' : Traffic.State τ κ φ} {key : Key} {resultCode : ℤ} {more : Bool}
    (h : Traffic.step s (.complete key resultCode more) = some s') :
    ∃ l, s'.log.lookup key = some l ∧ l.posted ≠ [] := by
  have hkey := (Traffic.step_cases h).1
  simp only [Traffic.Event.key] at hkey
  generalize s.log.lookup key = l, s'.log.lookup key = l', s.queue.lookup key = slot,
    s'.queue.lookup key = slot' at hkey ⊢
  cases hkey with
  | complete _ _ _ l _ _ => exact ⟨l.post resultCode more, rfl, by simp [Log.post]⟩

/-- A completed operation stays so. -/
theorem completed_step {a : Act τ} {s s' : State τ κ φ} (h : Passes a s s') (hs : Ordered s) {key : Key}
    (hc : Completed s key) : Completed s' key := by
  obtain ⟨l, hl, hposted⟩ := hc
  have htraffic : ∀ e : Traffic.Event τ, e.isAdd = false →
      Traffic.step s.ctx.traffic e = some s'.ctx.traffic → Completed s' key := by
    intro e he hstep
    rcases Traffic.log_step hstep he key with ⟨hnone, -⟩ | ⟨l₀, l', hl₀, hl', hmono⟩
    · cases hl.symm.trans hnone
    · cases hl.symm.trans hl₀
      exact ⟨l', hl', hmono hposted⟩
  cases h with
  | keep _ _ htr => exact ⟨l, by rw [htr, hl], hposted⟩
  | send _ _ _ hctx => exact ⟨l, by rw [hctx, hl], hposted⟩
  | push submission hpending hctx =>
    have hnone := hs.lookup_pending (hpending.mem_iff.mpr List.mem_cons_self)
    have hk : key ≠ submission.key := by
      rintro rfl
      cases hl.symm.trans hnone
    refine ⟨l, ?_, hposted⟩
    rw [hctx]
    exact (Finmap.lookup_insert_of_ne _ hk).trans hl
  | item k resultCode more _ _ hstep => exact htraffic (.complete k resultCode more) rfl hstep
  | poll k w _ _ _ hstep => exact htraffic (.poll k w) rfl hstep

/-- The operation is pending, or in a slot that is not completed; its
completion will wake `w`. -/
inductive InFlight (s : State τ κ φ) (key : Key) (w : Option Waker) : Prop
  | pending (submission : IoSubmission τ) (hmem : submission ∈ s.pending) (hkey : submission.key = key)
      (hwaker : submission.waker = w)
  | slot (entry : IoEntry τ) (hlog : (s.ctx.traffic.log.lookup key).isSome = true)
      (hslot : s.ctx.traffic.queue.lookup key = some ⟨some (.notCompleted entry), w⟩)

omit [CompletableOperation τ κ φ] in
theorem InFlight.of_traffic {s s' : State τ κ φ} {key : Key} {w : Option Waker} (h : InFlight s key w)
    (hpending : ∀ submission ∈ s.pending, submission.key = key → submission ∈ s'.pending)
    (hlog : (s'.ctx.traffic.log.lookup key).isSome = (s.ctx.traffic.log.lookup key).isSome)
    (hqueue : s'.ctx.traffic.queue.lookup key = s.ctx.traffic.queue.lookup key) :
    InFlight s' key w := by
  cases h with
  | pending submission hmem hkey hwaker =>
    exact .pending submission (hpending submission hmem hkey) hkey hwaker
  | slot entry hl hslot => exact .slot entry (hlog.trans hl) (hqueue.trans hslot)

/-- An operation in flight stays so, with its waker, until it is completed or
polled. -/
theorem inFlight_step {a : Act τ} {s s' : State τ κ φ} (h : Passes a s s') (hs : Ordered s) {key : Key}
    {w : Option Waker} (ha : ∀ w', a ≠ .pollKey key w') (hin : InFlight s key w) :
    InFlight s' key w ∨ Completed s' key := by
  cases h with
  | keep hpending hpushed htraffic =>
    refine Or.inl (hin.of_traffic (fun _ hmem _ => hpending.mem_iff.mpr hmem) ?_ ?_) <;> rw [htraffic]
  | send submission _ hpending hctx =>
    refine Or.inl (hin.of_traffic (fun _ hmem _ =>
      hpending.mem_iff.mpr (List.mem_cons_of_mem _ hmem)) ?_ ?_) <;> rw [hctx]
  | push submission hpending hctx =>
    refine Or.inl ?_
    have hmem : submission ∈ s.pending := hpending.mem_iff.mpr List.mem_cons_self
    by_cases hk : key = submission.key
    · subst hk
      cases hin with
      | pending other hother hkey hwaker =>
        cases hs.pending_unique hmem hother hkey
        refine .slot submission.entry ?_ ?_
        · rw [hctx]
          exact congrArg _ (Finmap.lookup_insert _)
        · rw [hctx, ← hwaker]
          exact (IoCompletionQueue.lookup_addEntry _ _).trans (if_pos rfl)
      | slot _ hlog _ =>
        rw [hs.lookup_pending hmem] at hlog
        cases hlog
    · refine hin.of_traffic (fun other hother hkey => ?_) ?_ ?_
      · rcases List.mem_cons.mp (hpending.mem_iff.mp hother) with rfl | hother
        · exact absurd hkey.symm hk
        · exact hother
      · rw [hctx]
        exact congrArg _ (Finmap.lookup_insert_of_ne _ hk)
      · rw [hctx]
        exact (IoCompletionQueue.lookup_addEntry _ _).trans (if_neg hk)
  | item k resultCode more hpending hpushed htraffic =>
    by_cases hk : key = k
    · rw [hk]
      exact Or.inr (completed_of_complete htraffic)
    · obtain ⟨hl, hq⟩ := (Traffic.step_cases htraffic).2 key hk
      exact Or.inl (hin.of_traffic (fun _ hmem _ => hpending.mem_iff.mpr hmem) (by rw [hl]) hq)
  | poll k w' hact hpending hpushed htraffic =>
    have hk : key ≠ k := fun hk => ha w' (hk ▸ hact)
    obtain ⟨hl, hq⟩ := (Traffic.step_cases htraffic).2 key hk
    exact Or.inl (hin.of_traffic (fun _ hmem _ => hpending.mem_iff.mpr hmem) (by rw [hl]) hq)

theorem key_mem_of_item {s s' : State τ κ φ} {key : Key} {resultCode : ℤ} {more : Bool}
    (h : step s (.item key resultCode more) = some s') : key ∈ keys s.ctx.pushed := by
  cases step_cases h with
  | item _ _ _ ctx _ hctx =>
    obtain ⟨⟨entry, hmem, rfl⟩, -⟩ := IoContext.completeItem_cases hctx
    exact List.mem_map_of_mem hmem

/-- The completion of an operation in flight wakes its waker. -/
theorem inFlight_item {s s' : State τ κ φ} {key : Key} {w : Option Waker} {resultCode : ℤ} {more : Bool}
    (h : step s (.item key resultCode more) = some s') (hs : Ordered s) (hin : InFlight s key w) :
    (s.ctx.traffic.queue.complete key resultCode).1 = w := by
  cases hin with
  | pending submission hmem hkey _ =>
    have hlog := (hs.logged key).mpr (key_mem_of_item h)
    rw [← hkey, hs.lookup_pending hmem] at hlog
    cases hlog
  | slot entry _ hslot =>
    rw [IoCompletionQueue.complete_fst, hslot]
    rfl

/-- A poll of a pushed operation in flight returns nothing yet, and leaves its
waker in the slot. -/
theorem inFlight_poll {s s' : State τ κ φ} {key : Key} {w : Option Waker} {w' : Waker}
    (h : step s (.pollKey key w') = some s') (hs : Ordered s)
    (hlog : (s.ctx.traffic.log.lookup key).isSome = true) (hin : InFlight s key w) :
    (s.ctx.traffic.poll key w').1 = .pending ∧ InFlight s' key (some w') := by
  cases hin with
  | pending submission hmem hkey _ =>
    rw [← hkey, hs.lookup_pending hmem] at hlog
    cases hlog
  | slot entry _ hslot =>
    obtain rfl := Option.some.inj h
    refine ⟨?_, .slot entry ?_ ?_⟩
    · simp only [Traffic.State.poll]
      rw [IoCompletionQueue.poll_fst, hslot]
      rfl
    · rw [← hlog]
      exact isSome_lookup_step (Traffic.step_poll _ key w') rfl key
    · simp only [Traffic.State.poll]
      rw [IoCompletionQueue.lookup_poll, if_pos rfl, hslot]
      rfl

omit [CompletableOperation τ κ φ] in
/-- A poll of a pending operation finds no slot. -/
theorem poll_of_pending {s : State τ κ φ} {submission : IoSubmission τ} (hs : Ordered s)
    (hok : Traffic.Ok s.ctx.traffic) (h : submission ∈ s.pending) (w : Waker) :
    (s.ctx.traffic.poll submission.key w).1 = .ready none := by
  have hslot := hok submission.key
  rw [hs.lookup_pending h] at hslot
  simp only [Traffic.State.poll]
  rw [IoCompletionQueue.poll_fst]
  generalize s.ctx.traffic.queue.lookup submission.key = slot at hslot
  cases hslot
  rfl

end Worker

end ClAsync
