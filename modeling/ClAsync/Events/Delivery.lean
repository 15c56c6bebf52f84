/-
# Every event is returned once, and nobody sleeps on one

What is due to a queue is split in two: the events its futures returned, and
those still queued, in the order they arrived (`contents_advance` for one
step). A future returns at most one event. And outside of the push and the
wake-up of a batch, a queue that holds an event has no waiting future but
those already woken.

The last is the work of `Inv.owed`: a queue that holds an event kept no
waker, or its key is in the list of queues to wake. A push to a waiting queue
adds the key, the wake-up that removes the key takes the wakers of the queue,
and a poll leaves a waker only with an empty queue. A broadcast pushes and
wakes at once and owes nothing, even in the middle of a batch.

Key definitions: `Delivered`, `Inv`.
Key theorems: `contents_advance`, `inv_advance`, `all_delivered`.
-/
import ClAsync.Events.Queue

namespace ClAsync
namespace Dispatch

open Runs Wakers

/-- The events that the futures of `q` returned, in order. -/
def State.returnedFrom (s : State) (q : ℕ) : List Event :=
  (s.returned.filter fun r => r.queue = q).map Returned.event

/-- No batch is being pushed, and no queue of one being woken. -/
def Pc.isQuiet : Pc → Bool
  | push _ | wake => false
  | _ => true

/-- The future returned its event, and cannot return another. -/
def State.Done (s : State) (r : Returned) : Prop :=
  ∃ f, s.futures[r.future]? = some f ∧ f.data = r.queue ∧ f.phase.canPoll = false

/-- Every woken waiter of `q` has been polled since. -/
def State.Settled (s : State) (q : ℕ) : Prop :=
  ∀ f ∈ s.futures, f.data = q → f.phase = .pending → f.woken = false

/-- The events of a queue that were returned, each by a future of its own, and
those still queued are the ones due to it, in their order; and in a quiet state,
where the woken waiters were polled, nobody waits for an event that is there. -/
structure Delivered (s : State) : Prop where
  conserved : ∀ q, s.returnedFrom q ++ (s.queues q).queue = s.pushed q
  once : (s.returned.map Returned.future).Nodup
  done : ∀ r ∈ s.returned, s.Done r
  awake : s.pc.isQuiet = true → ∀ q, s.Settled q →
    ¬ ((s.queues q).queue ≠ [] ∧ ∃ f ∈ s.futures, f.data = q ∧ f.phase = .pending)

/-! ### The invariant -/

/-- A queue that holds an event kept no waker, or is to be woken. -/
def State.Owed (s : State) (q : ℕ) : Prop :=
  (s.queues q).queue ≠ [] → (s.queues q).wakerQueue = [] ∨ ∃ key ∈ s.queuesToWake, s.registry.lookup key = some q

/-- What holds in the middle of a push and its wake-up too. -/
structure Flow (s : State) : Prop where
  once : (s.returned.map Returned.future).Nodup
  done : ∀ r ∈ s.returned, s.Done r
  waiting : ∀ f ∈ s.futures, f.Asleep → f.waker ∈ (s.queues f.data).wakerQueue

structure Inv (s : State) : Prop extends Flow s where
  owed : ∀ q, s.Owed q

/-- The list of queues to wake is empty once they are woken. -/
def Quiet (s : State) : Prop := s.pc.isQuiet = true → s.queuesToWake = []

/-- What went through the queue `q`: the events returned, and those queued. -/
def State.contents (s : State) (q : ℕ) : List Event := s.returnedFrom q ++ (s.queues q).queue

theorem delivered_of_inv {s : State} (hs : Inv s) (hq : Quiet s) (hc : ∀ q, s.contents q = s.pushed q) :
    Delivered s := by
  refine ⟨hc, hs.once, hs.done, fun hpc q hsettled hboth => ?_⟩
  obtain ⟨hne, f, hf, rfl, hpending⟩ := hboth
  have hasleep : f.Asleep := ⟨hpending, hsettled f hf rfl hpending⟩
  have hwaker := hs.waiting f hf hasleep
  rcases hs.owed f.data hne with hnil | ⟨key, hkey, -⟩
  · rw [hnil] at hwaker
    exact List.not_mem_nil hwaker
  · rw [hq hpc] at hkey
    exact List.not_mem_nil hkey

/-! ### Pushes and wake-ups -/

section Operations

variable {s : State}

theorem owed_of_nil {q : ℕ} (h : (s.queues q).wakerQueue = []) : s.Owed q := fun _ => .inl h

theorem flow_push (hs : Flow s) (q : ℕ) (event : Event) : Flow (s.push q event) := by
  refine ⟨hs.once, hs.done, fun f hf hasleep => ?_⟩
  have hwaker := hs.waiting f hf hasleep
  unfold State.push
  rcases eq_or_ne f.data q with rfl | hne
  · simp only [Function.update_self]
    exact hwaker
  · simp only [Function.update_of_ne hne]
    exact hwaker

/-- A wake-up takes only wakers that it wakes. -/
theorem flow_wake (hs : Flow s) (q : ℕ) : Flow (s.wake q) := by
  refine ⟨hs.once, fun r hr => ?_, fun f hf hasleep => ?_⟩
  · obtain ⟨f, hf, hdata, hphase⟩ := hs.done r hr
    obtain ⟨b, hb⟩ := getElem?_wakeAll (s.queues q).wakerQueue hf
    exact ⟨_, hb, hdata, hphase⟩
  · obtain ⟨hmem, hnotin⟩ := asleep_of_mem_wakeAll hasleep _ _ hf
    have hwaker := hs.waiting f hmem hasleep
    have hne : f.data ≠ q := by
      rintro rfl
      exact hnotin hwaker
    unfold State.wake
    simp only [Function.update_of_ne hne]
    exact hwaker

theorem wake_wakerQueue (q : ℕ) : ((s.wake q).queues q).wakerQueue = [] := by
  unfold State.wake
  simp only [Function.update_self]

/-- The other queues are as they were. -/
theorem owed_wake {p q : ℕ} (h : p ≠ q → s.Owed p) : (s.wake q).Owed p := by
  rcases eq_or_ne p q with rfl | hne
  · exact owed_of_nil (wake_wakerQueue p)
  · have hp := h hne
    unfold State.Owed State.wake at *
    simp only [Function.update_of_ne hne]
    exact hp

theorem owed_push {p q : ℕ} {event : Event} (hne : p ≠ q) (h : s.Owed p) : (s.push q event).Owed p := by
  unfold State.Owed State.push at *
  simp only [Function.update_of_ne hne]
  exact h

/-- A push and the wake-up after it. -/
theorem inv_push_wake (hs : Inv s) (q : ℕ) (event : Event) : Inv ((s.push q event).wake q) :=
  ⟨flow_wake (flow_push hs.toFlow q event) q, fun p => owed_wake fun hne => owed_push hne (hs.owed p)⟩

/-- A push whose key goes to the list of queues to wake. -/
theorem inv_pushEvent (hs : Inv s) (event : Event) : Inv (s.pushEvent event) := by
  unfold State.pushEvent
  split
  · rename_i q hlookup
    have hflow := flow_push hs.toFlow q event
    refine ⟨⟨hflow.once, hflow.done, hflow.waiting⟩, fun p hne => ?_⟩
    rcases eq_or_ne p q with rfl | hpq
    · exact .inr ⟨event.key, List.mem_append_right _ (List.mem_singleton_self _), hlookup⟩
    · rcases owed_push hpq (hs.owed p) hne with hnil | ⟨key, hkey, hreg⟩
      · exact .inl hnil
      · exact .inr ⟨key, List.mem_append_left _ hkey, hreg⟩
  · exact hs

/-- The first key of the list is taken, and its queue woken. -/
theorem inv_wakeKey (hs : Inv s) {key : Key} {keys : List Key} (hwake : s.queuesToWake = key :: keys) :
    Inv (({ s with queuesToWake := keys } : State).wakeKey key) := by
  have hflow : Flow { s with queuesToWake := keys } := ⟨hs.once, hs.done, hs.waiting⟩
  -- A queue that was to be woken is the one woken now, or its key comes later.
  have howed : ∀ p, s.registry.lookup key ≠ some p → ({ s with queuesToWake := keys } : State).Owed p := by
    intro p hp hne
    rcases hs.owed p hne with hnil | ⟨key', hkey', hlookup⟩
    · exact .inl hnil
    · rw [hwake] at hkey'
      rcases List.mem_cons.mp hkey' with rfl | hlater
      · exact absurd hlookup hp
      · exact .inr ⟨key', hlater, hlookup⟩
  unfold State.wakeKey
  split
  · rename_i q hlookup
    refine ⟨flow_wake hflow q, fun p => owed_wake fun hne => howed p fun heq => ?_⟩
    exact hne (Option.some.inj (heq.symm.trans hlookup))
  · rename_i hlookup
    refine ⟨hflow, fun p => howed p fun heq => ?_⟩
    rw [show s.registry.lookup key = none from hlookup] at heq
    cases heq

theorem inv_broadcastAndWake (eventType : EventType) : ∀ (entries : List (Key × ℕ)) {s : State},
    Inv s → Inv (s.broadcastAndWake eventType entries)
  | [], _, hs => hs
  | (key, q) :: entries, _, hs => inv_broadcastAndWake eventType entries (inv_push_wake hs q ⟨eventType, key⟩)

theorem broadcastAndWake_pc (eventType : EventType) : ∀ (entries : List (Key × ℕ)) (s : State),
    (s.broadcastAndWake eventType entries).pc = s.pc
  | [], _ => rfl
  | (key, q) :: entries, s => broadcastAndWake_pc eventType entries ((s.push q ⟨eventType, key⟩).wake q)

theorem broadcastAndWake_queuesToWake (eventType : EventType) : ∀ (entries : List (Key × ℕ)) (s : State),
    (s.broadcastAndWake eventType entries).queuesToWake = s.queuesToWake
  | [], _ => rfl
  | (key, q) :: entries, s =>
    broadcastAndWake_queuesToWake eventType entries ((s.push q ⟨eventType, key⟩).wake q)

/-! ### Tasks -/

/-- The registry changes only while no queue is to be woken. -/
theorem inv_registry (hs : Inv s) (hwake : s.queuesToWake = []) (registry : List (Key × ℕ)) :
    Inv { s with registry } := by
  refine ⟨⟨hs.once, hs.done, hs.waiting⟩, fun p hne => ?_⟩
  rcases hs.owed p hne with hnil | ⟨key, hkey, -⟩
  · exact .inl hnil
  · rw [hwake] at hkey
    exact absurd hkey List.not_mem_nil

/-- A future that did not return an event is replaced by one that waits with
its queue, if it waits. -/
theorem inv_set (hs : Inv s) {i : ℕ} {f g : NextEventFuture} (hf : s.futures[i]? = some f) (hdata : g.data = f.data)
    (hphase : f.phase.canPoll = false → g.phase.canPoll = false) (hg : ¬ g.Asleep) :
    Inv { s with futures := s.futures.set i g } := by
  refine ⟨⟨hs.once, fun r hr => ?_, ?_⟩, hs.owed⟩
  · obtain ⟨f', hf', hdata', hphase'⟩ := hs.done r hr
    let R (f g : NextEventFuture) : Prop := g.data = f.data ∧ (f.phase.canPoll = false → g.phase.canPoll = false)
    have hR : ∀ f, R f f := fun _ => ⟨rfl, id⟩
    obtain ⟨g', hg', hsame, hkeep⟩ := getElem?_set_rel hR hf (show R f g from ⟨hdata, hphase⟩) hf'
    exact ⟨g', hg', hsame.trans hdata', hkeep hphase'⟩
  · exact forall_mem_set hs.waiting fun hasleep => absurd hasleep hg

theorem inv_nextEvent (hs : Inv s) (q : ℕ) : Inv { s with futures := s.futures ++ [.new q] } := by
  refine ⟨⟨hs.once, fun r hr => ?_, fun f hf hasleep => ?_⟩, hs.owed⟩
  · obtain ⟨f, hf, hdone⟩ := hs.done r hr
    have hlt : r.future < s.futures.length := (List.getElem?_eq_some_iff.mp hf).1
    exact ⟨f, (List.getElem?_append_left hlt).trans hf, hdone⟩
  · rcases List.mem_append.mp hf with hold | hnew
    · exact hs.waiting f hold hasleep
    · rw [List.mem_singleton.mp hnew] at hasleep
      cases hasleep.1

/-- The poll takes an event, and the future is done with it. -/
theorem inv_pollFuture_some (hs : Inv s) {i : ℕ} {f : NextEventFuture} (hf : s.futures[i]? = some f)
    (hcan : f.phase.canPoll = true) {event : Event} {events : List Event}
    (hqueue : (s.queues f.data).queue = event :: events) :
    Inv { s with
      queues := Function.update s.queues f.data { s.queues f.data with queue := events }
      futures := s.futures.set i { f with phase := .ready }
      returned := s.returned ++ [⟨i, f.data, event⟩] } := by
  have hset := inv_set hs hf (g := { f with phase := .ready }) rfl (fun _ => rfl) fun hasleep => by cases hasleep.1
  have hfresh : ∀ r ∈ s.returned, r.future ≠ i := by
    rintro r hr rfl
    obtain ⟨f', hf', -, hcan'⟩ := hs.done r hr
    obtain rfl := Option.some.inj (hf.symm.trans hf')
    rw [hcan] at hcan'
    cases hcan'
  refine ⟨⟨?_, fun r hr => ?_, fun f' hf' hasleep => ?_⟩, fun q hne => ?_⟩
  · rw [List.map_append, List.nodup_append]
    refine ⟨hs.once, List.nodup_singleton _, fun j hj k hk hjk => ?_⟩
    obtain ⟨r, hr, rfl⟩ := List.mem_map.mp hj
    rw [List.mem_singleton.mp hk] at hjk
    exact hfresh r hr hjk
  · rcases List.mem_append.mp hr with hold | hnew
    · exact hset.done r hold
    · rw [List.mem_singleton.mp hnew]
      exact ⟨_, List.getElem?_set_self (List.getElem?_eq_some_iff.mp hf).1, rfl, rfl⟩
  · have hwaker := hset.waiting f' hf' hasleep
    rcases eq_or_ne f'.data f.data with heq | hne
    · rw [heq] at hwaker ⊢
      simp only [Function.update_self]
      exact hwaker
    · simp only [Function.update_of_ne hne]
      exact hwaker
  · rcases eq_or_ne q f.data with rfl | hqne
    · simp only [Function.update_self]
      exact hs.owed f.data (by rw [hqueue]; exact List.cons_ne_nil _ _)
    · simp only [Function.update_of_ne hqne] at hne ⊢
      exact hs.owed q hne

/-- The poll finds the queue empty, and leaves its waker with it. -/
theorem inv_pollFuture_none (hs : Inv s) {i : ℕ} {f : NextEventFuture} (hf : s.futures[i]? = some f)
    (hcan : f.phase.canPoll = true) (waker : Waker) (hqueue : (s.queues f.data).queue = []) :
    Inv { s with
      queues := Function.update s.queues f.data ((s.queues f.data).registerWaker waker)
      futures := s.futures.set i { f with phase := .pending, waker, woken := false } } := by
  refine ⟨⟨hs.once, fun r hr => ?_, ?_⟩, fun q hne => ?_⟩
  · obtain ⟨f', hf', hdone⟩ := hs.done r hr
    have hne : i ≠ r.future := by
      rintro rfl
      obtain rfl := Option.some.inj (hf.symm.trans hf')
      rw [hcan] at hdone
      cases hdone.2
    exact ⟨f', (List.getElem?_set_ne hne).trans hf', hdone⟩
  · refine forall_mem_set (fun f' hf' hasleep => ?_) fun _ => ?_
    · have hwaker := hs.waiting f' hf' hasleep
      rcases eq_or_ne f'.data f.data with heq | hne
      · rw [heq] at hwaker ⊢
        simp only [Function.update_self]
        exact List.mem_append_left _ hwaker
      · simp only [Function.update_of_ne hne]
        exact hwaker
    · simp only [Function.update_self]
      exact List.mem_append_right _ (List.mem_singleton_self waker)
  · rcases eq_or_ne q f.data with rfl | hqne
    · simp only [Function.update_self] at hne
      exact absurd hqueue hne
    · simp only [Function.update_of_ne hqne] at hne ⊢
      exact hs.owed q hne

theorem inv_pollFuture (hs : Inv s) {i : ℕ} {f : NextEventFuture} (hf : s.futures[i]? = some f)
    (hcan : f.phase.canPoll = true) (waker : Waker) : Inv (s.pollFuture i f waker) := by
  unfold State.pollFuture EventQueue.pop
  cases hqueue : (s.queues f.data).queue with
  | nil => exact inv_pollFuture_none hs hf hcan waker hqueue
  | cons event events => exact inv_pollFuture_some hs hf hcan hqueue

/-- The end of the worker drops all futures. -/
theorem inv_stop (hs : Inv s) : Inv s.stop := by
  refine ⟨⟨hs.once, fun r hr => ?_, fun f hf hasleep => ?_⟩, hs.owed⟩
  · obtain ⟨f, hf, hdata, -⟩ := hs.done r hr
    refine ⟨f.drop, ?_, hdata, rfl⟩
    show (s.futures.map Wakers.Future.drop)[r.future]? = _
    rw [List.getElem?_map, hf, Option.map_some]
  · obtain ⟨f₀, -, rfl⟩ := List.mem_map.mp hf
    cases hasleep.1

end Operations

/-! ### What a step brings to a queue -/

section Contents

variable {s s' : State} {a : Act}

theorem contents_push (q : ℕ) (event : Event) (p : ℕ) :
    (s.push q event).contents p = s.contents p ++ if q = p then [event] else [] := by
  show s.returnedFrom p ++ (Function.update s.queues q ((s.queues q).push event) p).queue = _
  unfold State.contents
  rcases eq_or_ne q p with rfl | hne
  · rw [Function.update_self, if_pos rfl, EventQueue.push, List.append_assoc]
  · rw [Function.update_of_ne hne.symm, if_neg hne, List.append_nil]

/-- A wake-up moves no event. -/
theorem contents_wake (q p : ℕ) : (s.wake q).contents p = s.contents p := by
  show s.returnedFrom p ++ (Function.update s.queues q { s.queues q with wakerQueue := [] } p).queue = _
  unfold State.contents
  rcases eq_or_ne p q with rfl | hne
  · rw [Function.update_self]
  · rw [Function.update_of_ne hne]

theorem contents_wakeKey (key : Key) (p : ℕ) : (s.wakeKey key).contents p = s.contents p := by
  unfold State.wakeKey
  cases s.registry.lookup key with
  | none => rfl
  | some q => exact contents_wake q p

/-- An event goes to the queue of its key. -/
theorem contents_pushEvent (event : Event) (p : ℕ) :
    (s.pushEvent event).contents p = s.contents p ++ s.eventTo event p := by
  unfold State.pushEvent State.eventTo
  cases s.registry.lookup event.key with
  | none => exact (List.append_nil _).symm
  | some q =>
    simp only [Option.some.injEq]
    exact @contents_push s q event p

theorem contents_broadcastAndWake (eventType : EventType) (p : ℕ) : ∀ (order : List (Key × ℕ)) (s : State),
    (s.broadcastAndWake eventType order).contents p = s.contents p ++ broadcastTo eventType order p
  | [], s => (List.append_nil _).symm
  | (key, q) :: order, s => by
    rw [State.broadcastAndWake, contents_broadcastAndWake eventType p order, contents_wake, contents_push,
      List.append_assoc]
    unfold broadcastTo
    by_cases h : q = p
    · rw [if_pos h, List.filter_cons, if_pos (decide_eq_true h)]
      rfl
    · rw [if_neg h, List.filter_cons, if_neg (by simpa using h)]
      rfl

theorem broadcastAndWake_registry (eventType : EventType) : ∀ (order : List (Key × ℕ)) (s : State),
    (s.broadcastAndWake eventType order).registry = s.registry
  | [], _ => rfl
  | (key, q) :: order, s => broadcastAndWake_registry eventType order ((s.push q ⟨eventType, key⟩).wake q)

/-- The poll of a future moves at most one event, from the queue to the
future. -/
theorem contents_pollFuture (i : ℕ) (f : NextEventFuture) (waker : Waker) (p : ℕ) :
    (s.pollFuture i f waker).contents p = s.contents p := by
  unfold State.pollFuture State.contents State.returnedFrom EventQueue.pop
  cases hqueue : (s.queues f.data).queue with
  | nil =>
    rcases eq_or_ne p f.data with rfl | hne
    · simp only [Function.update_self, EventQueue.registerWaker]
    · simp only [Function.update_of_ne hne]
  | cons event events =>
    simp only [List.filter_append, List.map_append]
    rcases eq_or_ne p f.data with rfl | hne
    · simp only [Function.update_self, List.filter_cons, decide_true, if_true, List.filter_nil, List.map_cons,
        List.map_nil, List.append_assoc, List.singleton_append, hqueue]
    · simp only [Function.update_of_ne hne, List.filter_cons, hne.symm, decide_false, Bool.false_eq_true, if_false,
        List.filter_nil, List.map_nil, List.append_nil]

theorem contents_runTask (h : runTask s a = some s') (p : ℕ) : s'.contents p = s.contents p := by
  cases a with
  | register | remove | nextEvent =>
    cases h
    rfl
  | pollFuture i waker =>
    simp only [runTask] at h
    split at h
    · rename_i f hf
      obtain ⟨-, h⟩ := Option.ite_none_right_eq_some.mp h
      cases h
      exact contents_pollFuture i f waker p
    · cases h
  | drop i =>
    simp only [runTask] at h
    split at h
    · obtain ⟨-, h⟩ := Option.ite_none_right_eq_some.mp h
      cases h
      rfl
    · cases h
  | _ => cases h

theorem arrivals_of_runTask (h : runTask s a = some s') (p : ℕ) : arrivals s a p = [] := by
  unfold arrivals
  cases a with
  | register | remove | nextEvent | pollFuture | drop => rfl
  | _ => cases h

/-- Of a batch, the events of the registered keys go to their queues. -/
theorem contents_dispatch {event : Event} {events : List Event} (hpc : s.pc = .push (event :: events))
    (signal : SignalRead) (order : List (Key × ℕ)) (p : ℕ) :
    (dispatch s event events signal order).contents p = s.contents p ++ arrivals s (.push signal order) p := by
  unfold arrivals dispatch
  simp only [hpc]
  by_cases hchannel : event.key = s.messageChannelKey ∨ event.key = s.ioChannelKey
  · rw [if_pos hchannel, if_pos hchannel, List.append_nil]
    rfl
  rw [if_neg hchannel, if_neg hchannel]
  by_cases hsfd : event.key = s.sfdKey
  · rw [if_pos hsfd, if_pos hsfd]
    cases signal with
    | failed => exact (List.append_nil _).symm
    | shutdown =>
      simp only [contents_pushEvent, contents_broadcastAndWake, State.eventTo, broadcastAndWake_registry,
        List.append_assoc]
      rfl
    | other => exact contents_pushEvent event p
  · rw [if_neg hsfd, if_neg hsfd]
    exact contents_pushEvent event p

/-- **Every step brings to a queue what is due to it**, and loses nothing. -/
theorem contents_advance (h : advance s a = some s') (p : ℕ) : s'.contents p = s.contents p ++ arrivals s a p := by
  cases advance_cases h with
  | dispatch event events signal order hpc => exact contents_dispatch hpc signal order p
  | wake key keys hpc hwake =>
    rw [contents_wakeKey]
    exact (List.append_nil _).symm
  | leave order hpc hstop =>
    simp only [arrivals, hpc, hstop, if_true]
    exact contents_broadcastAndWake .shutdown p order s
  | loop order hpc hstop =>
    simp only [arrivals, hpc, hstop, Bool.false_eq_true, if_false, List.append_nil]
    rfl
  | killStopping order hpc hstop =>
    simp only [arrivals, hpc, hstop, if_true, List.append_nil]
    rfl
  | kill order hpc =>
    have hdue : arrivals s (.kill order) p = broadcastTo .kill order p := by
      rcases hpc with ⟨hpc, hstop⟩ | hpc
      · simp only [arrivals, hpc, hstop, Bool.false_eq_true, if_false]
      · simp only [arrivals, hpc]
    rw [hdue]
    exact contents_broadcastAndWake .kill p order s.stop
  | task _ _ _ h => rw [contents_runTask h, arrivals_of_runTask h, List.append_nil]
  | endOfBatch signal order hpc =>
    have hnone : arrivals s (.push signal order) p = [] := by simp only [arrivals, hpc]
    rw [hnone]
    exact (List.append_nil _).symm
  | poll | woken | repair | shutdown | clear => exact (List.append_nil _).symm

end Contents

/-! ### Steps and runs -/

variable {s s' : State} {a : Act}

/-- A task runs while no queue is to be woken, and stays in its phase. -/
theorem inv_runTask (hs : Inv s) (hwake : s.queuesToWake = []) (h : runTask s a = some s') :
    Inv s' ∧ s'.queuesToWake = [] := by
  cases a with
  | register key q =>
    obtain rfl := Option.some.inj h
    exact ⟨inv_registry hs hwake _, hwake⟩
  | remove key =>
    obtain rfl := Option.some.inj h
    exact ⟨inv_registry hs hwake _, hwake⟩
  | nextEvent q =>
    obtain rfl := Option.some.inj h
    exact ⟨inv_nextEvent hs q, hwake⟩
  | pollFuture i waker =>
    simp only [runTask] at h
    split at h
    · rename_i f hf
      split at h
      · rename_i hcan
        obtain rfl := Option.some.inj h
        refine ⟨inv_pollFuture hs hf hcan waker, ?_⟩
        unfold State.pollFuture
        split <;> exact hwake
      · cases h
    · cases h
  | drop i =>
    simp only [runTask] at h
    split at h
    · rename_i f hf
      split at h
      · obtain rfl := Option.some.inj h
        have hdrop : ¬ f.drop.Asleep := fun hasleep => by cases hasleep.1
        exact ⟨inv_set hs hf (g := f.drop) rfl (fun _ => rfl) hdrop, hwake⟩
      · cases h
    · cases h
  | _ => cases h

/-- What no queue depends on. -/
theorem inv_pc (hs : Inv s) (pc : Pc) (messageChannelKey : Key) (stopping : Bool) :
    Inv { s with pc, messageChannelKey, stopping } :=
  ⟨⟨hs.once, hs.done, hs.waiting⟩, hs.owed⟩

theorem inv_dispatch (hs : Inv s) (event : Event) (events : List Event) (signal : SignalRead)
    (order : List (Key × ℕ)) : Inv (dispatch s event events signal order) := by
  have hpush := inv_pc hs (.push events) s.messageChannelKey s.stopping
  have hstop := inv_pc hs (.push events) s.messageChannelKey true
  unfold dispatch
  dsimp only
  split
  · exact hpush
  · split
    · cases signal with
      | failed => exact hpush
      | shutdown => exact inv_pushEvent (inv_broadcastAndWake .shutdown order hstop) event
      | other => exact inv_pushEvent hpush event
    · exact inv_pushEvent hpush event

theorem wakeKey_pc (key : Key) : (s.wakeKey key).pc = s.pc := by
  unfold State.wakeKey
  split <;> rfl

theorem pushEvent_pc (event : Event) : (s.pushEvent event).pc = s.pc := by
  unfold State.pushEvent
  split <;> rfl

theorem dispatch_pc (event : Event) (events : List Event) (signal : SignalRead) (order : List (Key × ℕ)) :
    (dispatch s event events signal order).pc = .push events := by
  unfold dispatch
  dsimp only
  split
  · rfl
  · split
    · cases signal with
      | failed => rfl
      | shutdown => rw [pushEvent_pc, broadcastAndWake_pc]
      | other => rw [pushEvent_pc]
    · rw [pushEvent_pc]

theorem quiet_of_nil (h : s.queuesToWake = []) : Quiet s := fun _ => h

theorem quiet_of_pc (h : s.pc.isQuiet = false) : Quiet s := by
  intro hquiet
  rw [h] at hquiet
  cases hquiet

/-- A broadcast out of a quiet state. -/
theorem inv_broadcast (hs : Inv s) (hwake : s.queuesToWake = []) (eventType : EventType) (order : List (Key × ℕ)) :
    Inv (s.broadcastAndWake eventType order) ∧ Quiet (s.broadcastAndWake eventType order) :=
  ⟨inv_broadcastAndWake eventType order hs,
    quiet_of_nil ((broadcastAndWake_queuesToWake eventType order s).trans hwake)⟩

/-- **The invariant holds throughout.** -/
theorem inv_advance (hs : Inv s) (hq : Quiet s) (h : advance s a = some s') : Inv s' ∧ Quiet s' := by
  -- Where the tasks run the queues have been woken.
  have hwoken : s.pc.runsTasks = true → s.queuesToWake = [] := fun hruns => by
    apply hq
    cases hpc : s.pc <;> rw [hpc] at hruns <;> first | rfl | cases hruns
  cases advance_cases h with
  | poll events hpc => exact ⟨inv_pc hs _ _ _, quiet_of_pc rfl⟩
  | endOfBatch signal order hpc => exact ⟨inv_pc hs _ _ _, quiet_of_pc rfl⟩
  | dispatch event events signal order hpc =>
    refine ⟨inv_dispatch hs event events signal order, quiet_of_pc ?_⟩
    rw [dispatch_pc]
    rfl
  | woken hpc hwake => exact ⟨inv_pc hs _ _ _, quiet_of_nil hwake⟩
  | wake key keys hpc hwake =>
    refine ⟨inv_wakeKey hs hwake, quiet_of_pc ?_⟩
    rw [wakeKey_pc]
    show s.pc.isQuiet = false
    rw [hpc]
    rfl
  | repair messageChannelKey hpc =>
    exact ⟨inv_pc hs _ _ _, quiet_of_nil (hwoken (by rw [hpc]; rfl))⟩
  | shutdown hpc => exact ⟨inv_pc hs _ _ _, quiet_of_nil (hwoken (by rw [hpc]; rfl))⟩
  | leave order hpc hstop =>
    have hwake := hwoken (by rw [hpc]; rfl)
    obtain ⟨hs', -⟩ := inv_broadcast hs hwake .shutdown order
    exact ⟨inv_pc hs' _ _ _, quiet_of_nil ((broadcastAndWake_queuesToWake .shutdown order s).trans hwake)⟩
  | loop order hpc hstop => exact ⟨inv_pc hs _ _ _, quiet_of_nil (hwoken (by rw [hpc]; rfl))⟩
  | killStopping order hpc hstop => exact ⟨inv_stop hs, quiet_of_nil (hwoken (by rw [hpc]; rfl))⟩
  | kill order hpc =>
    have hruns : s.pc.runsTasks = true := by
      rcases hpc with ⟨hpc, -⟩ | hpc
      · rw [hpc]
        rfl
      · rw [hpc]
        rfl
    exact inv_broadcast (inv_stop hs) (hwoken hruns) .kill order
  | clear hpc =>
    have hwake := hwoken (by rw [hpc]; rfl)
    exact ⟨inv_stop (inv_registry hs hwake []), quiet_of_nil hwake⟩
  | task _ _ hruns h =>
    obtain ⟨hs', hwake'⟩ := inv_runTask hs (hwoken hruns) h
    exact ⟨hs', quiet_of_nil hwake'⟩

/-- A step keeps the invariant, and the record in step with the queues. -/
theorem inv_step (hs : Inv s ∧ Quiet s ∧ ∀ q, s.contents q = s.pushed q) (h : step s a = some s') :
    Inv s' ∧ Quiet s' ∧ ∀ q, s'.contents q = s'.pushed q := by
  obtain ⟨s₁, hs₁, rfl⟩ := Option.map_eq_some_iff.mp h
  obtain ⟨hinv, hquiet⟩ := inv_advance hs.1 hs.2.1 hs₁
  refine ⟨⟨⟨hinv.once, hinv.done, hinv.waiting⟩, hinv.owed⟩, hquiet, fun q => ?_⟩
  exact (contents_advance hs₁ q).trans (congrArg (· ++ arrivals s a q) (hs.2.2 q))

theorem inv_init (messageChannelKey ioChannelKey sfdKey : Key) : Inv (.init messageChannelKey ioChannelKey sfdKey) := by
  refine ⟨⟨List.nodup_nil, fun r hr => ?_, fun f hf => ?_⟩, fun _ => owed_of_nil rfl⟩
  · exact absurd hr List.not_mem_nil
  · exact absurd hf List.not_mem_nil

end Dispatch
end ClAsync
