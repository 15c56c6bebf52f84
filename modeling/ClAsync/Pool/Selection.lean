/-
# The search for a worker

`get_next_worker` draws as many ids from the shared round-robin counter as the
pool has workers, and takes the first worker it finds available. The counter
is advanced by every other call as well, so that the ids of one call need not
be all different: a call that draws an id twice has left a worker out.

A call keeps a record of the ids it has drawn, of the worker it looked at last
and of the workers that have been available ever since it began.

Key definitions: `search`, `Truthful`, `Fresh`.
Key theorems: `dispatch_search`, the search is the first part of a dispatch;
`truthful_of_fresh`, every run in which no call comes upon a worker twice;
`taken_fresh_of_inTurn`, so it is when the ids of each call follow one another.
-/
import ClAsync.Lib.Runs
import ClAsync.Pool.Dispatch
import Mathlib.Data.Nat.ModEq

namespace ClAsync
namespace Selection

open Pool (Stage available)
open Runs

/-- One atomic step of `get_next_worker`, in a pool whose workers have the
states `states`: `next_worker_id`, or what it makes of the state it reads. -/
def search (nextId : ℕ) (states : List WorkerState) : Stage → Option (ℕ × Stage)
  | .probing 0 => some (nextId, .failed)
  | .probing (left + 1) => some ((nextId + 1) % u64Count, .probed left (nextId % states.length))
  | .probed left id =>
    match states[id]? with
    | none => some (nextId, .failed)
    | some st => some (nextId, if available st then .chosen id else .probing left)
  | .chosen _ | .drawn _ _ | .sent _ _ | .failed => none

/-- The call is under way. -/
def searching : Stage → Bool
  | .probing _ | .probed _ _ => true
  | .chosen _ | .drawn _ _ | .sent _ _ | .failed => false

/-- A dispatch begins with the search. -/
theorem dispatch_search {τ κ φ : Type} (nextId : ℕ) (workers : List (Pool.Member τ κ φ))
    (submission : Key → IoSubmission τ) {stage : Stage} (h : searching stage = true) :
    Pool.dispatch nextId workers submission stage =
      (search nextId (workers.map (·.loop.status)) stage).map fun r => (r.1, workers, r.2) := by
  cases stage with
  | probing left => cases left <;> simp [Pool.dispatch, search]
  | probed left id =>
    simp only [Pool.dispatch, search, List.getElem?_map]
    cases workers[id]? <;> rfl
  | _ => cases h

/-- The worker whose state the call is to read next. -/
def probedId : Stage → Option ℕ
  | .probed _ id => some id
  | _ => none

/-- The steps that a call has left at most. -/
def remaining : Stage → ℕ
  | .probing left => 2 * left + 1
  | .probed left _ => 2 * left + 2
  | _ => 0

theorem search_progress (nextId : ℕ) (states : List WorkerState) {stage : Stage} (h : searching stage = true) :
    ∃ r, search nextId states stage = some r ∧ remaining r.2 < remaining stage := by
  cases stage with
  | probing left =>
    cases left with
    | zero => exact ⟨_, rfl, Nat.one_pos⟩
    | succ left => exact ⟨_, rfl, by simp only [remaining]; omega⟩
  | probed left id =>
    simp only [search]
    cases states[id]? with
    | none => exact ⟨_, rfl, Nat.succ_pos _⟩
    | some st =>
      refine ⟨_, rfl, ?_⟩
      cases available st <;> simp [remaining]
  | _ => cases h

/-! ### The calls -/

/-- A call of `get_next_worker`. -/
structure Call where
  stage : Stage
  /-- The ids it has drawn. -/
  drawn : List ℕ
  /-- The worker it has looked at last, and the state it was in. -/
  seen : Option (ℕ × WorkerState)
  /-- The workers that have been available since it began. -/
  steady : List ℕ
  deriving DecidableEq

/-- The counter, the states of the workers, and the calls of `get_next_worker`. -/
structure State where
  nextId : ℕ
  states : List WorkerState
  calls : List Call
  deriving DecidableEq

/-- A pool whose workers have the states `states`. -/
def State.init (states : List WorkerState) : State := ⟨0, states, []⟩

/-- The workers that are available. -/
def availables (states : List WorkerState) : List ℕ :=
  (List.range states.length).filter fun v => states[v]?.any available

def Call.new (states : List WorkerState) : Call := ⟨.probing states.length, [], none, availables states⟩

/-- The call after a step to `stage`. -/
def Call.advance (call : Call) (states : List WorkerState) (stage : Stage) : Call where
  stage := stage
  drawn := (probedId stage).toList ++ call.drawn
  seen := ((probedId call.stage).bind fun id => states[id]?.map fun st => (id, st)).or call.seen
  steady := call.steady

/-- The worker `v` is no longer available. -/
def Call.lose (call : Call) (v : ℕ) : Call :=
  if searching call.stage then { call with steady := call.steady.filter (· ≠ v) } else call

/-- A step of a call, or of a worker. -/
inductive Act
  /-- A thread calls `get_next_worker`. -/
  | call
  /-- The next step of the call `f`. -/
  | advance (f : ℕ)
  /-- Another user of the counter, or a call of `next_worker_id`. -/
  | tick
  /-- A worker changes its state. -/
  | set (v : ℕ) (st : WorkerState)
  deriving DecidableEq

/-- One act. -/
def step (s : State) : Act → Option State
  | .call => some { s with calls := s.calls ++ [.new s.states] }
  | .advance f => do
    let call ← s.calls[f]?
    let (nextId, stage) ← search s.nextId s.states call.stage
    some { s with nextId, calls := s.calls.set f (call.advance s.states stage) }
  | .tick => some { s with nextId := (s.nextId + 1) % u64Count }
  | .set v st =>
    some { s with
      states := s.states.set v st, calls := if available st then s.calls else s.calls.map (·.lose v) }

/-- What a caller of `get_next_worker` may rely on. -/
structure Call.Truthful (nextId : ℕ) (states : List WorkerState) (call : Call) : Prop where
  /-- The worker it returns was available when it looked at it. -/
  ok : ∀ id, call.stage = .chosen id → ∃ st, call.seen = some (id, st) ∧ available st = true
  /-- It returns an error only if no worker stayed available. -/
  error : call.stage = .failed → call.steady = []
  /-- It returns. -/
  ends : searching call.stage = true →
    ∃ r, search nextId states call.stage = some r ∧ remaining r.2 < remaining call.stage

/-- Every call under way is `Truthful`. -/
def Truthful (s : State) : Prop := ∀ call ∈ s.calls, call.Truthful s.nextId s.states

/-- The next step of the call is a draw. -/
def draws : Stage → Bool
  | .probing (_ + 1) => true
  | _ => false

/-- A call that draws finds the counter at a worker it has not drawn yet. -/
def Fresh (s : State) : Act → Prop
  | .advance f => ∀ call ∈ s.calls[f]?, draws call.stage = true → s.nextId % s.states.length ∉ call.drawn
  | _ => True

instance (s : State) (a : Act) : Decidable (Fresh s a) := by
  cases a <;> (dsimp only [Fresh]; infer_instance)

/-- A call that draws again finds the counter at the worker after the one it
drew last, as when nobody else has drawn in between. -/
def InTurn (s : State) : Act → Prop
  | .advance f => ∀ call ∈ s.calls[f]?, draws call.stage = true →
      ∀ v ∈ call.drawn.head?, s.nextId % s.states.length = (v + 1) % s.states.length
  | _ => True

/-! ### What a step does -/

/-- What each act leads to. -/
inductive Stepped (s : State) : Act → State → Prop
  | call : Stepped s .call { s with calls := s.calls ++ [.new s.states] }
  | advance (f : ℕ) (call : Call) (nextId : ℕ) (stage : Stage) (hf : s.calls[f]? = some call)
      (hsearch : search s.nextId s.states call.stage = some (nextId, stage)) :
      Stepped s (.advance f) { s with nextId, calls := s.calls.set f (call.advance s.states stage) }
  | tick : Stepped s .tick { s with nextId := (s.nextId + 1) % u64Count }
  | keep (v : ℕ) (st : WorkerState) (hst : available st = true) :
      Stepped s (.set v st) { s with states := s.states.set v st }
  | lose (v : ℕ) (st : WorkerState) (hst : available st = false) :
      Stepped s (.set v st) { s with states := s.states.set v st, calls := s.calls.map (·.lose v) }

theorem step_cases {s s' : State} {a : Act} (h : step s a = some s') : Stepped s a s' := by
  cases a with
  | call => cases h; exact .call
  | advance f =>
    obtain ⟨call, hf, h⟩ := Option.bind_eq_some_iff.mp h
    obtain ⟨⟨nextId, stage⟩, hsearch, h⟩ := Option.bind_eq_some_iff.mp h
    cases h
    exact .advance f call nextId stage hf hsearch
  | tick => cases h; exact .tick
  | set v st =>
    cases h
    cases hst : available st with
    | true => exact .keep v st hst
    | false => exact .lose v st hst

/-- What one step of a search does. -/
inductive Searched (nextId : ℕ) (states : List WorkerState) : Stage → ℕ → Stage → Prop
  | fail : Searched nextId states (.probing 0) nextId .failed
  | draw (left : ℕ) : Searched nextId states (.probing (left + 1)) ((nextId + 1) % u64Count)
      (.probed left (nextId % states.length))
  | missing (left id : ℕ) (hid : states[id]? = none) : Searched nextId states (.probed left id) nextId .failed
  | choose (left id : ℕ) (st : WorkerState) (hid : states[id]? = some st) (hst : available st = true) :
      Searched nextId states (.probed left id) nextId (.chosen id)
  | pass (left id : ℕ) (st : WorkerState) (hid : states[id]? = some st) (hst : available st = false) :
      Searched nextId states (.probed left id) nextId (.probing left)

theorem search_cases {nextId nextId' : ℕ} {states : List WorkerState} {stage stage' : Stage}
    (h : search nextId states stage = some (nextId', stage')) : Searched nextId states stage nextId' stage' := by
  cases stage with
  | probing left =>
    cases left with
    | zero => cases h; exact .fail
    | succ left => cases h; exact .draw left
  | probed left id =>
    cases hid : states[id]? with
    | none =>
      simp only [search, hid] at h
      cases h
      exact .missing left id hid
    | some st =>
      simp only [search, hid] at h
      cases h
      cases hst : available st with
      | true => exact .choose left id st hid hst
      | false => exact .pass left id st hid hst
  | _ => cases h

/-- What holds of every call holds after a step, if it does of a new call, of
the call that advances, and of the others whatever becomes of a worker. -/
theorem forall_calls_step {P : List WorkerState → Call → Prop} {s s' : State} {a : Act} (h : step s a = some s')
    (hs : ∀ call ∈ s.calls, P s.states call) (hnew : P s.states (.new s.states))
    (hadvance : ∀ f call nextId stage, a = .advance f → s.calls[f]? = some call →
      Searched s.nextId s.states call.stage nextId stage → P s.states (call.advance s.states stage))
    (hkeep : ∀ v st call, available st = true → P s.states call → P (s.states.set v st) call)
    (hlose : ∀ v st call, P s.states call → P (s.states.set v st) (call.lose v)) :
    ∀ call ∈ s'.calls, P s'.states call := by
  cases step_cases h with
  | call =>
    intro call hcall
    rcases List.mem_append.mp hcall with hcall | hcall
    · exact hs call hcall
    · rw [List.mem_singleton.mp hcall]
      exact hnew
  | advance f call nextId stage hf hsearch =>
    intro call' hcall'
    rcases List.mem_or_eq_of_mem_set hcall' with hcall' | rfl
    · exact hs call' hcall'
    · exact hadvance f call nextId stage rfl hf (search_cases hsearch)
  | tick => exact hs
  | keep v st hst => exact fun call hcall => hkeep v st call hst (hs call hcall)
  | lose v st _ =>
    intro call' hcall'
    obtain ⟨call, hcall, rfl⟩ := List.mem_map.mp hcall'
    exact hlose v st call (hs call hcall)

/-! ### What a call has seen -/

/-- The draws that a call has left. -/
def drawsLeft : Stage → Option ℕ
  | .probing left | .probed left _ => some left
  | _ => none

/-- A call under way has found every worker it has drawn unavailable, but for
the one it is to look at. -/
structure Call.Scanned (states : List WorkerState) (call : Call) : Prop where
  id_lt : ∀ id, probedId call.stage = some id → id < states.length
  left_le : ∀ left, drawsLeft call.stage = some left → left ≤ states.length
  steady : searching call.stage = true → ∀ v ∈ call.steady, states[v]?.any available = true
  drawn : searching call.stage = true → ∀ v ∈ call.drawn, v ∈ call.steady → probedId call.stage = some v

theorem Call.scanned_new (states : List WorkerState) : (Call.new states).Scanned states where
  id_lt := nofun
  left_le left h := by
    obtain rfl := Option.some.inj h
    exact Nat.le_refl _
  steady _ v hv := (List.mem_filter.mp hv).2
  drawn := nofun

theorem Call.Scanned.advance {states : List WorkerState} {call : Call} {nextId nextId' : ℕ} {stage : Stage}
    (hc : call.Scanned states) (h : Searched nextId states call.stage nextId' stage) :
    (call.advance states stage).Scanned states := by
  obtain ⟨stage₀, drawn, seen, steady⟩ := call
  cases h with
  | fail => exact ⟨nofun, nofun, nofun, nofun⟩
  | missing => exact ⟨nofun, nofun, nofun, nofun⟩
  | choose => exact ⟨nofun, nofun, nofun, nofun⟩
  | draw left =>
    have hpos : left + 1 ≤ states.length := hc.left_le _ rfl
    refine ⟨fun id hid => ?_, fun left' hleft => ?_, fun _ => hc.steady rfl, fun _ v hv hsteady => ?_⟩
    · obtain rfl := Option.some.inj hid
      exact Nat.mod_lt _ (by omega)
    · obtain rfl := Option.some.inj hleft
      omega
    · rcases List.mem_cons.mp hv with rfl | hv
      · rfl
      · cases hc.drawn rfl v hv hsteady
  | pass left id st hid hst =>
    refine ⟨nofun, hc.left_le, fun _ => hc.steady rfl, fun _ v hv hsteady => ?_⟩
    obtain rfl := Option.some.inj (hc.drawn rfl v hv hsteady)
    have havailable := hc.steady rfl _ hsteady
    rw [hid, Option.any_some, hst] at havailable
    cases havailable

theorem any_available_set {states : List WorkerState} {v w : ℕ} {st : WorkerState}
    (hw : states[w]?.any available = true) (h : w = v → available st = true) :
    (states.set v st)[w]?.any available = true := by
  by_cases hv : v = w
  · subst hv
    cases hs : states[v]? with
    | none => rw [hs] at hw; cases hw
    | some st' =>
      rw [List.getElem?_set_self (List.getElem?_eq_some_iff.mp hs).1, Option.any_some]
      exact h rfl
  · rwa [List.getElem?_set_ne hv]

theorem Call.Scanned.keep {states : List WorkerState} {call : Call} (hc : call.Scanned states) (v : ℕ)
    {st : WorkerState} (hst : available st = true) : call.Scanned (states.set v st) where
  id_lt := by rw [List.length_set]; exact hc.id_lt
  left_le := by rw [List.length_set]; exact hc.left_le
  steady h w hw := any_available_set (hc.steady h w hw) fun _ => hst
  drawn := hc.drawn

theorem Call.Scanned.lose {states : List WorkerState} {call : Call} (hc : call.Scanned states) (v : ℕ)
    (st : WorkerState) : (call.lose v).Scanned (states.set v st) := by
  unfold Call.lose
  split
  · refine ⟨?_, ?_, fun h w hw => ?_, fun h w hw hsteady => ?_⟩
    · rw [List.length_set]
      exact hc.id_lt
    · rw [List.length_set]
      exact hc.left_le
    · obtain ⟨hw, hne⟩ := List.mem_filter.mp hw
      exact any_available_set (hc.steady h w hw) fun hv => absurd hv (of_decide_eq_true hne)
    · exact hc.drawn h w hw (List.mem_filter.mp hsteady).1
  · rename_i hover
    exact ⟨by rw [List.length_set]; exact hc.id_lt, by rw [List.length_set]; exact hc.left_le,
      fun h => absurd h hover, fun h => absurd h hover⟩

/-- Every call is `Scanned`. -/
def Scanned (s : State) : Prop := ∀ call ∈ s.calls, call.Scanned s.states

theorem scanned_step {s s' : State} {a : Act} (hs : Scanned s) (h : step s a = some s') : Scanned s' := by
  apply forall_calls_step h hs (Call.scanned_new s.states)
  · exact fun f call nextId stage _ hf hsearch => (hs call (List.mem_of_getElem? hf)).advance hsearch
  · exact fun v st call hst hc => hc.keep v hst
  · exact fun v st call hc => hc.lose v st

/-! ### Calls that draw no id twice -/

/-- A call has drawn different ids, as many as it has probes behind it. -/
structure Call.Apart (n : ℕ) (call : Call) : Prop where
  nodup : call.drawn.Nodup
  lt : ∀ v ∈ call.drawn, v < n
  length : ∀ left, drawsLeft call.stage = some left → call.drawn.length + left = n
  steady_lt : ∀ v ∈ call.steady, v < n

/-- No call has drawn a worker twice. -/
def Apart (s : State) : Prop := ∀ call ∈ s.calls, call.Apart s.states.length

theorem Call.apart_new (states : List WorkerState) : (Call.new states).Apart states.length where
  nodup := List.nodup_nil
  lt := nofun
  length left h := by
    obtain rfl := Option.some.inj h
    exact Nat.zero_add _
  steady_lt v hv := List.mem_range.mp (List.mem_filter.mp hv).1

theorem Call.Apart.advance {nextId nextId' : ℕ} {states : List WorkerState} {call : Call} {stage : Stage}
    (hc : call.Apart states.length) (h : Searched nextId states call.stage nextId' stage)
    (hfresh : draws call.stage = true → nextId % states.length ∉ call.drawn) :
    (call.advance states stage).Apart states.length := by
  obtain ⟨stage₀, drawn, seen, steady⟩ := call
  cases h with
  | draw left =>
    have hlength : drawn.length + (left + 1) = states.length := hc.length _ rfl
    refine ⟨List.nodup_cons.mpr ⟨hfresh rfl, hc.nodup⟩, fun v hv => ?_, fun left' hleft => ?_, hc.steady_lt⟩
    · rcases List.mem_cons.mp hv with rfl | hv
      · exact Nat.mod_lt _ (by omega)
      · exact hc.lt v hv
    · obtain rfl := Option.some.inj hleft
      change drawn.length + 1 + left = _
      omega
  | pass left id st hid hst => exact ⟨hc.nodup, hc.lt, hc.length, hc.steady_lt⟩
  | fail => exact ⟨hc.nodup, hc.lt, nofun, hc.steady_lt⟩
  | missing => exact ⟨hc.nodup, hc.lt, nofun, hc.steady_lt⟩
  | choose => exact ⟨hc.nodup, hc.lt, nofun, hc.steady_lt⟩

theorem Call.Apart.lose {n : ℕ} {call : Call} (hc : call.Apart n) (v : ℕ) : (call.lose v).Apart n := by
  unfold Call.lose
  split
  · exact ⟨hc.nodup, hc.lt, hc.length, fun w hw => hc.steady_lt w (List.mem_filter.mp hw).1⟩
  · exact hc

/-- Different ids, as many as there are workers, are all of them. -/
theorem Call.Apart.covers {n : ℕ} {call : Call} (hc : call.Apart n) (h : call.stage = .probing 0) :
    ∀ v ∈ call.steady, v ∈ call.drawn := by
  have hlength : call.drawn.length = n := hc.length 0 (by rw [h]; rfl)
  have hall : call.drawn.toFinset = Finset.range n := by
    refine Finset.eq_of_subset_of_card_le (fun v hv => ?_) ?_
    · exact Finset.mem_range.mpr (hc.lt v (List.mem_toFinset.mp hv))
    · rw [List.toFinset_card_of_nodup hc.nodup, hlength, Finset.card_range]
  intro v hv
  rw [← List.mem_toFinset, hall, Finset.mem_range]
  exact hc.steady_lt v hv

theorem apart_step {s s' : State} {a : Act} (hs : Apart s) (hfresh : Fresh s a) (h : step s a = some s') :
    Apart s' := by
  apply @forall_calls_step fun states call => call.Apart states.length
  · exact h
  · exact hs
  · exact Call.apart_new s.states
  · rintro f call nextId stage rfl hf hsearch
    exact (hs call (List.mem_of_getElem? hf)).advance hsearch (hfresh call hf)
  · intro v st call _ hcall
    rwa [List.length_set]
  · intro v st call hcall
    rw [List.length_set]
    exact hcall.lose v

/-! ### Every run -/

theorem Call.Truthful.over {nextId nextId' : ℕ} {states states' : List WorkerState} {call : Call}
    (h : call.Truthful nextId states) : call.Truthful nextId' states' where
  ok := h.ok
  error := h.error
  ends := search_progress nextId' states'

theorem Call.truthful_searching {nextId : ℕ} {states : List WorkerState} {call : Call}
    (h : searching call.stage = true) : call.Truthful nextId states where
  ok id hid := by rw [hid] at h; cases h
  error hfail := by rw [hfail] at h; cases h
  ends := search_progress nextId states

theorem Call.truthful_lose {nextId nextId' : ℕ} {states states' : List WorkerState} {call : Call} (v : ℕ)
    (h : call.Truthful nextId states) : (call.lose v).Truthful nextId' states' := by
  unfold Call.lose
  split
  · rename_i hsearching
    exact Call.truthful_searching hsearching
  · exact h.over

/-- A call that fails has seen every worker that stayed available, which is
none. -/
theorem Call.truthful_advance {nextId nextId' nextId'' : ℕ} {states : List WorkerState} {call : Call} {stage : Stage}
    (hc : call.Scanned states) (ha : call.Apart states.length)
    (h : Searched nextId states call.stage nextId' stage) :
    (call.advance states stage).Truthful nextId'' states := by
  obtain ⟨stage₀, drawn, seen, steady⟩ := call
  cases h with
  | fail =>
    refine ⟨nofun, fun _ => List.eq_nil_iff_forall_not_mem.mpr fun v hv => ?_, nofun⟩
    cases hc.drawn rfl v (ha.covers rfl v hv) hv
  | draw left => exact Call.truthful_searching rfl
  | missing left id hid => exact absurd (hc.id_lt id rfl) (Nat.not_lt.mpr (List.getElem?_eq_none_iff.mp hid))
  | choose left id st hid hst =>
    refine ⟨fun id' hid' => ?_, nofun, nofun⟩
    obtain rfl := Stage.chosen.inj hid'
    refine ⟨st, ?_, hst⟩
    simp only [Call.advance, probedId, Option.bind_some, hid, Option.map_some, Option.some_or]
  | pass => exact Call.truthful_searching rfl

theorem truthful_step {s s' : State} {a : Act} (hs : Scanned s) (ha : Apart s) (ht : Truthful s)
    (h : step s a = some s') : Truthful s' := by
  have hcalls : ∀ call ∈ s'.calls, ∀ nextId, call.Truthful nextId s'.states := by
    apply @forall_calls_step fun states call => ∀ nextId, call.Truthful nextId states
    · exact h
    · exact fun call hcall _ => (ht call hcall).over
    · exact fun _ => Call.truthful_searching rfl
    · rintro f call nextId stage rfl hf hsearch _
      have hmem := List.mem_of_getElem? hf
      exact Call.truthful_advance (hs call hmem) (ha call hmem) hsearch
    · exact fun v st call _ hcall _ => (hcall 0).over
    · exact fun v st call hcall _ => Call.truthful_lose v (hcall 0)
  exact fun call hcall => hcalls call hcall s'.nextId

/-- **In every run of any pool in which no call comes upon a worker twice,
every call of `get_next_worker` returns, with a worker that was available when
it looked at it, or with an error when no worker stayed available.** -/
theorem truthful_of_fresh {states : List WorkerState} {as : List Act}
    (h : Taken step Fresh (State.init states) as) : Along step Truthful (State.init states) as := by
  refine along_of_invariant (I := fun s => Scanned s ∧ Apart s ∧ Truthful s) ?_ (fun _ hs => hs.2.2)
    ⟨nofun, nofun, nofun⟩ h
  intro s a s' ⟨hscanned, hapart, htruthful⟩ hfresh hstep
  exact ⟨scanned_step hscanned hstep, apart_step hapart hfresh hstep, truthful_step hscanned hapart htruthful hstep⟩

/-- Three workers and two calls that draw in turn. The second call takes the
id of the idle worker from the first, which then draws that of the worker
that has just become idle. -/
theorem truthful_twoCalls : Along step Truthful (State.init [.stopped, .idle, .none])
    [.call, .call, .advance 0, .advance 1, .advance 0, .advance 1, .set 2 .idle, .advance 0, .advance 0] :=
  truthful_of_fresh (by decide)

/-- Two workers, the first of which has stopped. While a call looks at it
somebody else draws the id of the second, and the call looks at the first
again. -/
def overtaken : List Act := [.call, .advance 0, .advance 0, .tick, .advance 0, .advance 0, .advance 0]

theorem truthful_fails : ¬ Along step Truthful (State.init [.stopped, .idle]) overtaken := by
  rw [← List.append_nil overtaken]
  intro h
  have hrun : run step (State.init [.stopped, .idle]) overtaken =
      some ⟨3, [.stopped, .idle], [⟨.failed, [0, 0], some (0, .stopped), [1]⟩]⟩ := by decide
  have hlast : Truthful ⟨3, [.stopped, .idle], [⟨.failed, [0, 0], some (0, .stopped), [1]⟩]⟩ :=
    Along.of_run hrun h
  cases (hlast _ List.mem_cons_self).error rfl

/-! ### Ids that follow one another -/

/-- The ids a call has drawn, the last one first, are each the one after the
next. -/
def Consecutive (n : ℕ) : List ℕ → Prop
  | [] => True
  | [_] => True
  | v :: w :: drawn => v = (w + 1) % n ∧ Consecutive n (w :: drawn)

/-- The `k`-th id before the last one is `k` less than it, modulo `n`. -/
theorem Consecutive.modEq {n : ℕ} : ∀ {drawn : List ℕ} {v k x : ℕ}, Consecutive n (v :: drawn) →
    (v :: drawn)[k]? = some x → x + k ≡ v [MOD n]
  | _, v, 0, x, _, hx => by
    obtain rfl := Option.some.inj hx
    exact Nat.ModEq.refl _
  | w :: drawn, v, k + 1, x, h, hx => by
    have ih : x + k ≡ w [MOD n] := Consecutive.modEq h.2 hx
    have hv : w + 1 ≡ v [MOD n] := by
      rw [h.1]
      exact (Nat.mod_modEq _ _).symm
    exact (ih.add_right 1).trans hv

/-- Fewer than `n` ids that follow one another do not come back to one of
them. -/
theorem Consecutive.next_notMem {n v : ℕ} {drawn : List ℕ} (h : Consecutive n (v :: drawn))
    (hlen : drawn.length + 1 < n) : (v + 1) % n ∉ v :: drawn := by
  intro hmem
  obtain ⟨k, hk⟩ := List.mem_iff_getElem?.mp hmem
  have hklt : k < drawn.length + 1 := (List.getElem?_eq_some_iff.mp hk).1
  have hback : v + (1 + k) ≡ v + 0 [MOD n] := by
    rw [← Nat.add_assoc]
    exact ((Nat.mod_modEq (v + 1) n).symm.add_right k).trans (h.modEq hk)
  have hdvd : n ∣ 1 + k := Nat.modEq_zero_iff_dvd.mp (Nat.ModEq.add_left_cancel' v hback)
  have := Nat.le_of_dvd (by omega) hdvd
  omega

/-- The draws of every call follow each other. -/
def Sequential (s : State) : Prop := ∀ call ∈ s.calls, Consecutive s.states.length call.drawn

theorem sequential_step {s s' : State} {a : Act} (hs : Sequential s) (hturn : InTurn s a) (h : step s a = some s') :
    Sequential s' := by
  apply @forall_calls_step fun states call => Consecutive states.length call.drawn
  · exact h
  · exact hs
  · trivial
  · rintro f ⟨stage₀, drawn, seen, steady⟩ nextId stage rfl hf hsearch
    have hc := hs _ (List.mem_of_getElem? hf)
    cases hsearch with
    | draw left =>
      cases drawn with
      | nil => trivial
      | cons v drawn => exact ⟨hturn _ hf rfl v rfl, hc⟩
    | _ => exact hc
  · intro v st call _ hcall
    rwa [List.length_set]
  · intro v st call hcall
    rw [List.length_set]
    unfold Call.lose
    split <;> exact hcall

/-- A call that draws has drawn fewer ids than there are workers, so that the
next one after them is none of them. -/
theorem fresh_of_sequential {s : State} {a : Act} (hs : Sequential s) (ha : Apart s) (hturn : InTurn s a) :
    Fresh s a := by
  cases a with
  | advance f =>
    rintro ⟨stage, drawn, seen, steady⟩ hf hdraws
    have hmem := List.mem_of_getElem? hf
    cases drawn with
    | nil => exact List.not_mem_nil
    | cons v drawn =>
      rw [hturn _ hf hdraws v rfl]
      refine (hs _ hmem).next_notMem ?_
      match stage, hdraws with
      | .probing (left + 1), _ =>
        have hlength : drawn.length + 1 + (left + 1) = s.states.length := (ha _ hmem).length _ rfl
        omega
  | _ => trivial

/-- No call comes upon a worker twice when the ids of each call follow one
another, as they do when the calls do not interleave. -/
theorem taken_fresh_of_inTurn {states : List WorkerState} {as : List Act}
    (h : Taken step InTurn (State.init states) as) : Taken step Fresh (State.init states) as := by
  refine taken_of_taken (I := fun s => Sequential s ∧ Apart s) ?_ ⟨nofun, nofun⟩ h
  intro s a s' ⟨hs, ha⟩ hturn hstep
  have hfresh := fresh_of_sequential hs ha hturn
  exact ⟨⟨sequential_step hs hturn hstep, apart_step ha hfresh hstep⟩, hfresh⟩

end Selection
end ClAsync
