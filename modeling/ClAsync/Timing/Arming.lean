/-
# A sleep arms its timer

`submit` sets the timer to the duration of the sleep, and the handler that it
registers waits for the timer. Here a sleep runs beside the clock and its
timer: the timer is set by the `timerfd_settime` of the sleep, and its expiry
is the event of the handler, which has no other but the broadcasts of the
worker.

Durations are `u64` seconds and the kernel's are signed: those that do not
fit are negative, and the kernel refuses them. A duration of zero is a value
that the kernel accepts, and that disarms the timer.

Key definitions: `timerSpec`, `timerfdSettime`, `Timed.step`, `ArmsTimer`.
Key theorems: `armsTimer_iff`, and `Timed.waits_of_zero`, a sleep whose timer
is disarmed.
-/
import ClAsync.Io.ControlMessage
import ClAsync.Lib.Time
import ClAsync.Timing.Sleep

namespace ClAsync

namespace Sleep

open Runs
open Message (Timespec)
open Time (Duration)

/-! ### The timer -/

/-- A `libc::itimerspec`. -/
structure Itimerspec where
  itInterval : Timespec
  itValue : Timespec
  deriving DecidableEq, Repr

/-- The `timer_spec` of `submit`. The casts wrap around. -/
def timerSpec (duration : Duration) : Itimerspec :=
  { itInterval := { tvSec := 0, tvNsec := 0 }
    itValue := { tvSec := .ofNat duration.secs, tvNsec := .ofNat duration.nanos } }

/-- What the kernel accepts. -/
def IsValid (t : Timespec) : Prop := 0 ≤ t.tvSec.toInt ∧ 0 ≤ t.tvNsec.toInt ∧ t.tvNsec.toInt < 10 ^ 9

instance (t : Timespec) : Decidable (IsValid t) := inferInstanceAs (Decidable (_ ∧ _ ∧ _))

/-- The value in nanoseconds, which is not negative where it is valid. -/
def nanosOf (t : Timespec) : ℕ := (t.tvSec.toInt * 10 ^ 9 + t.tvNsec.toInt).toNat

/-- A timer of the kernel. -/
inductive Timer
  | disarmed
  /-- It expires at an instant of the clock, and then at each interval if there is one. -/
  | armed (expiry interval : ℕ)
  deriving DecidableEq, Repr

/-- The timer has expired by `now`. -/
def Timer.due (now : ℕ) : Timer → Bool
  | disarmed => false
  | armed expiry _ => expiry ≤ now

/-- `timerfd_settime` without flags; `none` is `EINVAL`. -/
def timerfdSettime (now : ℕ) (spec : Itimerspec) : Option Timer :=
  if IsValid spec.itInterval ∧ IsValid spec.itValue then
    some (if nanosOf spec.itValue = 0 then .disarmed
      else .armed (now + nanosOf spec.itValue) (nanosOf spec.itInterval))
  else none

/-- The kernel takes the value for a timer that is armed, expires once, and
not before the duration has elapsed. -/
structure Itimerspec.Arms (spec : Itimerspec) (d : Duration) : Prop where
  valid : IsValid spec.itInterval ∧ IsValid spec.itValue
  oneShot : nanosOf spec.itInterval = 0
  armed : nanosOf spec.itValue ≠ 0
  notEarly : d.asNanos ≤ nanosOf spec.itValue

/-! ### The sleep beside its timer -/

namespace Timed

/-- A sleep, the clock and the timer of the sleep. -/
structure State where
  sleep : Sleep.State
  /-- The monotonic clock. -/
  now : ℕ
  timer : Timer
  /-- When the timer was set. -/
  setAt : Option ℕ
  deriving DecidableEq, Repr

/-- Before the sleep is polled. -/
def State.init : State := ⟨.init, 0, .disarmed, none⟩

/-- The sleep goes on, or time does. -/
inductive Act
  /-- An `event` is a broadcast of the worker. -/
  | sleep (a : Sleep.Act)
  | elapse (nanos : ℕ)
  /-- The handler receives the event of its timer. -/
  | expire
  deriving DecidableEq, Repr

/-- Time passes. -/
def State.elapse (s : State) (nanos : ℕ) : State := { s with now := s.now + nanos }

/-- One act. The sleep sets its timer to its own duration. -/
def step (d : Duration) (s : State) : Act → Option State
  | .sleep (.settime true) =>
    (timerfdSettime s.now (timerSpec d)).bind fun timer =>
    (Sleep.step s.sleep (.settime true)).map fun sleep => { s with sleep, timer, setAt := some s.now }
  | .sleep a => (Sleep.step s.sleep a).map fun sleep => { s with sleep }
  | .elapse nanos => some (s.elapse nanos)
  | .expire =>
    if s.timer.due s.now then (Sleep.step s.sleep .event).map fun sleep => { s with sleep } else none

/-- Where the handler waits, the timer fires as soon as the duration has
elapsed since it was set, and not before. Where the kernel refuses the
duration, `submit` returns an error. -/
structure Fires (d : Duration) (s : State) : Prop where
  fires : s.sleep.handler = .waiting → ∃ t ≤ s.now, s.setAt = some t ∧
    ∀ nanos, (step d (s.elapse nanos) .expire).isSome = true ↔ t + d.asNanos ≤ s.now + nanos
  refused : timerfdSettime s.now (timerSpec d) = none → ∀ ok s', step d s (.sleep (.settime ok)) = some s' →
    s'.sleep.submitError = some .timerSetError

end Timed

/-- The value that is passed to `timerfd_settime` arms the timer, or is
refused for a duration that is too long; and the timer does fire, wherever a
sleep has come to. -/
def ArmsTimer (d : Duration) : Prop :=
  ((timerSpec d).Arms d ∨ 2 ^ 63 ≤ d.secs ∧ ∀ now, timerfdSettime now (timerSpec d) = none) ∧
    ∀ as, Along (Timed.step d) (Timed.Fires d) .init as

/-! ### The value -/

theorem nanos_itInterval (d : Duration) : nanosOf (timerSpec d).itInterval = 0 := by
  show nanosOf ⟨0, 0⟩ = 0
  decide

theorem valid_itInterval (d : Duration) : IsValid (timerSpec d).itInterval := by
  show IsValid ⟨0, 0⟩
  decide

theorem toInt_nanos (d : Duration) : (Int64.ofNat d.nanos).toInt = d.nanos := by
  have hnanos := d.nanos_lt
  exact Int64.toInt_ofNat_of_lt (by omega)

section Fits

variable {d : Duration}

theorem valid_itValue (h : d.secs < 2 ^ 63) : IsValid (timerSpec d).itValue := by
  have hsecs : (timerSpec d).itValue.tvSec.toInt = d.secs := Int64.toInt_ofNat_of_lt h
  have hnanos : (timerSpec d).itValue.tvNsec.toInt = d.nanos := toInt_nanos d
  have hlt := d.nanos_lt
  unfold IsValid
  omega

theorem nanos_itValue (h : d.secs < 2 ^ 63) : nanosOf (timerSpec d).itValue = d.asNanos := by
  have hsecs : (timerSpec d).itValue.tvSec.toInt = d.secs := Int64.toInt_ofNat_of_lt h
  have hnanos : (timerSpec d).itValue.tvNsec.toInt = d.nanos := toInt_nanos d
  unfold nanosOf Duration.asNanos
  rw [hsecs, hnanos]
  omega

theorem settime_of_lt (h : d.secs < 2 ^ 63) (now : ℕ) : timerfdSettime now (timerSpec d) =
    some (if d.asNanos = 0 then .disarmed else .armed (now + d.asNanos) 0) := by
  unfold timerfdSettime
  rw [if_pos ⟨valid_itInterval d, valid_itValue h⟩, nanos_itValue h, nanos_itInterval]

/-- The seconds are negative. -/
theorem settime_of_le (h : 2 ^ 63 ≤ d.secs) (now : ℕ) : timerfdSettime now (timerSpec d) = none := by
  have hlt := d.secs_lt
  have hsecs : (timerSpec d).itValue.tvSec.toInt = d.secs - 2 ^ 64 := by
    show (Int64.ofNat d.secs).toInt = _
    have hsize : Int64.size = 2 ^ 64 := by decide
    rw [Int64.toInt_ofNat', hsize, Int.bmod_def]
    omega
  unfold timerfdSettime
  rw [if_neg]
  rintro ⟨-, hnonneg, -⟩
  omega

end Fits

/-! ### Every run -/

namespace Timed

/-- The timer has been set. -/
def IsSet (s : Sleep.State) : Prop := (∃ waker, s.pc = .register waker) ∨ s.handler ≠ .unregistered

theorem isSet_of_handler {s : Sleep.State} {pc : HandlerPc} (h : s.handler = pc) (hpc : pc ≠ .unregistered) : IsSet s :=
  .inr (h ▸ hpc)

/-- Only `timerfd_settime` leads to where the timer has been set. -/
theorem isSet_of_step {s s' : Sleep.State} {a : Sleep.Act} (h : Sleep.step s a = some s')
    (ha : a ≠ .settime true) (hset : IsSet s') : IsSet s := by
  have hframe (hpc : ∀ waker, s'.pc ≠ .register waker) (hhandler : s'.handler = s.handler) : IsSet s :=
    hset.elim (fun ⟨waker, hreg⟩ => absurd hreg (hpc waker)) fun hne => .inr (hhandler ▸ hne)
  cases a with
  | poll waker =>
    obtain ⟨hpc, -, rfl⟩ := step_cases h
    apply hframe
    · intro w
      unfold State.poll
      cases s.state <;> simp [State.returns, hpc]
    · unfold State.poll
      cases s.state <;> rfl
  | create ok =>
    obtain ⟨waker, -, rfl⟩ := step_cases h
    cases ok <;> exact hframe (fun w h => by cases h) rfl
  | settime ok =>
    obtain ⟨waker, -, rfl⟩ := step_cases h
    cases ok with
    | true => exact absurd rfl ha
    | false => exact hframe (fun w h => by cases h) rfl
  | register ok =>
    obtain ⟨waker, hpc, -⟩ := step_cases h
    exact .inl ⟨waker, hpc⟩
  | store =>
    obtain ⟨waker, -, rfl⟩ := step_cases h
    exact hframe (fun w h => by cases h) rfl
  | interest | event | read | close | wake =>
    obtain ⟨hhandler, -⟩ := step_cases h
    exact isSet_of_handler hhandler fun h => by cases h
  | set =>
    obtain ⟨hhandler, -⟩ | ⟨newState, hhandler, -⟩ := step_cases h
    · exact isSet_of_handler hhandler fun h => by cases h
    · exact isSet_of_handler hhandler fun h => by cases h

/-- The timer is as `timerfd_settime` left it. -/
def Inv (d : Duration) (s : State) : Prop :=
  IsSet s.sleep → ∃ t ≤ s.now, s.setAt = some t ∧ timerfdSettime t (timerSpec d) = some s.timer

theorem inv_init (d : Duration) : Inv d .init := by
  rintro (⟨waker, hpc⟩ | hne)
  · cases hpc
  · exact absurd rfl hne

/-- What each step finds, and what it does. -/
theorem step_cases {d : Duration} {s s' : State} {a : Act} (h : step d s a = some s') :
    match a with
    | .sleep a => ∃ sleep, Sleep.step s.sleep a = some sleep ∧
        if a = .settime true then
          ∃ timer, timerfdSettime s.now (timerSpec d) = some timer ∧ s' = ⟨sleep, s.now, timer, some s.now⟩
        else s' = { s with sleep }
    | .elapse nanos => s' = s.elapse nanos
    | .expire => s.timer.due s.now = true ∧ ∃ sleep, Sleep.step s.sleep .event = some sleep ∧
        s' = { s with sleep } := by
  cases a with
  | sleep a =>
    by_cases ha : a = .settime true
    · subst ha
      simp only [step, Option.bind_eq_some_iff, Option.map_eq_some_iff] at h
      obtain ⟨timer, htimer, sleep, hsleep, rfl⟩ := h
      exact ⟨sleep, hsleep, by rw [if_pos rfl]; exact ⟨timer, htimer, rfl⟩⟩
    · have hstep : step d s (.sleep a) = (Sleep.step s.sleep a).map fun sleep => { s with sleep } := by
        cases a with
        | settime ok =>
          cases ok with
          | true => exact absurd rfl ha
          | false => rfl
        | _ => rfl
      rw [hstep] at h
      obtain ⟨sleep, hsleep, rfl⟩ := Option.map_eq_some_iff.mp h
      exact ⟨sleep, hsleep, by rw [if_neg ha]⟩
  | elapse nanos => exact (Option.some.inj h).symm
  | expire =>
    simp only [step] at h
    split at h
    · rename_i hdue
      obtain ⟨sleep, hsleep, rfl⟩ := Option.map_eq_some_iff.mp h
      exact ⟨hdue, sleep, hsleep, rfl⟩
    · cases h

theorem inv_step {d : Duration} {s s' : State} {a : Act} (hs : Inv d s) (h : step d s a = some s') : Inv d s' := by
  intro hset
  cases a with
  | sleep a =>
    obtain ⟨sleep, hsleep, h⟩ := step_cases h
    by_cases ha : a = .settime true
    · rw [if_pos ha] at h
      obtain ⟨timer, htimer, rfl⟩ := h
      exact ⟨s.now, le_refl _, rfl, htimer⟩
    · rw [if_neg ha] at h
      subst h
      exact hs (isSet_of_step hsleep ha hset)
  | elapse nanos =>
    cases step_cases h
    obtain ⟨t, ht, hat, htimer⟩ := hs hset
    exact ⟨t, Nat.le_add_right_of_le ht, hat, htimer⟩
  | expire =>
    obtain ⟨-, sleep, hsleep, rfl⟩ := step_cases h
    exact hs (isSet_of_step hsleep (fun h => by cases h) hset)

/-- A handler that waits can receive its event whenever the timer is due. -/
theorem isSome_expire {d : Duration} {s : State} (h : s.sleep.handler = .waiting) :
    (step d s .expire).isSome = s.timer.due s.now := by
  have hevent : (Sleep.step s.sleep .event).isSome = true := by
    simp only [Sleep.step, h, Option.isSome_some]
  unfold step
  cases hdue : s.timer.due s.now <;> simp [hevent]

theorem fires_of_inv {d : Duration} (hd : d.asNanos ≠ 0) {s : State} (hs : Inv d s) : Fires d s := by
  constructor
  · intro hwaits
    obtain ⟨t, ht, hat, htimer⟩ := hs (isSet_of_handler hwaits fun h => by cases h)
    refine ⟨t, ht, hat, fun nanos => ?_⟩
    have hlt : d.secs < 2 ^ 63 := by
      by_contra hle
      rw [settime_of_le (Nat.not_lt.mp hle)] at htimer
      cases htimer
    rw [settime_of_lt hlt, if_neg hd, Option.some.injEq] at htimer
    rw [isSome_expire (s := s.elapse nanos) hwaits]
    show s.timer.due (s.now + nanos) = true ↔ _
    simp [← htimer, Timer.due]
  · intro hnone ok s' h
    obtain ⟨sleep, hsleep, h⟩ := step_cases h
    cases ok with
    | true =>
      rw [if_pos rfl, hnone] at h
      obtain ⟨timer, htimer, -⟩ := h
      cases htimer
    | false =>
      rw [if_neg (fun h => by cases h)] at h
      obtain ⟨waker, -, rfl⟩ := Sleep.step_cases hsleep
      subst h
      rfl

end Timed

/-! ### Every duration -/

theorem arms_of_pos {d : Duration} (hd : d.asNanos ≠ 0) (h : d.secs < 2 ^ 63) : (timerSpec d).Arms d where
  valid := ⟨valid_itInterval d, valid_itValue h⟩
  oneShot := nanos_itInterval d
  armed := by rwa [nanos_itValue h]
  notEarly := (nanos_itValue h).ge

/-- **A sleep arms its timer exactly if its duration is not zero.** -/
theorem armsTimer_iff (d : Duration) : ArmsTimer d ↔ d.asNanos ≠ 0 := by
  constructor
  · rintro ⟨harms | ⟨hle, -⟩, -⟩ hzero
    · apply harms.armed
      rw [nanos_itValue (by unfold Duration.asNanos at hzero; omega), hzero]
    · unfold Duration.asNanos at hzero
      omega
  · intro hd
    refine ⟨?_, fun as => along_of_step (fun s a s' => Timed.inv_step) (fun s => Timed.fires_of_inv hd) as
      (Timed.inv_init d)⟩
    by_cases hlt : d.secs < 2 ^ 63
    · exact .inl (arms_of_pos hd hlt)
    · exact .inr ⟨Nat.not_lt.mp hlt, settime_of_le (Nat.not_lt.mp hlt)⟩

/-! ### A sleep of no time -/

namespace Timed

/-- The worker broadcasts nothing. -/
def Act.undisturbed : Act → Prop
  | .sleep a => a ≠ .event
  | _ => True

/-- The handler has yet to receive an event, and the sleep to resolve. -/
def Waits (s : Sleep.State) : Prop :=
  s.state.isFinal = false ∧
    (s.handler = .unregistered ∨ s.handler = .spawned ∨ s.handler = .waiting ∨ s.handler = .lost)

/-- Only an event gets a handler on. -/
theorem waits_of_step {s s' : Sleep.State} {a : Sleep.Act} (hs : Waits s) (h : Sleep.step s a = some s')
    (ha : a ≠ .event) : Waits s' := by
  obtain ⟨hstate, hhandler⟩ := hs
  cases a with
  | poll waker =>
    obtain ⟨-, -, rfl⟩ := Sleep.step_cases h
    unfold State.poll
    cases hst : s.state <;> exact ⟨by simpa [State.returns, hst] using hstate, hhandler⟩
  | create ok | settime ok =>
    obtain ⟨waker, -, rfl⟩ := Sleep.step_cases h
    cases ok <;> exact ⟨hstate, hhandler⟩
  | register ok =>
    obtain ⟨waker, -, rfl⟩ := Sleep.step_cases h
    cases ok
    · exact ⟨hstate, hhandler⟩
    · exact ⟨hstate, .inr (.inl rfl)⟩
  | store =>
    obtain ⟨waker, -, rfl⟩ := Sleep.step_cases h
    exact ⟨rfl, hhandler⟩
  | interest ok =>
    obtain ⟨-, rfl⟩ := Sleep.step_cases h
    cases ok
    · exact ⟨hstate, .inr (.inr (.inr rfl))⟩
    · exact ⟨hstate, .inr (.inr (.inl rfl))⟩
  | event => exact absurd rfl ha
  -- the handler is past its event
  | read ok | close ok | wake =>
    obtain ⟨hpc, -⟩ := Sleep.step_cases h
    simp [hpc] at hhandler
  | set =>
    obtain ⟨hpc, -⟩ | ⟨newState, hpc, -⟩ := Sleep.step_cases h
    · simp [hpc] at hhandler
    · simp [hpc] at hhandler

/-- **A sleep whose timer is disarmed never resolves**, but by an error of
`submit` or a broadcast. -/
theorem waits_of_zero {d : Duration} (hd : d.asNanos = 0) {as : List Act}
    (has : Taken (step d) (fun _ a => a.undisturbed) .init as) :
    Along (step d) (fun s => Waits s.sleep) .init as := by
  have hlt : d.secs < 2 ^ 63 := by
    unfold Duration.asNanos at hd
    omega
  refine along_of_invariant (I := fun s => s.timer = .disarmed ∧ Waits s.sleep) (fun s a s' hs ha h => ?_)
    (fun s hs => hs.2) ⟨rfl, rfl, .inl rfl⟩ has
  obtain ⟨htimer, hwaits⟩ := hs
  cases a with
  | sleep a =>
    obtain ⟨sleep, hsleep, h⟩ := step_cases h
    have hwaits' := waits_of_step hwaits hsleep ha
    by_cases hset : a = .settime true
    · rw [if_pos hset] at h
      obtain ⟨timer, hsettime, rfl⟩ := h
      rw [settime_of_lt hlt, if_pos hd] at hsettime
      exact ⟨(Option.some.inj hsettime).symm, hwaits'⟩
    · rw [if_neg hset] at h
      subst h
      exact ⟨htimer, hwaits'⟩
  | elapse nanos =>
    cases step_cases h
    exact ⟨htimer, hwaits⟩
  | expire =>
    obtain ⟨hdue, -⟩ := step_cases h
    rw [htimer] at hdue
    cases hdue

end Timed

/-- `Duration::ZERO`. -/
def zeroDuration : Duration := .fromSecs 0 (by decide)

/-- A sleep of no time has registered its handler, which waits. -/
def asleep : List Timed.Act :=
  [.sleep (.poll 0), .sleep (.create true), .sleep (.settime true), .sleep (.register true), .sleep .store,
    .sleep (.interest true)]

theorem armsTimer_fails : ¬ ArmsTimer zeroDuration ∧
    ¬ Along (Timed.step zeroDuration) (Timed.Fires zeroDuration) .init asleep := by
  have hruns : ¬ Along (Timed.step zeroDuration) (Timed.Fires zeroDuration) .init asleep := by
    intro h
    have hrun : run (Timed.step zeroDuration) .init asleep =
        some ⟨⟨.pending, .idle, .waiting, some 0, some 0, none, some 0, none, []⟩, 0, .disarmed, some 0⟩ := by
      decide
    have hend : Along (Timed.step zeroDuration) (Timed.Fires zeroDuration) _ [] := Along.of_run hrun h
    obtain ⟨t, -, hat, hfires⟩ := hend.head.fires rfl
    cases hat
    have hexpire := (hfires 0).mpr (by decide)
    revert hexpire
    decide
  exact ⟨fun h => hruns (h.2 asleep), hruns⟩

end Sleep
end ClAsync
