import LibFiber.Sleep.Wakeups

namespace LibFiber.Sleep

open Semantics Function

/-! How long `fiber_sleep` lasts, in ticks of the timer. -/

/-- `FIBER_TIME_RESOLUTION_MS`, the length of a tick -/
def timeResolutionMs : Nat := 5

/-- What a fiber asked of `fiber_sleep` last, and the ticks from its registration to
its scheduling. -/
structure Nap where
  seconds : Nat
  useconds : Nat
  ticks : Nat
deriving DecidableEq

def Nap.durationMs (nap : Nap) : Nat := nap.seconds * 1000 + nap.useconds / 1000

section Durations

variable {Fiber Addr : Type} [DecidableEq Fiber] [DecidableEq Addr]

def stepNaps (naps : Fiber → Nap) (taken : State Fiber Addr × Action Fiber Addr) : Fiber → Nap :=
  match taken.2 with
  | .sleep fiber _ seconds useconds => update naps fiber ⟨seconds, useconds, 0⟩
  | .wake triggerCount => fun fiber =>
    match taken.1.fiber fiber with
    | .asleep _ => { naps fiber with ticks := (naps fiber).ticks + triggerCount }
    | _ => naps fiber
  | _ => naps

def naps (history : History Fiber Addr) : Fiber → Nap :=
  history.foldl stepNaps fun _ => ⟨0, 0, 0⟩

/-- No sum in the step exceeds its type: the duration with the millisecond added to it
32 bits, the wake time and the count of the ticks 64 bits. -/
def bounded (state : State Fiber Addr) : Action Fiber Addr → Bool
  | .sleep _ _ seconds useconds => seconds * 1000 + useconds / 1000 + 1 < 2 ^ 32
  | .enter fiber =>
    match state.fiber fiber with
    | .entering _ sleepMs => state.timerTriggerCount + sleepMs < 2 ^ 64
    | _ => true
  | .wake triggerCount => state.timerTriggerCount + triggerCount < 2 ^ 64
  | _ => true

/-- Ticks are delivered one at a time. -/
def Action.single : Action Fiber Addr → Bool
  | .wake triggerCount => triggerCount == 1
  | _ => true

/-- How the wake time of a fiber and its ticks fit together.  When the ticks come one
by one a sleeper is at most one behind, and only during a call. -/
def FiberPhase.Timed (single : Prop) (state : State Fiber Addr) (nap : Nap) :
    FiberPhase Addr → Prop
  | .running => True
  | .entering _ sleepMs => sleepMs = nap.durationMs + 1 ∧ nap.ticks = 0
  | .asleep addr =>
    (state.element addr).wakeTime + nap.ticks =
      state.timerTriggerCount + (nap.durationMs + 1) ∧
    (single → nap.ticks ≤ nap.durationMs + 2 ∧
      (state.waker = .idle → nap.ticks ≤ nap.durationMs + 1))
  | .ready => nap.durationMs + 1 < nap.ticks ∧ (single → nap.ticks ≤ nap.durationMs + 2)

variable {after : State Fiber Addr}
variable {single : Prop}
variable {history : History Fiber Addr}

omit [DecidableEq Fiber] [DecidableEq Addr] in
theorem FiberPhase.Timed.congr {phase : FiberPhase Addr} (timed : phase.Timed single state nap)
    (same : ∀ addr, phase = .asleep addr →
      (after.element addr).wakeTime = (state.element addr).wakeTime)
    (count : after.timerTriggerCount = state.timerTriggerCount)
    (idle : after.waker = .idle → state.waker = .idle) : phase.Timed single after nap := by
  cases phase with
  | running | entering | ready => exact timed
  | asleep addr =>
    obtain ⟨even, near⟩ := timed
    refine ⟨?_, fun one => ⟨(near one).1, fun ended => (near one).2 (idle ended)⟩⟩
    rw [same addr rfl, count]
    exact even

omit [DecidableEq Fiber] in
theorem write_timed {addr : Addr} {value : Element Fiber Addr}
    (sound : Sound stack state behind pending) (awake : state.fiber (stack addr) ≠ .asleep addr)
    (timed : (state.fiber fiber).Timed single state nap) :
    (state.fiber fiber).Timed single
      { state with element := update state.element addr value } nap := by
  refine timed.congr (fun other sleeps => ?_) rfl id
  obtain ⟨_, rfl⟩ := sound.placed fiber other sleeps
  refine congrArg Element.wakeTime (update_of_ne ?_ _ _)
  intro same
  exact awake (same ▸ sleeps)

theorem enter_timed {addr : Addr} {sleepMs : Nat} {times : Fiber → Nap}
    (sound : Sound stack state behind pending)
    (timed : ∀ fiber, (state.fiber fiber).Timed single state (times fiber))
    (phase : state.fiber fiber = .entering addr sleepMs) (idle : state.waker = .idle)
    (fits : state.timerTriggerCount + sleepMs < 2 ^ 64) (other : Fiber) :
    ((enter state fiber addr sleepMs).fiber other).Timed single (enter state fiber addr sleepMs)
      (times other) := by
  obtain ⟨own, _⟩ := sound.entering fiber addr sleepMs phase
  have fresh : addr ∉ state.sleepers.members behind := by
    intro member
    have sleeps := (sound.asleep addr (List.mem_append_left _ member)).2
    rw [own, phase] at sleeps
    cases sleeps
  by_cases mine : other = fiber
  · subst other
    obtain ⟨asked, none⟩ : sleepMs = (times fiber).durationMs + 1 ∧ (times fiber).ticks = 0 := by
      simpa [phase, FiberPhase.Timed] using timed fiber
    have wakeTime : ((enter state fiber addr sleepMs).element addr).wakeTime =
        state.timerTriggerCount + sleepMs := by
      simp only [enter, update_self, (waiterInsert_fields _).1, State.timed]
      exact Nat.mod_eq_of_lt fits
    show FiberPhase.Timed single _ _ (update state.fiber fiber (.asleep addr) fiber)
    rw [update_self]
    refine ⟨?_, fun _ => ⟨by omega, fun _ => by omega⟩⟩
    rw [wakeTime, none, asked]
    rfl
  · show FiberPhase.Timed single _ _ (update state.fiber fiber (.asleep addr) other)
    rw [update_of_ne mine]
    refine (timed other).congr (fun place sleeps => ?_) rfl fun _ => idle
    refine (enter_element sound.forest fresh ?_).1
    intro same
    rw [← (sound.placed other place sleeps).2, same] at mine
    exact mine own

omit [DecidableEq Addr] in
theorem schedule_timed {toWake : Addr} {toSchedule : Fiber} {times : Fiber → Nap}
    (sound : Sound stack state behind pending)
    (timed : ∀ fiber, (state.fiber fiber).Timed single state (times fiber))
    (waker : state.waker = .scheduling toWake)
    (waiter : (state.element toWake).waiter = some toSchedule) :
    (times toSchedule).durationMs + 1 < (times toSchedule).ticks ∧
      (single → (times toSchedule).ticks ≤ (times toSchedule).durationMs + 2) := by
  obtain ⟨rest, rfl, _⟩ := schedule_sound sound waker waiter
  obtain ⟨waits, sleeps⟩ := sound.asleep toWake (List.mem_append_right _ List.mem_cons_self)
  obtain rfl := Option.some.inj (waits.symm.trans waiter)
  have due := sound.due toWake List.mem_cons_self
  have before := timed (stack toWake)
  rw [sleeps] at before
  have even := before.1
  exact ⟨by omega, fun one => (before.2 one).1⟩

theorem step_timed {times : Fiber → Nap} (sound : Sound stack state behind pending)
    (timed : ∀ fiber, (state.fiber fiber).Timed single state (times fiber))
    (fits : bounded state action) (one : single → action.single)
    (move : Move stack state action after) (fiber : Fiber) :
    (after.fiber fiber).Timed single after (stepNaps times (state, action) fiber) := by
  cases move with
  | @sleep sleeper wakeInfo seconds useconds running own =>
    by_cases mine : fiber = sleeper
    · subst fiber
      simp only [stepNaps, update_self]
      refine ⟨?_, rfl⟩
      exact Nat.mod_eq_of_lt (of_decide_eq_true fits)
    · simp only [stepNaps, update_of_ne mine]
      exact write_timed sound (by simp [own, running]) (timed fiber)
  | enter phase idle =>
    simp only [bounded, phase, decide_eq_true_eq] at fits
    exact enter_timed sound timed phase idle fits fiber
  | @resume sleeper ready =>
    by_cases mine : fiber = sleeper
    · subst fiber
      simp [FiberPhase.Timed]
    · simp only [update_of_ne mine]
      exact (timed fiber).congr (fun _ _ => rfl) rfl id
  | scribble writable =>
    refine write_timed sound (fun sleeps => ?_) (timed fiber)
    simp [State.writable, sleeps] at writable
  | @wake triggerCount idle =>
    have before := timed fiber
    have total := Nat.mod_eq_of_lt (of_decide_eq_true fits)
    simp only [stepNaps]
    cases phase : state.fiber fiber with
    | running | entering | ready => rwa [phase] at before
    | asleep addr =>
      rw [phase] at before
      obtain ⟨even, near⟩ := before
      refine ⟨?_, fun unit => ⟨?_, by simp⟩⟩
      · show (state.element addr).wakeTime + ((times fiber).ticks + triggerCount) =
          (state.timerTriggerCount + triggerCount) % 2 ^ 64 + ((times fiber).durationMs + 1)
        omega
      · have tick : triggerCount = 1 := eq_of_beq (one unit)
        have behind := (near unit).2 idle
        show (times fiber).ticks + triggerCount ≤ (times fiber).durationMs + 2
        omega
  | remove | next | last => exact (timed fiber).congr (fun _ _ => rfl) rfl (by simp)
  | finish waker kept =>
    have before := timed fiber
    show (state.fiber fiber).Timed _ _ (times fiber)
    cases phase : state.fiber fiber with
    | running | entering | ready => rwa [phase] at before
    | asleep addr =>
      rw [phase] at before
      obtain ⟨even, near⟩ := before
      refine ⟨even, fun unit => ⟨(near unit).1, fun _ => ?_⟩⟩
      -- nothing is taken out of the tree any more, so the count has not passed its time
      obtain rfl := sound.pending_eq_nil (.inr waker)
      have placed := (sound.placed fiber addr phase).1
      rw [List.append_nil] at placed
      have late := sound.forest.late kept addr placed
      omega
  | @schedule toWake toSchedule waker waiter =>
    by_cases mine : fiber = toSchedule
    · subst fiber
      simp only [update_self]
      exact schedule_timed sound timed waker waiter
    · simp only [update_of_ne mine]
      exact (timed fiber).congr (fun _ _ => rfl) rfl (by simp)

theorem run_timed (run : (machine stack).Run history state)
    (careful : ∀ taken ∈ history, Careful taken.1 taken.2)
    (fits : ∀ taken ∈ history, bounded taken.1 taken.2)
    (one : single → ∀ taken ∈ history, taken.2.single) (fiber : Fiber) :
    (state.fiber fiber).Timed single state (naps history fiber) := by
  have kept := run.invariant_of_allowed
    (fun state action => Careful state action ∧ bounded state action ∧ (single → action.single))
    (fun history state => (∃ behind pending, Sound stack state behind pending) ∧
      ∀ fiber, (state.fiber fiber).Timed single state (naps history fiber)) ?_ ?_
    fun taken member => ⟨careful taken member, fits taken member, fun unit => one unit taken member⟩
  · exact kept.2 fiber
  · intro state ⟨element, start⟩
    subst start
    exact ⟨⟨_, _, init_sound element⟩, fun _ => trivial⟩
  · intro history before action after _ ⟨⟨behind, pending, sound⟩, timed⟩
      ⟨careful, fits, one⟩ stepped
    have move := step_moves stepped
    refine ⟨move.sound sound careful, ?_⟩
    rw [naps, List.foldl_append]
    exact step_timed sound timed fits one move

/-- The wake time counts milliseconds and the timer ticks: with the ticks delivered one
by one a fiber sleeps for two ticks more than the milliseconds it asked for, which is
within three ticks of its time for a single millisecond at most. -/
theorem scheduled_in_time_iff (run : (machine stack).Run history state)
    (careful : ∀ taken ∈ history, Careful taken.1 taken.2)
    (fits : ∀ taken ∈ history, bounded taken.1 taken.2)
    (one : ∀ taken ∈ history, taken.2.single) (ready : state.fiber fiber = .ready) :
    (naps history fiber).ticks = (naps history fiber).durationMs + 2 ∧
      ((naps history fiber).ticks ≤ (naps history fiber).durationMs / timeResolutionMs + 3 ↔
        (naps history fiber).durationMs ≤ 1) := by
  have timed := run_timed run careful fits (fun _ : True => one) fiber
  rw [ready] at timed
  obtain ⟨later, near⟩ := timed
  have soon := near trivial
  rw [timeResolutionMs]
  omega

end Durations

section Refusals

variable {Fiber Addr : Type} [DecidableEq Fiber] [DecidableEq Addr] {stack : Addr → Fiber}

/-- As long as no yield is refused, no duration exceeds 32 bits, no count 64, and no
fiber uses its element again before the last read of it, nobody is scheduled before
its time. -/
theorem scheduled_not_early (run : (refusing stack).Run history state)
    (granted : ∀ taken ∈ history, taken.2.isLeft)
    (careful : ∀ taken ∈ ordinary history, Careful taken.1 taken.2)
    (fits : ∀ taken ∈ ordinary history, bounded taken.1 taken.2)
    (scheduled : state.1.fiber fiber = .ready ∨ state.2.queued fiber) :
    (naps (ordinary history) fiber).durationMs ≤
      (naps (ordinary history) fiber).ticks * timeResolutionMs := by
  obtain ⟨run, nothing⟩ := run.of_faultless granted
  have ready : state.1.fiber fiber = .ready := by
    simpa [nothing, faults] using scheduled
  have timed := run_timed run careful fits (False.elim : False → _) fiber
  rw [ready] at timed
  have later := timed.1
  rw [timeResolutionMs]
  omega

end Refusals

theorem ready_of_check (checked : ((machine (id : Nat → Nat)).exec blank schedule).any
      (fun state => decide (state.fiber 0 = .ready))) :
    ∃ state, (machine (id : Nat → Nat)).Run ((machine id).trail blank schedule) state ∧
      state.fiber 0 = .ready := by
  obtain ⟨state, run, ready⟩ := Machine.run_of_check
    (show (machine (id : Nat → Nat)).initial blank from ⟨_, rfl⟩) checked
  exact ⟨state, run, of_decide_eq_true ready⟩

/-- A fiber sleeps and the ticks come one by one until it is scheduled. -/
def ticking (useconds ticks : Nat) : List (Action Nat Nat) :=
  [.sleep 0 0 0 useconds, .enter 0] ++
    (List.replicate ticks [.wake 1, .moveWaker]).flatten ++ [.moveWaker]

theorem scheduled_not_early_ticking : ∃ history state,
    (refusing (id : Nat → Nat)).Run history state ∧ (∀ taken ∈ history, taken.2.isLeft) ∧
      state.1.fiber 0 = .ready ∧ (naps (ordinary history) 0).durationMs = 10 ∧
      (naps (ordinary history) 0).durationMs ≤
        (naps (ordinary history) 0).ticks * timeResolutionMs := by
  have run := Machine.run_of_isSome
    (show (refusing (id : Nat → Nat)).initial (blank, ⟨false, fun _ => false⟩) from ⟨⟨_, rfl⟩, rfl⟩)
    (show ((refusing id).exec _ ((ticking 10000 12).map .inl)).isSome by decide +kernel)
  exact ⟨_, _, run, by decide +kernel, by decide +kernel, by decide +kernel,
    scheduled_not_early run (by decide +kernel) (careful_of_all (by decide +kernel))
      (by decide +kernel) (.inl (by decide +kernel))⟩

/-- A sleep of 4294968 seconds, for which `sleep_ms` is 705. -/
def wrapped : List (Action Nat Nat) :=
  [.sleep 0 0 4294968 0, .enter 0, .wake 706, .moveWaker, .moveWaker]

theorem scheduled_not_early_wrapped : ∃ history state,
    (refusing (id : Nat → Nat)).Run history state ∧ (∀ taken ∈ history, taken.2.isLeft) ∧
      (∀ taken ∈ ordinary history, Careful taken.1 taken.2) ∧ state.1.fiber 0 = .ready ∧
      (naps (ordinary history) 0).ticks * timeResolutionMs <
        (naps (ordinary history) 0).durationMs := by
  have run := Machine.run_of_isSome
    (show (refusing (id : Nat → Nat)).initial (blank, ⟨false, fun _ => false⟩) from ⟨⟨_, rfl⟩, rfl⟩)
    (show ((refusing id).exec _ (wrapped.map .inl)).isSome by decide +kernel)
  exact ⟨_, _, run, by decide +kernel, careful_of_all (by decide +kernel), by decide +kernel,
    by decide +kernel⟩

theorem scheduled_in_time_iff_short : ∃ history state,
    (machine (id : Nat → Nat)).Run history state ∧ state.fiber 0 = .ready ∧
      (naps history 0).durationMs = 1 ∧
      (naps history 0).ticks ≤ (naps history 0).durationMs / timeResolutionMs + 3 := by
  obtain ⟨state, run, ready⟩ := ready_of_check
    (show ((machine id).exec blank (ticking 1000 3)).any _ by decide +kernel)
  refine ⟨_, state, run, ready, by decide +kernel, ?_⟩
  exact (scheduled_in_time_iff run (careful_of_all (by decide +kernel)) (by decide +kernel)
    (by decide +kernel) ready).2.mpr (by decide +kernel)

/-- A sleep of ten milliseconds, two ticks, lasts for twelve of them. -/
theorem scheduled_in_time_iff_ten : ∃ history state,
    (machine (id : Nat → Nat)).Run history state ∧ (∀ taken ∈ history, Careful taken.1 taken.2) ∧
      (∀ taken ∈ history, bounded taken.1 taken.2) ∧
      (∀ taken ∈ history, taken.2.single) ∧ state.fiber 0 = .ready ∧
      (naps history 0).durationMs = 10 ∧ (naps history 0).ticks = 12 ∧
      (naps history 0).durationMs / timeResolutionMs + 3 < (naps history 0).ticks := by
  obtain ⟨state, run, ready⟩ := ready_of_check
    (show ((machine id).exec blank (ticking 10000 12)).any _ by decide +kernel)
  exact ⟨_, state, run, careful_of_all (by decide +kernel), by decide +kernel,
    by decide +kernel, ready, by decide +kernel, by decide +kernel,
    by decide +kernel⟩

end LibFiber.Sleep
