import LibFiber.Runtime.Machine

namespace LibFiber.Runtime

open Function

/-! Where a step leaves the thread that takes it.

What matters of the control flow here is how a thread comes to have a fiber in
hand that it has taken out of a run queue, and how it comes to switch to one.
-/

variable {Mgr : Type}

/-- The thread holds a fiber that it may switch to, or is about to switch. -/
def Pc.committed : Pc Mgr → Bool
  | .test _ _ _ | .switch _ _ _ => true
  | _ => false

variable [DecidableEq Mgr]

inductive Control (state : State Mgr) (mgr : Mgr) (reading : Reading) : Pc Mgr → Prop where
  | take : state.pc mgr = .scan own caller →
      (state.scheduler own).popBottom = some (fiber, rest) →
      Control state mgr reading (.test own caller fiber)
  /-- To the maintenance fiber, with nothing in the queues. -/
  | retreat : state.pc mgr = .scan own caller → (state.scheduler own).popBottom = none →
      Control state mgr reading (.switch own current target)
  | pass : state.pc mgr = .test own (.yield current st) fiber → state.fiberState fiber ≠ .saving →
      reading.opens → Control state mgr reading (.switch own current fiber)
  /-- From the loop of `fiber_manager_thread_func`. -/
  | resume : state.pc mgr = .test own .thread fiber →
      Control state mgr reading (.switch own maintenance fiber)
  | elsewhere : pc.committed = false → Control state mgr reading pc

/-- The fibers that the managers are on, as `fiber_manager_switch_to` leaves them. -/
def State.currentAfter (state : State Mgr) (mgr : Mgr) : Mgr → Fiber Mgr :=
  match state.pc mgr with
  | .switch own _ new => update state.currentFiber own new
  | _ => state.currentFiber

/-- What a step of `mgr` does to the control flow. -/
structure Steps (state : State Mgr) (mgr : Mgr) (reading : Reading) (after : State Mgr) :
    Prop where
  others : ∀ other, other ≠ mgr → after.pc other = state.pc other
  control : Control state mgr reading (after.pc mgr)
  current : after.currentFiber = state.currentAfter mgr

variable {visits : Mgr → List (Mgr × Bool)} {mgr : Mgr}

theorem Steps.goto (moved : after.pc = update state.pc mgr pc)
    (control : Control state mgr reading pc)
    (current : after.currentFiber = state.currentAfter mgr) : Steps state mgr reading after where
  others := fun other different => by rw [moved, update_of_ne different]
  control := by
    rw [moved, update_self]
    exact control
  current := current

theorem Steps.stay (point : state.pc mgr = .run) (same : after.pc = state.pc)
    (current : after.currentFiber = state.currentFiber) : Steps state mgr reading after where
  others := fun other _ => by rw [same]
  control := by
    rw [same, point]
    exact .elsewhere rfl
  current := by rw [current, State.currentAfter, point]

theorem Steps.leave (point : state.pc mgr = .run)
    (moved : after.pc = update state.pc mgr pc) (free : pc.committed = false)
    (current : after.currentFiber = state.currentFiber) : Steps state mgr reading after :=
  .goto moved (.elsewhere free) (by rw [current, State.currentAfter, point])

theorem unlockInternal_control (mutex : Nat) :
    (unlockInternal state mgr mutex).pc = state.pc ∧
      (unlockInternal state mgr mutex).currentFiber = state.currentFiber := by
  simp only [unlockInternal]
  split <;> exact ⟨rfl, rfl⟩

theorem perform_control (slot : Slot) (deferred : Deferred Mgr) :
    (perform state mgr own slot deferred).pc = state.pc ∧
      (perform state mgr own slot deferred).currentFiber = state.currentFiber := by
  cases carries : deferred.carries <;> cases slot <;>
    simp [perform, carries, Slot.wait, unlockInternal_control, State.schedule, State.setWaiters]

theorem trySteal_steps (same : state.pc = before.pc)
    (current : state.currentFiber = before.currentAfter mgr) :
    Steps before mgr reading (trySteal visits state mgr own caller) := by
  unfold trySteal
  split
  · exact .goto (by rw [← same]; rfl) (.elsewhere rfl) current
  · exact .goto (by rw [← same]; rfl) (.elsewhere rfl) current

theorem resumeTop_steps (point : state.pc mgr = .run)
    (stepped : resumeTop visits state mgr reading = some after) :
    Steps state mgr reading after := by
  unfold resumeTop at stepped
  split at stepped
  · contradiction
  · contradiction
  · cases stepped
    exact .stay point rfl rfl
  · cases stepped
    exact .leave point rfl rfl rfl
  · cases stepped
    exact .leave point rfl rfl rfl
  · cases stepped
    unfold settle
    split <;> exact .stay point rfl rfl
  · cases stepped
    exact .stay point rfl rfl
  · cases stepped
    simp only [maintain]
    split
    · exact .stay point rfl rfl
    · exact .stay point (perform_control _ _).1 (perform_control _ _).2
  · cases stepped
    unfold wakeRound
    split
    · exact .leave point rfl rfl rfl
    · split
      · exact .leave point rfl rfl rfl
      · exact .stay point rfl rfl
  · cases stepped
    unfold clearRound
    split
    · exact .leave point rfl rfl rfl
    · exact .leave point rfl rfl rfl

theorem scan_steps (point : state.pc mgr = .scan own caller) :
    Steps state mgr reading (scan visits state mgr own caller) := by
  have current : state.currentFiber = state.currentAfter mgr := by rw [State.currentAfter, point]
  cases popped : (state.scheduler own).popBottom with
  | some taken =>
    simp only [scan, popped]
    exact .goto rfl (.take point popped) current
  | none =>
    simp only [scan, popped]
    cases caller with
    | thread => exact .goto rfl (.elsewhere rfl) current
    | yield fiber st =>
      simp only [exhausted]
      split
      · unfold retreat
        split
        · exact .goto rfl (.retreat point popped) current
        · exact .goto rfl (.retreat point popped) current
      · exact trySteal_steps rfl current

theorem test_steps (point : state.pc mgr = .test own caller fiber)
    (stepped : test visits state mgr own caller fiber reading = some after) :
    Steps state mgr reading after := by
  have current : state.currentFiber = state.currentAfter mgr := by rw [State.currentAfter, point]
  unfold test at stepped
  split at stepped
  · cases stepped
    exact .goto rfl (.elsewhere rfl) current
  · rename_i saved
    cases caller with
    | thread =>
      obtain ⟨maintenance, _, rfl⟩ := Option.map_eq_some_iff.mp stepped
      exact .goto rfl (.resume point) current
    | yield fiber st =>
      simp only at stepped
      split at stepped
      · rename_i opens
        cases stepped
        exact .goto rfl (.pass point saved opens) current
      · cases stepped
        exact trySteal_steps rfl current

theorem tick_steps (stepped : tick visits state mgr reading = some after) :
    Steps state mgr reading after := by
  cases point : state.pc mgr with
  | run => exact resumeTop_steps point (by simpa only [tick, point] using stepped)
  | scan own caller =>
    simp only [tick, point] at stepped
    cases stepped
    exact scan_steps point
  | test own caller fiber => exact test_steps point (by simpa only [tick, point] using stepped)
  | balance own caller loop =>
    simp only [tick, point, Option.some.injEq] at stepped
    have current : state.currentFiber = state.currentAfter mgr := by
      rw [State.currentAfter, point]
    subst stepped
    unfold visit
    split
    · exact .goto rfl (.elsewhere rfl) current
    · split <;> exact .goto rfl (.elsewhere rfl) current
  | steal own caller loop =>
    simp only [tick, point, Option.some.injEq] at stepped
    have current : state.currentFiber = state.currentAfter mgr := by
      rw [State.currentAfter, point]
    subst stepped
    unfold steal
    split
    · exact .goto rfl (.elsewhere rfl) current
    · split
      · split <;> exact .goto rfl (.elsewhere rfl) current
      · exact .goto rfl (.elsewhere rfl) current
  | publish | yield | switch | swap | stash | claim =>
    simp only [tick, point] at stepped
    cases stepped
    exact .goto rfl (.elsewhere rfl) (by rw [State.currentAfter, point]; rfl)

theorem tick_pass (point : state.pc mgr = .test own (.yield current st) fiber)
    (saved : state.fiberState fiber ≠ .saving) (opens : reading.opens)
    (stepped : tick visits state mgr reading = some after) :
    after.pc mgr = .switch own current fiber := by
  simp only [tick, point, test, if_neg saved, opens, if_true, Option.some.injEq] at stepped
  rw [← stepped]
  exact update_self _ _ _

theorem call_steps (point : state.pc mgr = .run) (called : call state mgr op = some after) :
    Steps state mgr reading after := by
  cases op with
  | yield | wait | waitAndUnlock =>
    cases called
    exact .leave point rfl rfl rfl
  | park slot object =>
    obtain ⟨wait, _, rfl⟩ := Option.map_eq_some_iff.mp called
    exact .leave point rfl rfl rfl
  | wake | clear =>
    cases called
    exact .stay point rfl rfl
  | take wait =>
    simp only [call, take] at called
    split at called
    · contradiction
    · cases called
      exact .leave point rfl rfl rfl
  | lock mutex =>
    cases called
    split
    · exact .stay point rfl rfl
    · exact .leave point rfl rfl rfl
  | unlock mutex =>
    cases called
    exact .stay point (unlockInternal_control mutex).1 (unlockInternal_control mutex).2
  | create id =>
    simp only [call] at called
    split at called
    · contradiction
    · cases called
      exact .stay point rfl rfl
  | finish =>
    simp only [call] at called
    split at called
    · cases called
      exact .leave point rfl rfl rfl
    · contradiction
    · contradiction

end LibFiber.Runtime
