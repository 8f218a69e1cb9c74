import LibFiber.Data.Total
import LibFiber.Runtime.Runs

namespace LibFiber.Runtime

open Data Semantics Function

variable {Mgr : Type}

/-! Between calls every fiber that can run is in one place. -/

/-- In `fiber_manager_yield`, `fiber_manager_switch_to` or
`fiber_manager_do_maintenance`. -/
def Frame.midway : Frame Mgr → Bool
  | .yieldLoop _ | .settle _ | .maintenance _ _ => true
  | .waitEnd | .deadEnd | .threadLoop _ | .wakeLoop _ _ _ | .clearLoop _ => false

/-- No thread is in the middle of a call.  A fiber that has been switched away
from is not on any thread. -/
def Settled (state : State Mgr) : Prop :=
  ∀ mgr, state.pc mgr = .run ∧ ∀ frame ∈ state.stack (state.exec mgr), frame.midway = false

instance [DecidableEq Mgr] [Fintype Mgr] (state : State Mgr) : Decidable (Settled state) :=
  inferInstanceAs (Decidable (∀ mgr,
    state.pc mgr = .run ∧ ∀ frame ∈ state.stack (state.exec mgr), frame.midway = false))

/-- Neither parked, nor done, nor a maintenance fiber at rest. -/
structure Runnable (state : State Mgr) (fiber : Fiber Mgr) : Prop where
  live : state.live fiber
  unparked : ∀ wait, fiber ∉ state.waiters wait
  undone : state.fiberState fiber ≠ .done
  active : ∀ mgr, state.maintenanceFiber mgr = some fiber →
    state.fiberState fiber ≠ .saving ∧ state.fiberState fiber ≠ .waiting

theorem Settled.slots (settled : Settled state) (invariant : Invariant state place) (mgr : Mgr)
    (slot : Slot) : state.slots (mgr, slot) = none := by
  obtain ⟨point, frames⟩ := settled mgr
  have sound := invariant.sound point
  apply invariant.slot_eq_none sound.1
  intro rest member
  simpa [Frame.midway] using frames _ member

theorem Runnable.place_eq (runnable : Runnable state fiber)
    (settled : Settled state) (invariant : Invariant state place) :
    (∃ mgr, place fiber = .on mgr) ∨ ∃ mgr, place fiber = .queued mgr := by
  have held : state.Holds (place fiber) fiber := invariant.placed.held rfl
  have points := fun mgr => (settled mgr).1
  have slots := settled.slots invariant
  obtain ⟨live, unparked, _, active⟩ := runnable
  cases spot : place fiber <;> rw [spot] at held <;> grind

theorem current_eq_iff (settled : Settled state) (invariant : Invariant state place)
    (fiber : Fiber Mgr) (mgr : Mgr) : state.currentFiber mgr = fiber ↔ place fiber = .on mgr := by
  have sound := (invariant.managers mgr).sound
  rw [(settled mgr).1] at sound
  have held := invariant.placed fiber (.on mgr)
  grind

variable [DecidableEq Mgr]

/-- How often a fiber occurs in `current_fiber`, `to_schedule` and the run
queues of a manager. -/
def State.holdings (state : State Mgr) (fiber : Fiber Mgr) (mgr : Mgr) : Nat :=
  (decide (state.currentFiber mgr = fiber)).toNat +
    ((state.slots (mgr, .toSchedule)).any fun deferred => deferred.fiber = fiber).toNat +
    (state.scheduler mgr).members.count fiber

theorem holdings_eq (settled : Settled state) (invariant : Invariant state place)
    (fiber : Fiber Mgr) (mgr : Mgr) :
    state.holdings fiber mgr =
      if place fiber = .on mgr ∨ place fiber = .queued mgr then 1 else 0 := by
  have vacant := settled.slots invariant mgr .toSchedule
  have current := current_eq_iff settled invariant fiber mgr
  have queued : fiber ∈ (state.scheduler mgr).members ↔ place fiber = .queued mgr :=
    invariant.placed fiber (.queued mgr)
  rw [State.holdings, vacant, (invariant.queued mgr).count]
  simp only [current, queued, Option.any_none, Bool.toNat_false]
  by_cases running : place fiber = .on mgr
  · simp [running]
  · by_cases waiting : place fiber = .queued mgr <;> simp [running, waiting]

def occurrences [Fintype Mgr] (fiber : Fiber Mgr) (state : State Mgr) : Nat :=
  total (state.holdings fiber) id

/-- In every run whose steps are all orderly: between calls every live fiber
that is neither parked nor done, nor a maintenance fiber at rest, occurs exactly
once among the current fibers, the `to_schedule` fields and the run queues. -/
theorem fibers_conserved {n : Nat} {history : List (State (Fin (n + 1)) × Action (Fin (n + 1)))}
    {final : State (Fin (n + 1))} (run : (machine n).Run history final)
    (ordered : ∀ taken ∈ history, orderly taken.1 taken.2) (settled : Settled final)
    {fiber : Fiber (Fin (n + 1))} (runnable : Runnable final fiber) :
    occurrences fiber final = 1 := by
  obtain ⟨place, invariant, _⟩ := run_accounts run ordered
  have holdings := holdings_eq settled invariant fiber
  obtain ⟨mgr, there⟩ | ⟨mgr, there⟩ := runnable.place_eq settled invariant
  all_goals
    refine (total_eq_of_only mgr fun other different => ?_).trans ?_
    · simp [holdings, there, Ne.symm different]
    · simp [holdings, there]

/-- Fiber 1 is created and the main thread yields to it. -/
def yielded (mgr : Fin 1) : List (Action (Fin 1)) :=
  [.client mgr (.create 1), .client mgr .yield] ++ List.replicate 14 (.tick mgr unlocked)

theorem fibers_conserved_yielded : ∃ history final,
    (machine 0).Run history final ∧ (∀ taken ∈ history, orderly taken.1 taken.2) ∧
      Settled final ∧ Runnable final (.thread 0) ∧ occurrences (.thread 0) final = 1 := by
  have run := Machine.run_of_isSome (show (machine 0).initial (init 0) from rfl)
    (show ((machine 0).exec (init 0) (yielded 0)).isSome by decide +kernel)
  have ordered : ∀ taken ∈ (machine 0).trail (init 0) (yielded 0), orderly taken.1 taken.2 :=
    List.all_eq_true.mp (by decide +kernel)
  have settled : Settled (((machine 0).exec (init 0) (yielded 0)).get (by decide +kernel)) := by
    decide +kernel
  have runnable : Runnable (((machine 0).exec (init 0) (yielded 0)).get (by decide +kernel))
      (.thread 0) :=
    ⟨by decide +kernel, fun _ => List.not_mem_nil, by decide +kernel, by decide +kernel⟩
  exact ⟨_, _, run, ordered, settled, runnable, fibers_conserved run ordered settled runnable⟩

/-- The main thread takes fiber 1 out of its queue and is turned back at the
gate. -/
def starved (mgr : Fin 1) : List (Action (Fin 1)) :=
  [.client mgr (.create 1), .client mgr .yield, .tick mgr unlocked, .tick mgr unlocked,
    .tick mgr lockInUse]

theorem fibers_conserved_starved : ∃ history final,
    (machine 0).Run history final ∧ Settled final ∧
      Runnable final (.user 1) ∧ occurrences (.user 1) final = 0 ∧
      Runnable final (.thread 0) ∧ occurrences (.thread 0) final = 2 := by
  have run := Machine.run_of_isSome (show (machine 0).initial (init 0) from rfl)
    (show ((machine 0).exec (init 0) (starved 0)).isSome by decide +kernel)
  refine ⟨_, _, run, ?_, ⟨?_, ?_, ?_, ?_⟩, ?_, ⟨?_, ?_, ?_, ?_⟩, ?_⟩
  case refine_3 | refine_8 => exact fun _ => List.not_mem_nil
  all_goals decide +kernel

/-- In every run whose steps are all orderly: no two threads are ever on one stack, no
context is swapped in while a thread is on its stack, the fiber whose own code a thread
is in is its manager's current one and in no queue, and a fiber is in one run queue at
most, once, and then in no wait structure. -/
theorem stacks_exclusive {n : Nat} {history : List (State (Fin (n + 1)) × Action (Fin (n + 1)))}
    {final : State (Fin (n + 1))} (run : (machine n).Run history final)
    (ordered : ∀ taken ∈ history, orderly taken.1 taken.2) :
    Injective final.exec ∧
    (∀ mgr old new, final.pc mgr = .swap old new → ∀ other, final.exec other ≠ new) ∧
    (∀ mgr, final.pc mgr = .run → final.currentFiber mgr = final.exec mgr ∧
      (∀ own, final.exec mgr ∉ (final.scheduler own).members) ∧
      ∀ wait, final.exec mgr ∉ final.waiters wait) ∧
    ∀ fiber mgr, fiber ∈ (final.scheduler mgr).members →
      (final.scheduler mgr).members.count fiber = 1 ∧
      (∀ other, fiber ∈ (final.scheduler other).members → other = mgr) ∧
      ∀ wait, fiber ∉ final.waiters wait := by
  obtain ⟨place, invariant, _⟩ := run_accounts run ordered
  have queued : ∀ fiber mgr, fiber ∈ (final.scheduler mgr).members → place fiber = .queued mgr :=
    fun fiber mgr member => invariant.placed.place_eq member
  have waiting : ∀ fiber wait, fiber ∈ final.waiters wait → place fiber = .waiting wait :=
    fun fiber wait member => invariant.placed.place_eq member
  refine ⟨?_, ?_, ?_, ?_⟩
  · intro left right same
    exact invariant.apart left right (final.exec left) (.inl rfl) (.inl same.symm)
  · intro mgr old new point other there
    have sound := invariant.sound point
    exact sound.2.1 other (.inl there)
  · intro mgr point
    obtain ⟨there, current⟩ := invariant.sound point
    refine ⟨current, fun own member => ?_, fun wait member => ?_⟩
    · cases there.symm.trans (queued _ own member)
    · cases there.symm.trans (waiting _ wait member)
  · intro fiber mgr member
    have there := queued fiber mgr member
    refine ⟨List.count_eq_one_of_mem (invariant.queued mgr) member, fun other also => ?_,
      fun wait also => ?_⟩
    · cases there.symm.trans (queued fiber other also)
      rfl
    · cases there.symm.trans (waiting fiber wait also)

/-- The second manager steals the fiber that the main thread has created and runs it. -/
def shared (main thief : Fin 2) : List (Action (Fin 2)) :=
  [.client main (.create 1), .client main (.create 2)] ++ List.replicate 12 (.tick thief unlocked)

theorem stacks_exclusive_shared : ∃ history final,
    (machine 1).Run history final ∧ (∀ taken ∈ history, orderly taken.1 taken.2) ∧
      final.exec 1 = .user 1 ∧ Injective final.exec ∧
      ∀ own, .user 1 ∉ (final.scheduler own).members := by
  obtain ⟨final, run, checked⟩ := Machine.run_of_check (show (machine 1).initial (init 0) from rfl)
    (show ((machine 1).exec (init 0) (shared 0 1)).any fun state =>
      decide (state.exec 1 = .user 1 ∧ state.pc 1 = .run) by decide +kernel)
  obtain ⟨there, runs⟩ := of_decide_eq_true checked
  have ordered : ∀ taken ∈ (machine 1).trail (init 0) (shared 0 1), orderly taken.1 taken.2 :=
    List.all_eq_true.mp (by decide +kernel)
  obtain ⟨exclusive, _, running, _⟩ := stacks_exclusive run ordered
  exact ⟨_, final, run, ordered, there, exclusive, there ▸ (running 1 runs).2.1⟩

end LibFiber.Runtime
