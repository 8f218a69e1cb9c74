import LibFiber.Gate.Machine

namespace LibFiber.Gate

open Semantics Function
open LibFiber.Runtime (Fiber Op Reading Caller Pc Control Steps)

/-! `lock_using` as a gate for one fiber at a time. -/

section Periods

variable {Mgr : Type} [DecidableEq Mgr]

/-- The periods in which `lock_using` is not 1 are counted.  `tested` is the period of
a manager's last successful test, and `sets` has that of each call of
`set_lock_status`. -/
structure Periods (Mgr : Type) where
  period : Nat
  tested : Mgr → Nat
  sets : List Nat

def Periods.record (periods : Periods Mgr) (made : State Mgr × Action Mgr) : Periods Mgr :=
  match made.2 with
  | .tick mgr _ =>
    if made.1.passes mgr = true then
      { periods with tested := update periods.tested mgr periods.period }
    else periods
  | .setLockStatus mgr => { periods with sets := periods.sets ++ [periods.tested mgr] }
  | .initialise _ =>
    if made.1.lockUsing = 1 then { periods with period := periods.period + 1 } else periods
  | _ => periods

def periods (history : List (State Mgr × Action Mgr)) : Periods Mgr :=
  history.foldl Periods.record ⟨0, fun _ => 0, []⟩

theorem periods_snoc (history : List (State Mgr × Action Mgr)) (made : State Mgr × Action Mgr) :
    periods (history ++ [made]) = (periods history).record made := by
  simp [periods, List.foldl_append]

/-- No test succeeds while another manager is between its own and its call of
`set_lock_status`, and while `lock_using` is 1 no manager leaves the fiber for which
it was set. -/
def exclusive {n : Nat} (state : State (Fin (n + 1))) : Action (Fin (n + 1)) → Bool
  | .tick mgr _ =>
    decide (state.passes mgr → ∀ other, state.setting other = false) &&
    match state.core.pc mgr with
    | .switch own _ new =>
      decide (state.lockUsing = 1 → state.lockedFor = some (state.core.currentFiber own) →
        new = state.core.currentFiber own)
    | _ => true
  | _ => true

/-- The fiber is on a manager, or its manager is about to switch to it. -/
def State.Placed (state : State Mgr) (fiber : Fiber Mgr) : Prop :=
  (∃ mgr, state.core.currentFiber mgr = fiber) ∨ ∃ mgr, state.target mgr = some fiber

structure Exclusive (state : State Mgr) (periods : Periods Mgr) : Prop where
  bounded : ∀ set ∈ periods.sets, set ≤ periods.period
  distinct : periods.sets.Nodup
  unset : state.lockUsing ≠ 1 → periods.period ∉ periods.sets
  pending : ∀ mgr, state.setting mgr → state.lockUsing ≠ 1 ∧
    periods.tested mgr = periods.period ∧ ∃ own old new, state.core.pc mgr = .switch own old new
  sole : ∀ mgr other, state.setting mgr → state.setting other → mgr = other
  placed : state.lockUsing = 1 → ∃ fiber, state.lockedFor = some fiber ∧ state.Placed fiber

theorem init_exclusive (main : Mgr) (clock : Timeval) :
    Exclusive (init main clock) ⟨0, fun _ => 0, []⟩ where
  bounded := by simp
  distinct := List.nodup_nil
  unset := by simp
  pending := by simp [init]
  sole := by simp [init]
  placed := by simp [init]

end Periods

section Runs

variable {state : State (Fin (n + 1))}
variable {core : Runtime.State (Fin (n + 1))}

theorem target_switch
    (point : state.core.pc mgr = .switch own old new) : state.target mgr = some new := by
  simp [State.target, point]

theorem State.Placed.call {stats : Fiber (Fin (n + 1)) → LockStats} (placed : state.Placed fiber)
    (point : state.core.pc mgr = .run) (steps : ∀ reading, Steps state.core mgr reading core) :
    ({ state with core, stats } : State (Fin (n + 1))).Placed fiber := by
  have step := steps ⟨0, 0, 0, false⟩
  rcases placed with ⟨other, current⟩ | ⟨other, target⟩
  · refine .inl ⟨other, ?_⟩
    simpa [step.current, Runtime.State.currentAfter, point] using current
  · have different : other ≠ mgr := by
      rintro rfl
      simp [State.target, point] at target
    refine .inr ⟨other, ?_⟩
    simpa [State.target, step.others other different] using target

theorem State.Placed.tick {setting : Fin (n + 1) → Bool}
    {reading : Reading} (placed : state.Placed fiber) (steps : Steps state.core mgr reading core)
    (stays : ∀ own old new, state.core.pc mgr = .switch own old new →
      state.core.currentFiber own = fiber → new = fiber) :
    ({ state with core, setting } : State (Fin (n + 1))).Placed fiber := by
  have away : ∀ other, other ≠ mgr → state.target other = some fiber →
      ({ state with core, setting } : State (Fin (n + 1))).Placed fiber := by
    intro other different target
    refine .inr ⟨other, ?_⟩
    simpa [State.target, steps.others other different] using target
  cases point : state.core.pc mgr with
  | switch own old new =>
    have current : core.currentFiber = update state.core.currentFiber own new := by
      rw [steps.current, Runtime.State.currentAfter, point]
    have arrived : new = fiber → core.currentFiber own = fiber := by
      intro same
      rw [current, update_self, same]
    rcases placed with ⟨other, there⟩ | ⟨other, target⟩
    · by_cases same : other = own
      · subst same
        exact .inl ⟨other, arrived (stays other old new point there)⟩
      · exact .inl ⟨other, by rw [current, update_of_ne same, there]⟩
    · by_cases same : other = mgr
      · subst same
        rw [target_switch point] at target
        exact .inl ⟨own, arrived (Option.some.inj target)⟩
      · exact away other same target
  | _ =>
    have current : core.currentFiber = state.core.currentFiber := by
      rw [steps.current, Runtime.State.currentAfter, point]
    rcases placed with ⟨other, there⟩ | ⟨other, target⟩
    · exact .inl ⟨other, by rw [current, there]⟩
    · refine away other ?_ target
      rintro rfl
      simp [State.target, point] at target

section

variable (holds : Exclusive state counted)
include holds

theorem Exclusive.pass
    (unlocked : state.lockUsing ≠ 1) (alone : ∀ other, state.setting other = false)
    (switching : ∃ own old new, core.pc mgr = .switch own old new) :
    Exclusive { state with core, setting := update state.setting mgr true }
      { counted with tested := update counted.tested mgr counted.period } := by
  have only : ∀ other, update state.setting mgr true other → other = mgr := by
    intro other setting
    by_contra different
    rw [update_of_ne different, alone other] at setting
    cases setting
  exact {
    bounded := holds.bounded
    distinct := holds.distinct
    unset := holds.unset
    pending := by
      intro other setting
      obtain rfl := only other setting
      exact ⟨unlocked, update_self _ _ _, switching⟩
    sole := by
      intro first second setting other
      rw [only first setting, only second other]
    placed := fun closed => absurd closed unlocked }

theorem Exclusive.move {reading : Reading} (idle : state.setting mgr = false)
    (steps : Steps state.core mgr reading core)
    (stays : state.lockUsing = 1 → ∀ own old new, state.core.pc mgr = .switch own old new →
      state.lockedFor = some (state.core.currentFiber own) →
      new = state.core.currentFiber own) :
    Exclusive { state with core, setting := update state.setting mgr false } counted := by
  have same : update state.setting mgr false = state.setting := update_eq_self_iff.mpr idle.symm
  rw [same]
  refine { holds with pending := ?_, placed := ?_ }
  · intro other setting
    obtain ⟨unlocked, tested, own, old, new, busy⟩ := holds.pending other setting
    have different : other ≠ mgr := by
      intro equal
      rw [equal, idle] at setting
      cases setting
    exact ⟨unlocked, tested, own, old, new, (steps.others other different).trans busy⟩
  · intro closed
    obtain ⟨fiber, locked, placed⟩ := holds.placed closed
    refine ⟨fiber, locked, placed.tick steps ?_⟩
    intro own old new point current
    rw [← current]
    exact stays closed own old new point (by rw [locked, current])

theorem Exclusive.tick (allowed : exclusive state (.tick mgr contended))
    (idle : state.setting mgr = false)
    (passed : state.passes mgr → ∃ own old new, core.pc mgr = .switch own old new)
    (steps : Steps state.core mgr (state.reading mgr contended) core) :
    Exclusive { state with core, setting := update state.setting mgr (state.passes mgr) }
      (counted.record (state, .tick mgr contended)) := by
  obtain ⟨alone, stays⟩ := Bool.and_eq_true_iff.mp allowed
  cases passes : state.passes mgr with
  | true =>
    have unlocked : state.lockUsing ≠ 1 := by
      simp only [State.passes, Bool.and_eq_true, decide_eq_true_eq] at passes
      exact passes.2
    simp only [Periods.record, passes, if_true]
    exact holds.pass unlocked (of_decide_eq_true alone passes) (passed passes)
  | false =>
    simp only [Periods.record, passes]
    refine holds.move idle steps ?_
    intro closed own old new point
    rw [point] at stays
    exact of_decide_eq_true stays closed

theorem Exclusive.set (setting : state.setting mgr) :
    Exclusive { state with
      lockUsing := 1
      setting := update state.setting mgr false
      lockedFor := state.target mgr }
      { counted with sets := counted.sets ++ [counted.tested mgr] } := by
  obtain ⟨unlocked, tested, own, old, new, busy⟩ := holds.pending mgr setting
  have none : ∀ other, update state.setting mgr false other ≠ true := by
    intro other theirs
    by_cases same : other = mgr
    · rw [same, update_self] at theirs
      cases theirs
    · rw [update_of_ne same] at theirs
      exact same (holds.sole other mgr theirs setting)
  exact {
    bounded := by
      intro set member
      rcases List.mem_append.mp member with earlier | last
      · exact holds.bounded set earlier
      · rw [List.mem_singleton.mp last, tested]
    distinct := by
      rw [← List.concat_eq_append, tested]
      exact holds.distinct.concat (holds.unset unlocked)
    unset := fun never => absurd rfl never
    pending := fun other theirs => absurd theirs (none other)
    sole := fun other _ theirs => absurd theirs (none other)
    placed := fun _ => ⟨new, target_switch busy, .inr ⟨mgr, target_switch busy⟩⟩ }

theorem Exclusive.initialise :
    Exclusive { state with lockUsing := 0, held := true, adding }
      (counted.record (state, .initialise mgr)) := by
  by_cases closed : state.lockUsing = 1
  · simp only [Periods.record, if_pos closed]
    exact {
      bounded := fun set member => (holds.bounded set member).trans (Nat.le_succ _)
      distinct := holds.distinct
      unset := fun _ member => Nat.not_succ_le_self _ (holds.bounded _ member)
      pending := fun other setting => absurd closed (holds.pending other setting).1
      sole := holds.sole
      placed := fun one => absurd one (show (0 : Int) ≠ 1 by decide) }
  · simp only [Periods.record, if_neg closed]
    exact {
      bounded := holds.bounded
      distinct := holds.distinct
      unset := fun _ => holds.unset closed
      pending := fun other setting =>
        ⟨show (0 : Int) ≠ 1 by decide, (holds.pending other setting).2⟩
      sole := holds.sole
      placed := fun one => absurd one (show (0 : Int) ≠ 1 by decide) }

theorem Exclusive.step (allowed : exclusive state action)
    (moved : Move (Runtime.visits n) state action after) :
    Exclusive after (counted.record (state, action)) := by
  cases moved with
  | @client mgr core op point steps =>
    refine { holds with pending := ?_, placed := ?_ }
    · intro other setting
      obtain ⟨unlocked, tested, own, old, new, busy⟩ := holds.pending other setting
      have different : other ≠ mgr := by
        intro same
        rw [same, point] at busy
        cases busy
      have unmoved := (steps ⟨0, 0, 0, false⟩).others other different
      exact ⟨unlocked, tested, own, old, new, unmoved.trans busy⟩
    · intro closed
      obtain ⟨fiber, locked, placed⟩ := holds.placed closed
      exact ⟨fiber, locked, placed.call point steps⟩
  | tick idle passed steps => exact holds.tick allowed idle passed steps
  | setLockStatus setting => exact holds.set setting
  | addLock | setLockStats | elapse => exact { holds with }
  | initialise => exact holds.initialise

end

theorem run_exclusive (run : (machine n).Run history state)
    (allowed : ∀ made ∈ history, exclusive made.1 made.2) :
    Exclusive state (periods history) := by
  refine run.invariant_of_allowed (fun state action => exclusive state action)
    (fun history state => Exclusive state (periods history)) ?_ ?_ allowed
  · intro state initial
    obtain ⟨main, clock, _, rfl⟩ := initial
    exact init_exclusive main clock
  · intro history before action after _ holds allowed stepped
    rw [periods_snoc]
    exact holds.step allowed (step_moves stepped)

/-- One call of `set_lock_status` comes from the tests made in one period, and while
`lock_using` is 1 the fiber it was made for is on a manager, or the manager has not
carried out the switch to it yet. -/
theorem gate_admits_one {history : List (State (Fin (n + 1)) × Action (Fin (n + 1)))}
    (run : (machine n).Run history state) (allowed : ∀ made ∈ history, exclusive made.1 made.2) :
    (periods history).sets.Nodup ∧ (state.lockUsing = 1 → ∃ fiber, state.lockedFor = some fiber ∧
        ((∃ mgr, state.core.currentFiber mgr = fiber) ∨ ∃ mgr, state.target mgr = some fiber)) := by
  have holds := run_exclusive run allowed
  exact ⟨holds.distinct, holds.placed⟩

end Runs

/-- The main thread waits, and its manager passes the gate with the fiber that it has
created and switches to it. -/
def admitted (main : Fin 1) : List (Action (Fin 1)) :=
  [.client main (.create 0), .client main (.park .setWaitLocation 0)] ++
    List.replicate 3 (.tick main false) ++ [.setLockStatus main] ++
      List.replicate 11 (.tick main false)

theorem gate_admits_one_admitted : ∃ history state, (machine 0).Run history state ∧
    (periods history).sets = [0] ∧ state.lockUsing = 1 ∧ (∃ fiber, state.lockedFor = some fiber ∧
        ((∃ mgr, state.core.currentFiber mgr = fiber) ∨ ∃ mgr, state.target mgr = some fiber)) ∧
      state.core.currentFiber 0 = .user 0 := by
  have run := Machine.run_of_isSome (show (machine 0).initial (init 0 ⟨5, 0⟩) from ⟨0, _, rfl, rfl⟩)
    (show ((machine 0).exec (init 0 ⟨5, 0⟩) (admitted 0)).isSome by decide +kernel)
  refine ⟨_, _, run, by decide +kernel, by decide +kernel, ?_, by decide +kernel⟩
  exact (gate_admits_one run (by decide +kernel)).2 (by decide +kernel)

/-- A fiber that the second manager's thread has stolen yields there. -/
def overlapping (main other : Fin 2) : List (Action (Fin 2)) :=
  [.client main (.create 0), .client main (.create 1), .client main (.create 2),
    .client main (.create 3)] ++ List.replicate 23 (.tick other false) ++
    [.client other .yield, .tick other false, .tick other false,
      .client main .yield, .tick main false, .tick main false,
      .tick main false, .tick other false, .setLockStatus main, .setLockStatus other]

/-- Both managers test before either sets; and the fiber that was let through waits
while `lock_using` stays 1. -/
theorem gate_admits_one_overlapping :
    (∃ history state, (machine 1).Run history state ∧ (periods history).sets = [0, 0]) ∧
    ∃ history state, (machine 0).Run history state ∧ state.lockUsing = 1 ∧
      state.lockedFor = some (.user 0) ∧
      ∀ mgr, state.core.currentFiber mgr ≠ .user 0 ∧ state.target mgr ≠ some (.user 0) := by
  have both := Machine.run_of_isSome
    (show (machine 1).initial (init 0 ⟨5, 0⟩) from ⟨0, _, rfl, rfl⟩)
    (show ((machine 1).exec (init 0 ⟨5, 0⟩) (overlapping 0 1)).isSome by decide +kernel)
  have left := Machine.run_of_isSome
    (show (machine 0).initial (init 0 ⟨5, 0⟩) from ⟨0, _, rfl, rfl⟩)
    (show ((machine 0).exec (init 0 ⟨5, 0⟩) (admitted 0 ++ [.client 0 (.park .setWaitLocation 1),
      .tick 0 false, .tick 0 false, .tick 0 false])).isSome by decide +kernel)
  exact ⟨⟨_, _, both, by decide +kernel⟩, _, _, left, by decide +kernel⟩

end LibFiber.Gate
