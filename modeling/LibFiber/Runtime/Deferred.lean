import LibFiber.Runtime.Conservation

namespace LibFiber.Runtime

open Data Semantics Function

variable {Mgr : Type} [DecidableEq Mgr] {own : Mgr} {state : State Mgr}
variable {place : Fiber Mgr → Place Mgr}
variable {visits : Mgr → List (Mgr × Bool)}

/-! The work that fibers leave to the maintenance. -/

/-- The field a step fills, and the fiber that does so. -/
def recorded (state : State Mgr) : Action Mgr → Option (Slot × Fiber Mgr)
  | .client mgr (.waitAndUnlock _ _) => some (.mutexToUnlock, state.exec mgr)
  | .client mgr (.park slot _) => some (slot, state.exec mgr)
  | .client mgr .finish => some (.doneFiber, state.exec mgr)
  | .client _ _ => none
  | .tick mgr _ =>
    match state.pc mgr with
    | .switch _ old _ =>
      if state.fiberState old = .running then some (.toSchedule, old) else none
    | _ => none

/-- The field whose work a step of `fiber_manager_do_maintenance` does. -/
def executed (state : State Mgr) : Action Mgr → Option (Slot × Deferred Mgr)
  | .client _ _ => none
  | .tick mgr _ =>
    match state.pc mgr, state.stack (state.exec mgr) with
    | .run, .maintenance own (slot :: _) :: _ => (state.slots (own, slot)).map (slot, ·)
    | _, _ => none

def isRecord (fiber : Fiber Mgr) (slot : Slot) (state : State Mgr) (action : Action Mgr) : Bool :=
  recorded state action = some (slot, fiber)

def isExecution (fiber : Fiber Mgr) (slot : Slot) (state : State Mgr) (action : Action Mgr) :
    Bool :=
  (executed state action).any fun work => work.1 = slot && work.2.fiber = fiber

/-- How many managers still have work of `fiber` in their field. -/
def pending [Fintype Mgr] (fiber : Fiber Mgr) (slot : Slot) (state : State Mgr) : Nat :=
  total (fun field : Option (Deferred Mgr) => (field.any (·.fiber = fiber)).toNat)
    fun mgr => state.slots (mgr, slot)

omit [DecidableEq Mgr] in
theorem executed_swapped
    (invariant : Invariant state place) (done : executed state (.tick mgr reading) = some work) :
    work.2.swapped := by
  simp only [executed] at done
  split at done
  · rename_i own slot rest below point top
    obtain ⟨deferred, found, rfl⟩ := Option.map_eq_some_iff.mp done
    obtain ⟨rfl, _⟩ := invariant.maintaining top
    have sound := (invariant.managers own).sound
    rw [point] at sound
    have running := (invariant.running sound.1).2
    have := (invariant.managers own).pending slot deferred found
    grind
  · cases done

theorem unlock_slots (mutex : Nat) : (unlockInternal state mgr mutex).slots = state.slots := by
  unfold unlockInternal
  simp only
  split <;> rfl

theorem perform_slots (slot : Slot) (deferred : Deferred Mgr) :
    (perform state mgr own slot deferred).slots = state.slots := by
  cases carries : deferred.carries <;> cases slot <;>
    simp [perform, carries, Slot.wait, unlock_slots] <;> rfl

theorem exhausted_slots (caller : Caller Mgr) :
    (exhausted visits state mgr own caller).slots = state.slots := by
  cases caller with
  | thread => rfl
  | yield current st =>
    simp only [exhausted]
    split
    · unfold retreat
      split <;> rfl
    · exact (trySteal_frame _ _ _ _ _).2

theorem resumeTop_slots (top : state.stack (state.exec mgr) = frame :: below)
    (other : ∀ own rest, frame ≠ .maintenance own rest)
    (stepped : resumeTop visits state mgr reading = some after) : after.slots = state.slots := by
  cases frame with
  | maintenance own rest => exact absurd rfl (other own rest)
  | deadEnd => simp [resumeTop, top] at stepped
  | settle own =>
    simp only [resumeTop, top, settle] at stepped
    cases stepped
    split <;> rfl
  | wakeLoop queue count wakeCount =>
    simp only [resumeTop, top, wakeRound] at stepped
    cases stepped
    split
    · rfl
    · split <;> rfl
  | clearLoop address =>
    simp only [resumeTop, top, clearRound] at stepped
    cases stepped
    split <;> rfl
  | _ =>
    simp only [resumeTop, top] at stepped
    cases stepped
    rfl

section Fields

variable [Fintype Mgr]

theorem pending_congr (same : after.slots = state.slots) :
    pending fiber slot after = pending fiber slot state := by
  rw [pending, pending, same]

theorem pending_update (slots : after.slots = update state.slots (mgr, field) value) :
    pending fiber slot after + (decide (field = slot) &&
        (state.slots (mgr, field)).any (·.fiber = fiber)).toNat =
      pending fiber slot state + (decide (field = slot) && value.any (·.fiber = fiber)).toNat := by
  unfold pending
  rw [slots]
  by_cases same : field = slot
  · subst same
    have moved := total_update
      (fun field : Option (Deferred Mgr) => (field.any (·.fiber = fiber)).toNat)
      (fun mgr => state.slots (mgr, field)) mgr value
    have updated : (fun own => update state.slots (mgr, field) value (own, field)) =
        update (fun own => state.slots (own, field)) mgr value := by
      funext own
      by_cases here : own = mgr <;> simp [here]
    simpa [updated] using moved
  · simp [same, Ne.symm same]

theorem pending_swap (old new : Fiber Mgr) :
    pending fiber slot (swap state mgr old new) = pending fiber slot state := by
  simp only [pending, swap, total, Option.any_map]
  rfl

/-- A step neither loses nor repeats the work in the fields. -/
def Balanced (fiber : Fiber Mgr) (slot : Slot) (state : State Mgr) (action : Action Mgr)
    (after : State Mgr) : Prop :=
  (isRecord fiber slot state action).toNat + pending fiber slot state =
    (isExecution fiber slot state action).toNat + pending fiber slot after

theorem balanced_quiet (record : recorded state action = none)
    (execution : executed state action = none)
    (same : pending fiber slot after = pending fiber slot state) :
    Balanced fiber slot state action after := by
  simp [Balanced, isRecord, isExecution, record, execution, same]

theorem balanced_record (record : recorded state action = some (field, deferred.fiber))
    (execution : executed state action = none) (vacant : state.slots (mgr, field) = none)
    (slots : after.slots = update state.slots (mgr, field) (some deferred)) :
    Balanced fiber slot state action after := by
  have counted : pending fiber slot after + _ = pending fiber slot state + _ := pending_update slots
  have recording : isRecord fiber slot state action =
      (decide (field = slot) && decide (deferred.fiber = fiber)) := by
    simp [isRecord, record]
  have idle : isExecution fiber slot state action = false := by simp [isExecution, execution]
  simp only [vacant, Option.any_none, Option.any_some, Bool.and_false, Bool.toNat_false]
    at counted
  rw [Balanced, recording, idle, Bool.toNat_false]
  omega

theorem balanced_execution (record : recorded state action = none)
    (execution : executed state action = some (field, deferred))
    (found : state.slots (mgr, field) = some deferred)
    (slots : after.slots = update state.slots (mgr, field) none) :
    Balanced fiber slot state action after := by
  have counted : pending fiber slot after + _ = pending fiber slot state + _ := pending_update slots
  have executing : isExecution fiber slot state action =
      (decide (field = slot) && decide (deferred.fiber = fiber)) := by
    simp [isExecution, execution]
  have idle : isRecord fiber slot state action = false := by simp [isRecord, record]
  simp only [found, Option.any_none, Option.any_some, Bool.and_false, Bool.toNat_false]
    at counted
  rw [Balanced, executing, idle, Bool.toNat_false]
  omega

theorem resumeTop_balanced (point : state.pc mgr = .run)
    (stepped : resumeTop visits state mgr reading = some after) :
    Balanced fiber slot state (.tick mgr reading) after := by
  have record : recorded state (.tick mgr reading) = none := by simp [recorded, point]
  cases top : state.stack (state.exec mgr) with
  | nil => simp [resumeTop, top] at stepped
  | cons frame below =>
    cases frame with
    | maintenance own rest =>
      cases rest with
      | nil =>
        simp only [resumeTop, top] at stepped
        cases stepped
        exact balanced_quiet record (by simp [executed, point, top]) (pending_congr rfl)
      | cons field rest =>
        simp only [resumeTop, top, maintain] at stepped
        cases stepped
        cases found : state.slots (own, field) with
        | none =>
          exact balanced_quiet record (by simp [executed, point, top, found]) (pending_congr rfl)
        | some deferred =>
          exact balanced_execution record (by simp [executed, point, top, found]) found
            (perform_slots _ _)
    | _ =>
      exact balanced_quiet record (by simp [executed, point, top])
        (pending_congr (resumeTop_slots top (by simp) stepped))

section

variable (invariant : Invariant state place)
include invariant

theorem switchTo_balanced (point : state.pc mgr = .switch own old new)
    (execution : executed state (.tick mgr reading) = none) :
    Balanced fiber slot state (.tick mgr reading) (switchTo state mgr own old new) := by
  obtain ⟨rfl, rfl, _⟩ := invariant.sound point
  by_cases running : state.fiberState (state.exec own) = .running
  · have slots : (switchTo state own own (state.exec own) new).slots =
        update state.slots (own, .toSchedule) (some ⟨0, state.exec own, true, false⟩) := by
      simp [switchTo, running]
    exact balanced_record (by simp [recorded, point, running]) execution
      (toSchedule_vacant invariant point running) slots
  · have slots : (switchTo state own own (state.exec own) new).slots = state.slots := by
      simp [switchTo, running]
    exact balanced_quiet (by simp [recorded, point, running]) execution (pending_congr slots)

theorem tick_balanced (stepped : tick visits state mgr reading = some after) :
    Balanced fiber slot state (.tick mgr reading) after := by
  by_cases running : state.pc mgr = .run
  · simp only [tick, running] at stepped
    exact resumeTop_balanced running stepped
  · have execution : executed state (.tick mgr reading) = none := by
      simp only [executed]
      split
      · rename_i point _
        exact absurd point running
      · rfl
    cases point : state.pc mgr with
    | run => exact absurd point running
    | scan own caller =>
      simp only [tick, point, scan] at stepped
      cases stepped
      refine balanced_quiet (by simp [recorded, point]) execution (pending_congr ?_)
      split
      · exact exhausted_slots caller
      · rfl
    | switch own old new =>
      simp only [tick, point] at stepped
      cases stepped
      exact switchTo_balanced invariant point execution
    | swap old new =>
      simp only [tick, point] at stepped
      cases stepped
      exact balanced_quiet (by simp [recorded, point]) execution (pending_swap old new)
    | _ =>
      refine balanced_quiet (by simp [recorded, point]) execution (pending_congr ?_)
      exact (tick_frame running (by simp [point]) (by simp [point]) (by simp [point]) stepped).2

theorem client_balanced
    (point : state.pc mgr = .run) (enabled : op.enabled (state.stack (state.exec mgr)))
    (called : call state mgr op = some after) :
    Balanced fiber slot state (.client mgr op) after := by
  have vacant : state.stack (state.exec mgr) = [] → ∀ slot, state.slots (mgr, slot) = none :=
    slots_eq_none invariant point
  cases op with
  | waitAndUnlock queue mutex =>
    cases called
    exact balanced_record (by rfl) rfl (vacant (by simpa [Op.enabled] using enabled) _) rfl
  | park field object =>
    simp only [call, Option.map_eq_some_iff] at called
    obtain ⟨_, _, rfl⟩ := called
    exact balanced_record (by rfl) rfl (vacant (by simpa [Op.enabled] using enabled) _) rfl
  | finish =>
    simp only [call] at called
    split at called
    · cases called
      exact balanced_record (by rfl) rfl (vacant (by simpa [Op.enabled] using enabled) _) rfl
    all_goals cases called
  | take wait =>
    simp only [call, take] at called
    split at called
    · cases called
    · cases called
      exact balanced_quiet rfl rfl (pending_congr rfl)
  | lock mutex =>
    cases called
    refine balanced_quiet rfl rfl (pending_congr ?_)
    split <;> rfl
  | unlock mutex =>
    cases called
    exact balanced_quiet rfl rfl (pending_congr (unlock_slots mutex))
  | create id =>
    simp only [call, Option.ite_none_left_eq_some, Option.some.injEq] at called
    obtain ⟨_, rfl⟩ := called
    exact balanced_quiet rfl rfl (pending_congr rfl)
  | _ =>
    cases called
    exact balanced_quiet rfl rfl (pending_congr rfl)

theorem step_balanced (stepped : step visits state action = some after) :
    Balanced fiber slot state action after := by
  cases action with
  | tick mgr reading => exact tick_balanced invariant stepped
  | client mgr op =>
    obtain ⟨⟨point, enabled⟩, called⟩ := Option.ite_none_right_eq_some.mp stepped
    exact client_balanced invariant point enabled called

end

end Fields

def records (fiber : Fiber Mgr) (slot : Slot) (history : List (State Mgr × Action Mgr)) : Nat :=
  history.countP fun taken => isRecord fiber slot taken.1 taken.2

def executions (fiber : Fiber Mgr) (slot : Slot) (history : List (State Mgr × Action Mgr)) : Nat :=
  history.countP fun taken => isExecution fiber slot taken.1 taken.2

theorem run_balanced (run : (machine n).Run history final)
    (ordered : ∀ taken ∈ history, orderly taken.1 taken.2) (fiber : Fiber (Fin (n + 1)))
    (slot : Slot) :
    records fiber slot history = executions fiber slot history + pending fiber slot final := by
  induction run with
  | start initial =>
    obtain rfl := initial
    simp [records, executions, pending, init, total]
  | @step history before after action run stepped ih =>
    obtain ⟨earlier, _⟩ := List.forall_mem_append.mp ordered
    obtain ⟨place, invariant, _⟩ := run_accounts run earlier
    have balance := ih earlier
    have now : Balanced fiber slot before action after := step_balanced invariant stepped
    simp only [Balanced, records, executions, countP_snoc] at balance now ⊢
    omega

theorem run_swapped (run : (machine n).Run history final)
    (ordered : ∀ taken ∈ history, orderly taken.1 taken.2)
    {taken : State (Fin (n + 1)) × Action (Fin (n + 1))} (member : taken ∈ history)
    {work : Slot × Deferred (Fin (n + 1))} (done : executed taken.1 taken.2 = some work) :
    work.2.swapped := by
  obtain ⟨earlier, within, run⟩ := run.run_of_mem member
  obtain ⟨place, invariant, _⟩ := run_accounts run fun taken member => ordered taken (within member)
  obtain ⟨before, action⟩ := taken
  cases action with
  | client mgr op => cases done
  | tick mgr reading => exact executed_swapped invariant done

/-- In every run whose steps are all orderly, the work that fibers leave in the
fields of their managers is done only after their context swaps, is done once
for each time it was recorded or still in a field, and between calls all of it
is done. -/
theorem deferred_once (run : (machine n).Run history final)
    (ordered : ∀ taken ∈ history, orderly taken.1 taken.2) :
    (∀ taken ∈ history, ∀ work, executed taken.1 taken.2 = some work → work.2.swapped) ∧
      (∀ fiber slot, records fiber slot history =
        executions fiber slot history + pending fiber slot final) ∧
      (Settled final → ∀ fiber slot, records fiber slot history =
        executions fiber slot history) := by
  refine ⟨fun taken member work => run_swapped run ordered member, run_balanced run ordered, ?_⟩
  intro settled fiber slot
  obtain ⟨place, invariant, _⟩ := run_accounts run ordered
  rw [run_balanced run ordered fiber slot]
  simp [pending, settled.slots invariant, total]

/-- The main thread waits and leaves a mutex to fiber 1 to unlock. -/
def unlocking (mgr : Fin 1) : List (Action (Fin 1)) :=
  [.client mgr (.create 1), .client mgr (.lock 9), .client mgr (.waitAndUnlock 7 9)] ++
    List.replicate 15 (.tick mgr unlocked)

theorem deferred_once_unlocking : ∃ history final,
    (machine 0).Run history final ∧ (∀ taken ∈ history, orderly taken.1 taken.2) ∧
      Settled final ∧ records (.thread 0) .mutexToUnlock history = 1 ∧
      executions (.thread 0) .mutexToUnlock history = 1 := by
  have run := Machine.run_of_isSome (show (machine 0).initial (init 0) from rfl)
    (show ((machine 0).exec (init 0) (unlocking 0)).isSome by decide +kernel)
  have ordered : ∀ taken ∈ (machine 0).trail (init 0) (unlocking 0), orderly taken.1 taken.2 :=
    List.all_eq_true.mp (by decide +kernel)
  have settled : Settled (((machine 0).exec (init 0) (unlocking 0)).get (by decide +kernel)) := by
    decide +kernel
  have recorded : records (.thread 0) .mutexToUnlock
      ((machine 0).trail (init 0) (unlocking 0)) = 1 := by
    decide +kernel
  exact ⟨_, _, run, ordered, settled, recorded,
    ((deferred_once run ordered).2.2 settled _ _).symm.trans recorded⟩

/-- Fiber 2 yields in the middle of its maintenance on manager 0, because the
waiter it has to wake has not pushed itself yet.  It is stolen and goes on on
manager 1, where it comes to the field that fiber 3 has filled on manager 0
before its context swap. -/
def migrated (owner thief : Fin 2) : List (Action (Fin 2)) :=
  [.client owner (.create 1), .client owner (.lock 9)] ++
    List.replicate 21 (.tick thief unlocked) ++
    [.client thief (.lock 9), .client owner (.create 3), .client owner (.create 2),
      .client owner (.waitAndUnlock 5 9)] ++
    List.replicate 27 (.tick owner unlocked) ++ [.client owner (.park .spinlockToUnlock 6)] ++
    List.replicate 38 (.tick thief unlocked)

theorem deferred_once_migrated : ∃ history final,
    (machine 1).Run history final ∧ ∃ taken ∈ history, ∃ work,
      executed taken.1 taken.2 = some (.spinlockToUnlock, work) ∧ work.fiber = .user 3 ∧
        work.swapped = false ∧ taken.1.exec 0 = .user 3 ∧ taken.1.exec 1 = .user 2 := by
  have run := Machine.run_of_isSome (show (machine 1).initial (init 0) from rfl)
    (show ((machine 1).exec (init 0) (migrated 0 1)).isSome by decide +kernel)
  have found : ((machine 1).trail (init 0) (migrated 0 1)).any (fun taken =>
      (executed taken.1 taken.2).any fun work => decide (work.1 = .spinlockToUnlock ∧
        work.2.fiber = .user 3 ∧ work.2.swapped = false ∧ taken.1.exec 0 = .user 3 ∧
        taken.1.exec 1 = .user 2)) := by
    decide +kernel
  obtain ⟨taken, member, done⟩ := List.any_eq_true.mp found
  obtain ⟨⟨slot, work⟩, executes, checked⟩ := (Option.any_eq_true _ _).mp done
  obtain ⟨rfl, fiber, unswapped, recorder, thief⟩ := of_decide_eq_true checked
  exact ⟨_, _, run, taken, member, work, executes, fiber, unswapped, recorder, thief⟩

end LibFiber.Runtime
