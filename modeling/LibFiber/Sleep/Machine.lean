import LibFiber.Refusal
import LibFiber.Sleep.Tree
import Mathlib.Algebra.Group.Nat.Defs

namespace LibFiber.Sleep

open Semantics Function

/-! `fiber_sleep` and `fiber_event_wake_sleepers`.

A step of the manager that wakes is one access to an element, with the whole search
for the next one under `sleep_spinlock` as one step.  It holds the lock unless it is
`idle`.  A sleeper's critical section is one step too: it ends behind the switch away
from the sleeper, with the unlock in the maintenance.  What a fiber does with its own
stack it does without the lock.  The yield of `fiber_sleep` is granted in `machine`
and may be refused in `refusing`.
-/

inductive FiberPhase (Addr : Type) where
  | running
  /-- In `fiber_sleep` with `wake_info` initialised, about to take the lock. -/
  | entering (wakeInfo : Addr) (sleepMs : Nat)
  | asleep (wakeInfo : Addr)
  /-- In some manager's queue. -/
  | ready
deriving DecidableEq, Repr

/-- Where `fiber_event_wake_sleepers` is. -/
inductive WakerPhase (Addr : Type) where
  | idle
  /-- About to call `waiter_remove_less_than`. -/
  | removing
  /-- About to schedule the waiter of the element. -/
  | scheduling (toWake : Addr)
  /-- Its waiter is scheduled; about to read its `next`. -/
  | reading (toWake : Addr)
deriving DecidableEq, Repr

structure State (Fiber Addr : Type) where
  element : Addr → Element Fiber Addr
  sleepers : Tree Addr
  timerTriggerCount : Nat
  waker : WakerPhase Addr
  fiber : Fiber → FiberPhase Addr

inductive Action (Fiber Addr : Type) where
  | sleep (fiber : Fiber) (wakeInfo : Addr) (seconds useconds : Nat)
  | enter (fiber : Fiber)
  /-- A manager takes the fiber out of its own queue or another's. -/
  | resume (fiber : Fiber)
  /-- The fiber uses a part of its stack for something else. -/
  | scribble (addr : Addr) (fiber : Option Fiber) (wakeTime : Nat) (next : Option Addr)
  | wake (triggerCount : Nat)
  | moveWaker
deriving DecidableEq, Repr

/-- The arithmetic is on `uint32_t`. -/
def sleepMs (seconds useconds : Nat) : Nat :=
  (seconds * 1000 + useconds / 1000 + 1) % 2 ^ 32

def init {Fiber Addr : Type} (element : Addr → Element Fiber Addr) : State Fiber Addr where
  element
  sleepers := .leaf
  timerTriggerCount := 0
  waker := .idle
  fiber := fun _ => .running

section Steps

variable {Fiber Addr : Type} [DecidableEq Fiber] [DecidableEq Addr]

omit [DecidableEq Fiber] in
/-- `wake_info.wake_time = wake_time;` -/
def State.timed (state : State Fiber Addr) (wakeInfo : Addr) (sleepMs : Nat) :
    Addr → Element Fiber Addr :=
  let wakeTime := (state.timerTriggerCount + sleepMs) % 2 ^ 64
  update state.element wakeInfo { state.element wakeInfo with wakeTime }

/-- `fiber_sleep` behind `fiber_spinlock_lock`. -/
def enter (state : State Fiber Addr) (fiber : Fiber) (wakeInfo : Addr) (sleepMs : Nat) :
    State Fiber Addr :=
  let inserted := waiterInsert (state.timed wakeInfo sleepMs) wakeInfo state.sleepers
  { state with
    element := update inserted.2 wakeInfo { inserted.2 wakeInfo with waiter := some fiber }
    sleepers := inserted.1
    fiber := update state.fiber fiber (.asleep wakeInfo) }

/-- `fiber_event_wake_sleepers` behind `fiber_spinlock_lock`. -/
def moveWaker (state : State Fiber Addr) : Option (State Fiber Addr) :=
  match state.waker with
  | .idle => none
  | .removing =>
    match waiterRemoveLessThan state.element state.timerTriggerCount state.sleepers with
    | some (toWake, sleepers) => some { state with sleepers, waker := .scheduling toWake }
    | none => some { state with waker := .idle }
  | .scheduling toWake =>
    match (state.element toWake).waiter with
    | some toSchedule =>
      some { state with
        waker := .reading toWake
        fiber := update state.fiber toSchedule .ready }
    | none => none
  | .reading toWake =>
    match (state.element toWake).next with
    | some next => some { state with waker := .scheduling next }
    | none => some { state with waker := .removing }

/-- Whether the fiber whose stack it is can write there: not while it sleeps or waits
in a queue, and not over the `wake_info` it is about to use. -/
def State.writable (state : State Fiber Addr) (stack : Addr → Fiber) (addr : Addr) : Bool :=
  match state.fiber (stack addr) with
  | .running => true
  | .entering wakeInfo _ => wakeInfo != addr
  | .asleep _ | .ready => false

/-- `stack` tells on whose stack an address lies. -/
def step (stack : Addr → Fiber) (state : State Fiber Addr) :
    Action Fiber Addr → Option (State Fiber Addr)
  | .sleep fiber wakeInfo seconds useconds =>
    if state.fiber fiber = .running ∧ stack wakeInfo = fiber then
      some { state with
        element := update state.element wakeInfo ⟨0, none, none⟩
        fiber := update state.fiber fiber (.entering wakeInfo (sleepMs seconds useconds)) }
    else none
  | .enter fiber =>
    match state.fiber fiber with
    | .entering wakeInfo sleepMs =>
      if state.waker = .idle then some (enter state fiber wakeInfo sleepMs) else none
    | _ => none
  | .resume fiber =>
    if state.fiber fiber = .ready then
      some { state with fiber := update state.fiber fiber .running }
    else none
  | .scribble addr fiber wakeTime next =>
    if state.writable stack addr = true then
      some { state with element := update state.element addr ⟨wakeTime, fiber, next⟩ }
    else none
  | .wake triggerCount =>
    if state.waker = .idle then
      some { state with
        timerTriggerCount := (state.timerTriggerCount + triggerCount) % 2 ^ 64
        waker := .removing }
    else none
  | .moveWaker => moveWaker state

end Steps

def machine {Fiber Addr : Type} [DecidableEq Fiber] [DecidableEq Addr] (stack : Addr → Fiber) :
    Machine (State Fiber Addr) (Action Fiber Addr) where
  initial state := ∃ element, state = init element
  step := step stack

/-- What refused yields of `fiber_sleep` have left behind. -/
structure Pending (Fiber : Type) where
  /-- `sleep_spinlock` is held until the next switch of the manager. -/
  locked : Bool
  /-- The fiber is in some manager's queue, whatever else it does. -/
  queued : Fiber → Bool

def Action.locks {Fiber Addr : Type} : Action Fiber Addr → Bool
  | .enter _ | .wake _ => true
  | .sleep _ _ _ _ | .resume _ | .scribble _ _ _ _ | .moveWaker => false

/-- A sleeper whose yield is refused is scheduled at once and returns, with its
element in the tree and the lock not yet given back. -/
def fault {Fiber Addr : Type} [DecidableEq Fiber] [DecidableEq Addr] (state : State Fiber Addr)
    (left : Pending Fiber) : Refusal Fiber → Option (State Fiber Addr × Pending Fiber)
  | .refuse fiber =>
    match state.fiber fiber with
    | .entering wakeInfo sleepMs =>
      if state.waker = .idle ∧ left.locked = false then
        some ({ enter state fiber wakeInfo sleepMs with
            fiber := update state.fiber fiber .running },
          ⟨true, update left.queued fiber true⟩)
      else none
    | _ => none
  | .maintain _ => if left.locked = true then some (state, ⟨false, left.queued⟩) else none
  | .resume fiber =>
    match state.fiber fiber with
    | .asleep _ =>
      if left.queued fiber = true then
        some ({ state with fiber := update state.fiber fiber .running },
          ⟨left.locked, update left.queued fiber false⟩)
      else none
    | _ => none

def faults (Fiber Addr : Type) [DecidableEq Fiber] [DecidableEq Addr] :
    Faults (State Fiber Addr) (Action Fiber Addr) (Pending Fiber) (Refusal Fiber) where
  nothing := ⟨false, fun _ => false⟩
  ordinary _ left action := if (left.locked && action.locks) = true then none else some left
  fault := fault
  quiet := by simp

def refusing {Fiber Addr : Type} [DecidableEq Fiber] [DecidableEq Addr] (stack : Addr → Fiber) :=
  (machine stack).withFaults (faults Fiber Addr)

abbrev History (Fiber Addr : Type) := List (State Fiber Addr × Action Fiber Addr)

inductive Move {Fiber Addr : Type} [DecidableEq Fiber] [DecidableEq Addr] (stack : Addr → Fiber)
    (state : State Fiber Addr) : Action Fiber Addr → State Fiber Addr → Prop where
  | sleep : state.fiber fiber = .running → stack wakeInfo = fiber →
      Move stack state (.sleep fiber wakeInfo seconds useconds)
        { state with
          element := update state.element wakeInfo ⟨0, none, none⟩
          fiber := update state.fiber fiber (.entering wakeInfo (sleepMs seconds useconds)) }
  | enter {fiber : Fiber} {wakeInfo : Addr} {sleepMs : Nat} :
      state.fiber fiber = .entering wakeInfo sleepMs → state.waker = .idle →
      Move stack state (.enter fiber) (enter state fiber wakeInfo sleepMs)
  | resume : state.fiber fiber = .ready →
      Move stack state (.resume fiber)
        { state with fiber := update state.fiber fiber .running }
  | scribble : state.writable stack addr →
      Move stack state (.scribble addr fiber wakeTime next)
        { state with element := update state.element addr ⟨wakeTime, fiber, next⟩ }
  | wake : state.waker = .idle →
      Move stack state (.wake triggerCount)
        { state with
          timerTriggerCount := (state.timerTriggerCount + triggerCount) % 2 ^ 64
          waker := .removing }
  | remove : state.waker = .removing →
      waiterRemoveLessThan state.element state.timerTriggerCount state.sleepers =
        some (toWake, sleepers) →
      Move stack state .moveWaker { state with sleepers, waker := .scheduling toWake }
  | finish : state.waker = .removing →
      waiterRemoveLessThan state.element state.timerTriggerCount state.sleepers = none →
      Move stack state .moveWaker { state with waker := .idle }
  | schedule : state.waker = .scheduling toWake →
      (state.element toWake).waiter = some toSchedule →
      Move stack state .moveWaker
        { state with
          waker := .reading toWake
          fiber := update state.fiber toSchedule .ready }
  | next : state.waker = .reading toWake →
      (state.element toWake).next = some next →
      Move stack state .moveWaker { state with waker := .scheduling next }
  | last : state.waker = .reading toWake →
      (state.element toWake).next = none →
      Move stack state .moveWaker { state with waker := .removing }

section Moves

variable {Fiber Addr : Type} [DecidableEq Fiber] [DecidableEq Addr]
variable {after : State Fiber Addr}

attribute [local grind intro] Move

theorem moveWaker_moves (stepped : moveWaker state = some after) :
    Move stack state .moveWaker after := by
  cases waker : state.waker <;> simp only [moveWaker, waker, reduceCtorEq] at stepped
  all_goals grind

theorem step_moves {action : Action Fiber Addr} (stepped : step stack state action = some after) :
    Move stack state action after := by
  cases action with
  | moveWaker => exact moveWaker_moves stepped
  | sleep | enter | resume | scribble | wake =>
    simp only [step] at stepped
    grind

end Moves

end LibFiber.Sleep
