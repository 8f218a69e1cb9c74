import LibFiber.Data.LinkedFifo
import LibFiber.Scheduler
import LibFiber.Semantics.Machine

namespace LibFiber.Publish

open Data Semantics Function

/-! The wait path that publishes a fiber before its context is saved.

`fiber_manager_wait_in_mpsc_queue` makes the fiber visible to wakers first and
swaps its context away afterwards.  Any number of managers are interleaved at
every read and write of a fiber's state, so that the waker's test and store,
the maintenance's test and store and the scheduler's test all race.
-/

inductive Pc (Queue α : Type) where
  | run
  /-- `mpsc_fifo_push`, first half. -/
  | exchange (queue : Queue)
  | link (queue : Queue)
  /-- Inside `fiber_scheduler_next`. -/
  | next
  | scan
  | test (fiber : α)
  | store (fiber : α)
  /-- `fiber_manager_switch_to`; `none` is the manager's maintenance fiber. -/
  | switch (target : Option α)
  | swap (target : Option α)
  /-- Inside `fiber_manager_do_maintenance`. -/
  | settle
  | save (fiber : α)
  | reschedule
  /-- Inside `fiber_manager_wake_from_mpsc_queue`, with a popped fiber. -/
  | wakeTest (fiber : α)
  | wakeSet (fiber : α)
  | schedule (fiber : α)
  /-- Inside `fiber_scheduler_load_balance`, with a stolen fiber. -/
  | stash (fiber : α)
deriving DecidableEq, Repr

structure State (Mgr Queue α : Type) where
  created : α → Bool
  fiberState : α → FiberState
  /-- Whose stack the manager's thread is on; `none` is its maintenance fiber. -/
  exec : Mgr → Option α
  oldFiber : Mgr → Option α
  toSchedule : Mgr → Option α
  pc : Mgr → Pc Queue α
  scheduler : Mgr → Scheduler α
  waiters : Queue → LinkedFifo α

inductive Action (Mgr Queue α : Type) where
  | create (mgr : Mgr) (fiber : α)
  | wait (mgr : Mgr) (queue : Queue)
  | yield (mgr : Mgr)
  | wake (mgr : Mgr) (queue : Queue)
  | steal (mgr victim : Mgr) (side : Bool)
  | tick (mgr : Mgr)
deriving DecidableEq, Repr

variable {Mgr Queue α : Type} [DecidableEq Mgr] [DecidableEq Queue] [DecidableEq α]

/-- The main thread runs its own fiber, every other one its maintenance loop. -/
def init (main : Mgr) (thread : α) : State Mgr Queue α where
  created := fun fiber => decide (fiber = thread)
  fiberState := fun fiber => if fiber = thread then .running else .ready
  exec := fun mgr => if mgr = main then some thread else none
  oldFiber := fun _ => none
  toSchedule := fun _ => none
  pc := fun _ => .run
  scheduler := fun _ => .init
  waiters := fun _ => .empty

def State.goto (state : State Mgr Queue α) (mgr : Mgr) (pc : Pc Queue α) : State Mgr Queue α :=
  { state with pc := update state.pc mgr pc }

def State.enqueue (state : State Mgr Queue α) (mgr : Mgr) (fiber : α) : State Mgr Queue α :=
  { state with
    scheduler := update state.scheduler mgr ((state.scheduler mgr).schedule fiber)
    pc := update state.pc mgr .run }

/-- The end of `fiber_scheduler_next` without a fiber: a fiber that called it
to wait goes to the maintenance fiber, everybody else carries on. -/
def State.exhausted (state : State Mgr Queue α) (mgr : Mgr) : Pc Queue α :=
  match state.exec mgr with
  | none => .run
  | some fiber => if state.fiberState fiber = .running then .run else .switch none

def scan (state : State Mgr Queue α) (mgr : Mgr) : State Mgr Queue α :=
  match (state.scheduler mgr).popBottom with
  | none => state.goto mgr (state.exhausted mgr)
  | some (fiber, rest) =>
    { state with
      scheduler := update state.scheduler mgr rest
      pc := update state.pc mgr (.test fiber) }

/-- The fiber that `fiber_manager_switch_to` leaves while it is running, which
makes it ready and stores it in `to_schedule`. -/
def State.leaving (state : State Mgr Queue α) (mgr : Mgr) : Option α :=
  (state.exec mgr).filter fun fiber => state.fiberState fiber = .running

def switchTo (state : State Mgr Queue α) (mgr : Mgr) (target : Option α) : State Mgr Queue α :=
  { state with
    fiberState := fun fiber =>
      if target = some fiber then .running
      else if state.leaving mgr = some fiber then .ready
      else state.fiberState fiber
    toSchedule := update state.toSchedule mgr ((state.leaving mgr).or (state.toSchedule mgr))
    oldFiber := update state.oldFiber mgr (state.exec mgr)
    pc := update state.pc mgr (.swap target) }

/-- `fiber_manager_do_maintenance`, the test of `old_fiber`. -/
def settle (state : State Mgr Queue α) (mgr : Mgr) : Pc Queue α :=
  match state.oldFiber mgr with
  | none => .reschedule
  | some fiber => if state.fiberState fiber = .saving then .save fiber else .reschedule

def reschedule (state : State Mgr Queue α) (mgr : Mgr) : State Mgr Queue α :=
  match state.toSchedule mgr with
  | none => state.goto mgr .run
  | some fiber =>
    { state.enqueue mgr fiber with toSchedule := update state.toSchedule mgr none }

def tick (state : State Mgr Queue α) (mgr : Mgr) : Option (State Mgr Queue α) :=
  match state.pc mgr with
  | .run =>
    match state.exec mgr with
    | none => some (state.goto mgr .next)
    | some _ => none
  | .exchange queue =>
    match state.exec mgr with
    | none => none
    | some fiber =>
      some { state with
        waiters := update state.waiters queue ((state.waiters queue).exchange fiber)
        pc := update state.pc mgr (.link queue) }
  | .link queue =>
    match state.exec mgr with
    | none => none
    | some fiber =>
      some { state with
        waiters := update state.waiters queue ((state.waiters queue).link fiber)
        pc := update state.pc mgr .next }
  | .next =>
    some { state with
      scheduler := update state.scheduler mgr (state.scheduler mgr).exchange
      pc := update state.pc mgr .scan }
  | .scan => some (scan state mgr)
  | .test fiber =>
    some (state.goto mgr
      (if state.fiberState fiber = .saving then .store fiber else .switch (some fiber)))
  | .store fiber =>
    some { state with
      scheduler := update state.scheduler mgr ((state.scheduler mgr).store fiber)
      pc := update state.pc mgr .scan }
  | .switch target => some (switchTo state mgr target)
  | .swap target =>
    some { state with
      exec := update state.exec mgr target
      pc := update state.pc mgr .settle }
  | .settle => some (state.goto mgr (settle state mgr))
  | .save fiber =>
    some { state with
      fiberState := update state.fiberState fiber .waiting
      pc := update state.pc mgr .reschedule }
  | .reschedule => some (reschedule state mgr)
  | .wakeTest fiber =>
    some (state.goto mgr
      (if state.fiberState fiber = .waiting then .wakeSet fiber else .schedule fiber))
  | .wakeSet fiber =>
    some { state with
      fiberState := update state.fiberState fiber .ready
      pc := update state.pc mgr (.schedule fiber) }
  | .schedule fiber => some (state.enqueue mgr fiber)
  | .stash fiber => some (state.enqueue mgr fiber)

/-- A fiber's own calls are made by the running fiber while its manager is in
none of the others. -/
def State.client (state : State Mgr Queue α) (mgr : Mgr) : Option α :=
  if state.pc mgr = .run then state.exec mgr else none

def step (state : State Mgr Queue α) : Action Mgr Queue α → Option (State Mgr Queue α)
  | .create mgr fiber =>
    if (state.client mgr).isSome ∧ state.created fiber = false then
      some { state.enqueue mgr fiber with
        created := update state.created fiber true
        fiberState := update state.fiberState fiber .ready }
    else none
  | .wait mgr queue =>
    (state.client mgr).map fun fiber =>
      { state with
        fiberState := update state.fiberState fiber .saving
        pc := update state.pc mgr (.exchange queue) }
  | .yield mgr => (state.client mgr).map fun _ => state.goto mgr .next
  | .wake mgr queue =>
    (state.client mgr).bind fun _ =>
      (state.waiters queue).trypop.map fun popped =>
        { state with
          waiters := update state.waiters queue popped.2
          pc := update state.pc mgr (.wakeTest popped.1) }
  | .steal mgr victim side =>
    if state.pc mgr = .run ∧ victim ≠ mgr then
      ((state.scheduler victim).steal side).map fun stolen =>
        { state with
          scheduler := update state.scheduler victim stolen.2
          pc := update state.pc mgr (.stash stolen.1) }
    else none
  | .tick mgr => tick state mgr

def machine (Mgr Queue α : Type) [DecidableEq Mgr] [DecidableEq Queue] [DecidableEq α] :
    Machine (State Mgr Queue α) (Action Mgr Queue α) where
  initial state := ∃ main thread, state = init main thread
  step := step

end LibFiber.Publish
