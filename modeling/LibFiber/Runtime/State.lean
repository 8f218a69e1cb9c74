import LibFiber.Scheduler

namespace LibFiber.Runtime

open Function

/-! The managers, their fibers and what is left to do on each fiber's stack. -/

inductive Fiber (Mgr : Type) where
  /-- `thread_fiber`, created from the manager's kernel thread. -/
  | thread (mgr : Mgr)
  /-- The maintenance fiber a manager creates when it needs one. -/
  | maintenance (mgr : Mgr)
  | user (id : Nat)
deriving DecidableEq, Repr

/-- The structures fibers wait in.  A fiber in a sleep list or a channel's list
is counted from the unlock on that makes it visible; a location has one waiter
at a time, as its callers arrange. -/
inductive Wait where
  | mpsc (queue : Nat)
  | mpmc (queue : Nat)
  | channel (mutex : Nat)
  | guarded (spinlock : Nat)
  | location (address : Nat)
deriving DecidableEq, Repr

/-- The fields in which a fiber leaves work for the fiber switched to, in the
order of `fiber_manager_do_maintenance`. -/
inductive Slot where
  | doneFiber
  | toSchedule
  | mpmcToPush
  | mpscToPush
  | mutexToUnlock
  | spinlockToUnlock
  | setWaitLocation
deriving DecidableEq, Repr

def Slot.all : List Slot :=
  [.doneFiber, .toSchedule, .mpmcToPush, .mpscToPush, .mutexToUnlock, .spinlockToUnlock,
    .setWaitLocation]

/-- The part of the maintenance that follows `fiber_mutex_unlock_internal`. -/
def Slot.late : List Slot := [.spinlockToUnlock, .setWaitLocation]

/-- Where the work makes a waiting fiber visible. -/
def Slot.wait (object : Nat) : Slot → Option Wait
  | .doneFiber | .toSchedule => none
  | .mpmcToPush => some (.mpmc object)
  | .mpscToPush => some (.mpsc object)
  | .mutexToUnlock => some (.channel object)
  | .spinlockToUnlock => some (.guarded object)
  | .setWaitLocation => some (.location object)

structure Deferred (Mgr : Type) where
  object : Nat
  /-- The fiber that recorded the work. -/
  fiber : Fiber Mgr
  /-- Whether the work also passes the recording fiber on.  It does not when a
  fiber in an mpsc queue records a mutex to unlock. -/
  carries : Bool
  /-- Whether the recording fiber's context swap is complete.  Nothing reads
  this field. -/
  swapped : Bool
deriving DecidableEq, Repr

/-- What a fiber goes on with when the call on top returns. -/
inductive Frame (Mgr : Type) where
  /-- The end of a wait, back in the fiber's own code. -/
  | waitEnd
  /-- Behind the last yield of `fiber_join_routine`. -/
  | deadEnd
  /-- In `fiber_manager_yield`, back from the maintenance fiber. -/
  | yieldLoop (current : Fiber Mgr)
  /-- In `fiber_manager_thread_func`. -/
  | threadLoop (own : Mgr)
  /-- In `fiber_manager_do_maintenance`, before the test of `old_fiber`. -/
  | settle (own : Mgr)
  | maintenance (own : Mgr) (rest : List Slot)
  /-- In `fiber_manager_wake_from_mpsc_queue`. -/
  | wakeLoop (queue : Nat) (count wakeCount : Int)
  /-- In `fiber_manager_clear_or_wait`. -/
  | clearLoop (address : Nat)
deriving DecidableEq, Repr

/-- On whose behalf `fiber_scheduler_next` or `_load_balance` runs. -/
inductive Caller (Mgr : Type) where
  /-- `fiber_manager_yield`, with its `current_fiber` and `state`. -/
  | yield (current : Fiber Mgr) (state : FiberState)
  | thread
deriving DecidableEq, Repr

/-- The variables of `fiber_scheduler_load_balance`: the remote queues still to
visit, the first of them being stolen from. -/
structure Balance (Mgr : Type) where
  visits : List (Mgr × Bool)
  localCount : Nat
  remoteCount : Nat
  maxSteal : Nat
deriving DecidableEq, Repr

/-- What a manager's thread does next. -/
inductive Pc (Mgr : Type) where
  /-- The top frame of the fiber it is on, or the fiber's own code. -/
  | run
  | publish (queue : Nat)
  /-- At the head of `fiber_manager_yield`'s loop. -/
  | yield (current : Fiber Mgr)
  | scan (own : Mgr) (caller : Caller Mgr)
  | test (own : Mgr) (caller : Caller Mgr) (fiber : Fiber Mgr)
  | switch (own : Mgr) (old new : Fiber Mgr)
  | swap (old new : Fiber Mgr)
  | balance (own : Mgr) (caller : Caller Mgr) (loop : Balance Mgr)
  | steal (own : Mgr) (caller : Caller Mgr) (loop : Balance Mgr)
  | stash (own : Mgr) (caller : Caller Mgr) (loop : Balance Mgr) (fiber : Fiber Mgr)
  | claim (wait : Wait) (fiber : Fiber Mgr)
deriving DecidableEq, Repr

structure State (Mgr : Type) where
  live : Fiber Mgr → Bool
  fiberState : Fiber Mgr → FiberState
  stack : Fiber Mgr → List (Frame Mgr)
  /-- Whose stack the manager's thread is on. -/
  exec : Mgr → Fiber Mgr
  pc : Mgr → Pc Mgr
  currentFiber : Mgr → Fiber Mgr
  oldFiber : Mgr → Fiber Mgr
  maintenanceFiber : Mgr → Option (Fiber Mgr)
  slots : Mgr × Slot → Option (Deferred Mgr)
  yieldCount : Mgr → Nat
  scheduler : Mgr → Scheduler (Fiber Mgr)
  waiters : Wait → List (Fiber Mgr)
  counter : Nat → Int

/-- What a step reads from outside: the clock, the ban of the fiber chosen,
`lock_using`, and whether a compare-and-swap or a pop fails under contention. -/
structure Reading where
  now : Nat
  bannedUntil : Nat
  lockUsing : Int
  contended : Bool
deriving DecidableEq, Repr

/-- The gate of `fiber_manager_yield`. -/
def Reading.opens (reading : Reading) : Bool :=
  reading.bannedUntil < reading.now && reading.lockUsing != 1

inductive Op where
  | yield
  /-- `fiber_manager_wait_in_mpsc_queue` -/
  | wait (queue : Nat)
  | waitAndUnlock (queue mutex : Nat)
  /-- A wait that leaves its own publication to the maintenance:
  `fiber_manager_wait_in_mpmc_queue`, `fiber_manager_set_and_wait`,
  `fiber_sleep`, `fiber_wait_for_event`, `fiber_multi_channel_internal_wait`. -/
  | park (slot : Slot) (object : Nat)
  /-- `fiber_manager_wake_from_mpsc_queue` -/
  | wake (queue : Nat) (count : Int)
  /-- Take one waiter out: a round of `fiber_manager_wake_from_mpmc_queue`, of
  the sleepers' or a channel's wake-up. -/
  | take (wait : Wait)
  /-- `fiber_manager_clear_or_wait` and the wake-up of what it returns. -/
  | clear (address : Nat)
  | lock (mutex : Nat)
  | unlock (mutex : Nat)
  | create (id : Nat)
  /-- `fiber_join_routine` -/
  | finish
deriving DecidableEq, Repr

inductive Action (Mgr : Type) where
  | client (mgr : Mgr) (op : Op)
  | tick (mgr : Mgr) (reading : Reading)
deriving DecidableEq, Repr

end LibFiber.Runtime
