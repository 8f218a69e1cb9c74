import LibFiber.Runtime.State
import LibFiber.Semantics.Machine
import Mathlib.Data.Fin.Basic

namespace LibFiber.Runtime

open Semantics Function

/-! The scheduling core of `fiber_manager.c` and `fiber_scheduler_wsd.c`.

A step is one access to data that another thread may use; what a thread does
between two such accesses is part of the step before.  The fine grained races
on a fiber's state are interleaved in `LibFiber.Publish`.
-/

variable {Mgr : Type} [DecidableEq Mgr]

namespace State

def goto (state : State Mgr) (mgr : Mgr) (pc : Pc Mgr) : State Mgr :=
  { state with pc := update state.pc mgr pc }

/-- Replace the stack of the fiber the manager is on. -/
def resume (state : State Mgr) (mgr : Mgr) (stack : List (Frame Mgr)) : State Mgr :=
  { state with stack := update state.stack (state.exec mgr) stack }

def push (state : State Mgr) (mgr : Mgr) (frame : Frame Mgr) : State Mgr :=
  state.resume mgr (frame :: state.stack (state.exec mgr))

def record (state : State Mgr) (mgr : Mgr) (slot : Slot) (object : Nat) (carries : Bool) :
    State Mgr :=
  { state with
    slots := update state.slots (mgr, slot) (some ⟨object, state.exec mgr, carries, false⟩) }

/-- `fiber_manager_schedule` -/
def schedule (state : State Mgr) (own : Mgr) (fiber : Fiber Mgr) : State Mgr :=
  { state with scheduler := update state.scheduler own ((state.scheduler own).schedule fiber) }

def setWaiters (state : State Mgr) (wait : Wait) (fibers : List (Fiber Mgr)) : State Mgr :=
  { state with waiters := update state.waiters wait fibers }

def store (state : State Mgr) (fiber : Fiber Mgr) (next : FiberState) : State Mgr :=
  { state with fiberState := update state.fiberState fiber next }

end State

/-- A call of `fiber_manager_yield`. -/
def State.callYield (state : State Mgr) (mgr : Mgr) : State Mgr :=
  state.goto mgr (.yield (state.currentFiber mgr))

/-- One round of its loop up to the start of `fiber_scheduler_next`. -/
def yield (state : State Mgr) (mgr : Mgr) (current : Fiber Mgr) : State Mgr :=
  { state with
    yieldCount := update state.yieldCount mgr (state.yieldCount mgr + 1)
    scheduler := update state.scheduler mgr (state.scheduler mgr).exchange
    pc := update state.pc mgr (.scan mgr (.yield current (state.fiberState current))) }

/-- The start of `fiber_scheduler_load_balance`. -/
def balance (visits : Mgr → List (Mgr × Bool)) (state : State Mgr) (own : Mgr) : Balance Mgr where
  visits := visits own
  localCount := ((state.scheduler own).queue (state.scheduler own).scheduleFrom).length
  remoteCount := 0
  maxSteal := 50

/-- `try_steal` in `fiber_manager_yield`. -/
def trySteal (visits : Mgr → List (Mgr × Bool)) (state : State Mgr) (mgr own : Mgr)
    (caller : Caller Mgr) : State Mgr :=
  if state.yieldCount own &&& 1023 = 0 then
    state.goto mgr (.balance own caller (balance visits state own))
  else state.goto mgr .run

/-- A parked caller of `fiber_manager_yield` with nothing to run: to the
maintenance fiber, which is created first if there is none. -/
def retreat (state : State Mgr) (mgr own : Mgr) (current : Fiber Mgr) : State Mgr :=
  match state.maintenanceFiber own with
  | some target => (state.push mgr (.yieldLoop current)).goto mgr (.switch own current target)
  | none =>
    let created : State Mgr := { state with
      live := update state.live (.maintenance own) true
      fiberState := update state.fiberState (.maintenance own) .ready
      stack := update state.stack (.maintenance own) [.threadLoop own]
      maintenanceFiber := update state.maintenanceFiber own (some (.maintenance own)) }
    (created.push mgr (.yieldLoop current)).goto mgr (.switch own current (.maintenance own))

/-- `fiber_scheduler_next` returns NULL. -/
def exhausted (visits : Mgr → List (Mgr × Bool)) (state : State Mgr) (mgr own : Mgr) :
    Caller Mgr → State Mgr
  | .thread => state.goto mgr .run
  | .yield current st =>
    if st = .waiting ∨ st = .done ∨ st = .saving then retreat state mgr own current
    else trySteal visits state mgr own (.yield current st)

def scan (visits : Mgr → List (Mgr × Bool)) (state : State Mgr) (mgr own : Mgr)
    (caller : Caller Mgr) : State Mgr :=
  match (state.scheduler own).popBottom with
  | none => exhausted visits state mgr own caller
  | some (fiber, rest) =>
    { state with
      scheduler := update state.scheduler own rest
      pc := update state.pc mgr (.test own caller fiber) }

/-- A fiber popped by `fiber_scheduler_next`: put aside while its context is
not saved, else returned to the caller, who switches to it or not. -/
def test (visits : Mgr → List (Mgr × Bool)) (state : State Mgr) (mgr own : Mgr)
    (caller : Caller Mgr) (fiber : Fiber Mgr) (reading : Reading) : Option (State Mgr) :=
  if state.fiberState fiber = .saving then
    some { state with
      scheduler := update state.scheduler own ((state.scheduler own).store fiber)
      pc := update state.pc mgr (.scan own caller) }
  else
    match caller with
    | .thread =>
      (state.maintenanceFiber own).map fun maintenance =>
        (state.store maintenance .saving).goto mgr (.switch own maintenance fiber)
    | .yield current st =>
      if reading.opens then some (state.goto mgr (.switch own current fiber))
      else some (trySteal visits (state.schedule own current) mgr own (.yield current st))

/-- `fiber_manager_switch_to` before the context swap. -/
def switchTo (state : State Mgr) (mgr own : Mgr) (old new : Fiber Mgr) : State Mgr :=
  { state with
    fiberState := fun fiber =>
      if fiber = new then .running
      else if fiber = old ∧ state.fiberState old = .running then .ready
      else state.fiberState fiber
    slots := update state.slots (own, .toSchedule)
      (if state.fiberState old = .running then some ⟨0, old, true, false⟩
        else state.slots (own, .toSchedule))
    currentFiber := update state.currentFiber own new
    oldFiber := update state.oldFiber own old
    pc := update state.pc mgr (.swap old new) }

def Deferred.mark (old : Fiber Mgr) (deferred : Deferred Mgr) : Deferred Mgr :=
  { deferred with swapped := deferred.swapped || deferred.fiber = old }

/-- `fiber_context_swap` and the call of `fiber_manager_do_maintenance` with
which every fiber goes on. -/
def swap (state : State Mgr) (mgr : Mgr) (old new : Fiber Mgr) : State Mgr :=
  { state with
    exec := update state.exec mgr new
    stack := update state.stack new
      (.settle mgr :: .maintenance mgr Slot.all :: state.stack new)
    slots := fun slot => (state.slots slot).map (Deferred.mark old)
    pc := update state.pc mgr .run }

/-- The outer loop of `fiber_scheduler_load_balance`. -/
def visit (state : State Mgr) (mgr own : Mgr) (caller : Caller Mgr) (loop : Balance Mgr) :
    State Mgr :=
  match loop.visits with
  | (victim, side) :: _ =>
    state.goto mgr (.steal own caller
      { loop with remoteCount := ((state.scheduler victim).queue side).length })
  | [] =>
    match caller with
    | .yield _ _ => state.goto mgr .run
    | .thread =>
      { state with
        scheduler := update state.scheduler own (state.scheduler own).exchange
        pc := update state.pc mgr (.scan own .thread) }

/-- One round of its inner loop, up to the steal. -/
def steal (state : State Mgr) (mgr own : Mgr) (caller : Caller Mgr) (loop : Balance Mgr)
    (reading : Reading) : State Mgr :=
  match loop.visits with
  | [] => state.goto mgr (.balance own caller loop)
  | (victim, side) :: rest =>
    let leave := state.goto mgr (.balance own caller { loop with visits := rest })
    if loop.localCount < loop.remoteCount ∧ 0 < loop.maxSteal ∧ reading.contended = false then
      match (state.scheduler victim).steal side with
      | none => leave
      | some (fiber, remaining) =>
        { state with
          scheduler := update state.scheduler victim remaining
          pc := update state.pc mgr (.stash own caller loop fiber) }
    else leave

def stash (state : State Mgr) (mgr own : Mgr) (caller : Caller Mgr) (loop : Balance Mgr)
    (fiber : Fiber Mgr) : State Mgr :=
  (state.schedule own fiber).goto mgr (.steal own caller { loop with
    localCount := loop.localCount + 1
    remoteCount := loop.remoteCount - 1
    maxSteal := loop.maxSteal - 1 })

/-- The state a waker leaves a fiber in that it took out of `wait`. -/
def wokenState (wait : Wait) (old : FiberState) : FiberState :=
  match wait with
  | .mpsc _ => if old = .waiting then .ready else old
  | _ => .ready

def claim (state : State Mgr) (mgr : Mgr) (wait : Wait) (fiber : Fiber Mgr) : State Mgr :=
  ((state.store fiber (wokenState wait (state.fiberState fiber))).schedule mgr fiber).goto mgr .run

/-- `fiber_mutex_unlock_internal` -/
def unlockInternal (state : State Mgr) (mgr : Mgr) (mutex : Nat) : State Mgr :=
  let unlocked : State Mgr :=
    { state with counter := update state.counter mutex (state.counter mutex + 1) }
  if state.counter mutex + 1 = 1 then unlocked else unlocked.push mgr (.wakeLoop mutex 1 0)

/-- What a field of the manager makes `fiber_manager_do_maintenance` do, once
the field is cleared. -/
def perform (state : State Mgr) (mgr own : Mgr) (slot : Slot) (deferred : Deferred Mgr) :
    State Mgr :=
  match slot with
  | .doneFiber => { state with live := update state.live deferred.fiber false }
  | .toSchedule => state.schedule own deferred.fiber
  | .mpmcToPush | .mpscToPush | .mutexToUnlock | .spinlockToUnlock | .setWaitLocation =>
    let published : State Mgr :=
      match slot.wait deferred.object with
      | some wait =>
        if deferred.carries then
          state.setWaiters wait (state.waiters wait ++ [deferred.fiber])
        else state
      | none => state
    if slot = .mutexToUnlock then unlockInternal published mgr deferred.object else published

def maintain (state : State Mgr) (mgr own : Mgr) (slot : Slot) (rest : List Slot)
    (below : List (Frame Mgr)) : State Mgr :=
  let advanced := state.resume mgr (.maintenance own rest :: below)
  match state.slots (own, slot) with
  | none => advanced
  | some deferred =>
    perform { advanced with slots := update state.slots (own, slot) none } mgr own slot deferred

def settle (state : State Mgr) (mgr own : Mgr) (below : List (Frame Mgr)) : State Mgr :=
  let advanced := state.resume mgr below
  if state.fiberState (state.oldFiber own) = .saving then
    advanced.store (state.oldFiber own) .waiting
  else advanced

/-- One round of `fiber_manager_wake_from_mpsc_queue`. -/
def wakeRound (state : State Mgr) (mgr : Mgr) (queue : Nat) (count wakeCount : Int)
    (below : List (Frame Mgr)) (reading : Reading) : State Mgr :=
  match state.waiters (.mpsc queue), reading.contended with
  | fiber :: rest, false =>
    (((state.setWaiters (.mpsc queue) rest).resume mgr
      (if wakeCount + 1 < count then .wakeLoop queue count (wakeCount + 1) :: below
        else below)).goto mgr (.claim (.mpsc queue) fiber))
  | _, _ =>
    if 0 < count then state.callYield mgr
    else state.resume mgr below

/-- One round of `fiber_manager_clear_or_wait`. -/
def clearRound (state : State Mgr) (mgr : Mgr) (address : Nat) (below : List (Frame Mgr)) :
    State Mgr :=
  match state.waiters (.location address) with
  | fiber :: rest =>
    ((state.setWaiters (.location address) rest).resume mgr below).goto mgr
      (.claim (.location address) fiber)
  | [] => state.callYield mgr

/-- A thread that is in none of the calls above returns to its fiber's stack. -/
def resumeTop (visits : Mgr → List (Mgr × Bool)) (state : State Mgr) (mgr : Mgr)
    (reading : Reading) : Option (State Mgr) :=
  match state.stack (state.exec mgr) with
  | [] | .deadEnd :: _ => none
  | .waitEnd :: below => some (state.resume mgr below)
  | .yieldLoop current :: below => some ((state.resume mgr below).goto mgr (.yield current))
  | .threadLoop own :: _ =>
    some (state.goto mgr (.balance own .thread (balance visits state own)))
  | .settle own :: below => some (settle state mgr own below)
  | .maintenance _ [] :: below => some (state.resume mgr below)
  | .maintenance own (slot :: rest) :: below => some (maintain state mgr own slot rest below)
  | .wakeLoop queue count wakeCount :: below =>
    some (wakeRound state mgr queue count wakeCount below reading)
  | .clearLoop address :: below => some (clearRound state mgr address below)

def tick (visits : Mgr → List (Mgr × Bool)) (state : State Mgr) (mgr : Mgr) (reading : Reading) :
    Option (State Mgr) :=
  match state.pc mgr with
  | .run => resumeTop visits state mgr reading
  | .publish queue =>
    some ((state.setWaiters (.mpsc queue)
      (state.waiters (.mpsc queue) ++ [state.exec mgr])).callYield mgr)
  | .yield current => some (yield state mgr current)
  | .scan own caller => some (scan visits state mgr own caller)
  | .test own caller fiber => test visits state mgr own caller fiber reading
  | .switch own old new => some (switchTo state mgr own old new)
  | .swap old new => some (swap state mgr old new)
  | .balance own caller loop => some (visit state mgr own caller loop)
  | .steal own caller loop => some (steal state mgr own caller loop reading)
  | .stash own caller loop fiber => some (stash state mgr own caller loop fiber)
  | .claim wait fiber => some (claim state mgr wait fiber)

/-- `fiber_manager_wait_in_mpsc_queue` up to the push. -/
def waitIn (state : State Mgr) (mgr : Mgr) (queue : Nat) : State Mgr :=
  ((state.store (state.exec mgr) .saving).push mgr .waitEnd).goto mgr (.publish queue)

def take (state : State Mgr) (mgr : Mgr) (wait : Wait) : Option (State Mgr) :=
  match state.waiters wait with
  | [] => none
  | fiber :: rest => some ((state.setWaiters wait rest).goto mgr (.claim wait fiber))

/-- The calls a fiber makes from its own code. -/
def call (state : State Mgr) (mgr : Mgr) : Op → Option (State Mgr)
  | .yield => some (state.callYield mgr)
  | .wait queue => some (waitIn state mgr queue)
  | .waitAndUnlock queue mutex =>
    some (waitIn (state.record mgr .mutexToUnlock mutex false) mgr queue)
  | .park slot object =>
    (slot.wait object).map fun _ =>
      (((state.store (state.exec mgr) .waiting).record mgr slot object true).push mgr
        .waitEnd).callYield mgr
  | .wake queue count => some (state.push mgr (.wakeLoop queue count 0))
  | .take wait => take state mgr wait
  | .clear address => some (state.push mgr (.clearLoop address))
  | .lock mutex =>
    let locked : State Mgr :=
      { state with counter := update state.counter mutex (state.counter mutex - 1) }
    some (if state.counter mutex - 1 = 0 then locked else waitIn locked mgr mutex)
  | .unlock mutex => some (unlockInternal state mgr mutex)
  | .create id =>
    if state.live (.user id) then none
    else
      let created : State Mgr := { state with
        live := update state.live (.user id) true
        fiberState := update state.fiberState (.user id) .ready
        stack := update state.stack (.user id) [] }
      some (created.schedule mgr (.user id))
  | .finish =>
    match state.exec mgr with
    | .user _ =>
      some ((((state.store (state.exec mgr) .done).record mgr .doneFiber 0 true).push mgr
        .deadEnd).callYield mgr)
    | .thread _ | .maintenance _ => none

/-- Calls come from a fiber's own code; a thread in `fiber_manager_thread_func`
polls the events and wakes what waited for them. -/
def Op.enabled (stack : List (Frame Mgr)) : Op → Bool
  | .take _ =>
    match stack with
    | [] | .threadLoop _ :: _ => true
    | _ => false
  | _ => stack.isEmpty

def step (visits : Mgr → List (Mgr × Bool)) (state : State Mgr) :
    Action Mgr → Option (State Mgr)
  | .client mgr op =>
    if state.pc mgr = .run ∧ op.enabled (state.stack (state.exec mgr)) then call state mgr op
    else none
  | .tick mgr reading => tick visits state mgr reading

/-- After `fiber_manager_init`: the main thread is in its own code, every other
one in `fiber_manager_thread_func`. -/
def init (main : Mgr) : State Mgr where
  live
    | .thread _ => true
    | .maintenance _ | .user _ => false
  fiberState
    | .thread _ => .running
    | .maintenance _ | .user _ => .ready
  stack
    | .thread mgr => if mgr = main then [] else [.threadLoop mgr]
    | .maintenance _ | .user _ => []
  exec := .thread
  pc := fun _ => .run
  currentFiber := .thread
  oldFiber := .thread
  maintenanceFiber := fun mgr => if mgr = main then none else some (.thread mgr)
  slots := fun _ => none
  yieldCount := fun _ => 0
  scheduler := fun _ => .init
  waiters := fun _ => []
  counter := fun _ => 1

/-- The remote queues in the order of `fiber_scheduler_load_balance`. -/
def visits (n : Nat) (own : Fin (n + 1)) : List (Fin (n + 1) × Bool) :=
  (List.range (2 * n)).map fun offset =>
    let index := (2 * (own.val + 1) + offset) % (2 * (n + 1))
    (Fin.ofNat (n + 1) (index / 2), index % 2 == 1)

/-- `n + 1` kernel threads; the main thread's manager is the first one. -/
def machine (n : Nat) : Machine (State (Fin (n + 1))) (Action (Fin (n + 1))) where
  initial state := state = init 0
  step := step (visits n)

end LibFiber.Runtime
