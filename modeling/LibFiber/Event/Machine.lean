import LibFiber.Semantics.Machine
import Mathlib.Data.BitVec

namespace LibFiber.Event

open Semantics Function

/-! `fiber_wait_for_event`, the handling of events in `fiber_poll_events_internal` and
`fiber_fd_closed`, over `epoll`.

A critical section under a descriptor's spinlock is one step.  That of a waiter ends
behind the switch away from it, with the unlock in the maintenance.  `epoll` reports a
one-shot registration once after it is armed; what it reports stays in the array of the
manager that polled until that manager handles it.
-/

def pollIn : BitVec 32 := 0x1

def pollOut : BitVec 32 := 0x2

def epollIn : BitVec 32 := 0x1

def epollOut : BitVec 32 := 0x4

def epollOneshot : BitVec 32 := 0x40000000

/-- The events of `epoll` that a caller of `fiber_wait_for_event` asks for. -/
def requested (events : BitVec 32) : BitVec 32 :=
  (if events &&& pollIn ≠ 0 then epollIn else 0) |||
    (if events &&& pollOut ≠ 0 then epollOut else 0)

/-- `fd_wait_info_t`.  The waiters are linked through their `scratch` fields. -/
structure Info (Fiber : Type) where
  events : BitVec 32
  added : Bool
  waiters : List Fiber
deriving DecidableEq, Repr

/-- A descriptor in `epoll`'s interest list. -/
structure Registration where
  mask : BitVec 32
  /-- Cleared when a one-shot registration is reported. -/
  enabled : Bool
deriving DecidableEq, Repr

/-- What a fiber's `scratch` holds: a link in a list of waiters, or the result of its
wait. -/
inductive Scratch (Fiber : Type) where
  | null
  | fiber (fiber : Fiber)
  /-- `(void*)-1` -/
  | closed
deriving DecidableEq, Repr

/-- The link to the first of some waiters. -/
def Scratch.ofWaiters {Fiber : Type} : List Fiber → Scratch Fiber
  | [] => .null
  | first :: _ => .fiber first

inductive Phase (Fd : Type) where
  | running
  /-- Switched out in `fiber_wait_for_event`, for these events of `epoll`. -/
  | parked (fd : Fd) (events : BitVec 32)
  | woken
deriving DecidableEq, Repr

def Phase.wake {Fd : Type} : Phase Fd → Phase Fd
  | .running => .running
  | .parked _ _ | .woken => .woken

structure State (Fd Fiber Poller : Type) where
  info : Fd → Info Fiber
  /-- Whether the spinlock was left behind by a fiber that was not switched out. -/
  locked : Fd → Bool
  /-- Whether a file is open under the number. -/
  opened : Fd → Bool
  interest : Fd → Option Registration
  /-- What is left to handle of the events that `epoll_wait` returned. -/
  events : Poller → List (Fd × BitVec 32)
  phase : Fiber → Phase Fd
  scratch : Fiber → Scratch Fiber
  /-- How often the fiber is in the run queues. -/
  scheduled : Fiber → Nat

inductive Action (Fd Fiber Poller : Type) where
  /-- The kernel opens a file under the number. -/
  | open (fd : Fd)
  /-- `close`, with its `fiber_fd_closed`. -/
  | close (fd : Fd)
  | wait (fiber : Fiber) (fd : Fd) (events : BitVec 32)
  /-- The same call, when `fiber_manager_yield` refuses to switch. -/
  | refuse (fiber : Fiber) (fd : Fd) (events : BitVec 32)
  /-- A later switch unlocks the spinlock. -/
  | unlock (fd : Fd)
  | epollWait (poller : Poller) (events : List (Fd × BitVec 32))
  | handle (poller : Poller)
  /-- The fiber is switched to and returns. -/
  | resume (fiber : Fiber)
deriving DecidableEq, Repr

def init {Fd Fiber Poller : Type} (opened : Fd → Bool) (scratch : Fiber → Scratch Fiber) :
    State Fd Fiber Poller where
  info := fun _ => ⟨0, false, []⟩
  locked := fun _ => false
  opened
  interest := fun _ => none
  events := fun _ => []
  phase := fun _ => .running
  scratch
  scheduled := fun _ => 0

section Steps

variable {Fd Fiber Poller : Type} [DecidableEq Fd] [DecidableEq Fiber] [DecidableEq Poller]

/-- `EPOLL_CTL_ADD`, which fails without an open file and for one that is registered. -/
def State.epollCtlAdd (state : State Fd Fiber Poller) (fd : Fd) (mask : BitVec 32) :
    State Fd Fiber Poller :=
  if state.opened fd ∧ state.interest fd = none then
    { state with interest := update state.interest fd (some ⟨mask, true⟩) }
  else state

/-- `EPOLL_CTL_MOD`, which fails for a file that is not registered. -/
def State.epollCtlMod (state : State Fd Fiber Poller) (fd : Fd) (mask : BitVec 32) :
    State Fd Fiber Poller :=
  if state.opened fd ∧ (state.interest fd).isSome = true then
    { state with interest := update state.interest fd (some ⟨mask, true⟩) }
  else state

/-- `fiber_wait_for_event` asks for the events.  It does not look at what `epoll_ctl`
returns. -/
def State.register (state : State Fd Fiber Poller) (fd : Fd) (events : BitVec 32) :
    State Fd Fiber Poller :=
  let info := state.info fd
  let mask := info.events ||| requested events
  let asked := { state with
    info := update state.info fd { info with events := mask, added := true } }
  if info.added = true then asked.epollCtlMod fd (epollOneshot ||| mask)
  else asked.epollCtlAdd fd (epollOneshot ||| mask)

/-- The fiber goes to the head of the waiters. -/
def State.link (state : State Fd Fiber Poller) (fd : Fd) (fiber : Fiber) :
    State Fd Fiber Poller :=
  { state with
    scratch := update state.scratch fiber (.ofWaiters (state.info fd).waiters)
    info := update state.info fd
      { state.info fd with waiters := fiber :: (state.info fd).waiters } }

def State.schedule (state : State Fd Fiber Poller) (fiber : Fiber) : State Fd Fiber Poller :=
  { state with scheduled := update state.scheduled fiber (state.scheduled fiber + 1) }

/-- One round of the loop in `fiber_event_wake_waiters`. -/
def State.wake (result : Scratch Fiber) (state : State Fd Fiber Poller) (fiber : Fiber) :
    State Fd Fiber Poller :=
  { state.schedule fiber with
    scratch := update state.scratch fiber result
    phase := update state.phase fiber (state.phase fiber).wake }

/-- `fiber_event_wake_waiters` -/
def State.wakeWaiters (state : State Fd Fiber Poller) (fd : Fd) (result : Scratch Fiber) :
    State Fd Fiber Poller :=
  (state.info fd).waiters.foldl (State.wake result)
    { state with info := update state.info fd { state.info fd with waiters := [] } }

/-- `fiber_fd_closed` removes the registration, and so does the real `close`. -/
def State.close (state : State Fd Fiber Poller) (fd : Fd) : State Fd Fiber Poller :=
  let info := state.info fd
  let cleared :=
    if info.events ≠ 0 ∨ info.added = true then { info with events := 0, added := false } else info
  State.wakeWaiters
    { state with
      opened := update state.opened fd false
      interest := update state.interest fd none
      info := update state.info fd cleared } fd .closed

/-- What `fiber_poll_events_internal` does with one event. -/
def State.handle (state : State Fd Fiber Poller) (fd : Fd) (reported : BitVec 32) :
    State Fd Fiber Poller :=
  let info := state.info fd
  let left := info.events &&& ~~~reported &&& (epollIn ||| epollOut)
  let masked := { state with info := update state.info fd { info with events := left } }
  let armed := if left ≠ 0 then masked.epollCtlMod fd (epollOneshot ||| left) else masked
  armed.wakeWaiters fd .null

/-- A one-shot registration is disabled as it is reported. -/
def State.report (state : State Fd Fiber Poller) (poller : Poller)
    (events : List (Fd × BitVec 32)) : State Fd Fiber Poller :=
  { state with
    interest := fun fd =>
      if fd ∈ events.map Prod.fst then
        (state.interest fd).map fun registration => { registration with enabled := false }
      else state.interest fd
    events := update state.events poller events }

/-- Whether `epoll_wait` can return these events: at most 64, each of a registration that
is armed. -/
def State.reports (state : State Fd Fiber Poller) (events : List (Fd × BitVec 32)) : Prop :=
  events.length ≤ 64 ∧ (events.map Prod.fst).Nodup ∧
    ∀ event ∈ events, (state.interest event.1).any Registration.enabled

instance (state : State Fd Fiber Poller) (events : List (Fd × BitVec 32)) :
    Decidable (state.reports events) :=
  inferInstanceAs (Decidable (_ ∧ _))

def step (state : State Fd Fiber Poller) :
    Action Fd Fiber Poller → Option (State Fd Fiber Poller)
  | .open fd =>
    if state.opened fd = false then some { state with opened := update state.opened fd true }
    else none
  | .close fd => if state.locked fd = false then some (state.close fd) else none
  | .wait fiber fd events =>
    if state.phase fiber = .running ∧ state.locked fd = false then
      some { (state.register fd events).link fd fiber with
        phase := update state.phase fiber (.parked fd (requested events)) }
    else none
  | .refuse fiber fd events =>
    if state.phase fiber = .running ∧ state.locked fd = false then
      some { ((state.register fd events).link fd fiber).schedule fiber with
        locked := update state.locked fd true }
    else none
  | .unlock fd =>
    if state.locked fd = true then some { state with locked := update state.locked fd false }
    else none
  | .epollWait poller events =>
    if state.events poller = [] ∧ state.reports events then some (state.report poller events)
    else none
  | .handle poller =>
    match state.events poller with
    | [] => none
    | (fd, reported) :: rest =>
      if state.locked fd = false then
        some (State.handle { state with events := update state.events poller rest } fd reported)
      else none
  | .resume fiber =>
    if state.phase fiber = .woken ∧ 0 < state.scheduled fiber then
      some { state with
        phase := update state.phase fiber .running
        scheduled := update state.scheduled fiber (state.scheduled fiber - 1) }
    else none

end Steps

def machine (Fd Fiber Poller : Type) [DecidableEq Fd] [DecidableEq Fiber] [DecidableEq Poller] :
    Machine (State Fd Fiber Poller) (Action Fd Fiber Poller) where
  initial state := ∃ opened scratch, state = init opened scratch
  step := step

abbrev History (Fd Fiber Poller : Type) := List (State Fd Fiber Poller × Action Fd Fiber Poller)

end LibFiber.Event
