import LibFiber.Scheduler
import LibFiber.Semantics.Machine

namespace LibFiber.WaitNodes

open Semantics Function

/-! The nodes with which fibers wait in mpsc queues.

A fiber brings the node in its `mpsc_fifo_node` into the queue it waits in, and its
waker gives it the node that was the queue's sentinel.  A step is one access to a
fiber, a queue or a node.  Of the scheduler a step shows what it does with one fiber:
it is switched out, found in a run queue and switched to; or the gate of
`fiber_manager_yield` refuses the fiber found there, and the caller goes on.
-/

inductive Phase (Queue Node : Type) where
  /-- Not created, or destroyed. -/
  | absent
  /-- Switched out by `fiber_manager_yield` as it was running. -/
  | suspended
  /-- In its own code. -/
  | active
  /-- `fiber_manager_wait_in_mpsc_queue`, before the asserts. -/
  | assertingState (queue : Queue)
  | assertingNode (queue : Queue)
  | saving (queue : Queue)
  | taking (queue : Queue)
  | filling (queue : Queue) (node : Node)
  | clearing (queue : Queue) (node : Node)
  /-- `mpsc_fifo_push` -/
  | terminating (queue : Queue) (node : Node)
  | exchanging (queue : Queue) (node : Node)
  | linking (queue : Queue) (prevTail node : Node)
  /-- In `fiber_manager_yield`, before its context is swapped. -/
  | yielding (queue : Queue) (node : Node)
  | parked (queue : Queue) (node : Node)
  | finished
  | aborted
deriving DecidableEq, Repr

structure FiberRecord (Queue Node : Type) where
  mpscFifoNode : Option Node
  state : FiberState
  /-- How often the fiber is in the run queues. -/
  scheduled : Nat
  phase : Phase Queue Node
deriving DecidableEq, Repr

/-- What `fiber_manager_wake_from_mpsc_queue` does next. -/
inductive WakerPhase (Fiber Node : Type) where
  | idle
  /-- `mpsc_fifo_trypop` -/
  | popping
  | poppingNext (prevHead : Node)
  | advancing (prevHead prevHeadNext : Node)
  | copying (prevHead prevHeadNext : Node)
  | storing (prevHead : Node) (data : Option Fiber)
  /-- With a node, whose data it is about to read. -/
  | popped (out : Node)
  | asserting (out : Node) (toSchedule : Fiber)
  | assigning (out : Node) (toSchedule : Fiber)
  | testing (toSchedule : Fiber)
  | readying (toSchedule : Fiber)
  | scheduling (toSchedule : Fiber)
  | looping
  | aborted
deriving DecidableEq, Repr

structure State (Fiber Queue Node : Type) where
  next : Node → Option Node
  data : Node → Option Fiber
  free : Node → Bool
  fiber : Fiber → FiberRecord Queue Node
  made : Queue → Bool
  head : Queue → Node
  tail : Queue → Node
  /-- A queue has one waker at a time. -/
  waker : Queue → WakerPhase Fiber Node
  count : Queue → Int
  wakeCount : Queue → Int

inductive Action (Fiber Queue Node : Type) where
  /-- `fiber_create`, with the node that `calloc` returns. -/
  | create (fiber : Fiber) (node : Node)
  | createFromThread (fiber : Fiber) (node : Node)
  /-- `mpsc_fifo_init` -/
  | init (queue : Queue) (node : Node)
  | wait (fiber : Fiber) (queue : Queue)
  | yield (fiber : Fiber)
  /-- The fiber's yield finds `other` in a run queue, and the gate refuses it. -/
  | refuse (fiber other : Fiber)
  /-- `fiber_manager_do_maintenance` after the fiber was switched out. -/
  | save (fiber : Fiber)
  /-- A manager finds the fiber in a run queue and switches to it. -/
  | switchTo (fiber : Fiber)
  | finish (fiber : Fiber)
  | destroy (fiber : Fiber)
  | moveFiber (fiber : Fiber)
  | wake (queue : Queue) (count : Int)
  | moveWaker (queue : Queue)
deriving DecidableEq, Repr

/-- A program that has made nothing yet, in any memory. -/
def start {Fiber Queue Node : Type} (next : Node → Option Node) (data : Node → Option Fiber)
    (head tail : Queue → Node) : State Fiber Queue Node where
  next
  data
  free := fun _ => true
  fiber := fun _ => ⟨none, .done, 0, .absent⟩
  made := fun _ => false
  head
  tail
  waker := fun _ => .idle
  count := fun _ => 0
  wakeCount := fun _ => 0

section Steps

variable {Fiber Queue Node : Type} [DecidableEq Fiber] [DecidableEq Queue] [DecidableEq Node]

def State.calloc (state : State Fiber Queue Node) (node : Node) : State Fiber Queue Node :=
  { state with
    next := update state.next node none
    data := update state.data node none
    free := update state.free node false }

def State.become (state : State Fiber Queue Node) (fiber : Fiber)
    (record : FiberRecord Queue Node) : State Fiber Queue Node :=
  { state with fiber := update state.fiber fiber record }

def State.goto (state : State Fiber Queue Node) (fiber : Fiber) (phase : Phase Queue Node) :
    State Fiber Queue Node :=
  state.become fiber { state.fiber fiber with phase }

def State.follow (state : State Fiber Queue Node) (queue : Queue)
    (phase : WakerPhase Fiber Node) : State Fiber Queue Node :=
  { state with waker := update state.waker queue phase }

/-- `fiber_create_no_sched` and `fiber_create_from_thread` -/
def create (state : State Fiber Queue Node) (fiber : Fiber) (node : Node)
    (record : FiberRecord Queue Node) : Option (State Fiber Queue Node) :=
  if (state.fiber fiber).phase = .absent ∧ state.free node = true then
    some ((state.calloc node).become fiber record)
  else none

def init (state : State Fiber Queue Node) (queue : Queue) (node : Node) :
    Option (State Fiber Queue Node) :=
  if state.made queue = false ∧ state.free node = true then
    some { state.calloc node with
      made := update state.made queue true
      head := update state.head queue node
      tail := update state.tail queue node }
  else none

/-- The caller of a refused yield is scheduled and returns, whatever its state is. -/
def refuse (state : State Fiber Queue Node) (fiber other : Fiber) (phase : Phase Queue Node) :
    State Fiber Queue Node :=
  let taken := state.become other
    { state.fiber other with scheduled := (state.fiber other).scheduled - 1 }
  taken.become fiber
    { taken.fiber fiber with scheduled := (taken.fiber fiber).scheduled + 1, phase }

/-- What a refused yield goes back to, if the fiber is in one. -/
def Phase.refused : Phase Queue Node → Option (Phase Queue Node)
  | .active | .yielding _ _ => some .active
  | _ => none

/-- The phases in which a fiber's context is saved. -/
def Phase.swapped : Phase Queue Node → Bool
  | .suspended | .parked _ _ => true
  | _ => false

/-- `fiber_destroy` -/
def destroy (state : State Fiber Queue Node) (fiber : Fiber) : State Fiber Queue Node :=
  let gone := state.become fiber { state.fiber fiber with mpscFifoNode := none, phase := .absent }
  match (state.fiber fiber).mpscFifoNode with
  | some node => { gone with free := update state.free node true }
  | none => gone

/-- `fiber_manager_wait_in_mpsc_queue` -/
def moveFiber (state : State Fiber Queue Node) (fiber : Fiber) :
    Option (State Fiber Queue Node) :=
  match (state.fiber fiber).phase with
  | .absent | .suspended | .active | .parked _ _ | .finished | .aborted => none
  | .assertingState queue =>
    some (state.goto fiber
      (if (state.fiber fiber).state = .running then .assertingNode queue else .aborted))
  | .assertingNode queue =>
    some (state.goto fiber
      (if (state.fiber fiber).mpscFifoNode.isSome = true then .saving queue else .aborted))
  | .saving queue =>
    some (state.become fiber { state.fiber fiber with state := .saving, phase := .taking queue })
  | .taking queue =>
    (state.fiber fiber).mpscFifoNode.map fun node => state.goto fiber (.filling queue node)
  | .filling queue node =>
    some { state.goto fiber (.clearing queue node) with
      data := update state.data node (some fiber) }
  | .clearing queue node =>
    some (state.become fiber
      { state.fiber fiber with mpscFifoNode := none, phase := .terminating queue node })
  | .terminating queue node =>
    some { state.goto fiber (.exchanging queue node) with next := update state.next node none }
  | .exchanging queue node =>
    some { state.goto fiber (.linking queue (state.tail queue) node) with
      tail := update state.tail queue node }
  | .linking queue prevTail node =>
    some { state.goto fiber (.yielding queue node) with
      next := update state.next prevTail (some node) }
  | .yielding queue node => some (state.goto fiber (.parked queue node))

/-- `fiber_manager_wake_from_mpsc_queue`, whose yields are steps of others. -/
def moveWaker (state : State Fiber Queue Node) (queue : Queue) :
    Option (State Fiber Queue Node) :=
  match state.waker queue with
  | .idle | .aborted => none
  | .popping => some (state.follow queue (.poppingNext (state.head queue)))
  | .poppingNext prevHead =>
    match state.next prevHead with
    | some prevHeadNext => some (state.follow queue (.advancing prevHead prevHeadNext))
    | none => some (state.follow queue .looping)
  | .advancing prevHead prevHeadNext =>
    some { state.follow queue (.copying prevHead prevHeadNext) with
      head := update state.head queue prevHeadNext }
  | .copying prevHead prevHeadNext =>
    some (state.follow queue (.storing prevHead (state.data prevHeadNext)))
  | .storing prevHead data =>
    some { state.follow queue (.popped prevHead) with
      data := update state.data prevHead data }
  | .popped out =>
    match state.data out with
    | some toSchedule => some (state.follow queue (.asserting out toSchedule))
    | none => some (state.follow queue .aborted)
  | .asserting out toSchedule =>
    some (state.follow queue
      (if (state.fiber toSchedule).mpscFifoNode = none then .assigning out toSchedule
      else .aborted))
  | .assigning out toSchedule =>
    some ((state.become toSchedule
      { state.fiber toSchedule with mpscFifoNode := some out }).follow queue
        (.testing toSchedule))
  | .testing toSchedule =>
    some (state.follow queue (if (state.fiber toSchedule).state = .waiting then .readying toSchedule
      else .scheduling toSchedule))
  | .readying toSchedule =>
    some ((state.become toSchedule { state.fiber toSchedule with state := .ready }).follow queue
      (.scheduling toSchedule))
  | .scheduling toSchedule =>
    some { (state.become toSchedule
        { state.fiber toSchedule with
          scheduled := (state.fiber toSchedule).scheduled + 1 }).follow queue .looping with
      wakeCount := update state.wakeCount queue (state.wakeCount queue + 1) }
  | .looping =>
    some (state.follow queue
      (if state.wakeCount queue < state.count queue then .popping else .idle))

def step (state : State Fiber Queue Node) :
    Action Fiber Queue Node → Option (State Fiber Queue Node)
  | .create fiber node => create state fiber node ⟨some node, .ready, 1, .suspended⟩
  | .createFromThread fiber node => create state fiber node ⟨some node, .running, 0, .active⟩
  | .init queue node => init state queue node
  | .wait fiber queue =>
    if (state.fiber fiber).phase = .active ∧ state.made queue = true then
      some (state.goto fiber (.assertingState queue))
    else none
  | .yield fiber =>
    if (state.fiber fiber).phase = .active then
      some (state.become fiber
        { state.fiber fiber with
          state := .ready
          scheduled := (state.fiber fiber).scheduled + 1
          phase := .suspended })
    else none
  | .refuse fiber other =>
    if 0 < (state.fiber other).scheduled ∧ (state.fiber other).state ≠ .saving then
      (state.fiber fiber).phase.refused.map (refuse state fiber other)
    else none
  | .save fiber =>
    if (state.fiber fiber).phase.swapped ∧ (state.fiber fiber).state = .saving then
      some (state.become fiber { state.fiber fiber with state := .waiting })
    else none
  | .switchTo fiber =>
    if 0 < (state.fiber fiber).scheduled ∧ (state.fiber fiber).state ≠ .saving ∧
        (state.fiber fiber).phase.swapped = true then
      some (state.become fiber
        { state.fiber fiber with
          state := .running
          scheduled := (state.fiber fiber).scheduled - 1
          phase := .active })
    else none
  | .finish fiber =>
    if (state.fiber fiber).phase = .active then
      some (state.become fiber { state.fiber fiber with state := .done, phase := .finished })
    else none
  | .destroy fiber =>
    if (state.fiber fiber).phase = .finished then some (destroy state fiber) else none
  | .moveFiber fiber => moveFiber state fiber
  | .wake queue count =>
    if state.waker queue = .idle ∧ state.made queue = true then
      some { state.follow queue .popping with
        count := update state.count queue count
        wakeCount := update state.wakeCount queue 0 }
    else none
  | .moveWaker queue => moveWaker state queue

end Steps

def machine (Fiber Queue Node : Type) [DecidableEq Fiber] [DecidableEq Queue]
    [DecidableEq Node] : Machine (State Fiber Queue Node) (Action Fiber Queue Node) where
  initial state := ∃ next data head tail, state = start next data head tail
  step := step

abbrev History (Fiber Queue Node : Type) := List (State Fiber Queue Node × Action Fiber Queue Node)

end LibFiber.WaitNodes
