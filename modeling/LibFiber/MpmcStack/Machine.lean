import LibFiber.Semantics.Machine

namespace LibFiber.MpmcStack

open Semantics Function

/-! `mpmc_stack`: a linked stack that is pushed to node by node and emptied as a
whole.

A step is one access to shared memory.  There is no version beside the head, so
that it may come back to a pointer that a pusher has read long ago.
-/

inductive Kind where
  | lifo
  | fifo
deriving DecidableEq, Repr

/-- What a call returns.  The last one is the list that a flush has taken, as a
pointer to its first node. -/
inductive Response (Node : Type) where
  | pushed (node : Node)
  /-- `MPMC_RETRY` from `mpmc_stack_push_timeout` -/
  | retry (node : Node)
  | flushed (kind : Kind) (result : Option Node)
deriving DecidableEq, Repr

/-- A push without a limit has no `tries`. -/
inductive Phase (Node : Type) where
  | idle
  | loading (node : Node) (tries : Option (BitVec 64))
  /-- About to store `n->next`. -/
  | linking (node : Node) (tries : Option (BitVec 64)) (head : Option Node)
  | swapping (node : Node) (tries : Option (BitVec 64)) (head : Option Node)
  | flushing (kind : Kind)
  /-- At the test of the loop of `mpmc_stack_reverse`. -/
  | reversing (head fifo : Option Node)
  | storing (head : Node) (next fifo : Option Node)
  | returned (response : Response Node)
deriving DecidableEq, Repr

structure State (Thread Node : Type) where
  head : Option Node
  next : Node → Option Node
  /-- In the hands of a client. -/
  free : Node → Bool
  phase : Thread → Phase Node

/-- `finish` is the client that picks up what its call has returned; of a flush,
the nodes it finds by following `next`. -/
inductive Action (Thread Node : Type) where
  | fill (node : Node) (next : Option Node)
  | push (thread : Thread) (node : Node)
  | pushTimeout (thread : Thread) (node : Node) (tries : BitVec 64)
  | flush (thread : Thread) (kind : Kind)
  | move (thread : Thread) (spurious : Bool)
  | finish (thread : Thread) (nodes : List Node)
deriving DecidableEq, Repr

section Steps

variable {Thread Node : Type} [DecidableEq Thread] [DecidableEq Node]

/-- Following `next` from a pointer visits exactly these nodes. -/
def leads (next : Node → Option Node) : Option Node → List Node → Bool
  | pointer, [] => pointer = none
  | pointer, node :: rest => pointer = some node && leads next (next node) rest

/-- After a failed compare-and-swap, which has read the head.  `tries` is unsigned
and wraps at zero. -/
def failed (node : Node) (head : Option Node) : Option (BitVec 64) → Phase Node
  | none => .linking node none head
  | some tries =>
    let left := tries - 1
    if 0 < left then .linking node (some left) head else .returned (.retry node)

def State.goto (state : State Thread Node) (thread : Thread) (next : Phase Node) :
    State Thread Node :=
  { state with phase := update state.phase thread next }

def begin (state : State Thread Node) (thread : Thread) (node : Node)
    (tries : Option (BitVec 64)) : Option (State Thread Node) :=
  if state.phase thread = .idle ∧ state.free node = true then
    some { state with
      free := update state.free node false
      phase := update state.phase thread (.loading node tries) }
  else none

/-- `mpmc_stack_push`, `mpmc_stack_push_timeout`, `mpmc_stack_lifo_flush` and
`mpmc_stack_fifo_flush`, one access at a time. -/
def move (state : State Thread Node) (thread : Thread) (spurious : Bool) :
    Option (State Thread Node) :=
  match state.phase thread with
  | .idle | .returned _ => none
  | .loading node tries => some (state.goto thread (.linking node tries state.head))
  | .linking node tries head =>
    some { state with
      next := update state.next node head
      phase := update state.phase thread (.swapping node tries head) }
  | .swapping node tries head =>
    if state.head = head ∧ spurious = false then
      some { state with
        head := some node
        phase := update state.phase thread (.returned (.pushed node)) }
    else some (state.goto thread (failed node state.head tries))
  | .flushing .lifo =>
    some { state with
      head := none
      phase := update state.phase thread (.returned (.flushed .lifo state.head)) }
  | .flushing .fifo =>
    some { state with
      head := none
      phase := update state.phase thread (.reversing state.head none) }
  | .reversing none fifo => some (state.goto thread (.returned (.flushed .fifo fifo)))
  | .reversing (some head) fifo =>
    some (state.goto thread (.storing head (state.next head) fifo))
  | .storing head next fifo =>
    some { state with
      next := update state.next head fifo
      phase := update state.phase thread (.reversing next (some head)) }

def finish (state : State Thread Node) (thread : Thread) (nodes : List Node) :
    Option (State Thread Node) :=
  match state.phase thread with
  | .returned (.pushed _) => if nodes = [] then some (state.goto thread .idle) else none
  | .returned (.retry node) =>
    if nodes = [] then
      some { state with
        free := update state.free node true
        phase := update state.phase thread .idle }
    else none
  | .returned (.flushed _ result) =>
    if leads state.next result nodes = true then
      some { state with
        free := fun node => decide (node ∈ nodes) || state.free node
        phase := update state.phase thread .idle }
    else none
  | _ => none

def step (state : State Thread Node) : Action Thread Node → Option (State Thread Node)
  | .fill node next =>
    if state.free node = true then some { state with next := update state.next node next }
    else none
  | .push thread node => begin state thread node none
  | .pushTimeout thread node tries => begin state thread node (some tries)
  | .flush thread kind =>
    if state.phase thread = .idle then some (state.goto thread (.flushing kind)) else none
  | .move thread spurious => move state thread spurious
  | .finish thread nodes => finish state thread nodes

end Steps

/-- `mpmc_stack_init`; every node is a client's, with whatever is in it. -/
def Initial {Thread Node : Type} (state : State Thread Node) : Prop :=
  state.head = none ∧ (state.free = fun _ => true) ∧ state.phase = fun _ => .idle

def machine (Thread Node : Type) [DecidableEq Thread] [DecidableEq Node] :
    Machine (State Thread Node) (Action Thread Node) where
  initial := Initial
  step := step

abbrev History (Thread Node : Type) := List (State Thread Node × Action Thread Node)

/-- What the clients can tell of a step: a compare-and-swap that put a node on the
stack, a flush that took everything off it, and the list that a client found. -/
inductive Event (Thread Node : Type) where
  | pushed (node : Node)
  | flushed (thread : Thread) (kind : Kind)
  | returned (thread : Thread) (nodes : List Node)
deriving DecidableEq, Repr

def event {Thread Node : Type} [DecidableEq Node] (taken : State Thread Node × Action Thread Node) :
    Option (Event Thread Node) :=
  match taken.2 with
  | .move thread spurious =>
    match taken.1.phase thread with
    | .swapping node _ head =>
      if taken.1.head = head ∧ spurious = false then some (.pushed node) else none
    | .flushing kind => some (.flushed thread kind)
    | _ => none
  | .finish thread nodes =>
    match taken.1.phase thread with
    | .returned (.flushed _ _) => some (.returned thread nodes)
    | _ => none
  | _ => none

/-- The steps that only change what their thread knows. -/
inductive Reads {Thread Node : Type} (state : State Thread Node) :
    Phase Node → Phase Node → Prop where
  | load : Reads state (.loading node tries) (.linking node tries state.head)
  | fail : Reads state (.swapping node tries head) (.linking node left state.head)
  | retry : Reads state (.swapping node tries head) (.returned (.retry node))
  | reversed : Reads state (.reversing none fifo) (.returned (.flushed .fifo fifo))
  | follow : Reads state (.reversing (some head) fifo) (.storing head (state.next head) fifo)
  | pushed : Reads state (.returned (.pushed node)) .idle
  | flush : Reads state .idle (.flushing kind)

/-- What a flush knows right after its exchange. -/
def Kind.taken {Node : Type} (head : Option Node) : Kind → Phase Node
  | .lifo => .returned (.flushed .lifo head)
  | .fifo => .reversing head none

inductive Move {Thread Node : Type} [DecidableEq Thread] [DecidableEq Node]
    (state : State Thread Node) : Option (Event Thread Node) → State Thread Node → Prop where
  | fill : state.free node →
      Move state none { state with next := update state.next node next }
  | begin : state.phase thread = .idle → state.free node →
      Move state none
        { state with
          free := update state.free node false
          phase := update state.phase thread (.loading node tries) }
  | read : Reads state (state.phase thread) next →
      Move state none (state.goto thread next)
  | link : state.phase thread = .linking node tries head →
      Move state none
        { state with
          next := update state.next node head
          phase := update state.phase thread (.swapping node tries head) }
  | swap : state.phase thread = .swapping node tries state.head →
      Move state (some (.pushed node))
        { state with
          head := some node
          phase := update state.phase thread (.returned (.pushed node)) }
  | exchange : state.phase thread = .flushing kind →
      Move state (some (.flushed thread kind))
        { state with head := none, phase := update state.phase thread (kind.taken state.head) }
  | store : state.phase thread = .storing head next fifo →
      Move state none
        { state with
          next := update state.next head fifo
          phase := update state.phase thread (.reversing next (some head)) }
  | retried : state.phase thread = .returned (.retry node) →
      Move state none
        { state with
          free := update state.free node true
          phase := update state.phase thread .idle }
  | returned : state.phase thread = .returned (.flushed kind result) →
      leads state.next result nodes →
      Move state (some (.returned thread nodes))
        { state with
          free := fun node => decide (node ∈ nodes) || state.free node
          phase := update state.phase thread .idle }

section Moves

variable {Thread Node : Type} [DecidableEq Thread] [DecidableEq Node]
variable {state : State Thread Node}

attribute [local grind intro] Reads Move

omit [DecidableEq Thread] [DecidableEq Node] in
theorem failed_reads :
    Reads state (.swapping node tries head) (failed node state.head tries) := by
  unfold failed
  grind

theorem move_moves (stepped : move state thread spurious = some after) :
    Move state (event (state, .move thread spurious)) after := by
  cases phase : state.phase thread with
  | idle | returned => simp [move, phase] at stepped
  | loading | linking | swapping | storing =>
    simp only [move, phase] at stepped
    grind [event, failed_reads]
  | flushing kind =>
    simp only [event, phase]
    cases kind <;> simp only [move, phase] at stepped <;> cases stepped <;> exact .exchange phase
  | reversing head => cases head <;> simp only [move, phase] at stepped <;> grind [event]

theorem finish_moves (stepped : finish state thread nodes = some after) :
    Move state (event (state, .finish thread nodes)) after := by
  cases phase : state.phase thread <;> simp only [finish, phase, reduceCtorEq] at stepped
  grind [event]

theorem step_moves (stepped : step state action = some after) :
    Move state (event (state, action)) after := by
  cases action with
  | fill | push | pushTimeout | flush =>
    simp only [step, begin] at stepped
    grind [event]
  | move thread spurious => exact move_moves stepped
  | finish thread nodes => exact finish_moves stepped

end Moves

end LibFiber.MpmcStack
