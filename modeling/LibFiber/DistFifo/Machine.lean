import LibFiber.Data.Snapshot
import LibFiber.Semantics.Machine

namespace LibFiber.DistFifo

open Data Semantics Function

/-! `dist_fifo`: fifos with one owner each, that pushes, and any number of threads
that pop.

A step is one access to shared memory.  Nodes go from one fifo to another: whoever
has popped a node fills it and pushes it again, or hands it to someone who does.
-/

inductive Result (Node : Type) where
  | empty
  | retry
  | node (node : Node)
deriving DecidableEq, Repr

inductive Phase (Fifo Node Value : Type) where
  | idle
  /-- In `dist_fifo_push`, about to terminate the new node. -/
  | terminating (fifo : Fifo) (newNode : Node)
  | linking (fifo : Fifo) (tail newNode : Node)
  /-- About to store `fifo->tail`. -/
  | moving (fifo : Fifo) (newNode : Node)
  /-- In `dist_fifo_trypop`, about to read the counter. -/
  | counting (fifo : Fifo)
  | popping (fifo : Fifo) (oldHead : Snapshot Node Value)
  /-- The node is taken out, about to store its data. -/
  | storing (fifo : Fifo) (prevHead : Node) (data : Value)
  | popped (result : Result Node)
deriving DecidableEq, Repr

structure State (Thread Fifo Node Value : Type) where
  head : Fifo → Versioned Node
  tail : Fifo → Node
  next : Node → Option Node
  data : Node → Value
  /-- In the hands of a client. -/
  free : Node → Bool
  phase : Thread → Phase Fifo Node Value

inductive Action (Thread Fifo Node Value : Type) where
  | fill (node : Node) (data : Value) (next : Option Node)
  | push (thread : Thread) (fifo : Fifo) (newNode : Node)
  | trypop (thread : Thread) (fifo : Fifo)
  | move (thread : Thread)
deriving DecidableEq, Repr

section Steps

variable {Thread Fifo Node Value : Type} [DecidableEq Thread] [DecidableEq Fifo]
variable [DecidableEq Node]

def Phase.resting : Phase Fifo Node Value → Bool
  | .idle | .popped _ => true
  | _ => false

omit [DecidableEq Fifo] [DecidableEq Node] in
def State.goto (state : State Thread Fifo Node Value) (thread : Thread)
    (next : Phase Fifo Node Value) : State Thread Fifo Node Value :=
  { state with phase := update state.phase thread next }

/-- `dist_fifo_push` and `dist_fifo_trypop` -/
def move (state : State Thread Fifo Node Value) (thread : Thread) :
    Option (State Thread Fifo Node Value) :=
  match state.phase thread with
  | .idle | .popped _ => none
  | .terminating fifo newNode =>
    some { state with
      next := update state.next newNode none
      phase := update state.phase thread (.linking fifo (state.tail fifo) newNode) }
  | .linking fifo tail newNode =>
    some { state with
      next := update state.next tail (some newNode)
      phase := update state.phase thread (.moving fifo newNode) }
  | .moving fifo newNode =>
    some { state with
      tail := update state.tail fifo newNode
      phase := update state.phase thread .idle }
  | .counting fifo =>
    some (state.goto thread (.popping fifo (.counted (state.head fifo).counter)))
  | .popping fifo (.counted counter) =>
    some (state.goto thread (.popping fifo (.headed counter (state.head fifo).head)))
  | .popping fifo (.headed counter prevHead) =>
    match state.next prevHead with
    | some prevHeadNext =>
      some (state.goto thread (.popping fifo (.followed counter prevHead prevHeadNext)))
    | none => some (state.goto thread (.popped .empty))
  | .popping fifo (.followed counter prevHead prevHeadNext) =>
    some (state.goto thread
      (.popping fifo (.loaded counter prevHead prevHeadNext (state.data prevHeadNext))))
  | .popping fifo (.loaded counter prevHead prevHeadNext data) =>
    match (state.head fifo).swap counter prevHead prevHeadNext with
    | some newHead =>
      some { state with
        head := update state.head fifo newHead
        phase := update state.phase thread (.storing fifo prevHead data) }
    | none => some (state.goto thread (.popped .retry))
  | .storing _ prevHead data =>
    some { state with
      data := update state.data prevHead data
      free := update state.free prevHead true
      phase := update state.phase thread (.popped (.node prevHead)) }

/-- Only its owner pushes to a fifo. -/
def step (owner : Fifo → Thread) (state : State Thread Fifo Node Value) :
    Action Thread Fifo Node Value → Option (State Thread Fifo Node Value)
  | .fill node data next =>
    if state.free node = true then
      some { state with data := update state.data node data, next := update state.next node next }
    else none
  | .push thread fifo newNode =>
    if (state.phase thread).resting ∧ owner fifo = thread ∧
        state.free newNode = true then
      some { state with
        free := update state.free newNode false
        phase := update state.phase thread (.terminating fifo newNode) }
    else none
  | .trypop thread fifo =>
    if (state.phase thread).resting = true then some (state.goto thread (.counting fifo))
    else none
  | .move thread => move state thread

end Steps

/-- `dist_fifo_init` for each of the fifos; what the clients have at first is none of
their first nodes. -/
def Initial {Thread Fifo Node Value : Type} (state : State Thread Fifo Node Value) : Prop :=
  ∃ first : Fifo → Node, Injective first ∧ (∀ fifo, state.head fifo = ⟨0, first fifo⟩) ∧
    state.tail = first ∧ (∀ fifo, state.next (first fifo) = none) ∧
    (∀ fifo, state.free (first fifo) = false) ∧ state.phase = fun _ => .idle

def machine {Thread Fifo : Type} (Node Value : Type) [DecidableEq Thread] [DecidableEq Fifo]
    [DecidableEq Node] (owner : Fifo → Thread) :
    Machine (State Thread Fifo Node Value) (Action Thread Fifo Node Value) where
  initial := Initial
  step := step owner

abbrev History (Thread Fifo Node Value : Type) :=
  List (State Thread Fifo Node Value × Action Thread Fifo Node Value)

inductive Reads {Thread Fifo Node Value : Type} [DecidableEq Node]
    (state : State Thread Fifo Node Value) :
    Phase Fifo Node Value → Phase Fifo Node Value → Prop where
  | count : Reads state (.counting fifo) (.popping fifo (.counted (state.head fifo).counter))
  | head : Reads state (.popping fifo (.counted counter))
        (.popping fifo (.headed counter (state.head fifo).head))
  | follow : state.next prevHead = some prevHeadNext →
      Reads state (.popping fifo (.headed counter prevHead))
        (.popping fifo (.followed counter prevHead prevHeadNext))
  | load : Reads state (.popping fifo (.followed counter prevHead prevHeadNext))
        (.popping fifo (.loaded counter prevHead prevHeadNext (state.data prevHeadNext)))
  | empty : state.next prevHead = none →
      Reads state (.popping fifo (.headed counter prevHead)) (.popped .empty)
  | retry : (state.head fifo).swap counter prevHead prevHeadNext = none →
      Reads state (.popping fifo (.loaded counter prevHead prevHeadNext data)) (.popped .retry)

inductive Move {Thread Fifo Node Value : Type} [DecidableEq Thread] [DecidableEq Fifo]
    [DecidableEq Node] (owner : Fifo → Thread) (state : State Thread Fifo Node Value) :
    Action Thread Fifo Node Value → State Thread Fifo Node Value → Prop where
  | fill : state.free node →
      Move owner state (.fill node data next)
        { state with data := update state.data node data, next := update state.next node next }
  | push : (state.phase thread).resting → owner fifo = thread → state.free newNode →
      Move owner state (.push thread fifo newNode)
        { state with
          free := update state.free newNode false
          phase := update state.phase thread (.terminating fifo newNode) }
  | trypop : (state.phase thread).resting →
      Move owner state (.trypop thread fifo) (state.goto thread (.counting fifo))
  | terminate : state.phase thread = .terminating fifo newNode →
      Move owner state (.move thread)
        { state with
          next := update state.next newNode none
          phase := update state.phase thread (.linking fifo (state.tail fifo) newNode) }
  | link : state.phase thread = .linking fifo tail newNode →
      Move owner state (.move thread)
        { state with
          next := update state.next tail (some newNode)
          phase := update state.phase thread (.moving fifo newNode) }
  | move : state.phase thread = .moving fifo newNode →
      Move owner state (.move thread)
        { state with
          tail := update state.tail fifo newNode
          phase := update state.phase thread .idle }
  | read : Reads state (state.phase thread) next →
      Move owner state (.move thread) (state.goto thread next)
  | swap : state.phase thread = .popping fifo (.loaded counter prevHead prevHeadNext data) →
      (state.head fifo).swap counter prevHead prevHeadNext = some newHead →
      Move owner state (.move thread)
        { state with
          head := update state.head fifo newHead
          phase := update state.phase thread (.storing fifo prevHead data) }
  | store : state.phase thread = .storing fifo prevHead data →
      Move owner state (.move thread)
        { state with
          data := update state.data prevHead data
          free := update state.free prevHead true
          phase := update state.phase thread (.popped (.node prevHead)) }

section Moves

variable {Thread Fifo Node Value : Type} [DecidableEq Thread] [DecidableEq Fifo]
variable [DecidableEq Node] {after : State Thread Fifo Node Value}

attribute [local grind intro] Reads Move

theorem move_moves (stepped : move state thread = some after) :
    Move owner state (.move thread) after := by
  cases phase : state.phase thread with
  | popping fifo oldHead =>
    cases oldHead <;> simp only [move, phase] at stepped
    all_goals grind
  | _ =>
    simp only [move, phase, reduceCtorEq] at stepped
    all_goals grind

theorem step_moves
    (stepped : step owner state action = some after) : Move owner state action after := by
  cases action with
  | move thread => exact move_moves stepped
  | fill | push | trypop =>
    simp only [step] at stepped
    grind

end Moves

end LibFiber.DistFifo
