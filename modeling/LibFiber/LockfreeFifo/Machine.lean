import LibFiber.Data.Snapshot
import LibFiber.Semantics.Machine

namespace LibFiber.LockfreeFifo

open Data Semantics Function

/-! `lockfree::fifo` with any number of wait-free producers and of lock-free consumers.

A step is one access to shared memory.  `pop` frees the node that was the head while
other consumers may still read it; freed memory can hold anything, and the allocator
may give it to the next `push`.
-/

inductive Phase (Node Value : Type) where
  | idle
  /-- In `push`, about to construct the node: its link first, then its data. -/
  | clearing (newNode : Node) (value : Value)
  | filling (newNode : Node) (value : Value)
  | exchanging (newNode : Node) (value : Value)
  | linking (oldTail newNode : Node)
  /-- In `pop`, about to read the tag. -/
  | snapping
  | popping (snapshot : Snapshot Node Value)
  /-- The node is taken out, about to free it. -/
  | freeing (oldHead : Node) (dest : Value)
  | popped (dest : Value)
deriving DecidableEq, Repr

structure State (Thread Node Value : Type) where
  head : Versioned Node
  tail : Node
  next : Node → Option Node
  data : Node → Value
  /-- The memory is the allocator's. -/
  free : Node → Bool
  phase : Thread → Phase Node Value

inductive Action (Thread Node Value : Type) where
  | scribble (node : Node) (data : Value) (next : Option Node)
  /-- `push` of the value, with the memory that the allocator finds for it. -/
  | push (thread : Thread) (value : Value) (newNode : Node)
  | pop (thread : Thread)
  | move (thread : Thread)
deriving DecidableEq, Repr

section Steps

variable {Thread Node Value : Type}

def Phase.resting : Phase Node Value → Bool
  | .idle | .popped _ => true
  | _ => false

variable [DecidableEq Thread]

def State.goto (state : State Thread Node Value) (thread : Thread) (next : Phase Node Value) :
    State Thread Node Value :=
  { state with phase := update state.phase thread next }

variable [DecidableEq Node]

/-- `try_pop`, which `pop` calls until it succeeds -/
def tryPop (state : State Thread Node Value) (thread : Thread) :
    Snapshot Node Value → State Thread Node Value
  | .counted tag => state.goto thread (.popping (.headed tag state.head.head))
  | .headed tag oldHead =>
    match state.next oldHead with
    | some oldHeadNext => state.goto thread (.popping (.followed tag oldHead oldHeadNext))
    | none => state.goto thread .snapping
  | .followed tag oldHead oldHeadNext =>
    state.goto thread (.popping (.loaded tag oldHead oldHeadNext (state.data oldHeadNext)))
  | .loaded tag oldHead oldHeadNext dest =>
    match state.head.swap tag oldHead oldHeadNext with
    | some head =>
      { state with head, phase := update state.phase thread (.freeing oldHead dest) }
    | none => state.goto thread .snapping

def move (state : State Thread Node Value) (thread : Thread) :
    Option (State Thread Node Value) :=
  match state.phase thread with
  | .idle | .popped _ => none
  | .clearing newNode value =>
    some { state with
      next := update state.next newNode none
      phase := update state.phase thread (.filling newNode value) }
  | .filling newNode value =>
    some { state with
      data := update state.data newNode value
      phase := update state.phase thread (.exchanging newNode value) }
  | .exchanging newNode _ =>
    some { state with
      tail := newNode
      phase := update state.phase thread (.linking state.tail newNode) }
  | .linking oldTail newNode =>
    some { state with
      next := update state.next oldTail (some newNode)
      phase := update state.phase thread .idle }
  | .snapping => some (state.goto thread (.popping (.counted state.head.counter)))
  | .popping snapshot => some (tryPop state thread snapshot)
  | .freeing oldHead dest =>
    some { state with
      free := update state.free oldHead true
      phase := update state.phase thread (.popped dest) }

def step (state : State Thread Node Value) :
    Action Thread Node Value → Option (State Thread Node Value)
  | .scribble node data next =>
    if state.free node = true then
      some { state with data := update state.data node data, next := update state.next node next }
    else none
  | .push thread value newNode =>
    if (state.phase thread).resting ∧ state.free newNode = true then
      some { state with
        free := update state.free newNode false
        phase := update state.phase thread (.clearing newNode value) }
    else none
  | .pop thread =>
    if (state.phase thread).resting = true then some (state.goto thread .snapping) else none
  | .move thread => move state thread

end Steps

/-- `fifo()`, with the node that the pusher allocates. -/
def Initial {Thread Node Value : Type} (state : State Thread Node Value) : Prop :=
  ∃ first, state.head = ⟨0, first⟩ ∧ state.tail = first ∧ state.next first = none ∧
    state.free first = false ∧ state.phase = fun _ => .idle

def machine (Thread Node Value : Type) [DecidableEq Thread] [DecidableEq Node] :
    Machine (State Thread Node Value) (Action Thread Node Value) where
  initial := Initial
  step := step

abbrev History (Thread Node Value : Type) :=
  List (State Thread Node Value × Action Thread Node Value)

/-- The steps of `pop` that only read; after the last two it tries again. -/
inductive Reads {Thread Node Value : Type} [DecidableEq Node] (state : State Thread Node Value) :
    Phase Node Value → Phase Node Value → Prop where
  | tag : Reads state .snapping (.popping (.counted state.head.counter))
  | head : Reads state (.popping (.counted tag)) (.popping (.headed tag state.head.head))
  | follow : state.next oldHead = some oldHeadNext →
      Reads state (.popping (.headed tag oldHead)) (.popping (.followed tag oldHead oldHeadNext))
  | load : Reads state (.popping (.followed tag oldHead oldHeadNext))
        (.popping (.loaded tag oldHead oldHeadNext (state.data oldHeadNext)))
  | empty : state.next oldHead = none →
      Reads state (.popping (.headed tag oldHead)) .snapping
  | failure : state.head.swap tag oldHead oldHeadNext = none →
      Reads state (.popping (.loaded tag oldHead oldHeadNext dest)) .snapping

inductive Move {Thread Node Value : Type} [DecidableEq Thread] [DecidableEq Node]
    (state : State Thread Node Value) :
    Action Thread Node Value → State Thread Node Value → Prop where
  | scribble : state.free node →
      Move state (.scribble node data next)
        { state with data := update state.data node data, next := update state.next node next }
  | push : (state.phase thread).resting → state.free newNode →
      Move state (.push thread value newNode)
        { state with
          free := update state.free newNode false
          phase := update state.phase thread (.clearing newNode value) }
  | pop : (state.phase thread).resting →
      Move state (.pop thread) (state.goto thread .snapping)
  | clear : state.phase thread = .clearing newNode value →
      Move state (.move thread)
        { state with
          next := update state.next newNode none
          phase := update state.phase thread (.filling newNode value) }
  | fill : state.phase thread = .filling newNode value →
      Move state (.move thread)
        { state with
          data := update state.data newNode value
          phase := update state.phase thread (.exchanging newNode value) }
  | exchange : state.phase thread = .exchanging newNode value →
      Move state (.move thread)
        { state with
          tail := newNode
          phase := update state.phase thread (.linking state.tail newNode) }
  | link : state.phase thread = .linking oldTail newNode →
      Move state (.move thread)
        { state with
          next := update state.next oldTail (some newNode)
          phase := update state.phase thread .idle }
  | read : Reads state (state.phase thread) next →
      Move state (.move thread) (state.goto thread next)
  | swap : state.phase thread = .popping (.loaded tag oldHead oldHeadNext dest) →
      state.head.swap tag oldHead oldHeadNext = some head →
      Move state (.move thread)
        { state with head, phase := update state.phase thread (.freeing oldHead dest) }
  | free : state.phase thread = .freeing oldHead dest →
      Move state (.move thread)
        { state with
          free := update state.free oldHead true
          phase := update state.phase thread (.popped dest) }

section Moves

variable {Thread Node Value : Type} [DecidableEq Thread] [DecidableEq Node]
variable {state : State Thread Node Value}

attribute [local grind intro] Reads Move

theorem tryPop_moves (phase : state.phase thread = .popping snapshot) :
    Move state (.move thread) (tryPop state thread snapshot) := by
  cases snapshot <;> simp only [tryPop]
  all_goals grind

theorem move_moves (stepped : move state thread = some after) :
    Move state (.move thread) after := by
  cases phase : state.phase thread <;> simp only [move, phase, reduceCtorEq] at stepped
  all_goals grind [tryPop_moves]

theorem step_moves (stepped : step state action = some after) :
    Move state action after := by
  cases action with
  | move thread => exact move_moves stepped
  | scribble | push | pop =>
    simp only [step] at stepped
    grind

end Moves

end LibFiber.LockfreeFifo
