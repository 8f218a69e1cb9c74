import LibFiber.Data.VersionedList
import LibFiber.Semantics.Machine

namespace LibFiber.MpmcLifo

open Data Semantics Function

/-! `mpmc_lifo`: a linked stack that any number of threads push to and pop from.

A step is one access to shared memory: the two halves of the lifo are read one by
one and swapped as one.  A popped node is its client's, who may write to it and push
it again, while other threads still read it.
-/

inductive Response (Node : Type) where
  /-- `mpmc_lifo_push` of the node -/
  | pushed (node : Node)
  | popped (result : Option Node)
deriving DecidableEq, Repr

/-- In `mpmc_lifo_push`, with the halves of the snapshot read so far. -/
inductive PushPhase (Node : Type) where
  | counting
  | heading (counter : Nat)
  /-- About to store `node->next`. -/
  | linking (counter : Nat) (head : Option Node)
  | swapping (counter : Nat) (head : Option Node)
deriving DecidableEq, Repr

inductive PopPhase (Node : Type) where
  | counting
  | heading (counter : Nat)
  | following (counter : Nat) (head : Node)
  | swapping (counter : Nat) (head : Node) (next : Option Node)
deriving DecidableEq, Repr

inductive Phase (Node : Type) where
  | idle
  | push (node : Node) (phase : PushPhase Node)
  | pop (phase : PopPhase Node)
  | returned (response : Response Node)
deriving DecidableEq, Repr

structure State (Thread Node : Type) where
  data : Versioned (Option Node)
  next : Node → Option Node
  /-- In the hands of a client. -/
  free : Node → Bool
  phase : Thread → Phase Node

inductive Action (Thread Node : Type) where
  | fill (node : Node) (next : Option Node)
  | push (thread : Thread) (node : Node)
  | pop (thread : Thread)
  | move (thread : Thread)
deriving DecidableEq, Repr

section Steps

variable {Thread Node : Type}

def Phase.resting : Phase Node → Bool
  | .idle | .returned _ => true
  | _ => false

/-- The node that a push has to itself. -/
def Phase.holds : Phase Node → Option Node
  | .push node _ => some node
  | _ => none

def Phase.response : Phase Node → Option (Response Node)
  | .returned response => some response
  | _ => none

variable [DecidableEq Thread]

def State.goto (state : State Thread Node) (thread : Thread) (next : Phase Node) :
    State Thread Node :=
  { state with phase := update state.phase thread next }

variable [DecidableEq Node]

/-- `mpmc_lifo_push` -/
def movePush (state : State Thread Node) (thread : Thread) (node : Node) :
    PushPhase Node → State Thread Node
  | .counting => state.goto thread (.push node (.heading state.data.counter))
  | .heading counter => state.goto thread (.push node (.linking counter state.data.head))
  | .linking counter head =>
    { state with
      next := update state.next node head
      phase := update state.phase thread (.push node (.swapping counter head)) }
  | .swapping counter head =>
    match state.data.swap counter head (some node) with
    | some data =>
      { state with data, phase := update state.phase thread (.returned (.pushed node)) }
    | none => state.goto thread (.push node .counting)

/-- `mpmc_lifo_pop` -/
def movePop (state : State Thread Node) (thread : Thread) : PopPhase Node → State Thread Node
  | .counting => state.goto thread (.pop (.heading state.data.counter))
  | .heading counter =>
    match state.data.head with
    | none => state.goto thread (.returned (.popped none))
    | some head => state.goto thread (.pop (.following counter head))
  | .following counter head =>
    state.goto thread (.pop (.swapping counter head (state.next head)))
  | .swapping counter head next =>
    match state.data.swap counter (some head) next with
    | some data =>
      { state with
        data
        free := update state.free head true
        phase := update state.phase thread (.returned (.popped (some head))) }
    | none => state.goto thread (.pop .counting)

def move (state : State Thread Node) (thread : Thread) : Option (State Thread Node) :=
  match state.phase thread with
  | .idle | .returned _ => none
  | .push node phase => some (movePush state thread node phase)
  | .pop phase => some (movePop state thread phase)

def step (state : State Thread Node) : Action Thread Node → Option (State Thread Node)
  | .fill node next =>
    if state.free node = true then some { state with next := update state.next node next }
    else none
  | .push thread node =>
    if (state.phase thread).resting ∧ state.free node = true then
      some { state with
        free := update state.free node false
        phase := update state.phase thread (.push node .counting) }
    else none
  | .pop thread =>
    if (state.phase thread).resting = true then some (state.goto thread (.pop .counting))
    else none
  | .move thread => move state thread

end Steps

/-- `mpmc_lifo_init`; whatever is in the nodes. -/
def Initial {Thread Node : Type} (state : State Thread Node) : Prop :=
  state.data = ⟨0, none⟩ ∧ state.phase = fun _ => .idle

def machine (Thread Node : Type) [DecidableEq Thread] [DecidableEq Node] :
    Machine (State Thread Node) (Action Thread Node) where
  initial := Initial
  step := step

abbrev History (Thread Node : Type) := List (State Thread Node × Action Thread Node)

inductive Reads {Thread Node : Type} [DecidableEq Node] (state : State Thread Node) :
    Phase Node → Phase Node → Prop where
  | pushCount : Reads state (.push node .counting) (.push node (.heading state.data.counter))
  | pushHead :
      Reads state (.push node (.heading counter)) (.push node (.linking counter state.data.head))
  | pushRetry : Reads state (.push node (.swapping counter head)) (.push node .counting)
  | popCount : Reads state (.pop .counting) (.pop (.heading state.data.counter))
  | popHead : state.data.head = some head →
      Reads state (.pop (.heading counter)) (.pop (.following counter head))
  | popEmpty : state.data.head = none →
      Reads state (.pop (.heading counter)) (.returned (.popped none))
  | popFollow : Reads state (.pop (.following counter head))
        (.pop (.swapping counter head (state.next head)))
  | popRetry : Reads state (.pop (.swapping counter head next)) (.pop .counting)

inductive Move {Thread Node : Type} [DecidableEq Thread] [DecidableEq Node]
    (state : State Thread Node) : Action Thread Node → State Thread Node → Prop where
  | fill : state.free node →
      Move state (.fill node next) { state with next := update state.next node next }
  | push : (state.phase thread).resting → state.free node →
      Move state (.push thread node)
        { state with
          free := update state.free node false
          phase := update state.phase thread (.push node .counting) }
  | pop : (state.phase thread).resting →
      Move state (.pop thread) (state.goto thread (.pop .counting))
  | read : Reads state (state.phase thread) next →
      Move state (.move thread) (state.goto thread next)
  | link : state.phase thread = .push node (.linking counter head) →
      Move state (.move thread)
        { state with
          next := update state.next node head
          phase := update state.phase thread (.push node (.swapping counter head)) }
  | pushed : state.phase thread = .push node (.swapping counter head) →
      state.data.swap counter head (some node) = some data →
      Move state (.move thread)
        { state with data, phase := update state.phase thread (.returned (.pushed node)) }
  | popped : state.phase thread = .pop (.swapping counter head next) →
      state.data.swap counter (some head) next = some data →
      Move state (.move thread)
        { state with
          data
          free := update state.free head true
          phase := update state.phase thread (.returned (.popped (some head))) }

section Moves

variable {Thread Node : Type} [DecidableEq Thread] [DecidableEq Node]
variable {state : State Thread Node}

attribute [local grind intro] Reads Move

theorem movePush_moves (phase : state.phase thread = .push node push) :
    Move state (.move thread) (movePush state thread node push) := by
  cases push <;> simp only [movePush]
  all_goals grind

theorem movePop_moves (phase : state.phase thread = .pop pop) :
    Move state (.move thread) (movePop state thread pop) := by
  cases pop <;> simp only [movePop]
  all_goals grind

theorem step_moves (stepped : step state action = some after) :
    Move state action after := by
  cases action with
  | move thread => grind [step, move, movePush_moves, movePop_moves]
  | fill | push | pop =>
    simp only [step] at stepped
    grind

end Moves

end LibFiber.MpmcLifo
