import Mathlib.Algebra.GroupWithZero.Nat
import LibFiber.Semantics.Machine

namespace LibFiber.MpscRelaxed

open Semantics Function

/-! `mpscr_fifo`: one `spsc_fifo` for each producer, and one consumer that visits them
in turn.

A step is one access to shared memory.  Only its producer uses the tail of a fifo, and
only the consumer its head and the counter, so that these go with the access next to
them.  A popped node is its client's, who fills it and may push it to any fifo.
-/

inductive ProducerPhase (Node : Type) where
  | idle
  | terminating (newNode : Node)
  /-- About to store the new tail. -/
  | moving (newNode : Node)
  | linking (prevTail newNode : Node)
deriving DecidableEq, Repr

/-- The consumer in `mpscr_fifo_trypop`; `i` is its loop variable. -/
inductive ConsumerPhase (Producer Node Value : Type) where
  | idle
  | looping (i : Nat)
  /-- In `spsc_fifo_trypop` of the producer's fifo. -/
  | popping (i : Nat) (index : Producer)
  | following (i : Nat) (index : Producer) (prevHead : Node)
  | advancing (index : Producer) (prevHead prevHeadNext : Node)
  | copying (index : Producer) (prevHead prevHeadNext : Node)
  | storing (index : Producer) (prevHead : Node) (data : Value)
  | popped (result : Option Node)
deriving DecidableEq, Repr

structure State (Producer Node Value : Type) where
  counter : Nat
  head : Producer → Node
  tail : Producer → Node
  next : Node → Option Node
  data : Node → Value
  /-- In the hands of a client. -/
  free : Node → Bool
  producer : Producer → ProducerPhase Node
  consumer : ConsumerPhase Producer Node Value

inductive Action (Producer Node Value : Type) where
  | fill (node : Node) (data : Value) (next : Option Node)
  | push (producerNumber : Producer) (newNode : Node)
  | trypop
  | moveProducer (producerNumber : Producer)
  | moveConsumer
deriving DecidableEq, Repr

section Steps

variable {Node Value : Type} {numProducers : Nat}

def ConsumerPhase.resting {Producer : Type} : ConsumerPhase Producer Node Value → Bool
  | .idle | .popped _ => true
  | _ => false

variable [DecidableEq Node]

/-- `spsc_fifo_push` -/
def moveProducer (state : State (Fin numProducers) Node Value) (index : Fin numProducers) :
    Option (State (Fin numProducers) Node Value) :=
  match state.producer index with
  | .idle => none
  | .terminating newNode =>
    some { state with
      next := update state.next newNode none
      producer := update state.producer index (.moving newNode) }
  | .moving newNode =>
    some { state with
      tail := update state.tail index newNode
      producer := update state.producer index (.linking (state.tail index) newNode) }
  | .linking prevTail newNode =>
    some { state with
      next := update state.next prevTail (some newNode)
      producer := update state.producer index .idle }

/-- `mpscr_fifo_trypop`, with `spsc_fifo_trypop` -/
def moveConsumer [NeZero numProducers] (state : State (Fin numProducers) Node Value) :
    Option (State (Fin numProducers) Node Value) :=
  match state.consumer with
  | .idle | .popped _ => none
  | .looping i =>
    if i < numProducers then
      some { state with
        counter := state.counter + 1
        consumer := .popping i (Fin.ofNat numProducers state.counter) }
    else some { state with consumer := .popped none }
  | .popping i index => some { state with consumer := .following i index (state.head index) }
  | .following i index prevHead =>
    match state.next prevHead with
    | some prevHeadNext => some { state with consumer := .advancing index prevHead prevHeadNext }
    | none => some { state with consumer := .looping (i + 1) }
  | .advancing index prevHead prevHeadNext =>
    some { state with
      head := update state.head index prevHeadNext
      consumer := .copying index prevHead prevHeadNext }
  | .copying index prevHead prevHeadNext =>
    some { state with consumer := .storing index prevHead (state.data prevHeadNext) }
  | .storing _ prevHead data =>
    some { state with
      data := update state.data prevHead data
      free := update state.free prevHead true
      consumer := .popped (some prevHead) }

def step [NeZero numProducers] (state : State (Fin numProducers) Node Value) :
    Action (Fin numProducers) Node Value → Option (State (Fin numProducers) Node Value)
  | .fill node data next =>
    if state.free node = true then
      some { state with data := update state.data node data, next := update state.next node next }
    else none
  | .push index newNode =>
    if state.producer index = .idle ∧ state.free newNode = true then
      some { state with
        free := update state.free newNode false
        producer := update state.producer index (.terminating newNode) }
    else none
  | .trypop =>
    if state.consumer.resting = true then some { state with consumer := .looping 0 } else none
  | .moveProducer index => moveProducer state index
  | .moveConsumer => moveConsumer state

end Steps

/-- `mpscr_fifo_create`; what the clients have at first is no fifo's first node. -/
def Initial {Producer Node Value : Type} (state : State Producer Node Value) : Prop :=
  ∃ first : Producer → Node, Injective first ∧ state.counter = 0 ∧ state.head = first ∧
    state.tail = first ∧ (∀ index, state.next (first index) = none) ∧
    (∀ index, state.free (first index) = false) ∧ (state.producer = fun _ => .idle) ∧
    state.consumer = .idle

def machine (numProducers : Nat) [NeZero numProducers] (Node Value : Type) [DecidableEq Node] :
    Machine (State (Fin numProducers) Node Value) (Action (Fin numProducers) Node Value) where
  initial := Initial
  step := step

abbrev History (numProducers : Nat) (Node Value : Type) :=
  List (State (Fin numProducers) Node Value × Action (Fin numProducers) Node Value)

/-- The steps of the consumer that leave the memory as it is; the counter is its own. -/
inductive Reads {Node Value : Type} {numProducers : Nat} [NeZero numProducers]
    (state : State (Fin numProducers) Node Value) : Nat →
    ConsumerPhase (Fin numProducers) Node Value → ConsumerPhase (Fin numProducers) Node Value →
    Prop where
  | visit : i < numProducers →
      Reads state (state.counter + 1) (.looping i)
        (.popping i (Fin.ofNat numProducers state.counter))
  | give : ¬ i < numProducers → Reads state state.counter (.looping i) (.popped none)
  | head : Reads state state.counter (.popping i index) (.following i index (state.head index))
  | follow : state.next prevHead = some prevHeadNext →
      Reads state state.counter (.following i index prevHead)
        (.advancing index prevHead prevHeadNext)
  | pass : state.next prevHead = none →
      Reads state state.counter (.following i index prevHead) (.looping (i + 1))
  | copy : Reads state state.counter (.copying index prevHead prevHeadNext)
        (.storing index prevHead (state.data prevHeadNext))

inductive Move {Node Value : Type} {numProducers : Nat} [NeZero numProducers] [DecidableEq Node]
    (state : State (Fin numProducers) Node Value) :
    Action (Fin numProducers) Node Value → State (Fin numProducers) Node Value → Prop where
  | fill : state.free node →
      Move state (.fill node data next)
        { state with data := update state.data node data, next := update state.next node next }
  | push : state.producer index = .idle → state.free newNode →
      Move state (.push index newNode)
        { state with
          free := update state.free newNode false
          producer := update state.producer index (.terminating newNode) }
  | trypop : state.consumer.resting →
      Move state .trypop { state with consumer := .looping 0 }
  | terminate : state.producer index = .terminating newNode →
      Move state (.moveProducer index)
        { state with
          next := update state.next newNode none
          producer := update state.producer index (.moving newNode) }
  | move : state.producer index = .moving newNode →
      Move state (.moveProducer index)
        { state with
          tail := update state.tail index newNode
          producer := update state.producer index (.linking (state.tail index) newNode) }
  | link : state.producer index = .linking prevTail newNode →
      Move state (.moveProducer index)
        { state with
          next := update state.next prevTail (some newNode)
          producer := update state.producer index .idle }
  | read : Reads state counter state.consumer next →
      Move state .moveConsumer { state with counter, consumer := next }
  | advance : state.consumer = .advancing index prevHead prevHeadNext →
      Move state .moveConsumer
        { state with
          head := update state.head index prevHeadNext
          consumer := .copying index prevHead prevHeadNext }
  | store : state.consumer = .storing index prevHead data →
      Move state .moveConsumer
        { state with
          data := update state.data prevHead data
          free := update state.free prevHead true
          consumer := .popped (some prevHead) }

section Moves

variable {Node Value : Type} {numProducers : Nat} [NeZero numProducers] [DecidableEq Node]
variable {state after : State (Fin numProducers) Node Value} {index : Fin numProducers}

attribute [local grind intro] Reads Move

theorem moveProducer_moves (stepped : moveProducer state index = some after) :
    Move state (.moveProducer index) after := by
  cases phase : state.producer index <;> simp only [moveProducer, phase, reduceCtorEq] at stepped
  all_goals grind

theorem moveConsumer_moves (stepped : moveConsumer state = some after) :
    Move state .moveConsumer after := by
  cases phase : state.consumer <;> simp only [moveConsumer, phase, reduceCtorEq] at stepped
  all_goals grind

theorem step_moves (stepped : step state action = some after) : Move state action after := by
  cases action with
  | moveProducer index => exact moveProducer_moves stepped
  | moveConsumer => exact moveConsumer_moves stepped
  | fill | push | trypop =>
    simp only [step] at stepped
    grind

end Moves

end LibFiber.MpscRelaxed
