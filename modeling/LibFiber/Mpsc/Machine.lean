import LibFiber.Semantics.Machine
import LibFiber.Data.LinkedNodes

namespace LibFiber.Mpsc

open Semantics Function

/-! `mpsc_fifo` with any number of producers and one consumer.

A step is one access to the queue or to a node.  A node is free while it is in a
client's hands: a push takes it from there, and a successful `mpsc_fifo_trypop`
returns the old sentinel to them, with the popped data in it.
-/

inductive ProducerPhase (Node : Type) where
  | idle
  /-- About to store null in `new_node->next`. -/
  | terminating (node : Node)
  | exchanging (node : Node)
  /-- About to store `node` in `prev_tail->next`. -/
  | linking (prevTail node : Node)
deriving DecidableEq, Repr

inductive ConsumerPhase (Node Value : Type) where
  | idle
  | peeking
  | peekingNext (head : Node)
  /-- About to read the data to report. -/
  | glancing (headNext : Node)
  | peeked (data : Option Value)
  | popping
  | poppingNext (prevHead : Node)
  | advancing (prevHead prevHeadNext : Node)
  | copying (prevHead prevHeadNext : Node)
  | storing (prevHead : Node) (data : Value)
  | popped (node : Option Node)
deriving DecidableEq, Repr

structure State (Producer Node Value : Type) where
  head : Node
  tail : Node
  next : Node → Option Node
  data : Node → Value
  free : Node → Bool
  producer : Producer → ProducerPhase Node
  consumer : ConsumerPhase Node Value

inductive Action (Producer Node Value : Type) where
  /-- A client stores what it likes in a node of its own. -/
  | fill (node : Node) (data : Value) (next : Option Node)
  | push (producer : Producer) (node : Node)
  | moveProducer (producer : Producer)
  | peek
  | trypop
  | moveConsumer
deriving DecidableEq, Repr

/-- `mpsc_fifo_init`, in any memory whose new sentinel is cleared. -/
def init {Producer Node Value : Type} [DecidableEq Node] (sentinel : Node)
    (next : Node → Option Node) (data : Node → Value) : State Producer Node Value where
  head := sentinel
  tail := sentinel
  next := update next sentinel none
  data
  free := fun node => node != sentinel
  producer := fun _ => .idle
  consumer := .idle

section Steps

variable {Producer Node Value : Type} [DecidableEq Producer] [DecidableEq Node]

def fill (state : State Producer Node Value) (node : Node) (data : Value) (next : Option Node) :
    Option (State Producer Node Value) :=
  if state.free node = true then
    some { state with data := update state.data node data, next := update state.next node next }
  else none

def push (state : State Producer Node Value) (producer : Producer) (node : Node) :
    Option (State Producer Node Value) :=
  if state.producer producer = .idle ∧ state.free node = true then
    some { state with
      free := update state.free node false
      producer := update state.producer producer (.terminating node) }
  else none

/-- `mpsc_fifo_push` -/
def moveProducer (state : State Producer Node Value) (producer : Producer) :
    Option (State Producer Node Value) :=
  match state.producer producer with
  | .idle => none
  | .terminating node =>
    some { state with
      next := update state.next node none
      producer := update state.producer producer (.exchanging node) }
  | .exchanging node =>
    some { state with
      tail := node
      producer := update state.producer producer (.linking state.tail node) }
  | .linking prevTail node =>
    some { state with
      next := update state.next prevTail (some node)
      producer := update state.producer producer .idle }

/-- The consumer's calls come one after the other. -/
def ConsumerPhase.resting : ConsumerPhase Node Value → Bool
  | .idle | .peeked _ | .popped _ => true
  | _ => false

def call (state : State Producer Node Value) (first : ConsumerPhase Node Value) :
    Option (State Producer Node Value) :=
  if state.consumer.resting = true then some { state with consumer := first } else none

/-- `mpsc_fifo_peek` and `mpsc_fifo_trypop` -/
def moveConsumer (state : State Producer Node Value) : Option (State Producer Node Value) :=
  match state.consumer with
  | .idle | .peeked _ | .popped _ => none
  | .peeking => some { state with consumer := .peekingNext state.head }
  | .peekingNext head =>
    match state.next head with
    | some headNext => some { state with consumer := .glancing headNext }
    | none => some { state with consumer := .peeked none }
  | .glancing headNext => some { state with consumer := .peeked (some (state.data headNext)) }
  | .popping => some { state with consumer := .poppingNext state.head }
  | .poppingNext prevHead =>
    match state.next prevHead with
    | some prevHeadNext => some { state with consumer := .advancing prevHead prevHeadNext }
    | none => some { state with consumer := .popped none }
  | .advancing prevHead prevHeadNext =>
    some { state with head := prevHeadNext, consumer := .copying prevHead prevHeadNext }
  | .copying prevHead prevHeadNext =>
    some { state with consumer := .storing prevHead (state.data prevHeadNext) }
  | .storing prevHead data =>
    some { state with
      data := update state.data prevHead data
      free := update state.free prevHead true
      consumer := .popped (some prevHead) }

def step (state : State Producer Node Value) :
    Action Producer Node Value → Option (State Producer Node Value)
  | .fill node data next => fill state node data next
  | .push producer node => push state producer node
  | .moveProducer producer => moveProducer state producer
  | .peek => call state .peeking
  | .trypop => call state .popping
  | .moveConsumer => moveConsumer state

end Steps

def machine (Producer Node Value : Type) [DecidableEq Producer] [DecidableEq Node] :
    Machine (State Producer Node Value) (Action Producer Node Value) where
  initial state := ∃ sentinel next data, state = init sentinel next data
  step := step

abbrev History (Producer Node Value : Type) :=
  List (State Producer Node Value × Action Producer Node Value)

inductive Reads {Producer Node Value : Type} (state : State Producer Node Value) :
    ConsumerPhase Node Value → ConsumerPhase Node Value → Prop where
  | peekHead : Reads state .peeking (.peekingNext state.head)
  | peekNext : state.next head = some headNext →
      Reads state (.peekingNext head) (.glancing headNext)
  | peekNull : state.next head = none →
      Reads state (.peekingNext head) (.peeked none)
  | glance : Reads state (.glancing headNext) (.peeked (some (state.data headNext)))
  | popHead : Reads state .popping (.poppingNext state.head)
  | popNext : state.next prevHead = some prevHeadNext →
      Reads state (.poppingNext prevHead) (.advancing prevHead prevHeadNext)
  | popNull : state.next prevHead = none →
      Reads state (.poppingNext prevHead) (.popped none)
  | copy : Reads state (.copying prevHead prevHeadNext)
        (.storing prevHead (state.data prevHeadNext))

inductive Move {Producer Node Value : Type} [DecidableEq Producer] [DecidableEq Node]
    (state : State Producer Node Value) :
    Action Producer Node Value → State Producer Node Value → Prop where
  | fill : state.free node →
      Move state (.fill node data next)
        { state with data := update state.data node data, next := update state.next node next }
  | push : state.producer producer = .idle → state.free node →
      Move state (.push producer node)
        { state with
          free := update state.free node false
          producer := update state.producer producer (.terminating node) }
  | terminate : state.producer producer = .terminating node →
      Move state (.moveProducer producer)
        { state with
          next := update state.next node none
          producer := update state.producer producer (.exchanging node) }
  | exchange : state.producer producer = .exchanging node →
      Move state (.moveProducer producer)
        { state with
          tail := node
          producer := update state.producer producer (.linking state.tail node) }
  | link : state.producer producer = .linking prevTail node →
      Move state (.moveProducer producer)
        { state with
          next := update state.next prevTail (some node)
          producer := update state.producer producer .idle }
  | peek : state.consumer.resting →
      Move state .peek { state with consumer := .peeking }
  | trypop : state.consumer.resting →
      Move state .trypop { state with consumer := .popping }
  | read : Reads state state.consumer next →
      Move state .moveConsumer { state with consumer := next }
  | advance : state.consumer = .advancing prevHead prevHeadNext →
      Move state .moveConsumer
        { state with head := prevHeadNext, consumer := .copying prevHead prevHeadNext }
  | store : state.consumer = .storing prevHead data →
      Move state .moveConsumer
        { state with
          data := update state.data prevHead data
          free := update state.free prevHead true
          consumer := .popped (some prevHead) }

section Moves

variable {Producer Node Value : Type} [DecidableEq Producer] [DecidableEq Node]
variable {after : State Producer Node Value}

attribute [local grind intro] Reads Move

theorem moveProducer_moves (stepped : moveProducer state producer = some after) :
    Move state (.moveProducer producer) after := by
  cases phase : state.producer producer <;> simp only [moveProducer, phase, reduceCtorEq] at stepped
  all_goals grind

theorem moveConsumer_moves (stepped : moveConsumer state = some after) :
    Move state .moveConsumer after := by
  cases phase : state.consumer <;> simp only [moveConsumer, phase, reduceCtorEq] at stepped
  all_goals grind

theorem step_moves (stepped : step state action = some after) : Move state action after := by
  cases action with
  | moveProducer producer => exact moveProducer_moves stepped
  | moveConsumer => exact moveConsumer_moves stepped
  | fill | push | peek | trypop =>
    simp only [step, fill, push, call] at stepped
    grind

end Moves

end LibFiber.Mpsc
