import LibFiber.Data.LinkedFifo
import LibFiber.Data.RingBuffer
import LibFiber.Signal.Wakeups
import Mathlib.Data.List.FinRange

namespace LibFiber.Channel

open Data Semantics Function

/-! Channels that share one signal, their senders and the one receiver.

A step is one access to memory that others write.  The receiver tries the
channels one after another and calls `fiber_signal_wait` when all were empty,
as `ChannelSelector::receive` does; with one channel this is the `receive` of
that channel.
-/

inductive Kind (Fiber : Type) where
  /-- `fiber_bounded_channel_t` with `2 ^ logSize` places. -/
  | bounded (logSize : Nat)
  | unbounded
  /-- `fiber_unbounded_sp_channel_t`, which only its producer sends to. -/
  | single (producer : Fiber)
deriving DecidableEq, Repr

inductive SenderPhase (count : Nat) (Msg : Type) where
  | idle
  /-- About to read `low`. -/
  | loading (channel : Fin count) (message : Msg)
  /-- About to read `high`. -/
  | sizing (channel : Fin count) (message : Msg) (low : Int)
  /-- About to read the slot at `high`. -/
  | probing (channel : Fin count) (message : Msg) (low high : Int)
  | swapping (channel : Fin count) (message : Msg) (low high : Int)
  | writing (channel : Fin count) (message : Msg) (position : Int)
  /-- About to put its node at the tail. -/
  | exchanging (channel : Fin count) (message : Msg)
  | linking (channel : Fin count) (message : Msg)
  /-- Its message is published; in `fiber_signal_raise`. -/
  | raising
  | sent (woken : Bool)
deriving DecidableEq, Repr

inductive ReceiverPhase (count : Nat) (Msg : Type) where
  | outside
  /-- About to try the first of the channels that are left. -/
  | trying (rest : List (Fin count))
  /-- It has read `high` of a bounded channel. -/
  | checking (channel : Fin count) (rest : List (Fin count)) (high : Int)
  /-- About to clear the slot that it has read. -/
  | emptying (channel : Fin count) (message : Msg)
  /-- About to store `low`. -/
  | advancing (channel : Fin count) (message : Msg)
  /-- In `fiber_signal_wait`. -/
  | waiting
  | received (message : Msg)
deriving DecidableEq, Repr

structure State (Fiber : Type) (count : Nat) (Msg : Type) where
  signal : Signal.State Fiber
  ring : Fin count → RingBuffer Msg
  /-- The queues of the other channels, each message with its sender. -/
  queue : Fin count → LinkedFifo (Fiber × Msg)
  sender : Fiber → SenderPhase count Msg
  receiver : ReceiverPhase count Msg

inductive Action (Fiber : Type) (count : Nat) (Msg : Type) where
  | send (fiber : Fiber) (channel : Fin count) (message : Msg)
  /-- `fails` is a spurious failure of the weak compare-and-swap. -/
  | moveSender (fiber : Fiber) (fails : Bool)
  | receive
  | moveReceiver
deriving DecidableEq, Repr

variable {Fiber Msg : Type} {count : Nat}

def Kind.ring : Kind Fiber → RingBuffer Msg
  | .bounded logSize => .create logSize
  | .unbounded | .single _ => .create 0

def init (kind : Fin count → Kind Fiber) (ready : Bool) : State Fiber count Msg where
  signal := Signal.init ready
  ring := fun channel => (kind channel).ring
  queue := fun _ => .empty
  sender := fun _ => .idle
  receiver := .outside

def Kind.entry (kind : Kind Fiber) (channel : Fin count) (message : Msg) :
    SenderPhase count Msg :=
  match kind with
  | .bounded _ => .loading channel message
  | .unbounded | .single _ => .exchanging channel message

/-- `fiber_bounded_channel_try_receive` or `_trypop` on the channel, then on the
channels behind it. -/
def moveReceiver (kind : Fin count → Kind Fiber) (state : State Fiber count Msg) :
    Option (State Fiber count Msg) :=
  match state.receiver with
  | .outside | .received _ => none
  | .trying [] =>
    some { state with
      signal := { state.signal with self := .clearing }
      receiver := .waiting }
  | .trying (channel :: rest) =>
    match kind channel with
    | .bounded _ =>
      some { state with receiver := .checking channel rest (state.ring channel).high }
    | .unbounded | .single _ =>
      match (state.queue channel).trypop with
      | some (entry, left) =>
        some { state with
          queue := update state.queue channel left
          receiver := .received entry.2 }
      | none => some { state with receiver := .trying rest }
  | .checking channel rest high =>
    match (state.ring channel).get (state.ring channel).low with
    | some message =>
      if (state.ring channel).low < high then
        some { state with receiver := .emptying channel message }
      else some { state with receiver := .trying rest }
    | none => some { state with receiver := .trying rest }
  | .emptying channel message =>
    some { state with
      ring := update state.ring channel (state.ring channel).clear
      receiver := .advancing channel message }
  | .advancing channel message =>
    some { state with
      ring := update state.ring channel (state.ring channel).advance
      receiver := .received message }
  | .waiting =>
    (Signal.moveWaiter state.signal).map fun signal =>
      { state with
        signal
        receiver := if signal.self = .outside then .trying (List.finRange count) else .waiting }

variable [DecidableEq Fiber]

def Kind.admits (fiber : Fiber) : Kind Fiber → Bool
  | .bounded _ | .unbounded => true
  | .single producer => fiber = producer

def State.goto (state : State Fiber count Msg) (fiber : Fiber) (next : SenderPhase count Msg) :
    State Fiber count Msg :=
  { state with sender := update state.sender fiber next }

/-- The message is in its place: go on with `fiber_signal_raise`. -/
def State.published (state : State Fiber count Msg) (fiber : Fiber) : State Fiber count Msg :=
  { state with
    signal := state.signal.goto fiber .exchanging
    sender := update state.sender fiber .raising }

/-- Where a sender is that goes on in `fiber_signal_raise`. -/
def SenderPhase.raised : Signal.RaiserPhase → SenderPhase count Msg
  | .returned woken => .sent woken
  | _ => .raising

variable [DecidableEq Msg]

def moveSender (state : State Fiber count Msg) (fiber : Fiber) (fails : Bool) :
    Option (State Fiber count Msg) :=
  match state.sender fiber with
  | .idle | .sent _ => none
  | .loading channel message =>
    some (state.goto fiber (.sizing channel message (state.ring channel).low))
  | .sizing channel message low =>
    some (state.goto fiber (.probing channel message low (state.ring channel).high))
  | .probing channel message low high =>
    if (state.ring channel).get high = none ∧ high - low < (state.ring channel).size then
      some (state.goto fiber (.swapping channel message low high))
    else some (state.goto fiber (.loading channel message))
  | .swapping channel message _ high =>
    if fails = false ∧ (state.ring channel).high = high then
      some { state with
        ring := update state.ring channel (state.ring channel).claim
        sender := update state.sender fiber (.writing channel message high) }
    else some (state.goto fiber (.loading channel message))
  | .writing channel message position =>
    some ({ state with
      ring := update state.ring channel ((state.ring channel).write position message)
      }.published fiber)
  | .exchanging channel message =>
    some { state with
      queue := update state.queue channel ((state.queue channel).exchange (fiber, message))
      sender := update state.sender fiber (.linking channel message) }
  | .linking channel message =>
    some ({ state with
      queue := update state.queue channel ((state.queue channel).link (fiber, message))
      }.published fiber)
  | .raising =>
    (Signal.moveRaiser state.signal fiber).map fun signal =>
      { state with
        signal
        sender := update state.sender fiber (.raised (signal.raiser fiber)) }

def step (kind : Fin count → Kind Fiber) (state : State Fiber count Msg) :
    Action Fiber count Msg → Option (State Fiber count Msg)
  | .send fiber channel message =>
    if (kind channel).admits fiber = true then
      match state.sender fiber with
      | .idle | .sent _ => some (state.goto fiber ((kind channel).entry channel message))
      | _ => none
    else none
  | .moveSender fiber fails => moveSender state fiber fails
  | .receive =>
    match state.receiver with
    | .outside | .received _ => some { state with receiver := .trying (List.finRange count) }
    | _ => none
  | .moveReceiver => moveReceiver kind state

def machine (Msg : Type) [DecidableEq Msg] (kind : Fin count → Kind Fiber) :
    Machine (State Fiber count Msg) (Action Fiber count Msg) where
  initial state := ∃ ready, state = init kind ready
  step := step kind

end LibFiber.Channel
