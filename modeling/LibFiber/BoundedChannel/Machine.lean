import LibFiber.Semantics.Machine
import LibFiber.PowerOf2

namespace LibFiber.BoundedChannel

open Semantics PowerOf2 Function

/-! `fiber_bounded_channel` with any number of senders and one receiver.

A step is one access to `high`, `low` or a slot.  The signal touches nothing of the
channel and is left out: after `fiber_signal_wait` or `fiber_yield` a fiber goes on
at any time.
-/

/-- `fiber_bounded_channel_t`; a slot is null or has a message. -/
structure Channel (Message : Type) where
  high : Nat
  low : Nat
  buffer : Nat → Option Message

inductive SenderPhase (Message : Type) where
  | idle
  /-- In `fiber_bounded_channel_send`, about to read `low`. -/
  | loadingLow (message : Message)
  | loadingHigh (message : Message) (low : Nat)
  | probing (message : Message) (low high : Nat)
  | swappingHigh (message : Message) (high : Nat)
  | yielding (message : Message)
  | writing (message : Message) (position : Nat)
  | sent
deriving DecidableEq, Repr

inductive ReceiverPhase (Message : Type) where
  | outside
  /-- In `fiber_bounded_channel_receive`, or in `try_receive` if it does not block. -/
  | readingHigh (blocking : Bool)
  | readingLow (blocking : Bool) (high : Nat)
  | readingSlot (blocking : Bool) (high low : Nat)
  | emptying (low : Nat) (message : Message)
  | advancing (low : Nat) (message : Message)
  | waiting
  | received (message : Option Message)
deriving DecidableEq, Repr

structure State (Sender Message : Type) where
  channel : Channel Message
  sender : Sender → SenderPhase Message
  receiver : ReceiverPhase Message

inductive Action (Sender Message : Type) where
  | send (sender : Sender) (message : Message)
  /-- `spurious` lets the weak compare-and-swap fail. -/
  | moveSender (sender : Sender) (spurious : Bool)
  | receive (blocking : Bool)
  | moveReceiver
deriving DecidableEq, Repr

/-- `sizeof(fiber_bounded_channel_t)` -/
def header : Nat := 216

/-- `fiber_bounded_channel_create`, which asserts that the size is in range.  The
`PowerOf2.allocated header powerOf2Size` slots that are allocated are null. -/
def create {Sender Message : Type} (powerOf2Size : Nat) : Option (State Sender Message) :=
  if 0 < powerOf2Size ∧ powerOf2Size < 32 then
    some { channel := ⟨0, 0, fun _ => none⟩, sender := fun _ => .idle, receiver := .outside }
  else none

/-- The slot that the sender's next step reads or writes. -/
def SenderPhase.accesses {Message : Type} (powerOf2Size : Nat) :
    SenderPhase Message → Option Nat
  | .probing _ _ position | .writing _ position => some (index powerOf2Size position)
  | _ => none

def ReceiverPhase.accesses {Message : Type} (powerOf2Size : Nat) :
    ReceiverPhase Message → Option Nat
  | .readingSlot _ _ position | .emptying position _ => some (index powerOf2Size position)
  | _ => none

def ReceiverPhase.message {Message : Type} : ReceiverPhase Message → Option Message
  | .received message => message
  | _ => none

/-- A receiver that found nothing. -/
def ReceiverPhase.failed {Message : Type} (blocking : Bool) : ReceiverPhase Message :=
  if blocking = true then .waiting else .received none

section Steps

variable {Sender Message : Type}

/-- `fiber_bounded_channel_receive` and `fiber_bounded_channel_try_receive` -/
def moveReceiver (powerOf2Size : Nat) (state : State Sender Message) :
    Option (State Sender Message) :=
  match state.receiver with
  | .outside | .received _ => none
  | .readingHigh blocking =>
    some { state with receiver := .readingLow blocking state.channel.high }
  | .readingLow blocking high =>
    some { state with receiver := .readingSlot blocking high state.channel.low }
  | .readingSlot blocking high low =>
    match state.channel.buffer (index powerOf2Size low) with
    | none => some { state with receiver := .failed blocking }
    | some message =>
      if low < high then some { state with receiver := .emptying low message }
      else some { state with receiver := .failed blocking }
  | .emptying low message =>
    some { state with
      channel := { state.channel with
        buffer := update state.channel.buffer (index powerOf2Size low) none }
      receiver := .advancing low message }
  | .advancing low message =>
    some { state with
      channel := { state.channel with low := low + 1 }
      receiver := .received (some message) }
  | .waiting => some { state with receiver := .readingHigh true }

variable [DecidableEq Sender]

def State.goto (state : State Sender Message) (sender : Sender) (next : SenderPhase Message) :
    State Sender Message :=
  { state with sender := update state.sender sender next }

/-- `fiber_bounded_channel_send` -/
def moveSender (powerOf2Size : Nat) (state : State Sender Message) (sender : Sender)
    (spurious : Bool) : Option (State Sender Message) :=
  match state.sender sender with
  | .idle | .sent => none
  | .loadingLow message => some (state.goto sender (.loadingHigh message state.channel.low))
  | .loadingHigh message low => some (state.goto sender (.probing message low state.channel.high))
  | .probing message low high =>
    match state.channel.buffer (index powerOf2Size high) with
    | none =>
      -- `low` was read before `high`, so the difference does not wrap.
      if high - low < size powerOf2Size then
        some (state.goto sender (.swappingHigh message high))
      else some (state.goto sender (.yielding message))
    | some _ => some (state.goto sender (.yielding message))
  | .swappingHigh message high =>
    if state.channel.high = high ∧ spurious = false then
      some { state with
        channel := { state.channel with high := high + 1 }
        sender := update state.sender sender (.writing message high) }
    else some (state.goto sender (.yielding message))
  | .yielding message => some (state.goto sender (.loadingLow message))
  | .writing message position =>
    some { state with
      channel := { state.channel with
        buffer := update state.channel.buffer (index powerOf2Size position) (some message) }
      sender := update state.sender sender .sent }

def step (powerOf2Size : Nat) (state : State Sender Message) :
    Action Sender Message → Option (State Sender Message)
  | .send sender message =>
    match state.sender sender with
    | .idle | .sent => some (state.goto sender (.loadingLow message))
    | _ => none
  | .moveSender sender spurious => moveSender powerOf2Size state sender spurious
  | .receive blocking =>
    match state.receiver with
    | .outside | .received _ => some { state with receiver := .readingHigh blocking }
    | _ => none
  | .moveReceiver => moveReceiver powerOf2Size state

end Steps

def machine (Sender Message : Type) [DecidableEq Sender] (powerOf2Size : Nat) :
    Machine (State Sender Message) (Action Sender Message) where
  initial state := create powerOf2Size = some state
  step := step powerOf2Size

abbrev History (Sender Message : Type) := List (State Sender Message × Action Sender Message)

inductive Looks {Message : Type} (powerOf2Size : Nat) (channel : Channel Message) :
    SenderPhase Message → SenderPhase Message → Prop where
  | send : phase = .idle ∨ phase = .sent →
      Looks powerOf2Size channel phase (.loadingLow message)
  | loadLow : Looks powerOf2Size channel (.loadingLow message) (.loadingHigh message channel.low)
  | loadHigh :
      Looks powerOf2Size channel (.loadingHigh message low) (.probing message low channel.high)
  | vacant : channel.buffer (index powerOf2Size high) = none → high - low < size powerOf2Size →
      Looks powerOf2Size channel (.probing message low high) (.swappingHigh message high)
  | full : Looks powerOf2Size channel (.probing message low high) (.yielding message)
  | miss : Looks powerOf2Size channel (.swappingHigh message high) (.yielding message)
  | again : Looks powerOf2Size channel (.yielding message) (.loadingLow message)

inductive Tries {Message : Type} (powerOf2Size : Nat) (channel : Channel Message) :
    ReceiverPhase Message → ReceiverPhase Message → Prop where
  | receive : phase = .outside ∨ (∃ message, phase = .received message) →
      Tries powerOf2Size channel phase (.readingHigh blocking)
  | readHigh :
      Tries powerOf2Size channel (.readingHigh blocking) (.readingLow blocking channel.high)
  | readLow : Tries powerOf2Size channel (.readingLow blocking high)
        (.readingSlot blocking high channel.low)
  | found : channel.buffer (index powerOf2Size low) = some message → low < high →
      Tries powerOf2Size channel (.readingSlot blocking high low) (.emptying low message)
  | fail : Tries powerOf2Size channel (.readingSlot blocking high low) (.failed blocking)
  | again : Tries powerOf2Size channel .waiting (.readingHigh true)

/-- The sender's next step is a compare-and-swap that succeeds. -/
def State.swaps {Sender Message : Type} (state : State Sender Message) (sender : Sender)
    (spurious : Bool) : Bool :=
  match state.sender sender with
  | .swappingHigh _ high => state.channel.high = high ∧ spurious = false
  | _ => false

/-- The message that the step claims a position for. -/
def sends {Sender Message : Type} (taken : State Sender Message × Action Sender Message) :
    Option Message :=
  match taken.2 with
  | .moveSender sender spurious =>
    match taken.1.sender sender with
    | .swappingHigh message _ => if taken.1.swaps sender spurious then some message else none
    | _ => none
  | _ => none

/-- The message that a receive returns with the step. -/
def receives {Sender Message : Type} (powerOf2Size : Nat) :
    State Sender Message × Action Sender Message → Option Message
  | (state, .moveReceiver) => (moveReceiver powerOf2Size state).bind (·.receiver.message)
  | _ => none

inductive Move {Sender Message : Type} [DecidableEq Sender] (powerOf2Size : Nat)
    (state : State Sender Message) : Action Sender Message → State Sender Message → Prop where
  | look :
      Looks powerOf2Size state.channel (state.sender sender) next → sends (state, action) = none →
      receives powerOf2Size (state, action) = none →
      Move powerOf2Size state action (state.goto sender next)
  | attempt : Tries powerOf2Size state.channel state.receiver next → sends (state, action) = none →
      receives powerOf2Size (state, action) = none →
      Move powerOf2Size state action { state with receiver := next }
  | claim : state.sender sender = .swappingHigh message state.channel.high →
      Move powerOf2Size state (.moveSender sender false)
        { state with
          channel := { state.channel with high := state.channel.high + 1 }
          sender := update state.sender sender (.writing message state.channel.high) }
  | write : state.sender sender = .writing message position →
      Move powerOf2Size state (.moveSender sender spurious)
        { state with
          channel := { state.channel with
            buffer := update state.channel.buffer (position % size powerOf2Size) (some message) }
          sender := update state.sender sender .sent }
  | empty : state.receiver = .emptying low message →
      Move powerOf2Size state .moveReceiver
        { state with
          channel := { state.channel with
            buffer := update state.channel.buffer (low % size powerOf2Size) none }
          receiver := .advancing low message }
  | advance : state.receiver = .advancing low message →
      Move powerOf2Size state .moveReceiver
        { state with
          channel := { state.channel with low := low + 1 }
          receiver := .received (some message) }

section Moves

variable {Sender Message : Type} [DecidableEq Sender]
variable {after : State Sender Message}

attribute [local grind intro] Looks Tries Move

theorem moveSender_moves (stepped : moveSender powerOf2Size state sender spurious = some after) :
    Move powerOf2Size state (.moveSender sender spurious) after := by
  have silent : receives powerOf2Size (state, .moveSender sender spurious) = none := rfl
  cases phase : state.sender sender <;> simp only [moveSender, phase, reduceCtorEq] at stepped
  all_goals grind [State.swaps, sends, index_eq]

theorem moveReceiver_moves (stepped : moveReceiver powerOf2Size state = some after) :
    Move powerOf2Size state .moveReceiver after := by
  have mute : sends (state, .moveReceiver) = none := rfl
  have silent : after.receiver.message = none →
      receives powerOf2Size (state, .moveReceiver) = none := by
    simp [receives, stepped]
  cases phase : state.receiver <;> simp only [moveReceiver, phase, reduceCtorEq] at stepped
  all_goals grind [ReceiverPhase.message, ReceiverPhase.failed, index_eq]

theorem step_moves (stepped : step powerOf2Size state action = some after) :
    Move powerOf2Size state action after := by
  cases action with
  | send | receive =>
    simp only [step] at stepped
    grind [sends, receives]
  | moveSender sender spurious => exact moveSender_moves stepped
  | moveReceiver => exact moveReceiver_moves stepped

end Moves

end LibFiber.BoundedChannel
