import LibFiber.Semantics.Machine
import LibFiber.PowerOf2

namespace LibFiber.LockfreeRing

open Semantics PowerOf2 Function

/-! `lockfree_ring_buffer` with any number of pushing and popping threads.

A step is one access to `high`, `low` or a slot.  `push` and `pop` call `trypush`
and `trypop` until one succeeds, as any client may.
-/

/-- `lockfree_ring_buffer_t`; a slot is null or has a value. -/
structure Ring (Value : Type) where
  high : Nat
  low : Nat
  buffer : Nat → Option Value

inductive Phase (Value : Type) where
  | idle
  /-- In `lockfree_ring_buffer_trypush`, about to read `low`. -/
  | loadingLow (value : Value)
  | loadingHigh (value : Value) (low : Nat)
  | probing (value : Value) (low high : Nat)
  | swappingHigh (value : Value) (high : Nat)
  | writing (value : Value) (position : Nat)
  | pushed (success : Bool)
  /-- In `lockfree_ring_buffer_trypop`, about to read `high`. -/
  | readingHigh
  | readingLow (high : Nat)
  | readingSlot (high low : Nat)
  | swappingLow (low : Nat) (value : Value)
  | clearing (position : Nat) (value : Value)
  | popped (value : Option Value)
deriving DecidableEq, Repr

structure State (Thread Value : Type) where
  ring : Ring Value
  phase : Thread → Phase Value

inductive Action (Thread Value : Type) where
  | trypush (thread : Thread) (value : Value)
  | trypop (thread : Thread)
  | move (thread : Thread) (spurious : Bool)
deriving DecidableEq, Repr

/-- `sizeof(lockfree_ring_buffer_t)` -/
def header : Nat := 136

/-- `lockfree_ring_buffer_create`, which asserts that the size is in range.  The
`PowerOf2.allocated header powerOf2Size` slots that are allocated are null. -/
def create {Thread Value : Type} (powerOf2Size : Nat) : Option (State Thread Value) :=
  if 0 < powerOf2Size ∧ powerOf2Size < 32 then
    some { ring := ⟨0, 0, fun _ => none⟩, phase := fun _ => .idle }
  else none

def Phase.resting {Value : Type} : Phase Value → Bool
  | .idle | .pushed _ | .popped _ => true
  | _ => false

/-- The slot that the next step reads or writes. -/
def Phase.accesses {Value : Type} (powerOf2Size : Nat) : Phase Value → Option Nat
  | .probing _ _ position | .writing _ position | .readingSlot _ position
  | .clearing position _ => some (index powerOf2Size position)
  | _ => none

section Steps

variable {Thread Value : Type} [DecidableEq Thread]

def State.goto (state : State Thread Value) (thread : Thread) (next : Phase Value) :
    State Thread Value :=
  { state with phase := update state.phase thread next }

/-- `lockfree_ring_buffer_trypush` and `lockfree_ring_buffer_trypop` -/
def move (powerOf2Size : Nat) (state : State Thread Value) (thread : Thread) (spurious : Bool) :
    Option (State Thread Value) :=
  match state.phase thread with
  | .idle | .pushed _ | .popped _ => none
  | .loadingLow value => some (state.goto thread (.loadingHigh value state.ring.low))
  | .loadingHigh value low => some (state.goto thread (.probing value low state.ring.high))
  | .probing value low high =>
    match state.ring.buffer (index powerOf2Size high) with
    | none =>
      -- `low` was read before `high`, so the difference does not wrap.
      if high - low < size powerOf2Size then
        some (state.goto thread (.swappingHigh value high))
      else some (state.goto thread (.pushed false))
    | some _ => some (state.goto thread (.pushed false))
  | .swappingHigh value high =>
    if state.ring.high = high ∧ spurious = false then
      some { ring := { state.ring with high := high + 1 }
             phase := update state.phase thread (.writing value high) }
    else some (state.goto thread (.pushed false))
  | .writing value position =>
    some
      { ring := { state.ring with
          buffer := update state.ring.buffer (index powerOf2Size position) (some value) }
        phase := update state.phase thread (.pushed true) }
  | .readingHigh => some (state.goto thread (.readingLow state.ring.high))
  | .readingLow high => some (state.goto thread (.readingSlot high state.ring.low))
  | .readingSlot high low =>
    match state.ring.buffer (index powerOf2Size low) with
    | none => some (state.goto thread (.popped none))
    | some value =>
      if low < high then some (state.goto thread (.swappingLow low value))
      else some (state.goto thread (.popped none))
  | .swappingLow low value =>
    if state.ring.low = low ∧ spurious = false then
      some { ring := { state.ring with low := low + 1 }
             phase := update state.phase thread (.clearing low value) }
    else some (state.goto thread (.popped none))
  | .clearing position value =>
    some
      { ring := { state.ring with
          buffer := update state.ring.buffer (index powerOf2Size position) none }
        phase := update state.phase thread (.popped (some value)) }

def step (powerOf2Size : Nat) (state : State Thread Value) :
    Action Thread Value → Option (State Thread Value)
  | .trypush thread value =>
    if (state.phase thread).resting = true then some (state.goto thread (.loadingLow value))
    else none
  | .trypop thread =>
    if (state.phase thread).resting = true then some (state.goto thread .readingHigh) else none
  | .move thread spurious => move powerOf2Size state thread spurious

end Steps

def machine (Thread Value : Type) [DecidableEq Thread] (powerOf2Size : Nat) :
    Machine (State Thread Value) (Action Thread Value) where
  initial state := create powerOf2Size = some state
  step := step powerOf2Size

abbrev History (Thread Value : Type) := List (State Thread Value × Action Thread Value)

inductive Reads {Value : Type} (powerOf2Size : Nat) (ring : Ring Value) :
    Phase Value → Phase Value → Prop where
  | loadLow : Reads powerOf2Size ring (.loadingLow value) (.loadingHigh value ring.low)
  | loadHigh : Reads powerOf2Size ring (.loadingHigh value low) (.probing value low ring.high)
  | vacant : ring.buffer (index powerOf2Size high) = none → high - low < size powerOf2Size →
      Reads powerOf2Size ring (.probing value low high) (.swappingHigh value high)
  | refuse : Reads powerOf2Size ring (.probing value low high) (.pushed false)
  | missHigh : Reads powerOf2Size ring (.swappingHigh value high) (.pushed false)
  | readHigh : Reads powerOf2Size ring .readingHigh (.readingLow ring.high)
  | readLow : Reads powerOf2Size ring (.readingLow high) (.readingSlot high ring.low)
  | found : ring.buffer (index powerOf2Size low) = some value → low < high →
      Reads powerOf2Size ring (.readingSlot high low) (.swappingLow low value)
  | nothing : Reads powerOf2Size ring (.readingSlot high low) (.popped none)
  | missLow : Reads powerOf2Size ring (.swappingLow low value) (.popped none)

/-- The compare-and-swap that the thread's next step makes succeeds. -/
def State.swaps {Thread Value : Type} (state : State Thread Value) (thread : Thread)
    (spurious : Bool) : Bool :=
  match state.phase thread with
  | .swappingHigh _ high => state.ring.high = high ∧ spurious = false
  | .swappingLow low _ => state.ring.low = low ∧ spurious = false
  | _ => false

inductive Move {Thread Value : Type} [DecidableEq Thread] (powerOf2Size : Nat)
    (state : State Thread Value) : Action Thread Value → State Thread Value → Prop where
  | trypush : (state.phase thread).resting →
      Move powerOf2Size state (.trypush thread value) (state.goto thread (.loadingLow value))
  | trypop : (state.phase thread).resting →
      Move powerOf2Size state (.trypop thread) (state.goto thread .readingHigh)
  | read : Reads powerOf2Size state.ring (state.phase thread) next →
      state.swaps thread spurious = false →
      Move powerOf2Size state (.move thread spurious) (state.goto thread next)
  | claim : state.phase thread = .swappingHigh value state.ring.high →
      Move powerOf2Size state (.move thread false)
        { ring := { state.ring with high := state.ring.high + 1 }
          phase := update state.phase thread (.writing value state.ring.high) }
  | write : state.phase thread = .writing value position →
      Move powerOf2Size state (.move thread spurious)
        { ring := { state.ring with
            buffer := update state.ring.buffer (position % size powerOf2Size) (some value) }
          phase := update state.phase thread (.pushed true) }
  | take : state.phase thread = .swappingLow state.ring.low value →
      Move powerOf2Size state (.move thread false)
        { ring := { state.ring with low := state.ring.low + 1 }
          phase := update state.phase thread (.clearing state.ring.low value) }
  | clear : state.phase thread = .clearing position value →
      Move powerOf2Size state (.move thread spurious)
        { ring := { state.ring with
            buffer := update state.ring.buffer (position % size powerOf2Size) none }
          phase := update state.phase thread (.popped (some value)) }

section Moves

variable {Thread Value : Type} [DecidableEq Thread]
variable {after : State Thread Value}

attribute [local grind intro] Reads Move

theorem move_moves (stepped : move powerOf2Size state thread spurious = some after) :
    Move powerOf2Size state (.move thread spurious) after := by
  cases phase : state.phase thread <;> simp only [move, phase, reduceCtorEq] at stepped
  all_goals grind -linarith [State.swaps, index_eq]

theorem step_moves (stepped : step powerOf2Size state action = some after) :
    Move powerOf2Size state action after := by
  cases action with
  | trypush | trypop =>
    simp only [step] at stepped
    grind -linarith
  | move thread spurious => exact move_moves stepped

end Moves

end LibFiber.LockfreeRing
