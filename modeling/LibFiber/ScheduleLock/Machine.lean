import LibFiber.RwLock.Word
import LibFiber.Semantics.Machine

namespace LibFiber.ScheduleLock

open Semantics RwLock Function

/-! `schedule_lock.c`: the flag `lock_using` behind a global read/write lock.

`fiber_manager_init` sets the flag and leaves the lock as the loader does, with
a zero word and queues that `mpsc_fifo_init` has not seen.
-/

/-- The statements of the three functions. -/
inductive Instr where
  | lock (mode : Mode)
  | unlock (mode : Mode)
  /-- `val = lock_using` -/
  | load
  | store (value : Int)
  /-- Go on only if `val < 0`. -/
  | guard
deriving DecidableEq, Repr

inductive Call where
  | addLock
  | setLockStatus
  | isLockUsing
deriving DecidableEq, Repr

/-- `add_lock` ends with a second `fiber_rwlock_wrlock`. -/
def Call.program : Call → List Instr
  | .addLock =>
    [.lock .read, .load, .unlock .read, .guard, .lock .write, .store 0, .lock .write]
  | .setLockStatus => [.lock .write, .store 1, .unlock .write]
  | .isLockUsing => [.lock .read, .load, .unlock .read]

structure Frame where
  call : Call
  rest : List Instr
  val : Int
  /-- The locks that the call has taken and not given back.  Nothing reads this
  field. -/
  held : List Mode
deriving DecidableEq, Repr

inductive Phase where
  | idle
  | running (frame : Frame)
  /-- In a lock operation, between its load and its compare-and-swap. -/
  | swapping (frame : Frame) (snapshot : Word)
  /-- Counted as a waiter, about to push itself on the queue of `mode`. -/
  | parking (frame : Frame) (mode : Mode)
  /-- About to pop from the queue of `mode`. -/
  | waking (frame : Frame) (mode : Mode)
  | returned (frame : Frame)
deriving DecidableEq, Repr

structure State (Caller : Type) where
  word : Word
  /-- Whether `mpsc_fifo_init` was called for the queue. -/
  initialised : Mode → Bool
  lockUsing : Int
  phase : Caller → Phase

inductive Action (Caller : Type) where
  | call (caller : Caller) (call : Call)
  | move (caller : Caller)
deriving DecidableEq, Repr

def init {Caller : Type} : State Caller where
  word := .free
  initialised := fun _ => false
  lockUsing := -1
  phase := fun _ => .idle

def Instr.op : Instr → Option Op
  | .lock mode => some (.lock mode)
  | .unlock mode => some (.unlock mode)
  | .load | .store _ | .guard => none

/-- What a caller holds behind a statement. -/
def Instr.hold : Instr → List Mode → List Mode
  | .lock mode, held => mode :: held
  | .unlock mode, held => held.erase mode
  | .load, held | .store _, held | .guard, held => held

def Frame.next (frame : Frame) (instr : Instr) (rest : List Instr) : Frame :=
  { frame with rest, held := instr.hold frame.held }

def committed (frame : Frame) (instr : Instr) (rest : List Instr) (mode : Mode) : Commit → Phase
  | .acquired | .released => .running (frame.next instr rest)
  | .wait => .parking frame mode
  | .wake queue _ => .waking (frame.next instr rest) queue

section Steps

variable {Caller : Type} [DecidableEq Caller]

def State.goto (state : State Caller) (caller : Caller) (next : Phase) : State Caller :=
  { state with phase := update state.phase caller next }

def execute (state : State Caller) (caller : Caller) (frame : Frame) : State Caller :=
  match frame.rest with
  | [] => state.goto caller (.returned frame)
  | .lock _ :: _ | .unlock _ :: _ => state.goto caller (.swapping frame state.word)
  | .load :: rest => state.goto caller (.running { frame with rest, val := state.lockUsing })
  | .store value :: rest =>
    { state with
      lockUsing := value
      phase := update state.phase caller (.running { frame with rest }) }
  | .guard :: rest =>
    state.goto caller (.running { frame with rest := if frame.val < 0 then rest else [] })

def cas (state : State Caller) (caller : Caller) (frame : Frame) (snapshot : Word) :
    Option (State Caller) :=
  match frame.rest with
  | [] => none
  | instr :: rest =>
    instr.op.bind fun op =>
      match op.round snapshot with
      | .error => none
      | .swap word commit =>
        if state.word.blob = snapshot.blob then
          some { state with
            word
            phase := update state.phase caller (committed frame instr rest op.mode commit) }
        else some (state.goto caller (.running frame))

/-- The push and the pop read and store through the pointers of the queue.  On a
queue without `mpsc_fifo_init` these are null, and the thread does not get any
further. -/
def move (state : State Caller) (caller : Caller) : Option (State Caller) :=
  match state.phase caller with
  | .running frame => some (execute state caller frame)
  | .swapping frame snapshot => cas state caller frame snapshot
  | .idle | .parking _ _ | .waking _ _ | .returned _ => none

def step (state : State Caller) : Action Caller → Option (State Caller)
  | .call caller call =>
    match state.phase caller with
    | .idle | .returned _ => some (state.goto caller (.running ⟨call, call.program, 0, []⟩))
    | _ => none
  | .move caller => move state caller

end Steps

def machine (Caller : Type) [DecidableEq Caller] : Machine (State Caller) (Action Caller) where
  initial state := state = init
  step := step

inductive Move {Caller : Type} [DecidableEq Caller] (state : State Caller) (caller : Caller) :
    State Caller → Prop where
  | call : (state.phase caller = .idle ∨ ∃ frame, state.phase caller = .returned frame) →
      Move state caller (state.goto caller (.running ⟨call, call.program, 0, []⟩))
  | finish : state.phase caller = .running frame → frame.rest = [] →
      Move state caller (state.goto caller (.returned frame))
  | enter : state.phase caller = .running frame →
      Move state caller (state.goto caller (.swapping frame state.word))
  | load : state.phase caller = .running frame →
      frame.rest = .load :: rest →
      Move state caller (state.goto caller (.running { frame with rest, val := state.lockUsing }))
  | store : state.phase caller = .running frame → frame.rest = .store value :: rest →
      Move state caller
        { state with
          lockUsing := value
          phase := update state.phase caller (.running { frame with rest }) }
  | proceed : state.phase caller = .running frame →
      frame.rest = .guard :: rest → frame.val < 0 →
      Move state caller (state.goto caller (.running { frame with rest }))
  | skip : state.phase caller = .running frame →
      frame.rest = .guard :: rest → ¬ frame.val < 0 →
      Move state caller (state.goto caller (.running { frame with rest := [] }))
  | commit : state.phase caller = .swapping frame state.word →
      frame.rest = instr :: rest → instr.op = some op → op.round state.word = .swap word commit →
      Move state caller
        { state with
          word
          phase := update state.phase caller (committed frame instr rest op.mode commit) }
  | retry : state.phase caller = .swapping frame snapshot →
      Move state caller (state.goto caller (.running frame))

def Action.caller {Caller : Type} : Action Caller → Caller
  | .call caller _ | .move caller => caller

section Moves

variable {Caller : Type} [DecidableEq Caller] {after : State Caller} {caller : Caller}

theorem execute_moves (phase : state.phase caller = .running frame) :
    Move state caller (execute state caller frame) := by
  unfold execute
  split
  · rename_i ended
    exact .finish phase ended
  · exact .enter phase
  · exact .enter phase
  · rename_i pending
    exact .load phase pending
  · rename_i pending
    exact .store phase pending
  · rename_i pending
    split
    · rename_i negative
      exact .proceed phase pending negative
    · rename_i nonnegative
      exact .skip phase pending nonnegative

theorem cas_moves (phase : state.phase caller = .swapping frame snapshot)
    (swapped : cas state caller frame snapshot = some after) : Move state caller after := by
  unfold cas at swapped
  split at swapped
  · contradiction
  · rename_i instr rest pending
    obtain ⟨op, found, swapped⟩ := Option.bind_eq_some_iff.mp swapped
    split at swapped
    · contradiction
    · rename_i word commit round
      split at swapped
      · rename_i same
        cases swapped
        rw [← Word.blob_injective same] at round phase
        exact .commit phase pending found round
      · cases swapped
        exact .retry phase

theorem step_moves (stepped : step state action = some after) :
    Move state action.caller after := by
  cases action with
  | call caller call =>
    simp only [step] at stepped
    split at stepped
    · rename_i idle
      cases stepped
      exact .call (.inl idle)
    · rename_i frame returned
      cases stepped
      exact .call (.inr ⟨frame, returned⟩)
    · contradiction
  | move caller =>
    cases phase : state.phase caller with
    | idle | parking | waking | returned => simp [step, move, phase] at stepped
    | running frame =>
      simp only [step, move, phase] at stepped
      cases stepped
      exact execute_moves phase
    | swapping frame snapshot =>
      simp only [step, move, phase] at stepped
      exact cas_moves phase stepped

end Moves

end LibFiber.ScheduleLock
