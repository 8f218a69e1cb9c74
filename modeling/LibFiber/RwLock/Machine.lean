import LibFiber.Data.LinkedFifo
import LibFiber.Data.Total
import LibFiber.RwLock.Word
import LibFiber.Semantics.Machine

namespace LibFiber.RwLock

open Data Semantics Function

/-! Any number of fibers on one read/write lock, interleaved at the loads and
compare-and-swaps of the packed word and at the steps of the two wait queues.
-/

inductive Phase where
  | idle
  /-- At the head of an operation's loop, about to load the word. -/
  | loading (op : Op)
  | swapping (op : Op) (snapshot : Word)
  | pushing (mode : Mode)
  | linking (mode : Mode)
  | parked (mode : Mode)
  | holding (mode : Mode)
  /-- In the wake loop, with `left` waiters still to pop. -/
  | waking (mode : Mode) (left : Nat)
deriving DecidableEq, Repr

structure State (Fiber : Type) where
  word : Word
  waiters : Mode → LinkedFifo Fiber
  phase : Fiber → Phase

inductive Action (Fiber : Type) where
  | call (fiber : Fiber) (op : Op)
  | load (fiber : Fiber)
  | cas (fiber : Fiber)
  | exchange (fiber : Fiber)
  | link (fiber : Fiber)
  | trypop (fiber : Fiber)
deriving DecidableEq, Repr

def init {Fiber : Type} : State Fiber where
  word := .free
  waiters := fun _ => .empty
  phase := fun _ => .idle

/-- Where an operation may be called: unlocking only while holding, everything
else only while neither holding nor awaiting the lock. -/
def Op.caller : Op → Phase
  | .unlock mode => .holding mode
  | .lock _ | .trylock _ => .idle

/-- Where a successful compare-and-swap leaves its caller. -/
@[simp] def Commit.phase (commit : Commit) (mode : Mode) : Phase :=
  match commit with
  | .acquired => .holding mode
  | .wait => .pushing mode
  | .released => .idle
  | .wake queue count => .waking queue count

variable {Fiber : Type} [DecidableEq Fiber]

def State.goto (state : State Fiber) (fiber : Fiber) (next : Phase) : State Fiber :=
  { state with phase := update state.phase fiber next }

def load (state : State Fiber) (fiber : Fiber) (op : Op) : State Fiber :=
  match op.round state.word with
  | .error => state.goto fiber .idle
  | .swap _ _ => state.goto fiber (.swapping op state.word)

def cas (state : State Fiber) (fiber : Fiber) (op : Op) (snapshot : Word) : State Fiber :=
  match op.round snapshot with
  | .error => state.goto fiber .idle
  | .swap next commit =>
    if state.word.blob = snapshot.blob then
      { state with word := next, phase := update state.phase fiber (commit.phase op.mode) }
    else state.goto fiber (.loading op)

/-- One round of the wake loop: the popped waiter holds the lock that was
granted to it; after the last pop the waker leaves the loop. -/
def trypop (state : State Fiber) (fiber : Fiber) (mode : Mode) (left : Nat) : State Fiber :=
  match (state.waiters mode).trypop with
  | some (woken, rest) =>
    { state with
      waiters := update state.waiters mode rest
      phase := update (update state.phase woken (.holding mode)) fiber
        (if left ≤ 1 then .idle else .waking mode (left - 1)) }
  | none => state

def step (state : State Fiber) : Action Fiber → Option (State Fiber)
  | .call fiber op =>
    if state.phase fiber = op.caller then some (state.goto fiber (.loading op)) else none
  | .load fiber =>
    match state.phase fiber with
    | .loading op => some (load state fiber op)
    | _ => none
  | .cas fiber =>
    match state.phase fiber with
    | .swapping op snapshot => some (cas state fiber op snapshot)
    | _ => none
  | .exchange fiber =>
    match state.phase fiber with
    | .pushing mode =>
      some { state with
        waiters := update state.waiters mode ((state.waiters mode).exchange fiber)
        phase := update state.phase fiber (.linking mode) }
    | _ => none
  | .link fiber =>
    match state.phase fiber with
    | .linking mode =>
      some { state with
        waiters := update state.waiters mode ((state.waiters mode).link fiber)
        phase := update state.phase fiber (.parked mode) }
    | _ => none
  | .trypop fiber =>
    match state.phase fiber with
    | .waking mode left => some (trypop state fiber mode left)
    | _ => none

def machine (Fiber : Type) [DecidableEq Fiber] : Machine (State Fiber) (Action Fiber) where
  initial state := state = init
  step := step

/-- One for a fiber that holds the lock in `mode`, also while it is unlocking
and its compare-and-swap has not succeeded yet. -/
@[simp] def Phase.holds (mode : Mode) : Phase → Nat
  | .holding held => if held = mode then 1 else 0
  | .loading (.unlock held) | .swapping (.unlock held) _ => if held = mode then 1 else 0
  | _ => 0

/-- One for a fiber that has committed to wait in `mode`'s queue. -/
@[simp] def Phase.commits (mode : Mode) : Phase → Nat
  | .pushing queue | .linking queue | .parked queue => if queue = mode then 1 else 0
  | _ => 0

/-- The grants a waker still has to hand out from `mode`'s queue. -/
@[simp] def Phase.grants (mode : Mode) : Phase → Nat
  | .waking queue left => if queue = mode then left else 0
  | _ => 0

@[simp] def Phase.wakes (mode : Mode) : Phase → Nat
  | .waking queue _ => if queue = mode then 1 else 0
  | _ => 0

section Tallies

variable {Fiber : Type} [Fintype Fiber]

def holders (mode : Mode) (state : State Fiber) : Nat :=
  total (Phase.holds mode) state.phase

def committed (mode : Mode) (state : State Fiber) : Nat :=
  total (Phase.commits mode) state.phase

def grants (mode : Mode) (state : State Fiber) : Nat :=
  total (Phase.grants mode) state.phase

end Tallies

end LibFiber.RwLock
