import LibFiber.Data.LinkedFifo
import LibFiber.Data.MachineInt
import LibFiber.Semantics.Machine

namespace LibFiber.Cond

open Data Semantics Function

/-! One condition variable and the mutex its waiters share.

Both mutexes are taken as correct: locking is one step that is enabled only
while nobody owns the mutex.  A waiter counts itself, takes its place in the
queue and links it, all while it owns the caller's mutex; the mutex is released
by the maintenance that follows the waiter's swap.
-/

inductive Phase where
  | outside
  | holding
  /-- In `wait`, counted but not in the queue yet. -/
  | pushing
  | linking
  | parked
  /-- Popped by a signal or a broadcast; has to lock the mutex again. -/
  | woken
deriving DecidableEq, Repr

inductive Kind where
  | signal
  | broadcast
deriving DecidableEq, Repr

/-- Where the owner of the internal mutex is. -/
inductive Stage where
  | entered (kind : Kind)
  /-- A signal found no waiter and owes the counter its decrement. -/
  | adding
  /-- In `wake_from_mpsc_queue`, with its `int` parameter and its tally. -/
  | waking (count wakeCount : Int)
  | leaving
deriving DecidableEq, Repr

inductive Call where
  | idle
  | locking (kind : Kind)
  | inside
deriving DecidableEq, Repr

/-- `waiterCount` is an `intptr_t` that never exceeds the number of fibers, and
so never leaves its range. -/
structure State (Fiber : Type) where
  waiterCount : Int
  waiters : LinkedFifo Fiber
  mutex : Option Fiber
  internal : Option (Fiber × Stage)
  phase : Fiber → Phase
  call : Fiber → Call

inductive Action (Fiber : Type) where
  | lock (fiber : Fiber)
  | unlock (fiber : Fiber)
  | wait (fiber : Fiber)
  | exchange (fiber : Fiber)
  | link (fiber : Fiber)
  /-- The deferred unlock of a waiter's mutex. -/
  | release (fiber : Fiber)
  /-- The lock at the end of `wait`, which then returns. -/
  | relock (fiber : Fiber)
  | call (fiber : Fiber) (kind : Kind)
  | enter (fiber : Fiber)
  | count (fiber : Fiber)
  | addBack (fiber : Fiber)
  | trypop (fiber : Fiber)
  | leave (fiber : Fiber)
deriving DecidableEq, Repr

def init {Fiber : Type} : State Fiber where
  waiterCount := 0
  waiters := .empty
  mutex := none
  internal := none
  phase := fun _ => .outside
  call := fun _ => .idle

variable {Fiber : Type} [DecidableEq Fiber]

/-- `signal` up to its decrement. -/
def signal (state : State Fiber) (fiber : Fiber) : State Fiber :=
  let newVal := state.waiterCount - 1
  { state with
    waiterCount := newVal
    internal := some (fiber, if 0 ≤ newVal then .waking 1 0 else .adding) }

/-- `broadcast` up to its exchange.  The wake loop takes the count as an `int`. -/
def broadcast (state : State Fiber) (fiber : Fiber) : State Fiber :=
  let original := state.waiterCount
  { state with
    waiterCount := 0
    internal := some (fiber, if original ≠ 0 then .waking (int32 original) 0 else .leaving) }

/-- One round of `wake_from_mpsc_queue`. -/
def trypop (state : State Fiber) (fiber : Fiber) (count wakeCount : Int) : State Fiber :=
  match state.waiters.trypop with
  | some (woken, rest) =>
    { state with
      waiters := rest
      phase := update state.phase woken .woken
      internal := some (fiber,
        if wakeCount + 1 < count then .waking count (wakeCount + 1) else .leaving) }
  | none =>
    { state with
      internal := some (fiber, if wakeCount < count then .waking count wakeCount else .leaving) }

def step (state : State Fiber) : Action Fiber → Option (State Fiber)
  | .lock fiber =>
    if state.phase fiber = .outside ∧ state.call fiber = .idle ∧ state.mutex = none then
      some { state with mutex := some fiber, phase := update state.phase fiber .holding }
    else none
  | .unlock fiber =>
    if state.phase fiber = .holding ∧ state.call fiber = .idle then
      some { state with mutex := none, phase := update state.phase fiber .outside }
    else none
  | .wait fiber =>
    if state.phase fiber = .holding ∧ state.call fiber = .idle then
      some { state with
        waiterCount := state.waiterCount + 1
        phase := update state.phase fiber .pushing }
    else none
  | .exchange fiber =>
    if state.phase fiber = .pushing then
      some { state with
        waiters := state.waiters.exchange fiber
        phase := update state.phase fiber .linking }
    else none
  | .link fiber =>
    if state.phase fiber = .linking then
      some { state with
        waiters := state.waiters.link fiber
        phase := update state.phase fiber .parked }
    else none
  | .release fiber =>
    if state.mutex = some fiber ∧ (state.phase fiber = .parked ∨ state.phase fiber = .woken) then
      some { state with mutex := none }
    else none
  | .relock fiber =>
    if state.phase fiber = .woken ∧ state.mutex = none then
      some { state with mutex := some fiber, phase := update state.phase fiber .holding }
    else none
  | .call fiber kind =>
    if (state.phase fiber = .outside ∨ state.phase fiber = .holding) ∧
        state.call fiber = .idle then
      some { state with call := update state.call fiber (.locking kind) }
    else none
  | .enter fiber =>
    match state.call fiber, state.internal with
    | .locking kind, none =>
      some { state with
        call := update state.call fiber .inside
        internal := some (fiber, .entered kind) }
    | _, _ => none
  | .count fiber =>
    if state.internal = some (fiber, .entered .signal) then some (signal state fiber)
    else if state.internal = some (fiber, .entered .broadcast) then some (broadcast state fiber)
    else none
  | .addBack fiber =>
    if state.internal = some (fiber, .adding) then
      some { state with
        waiterCount := state.waiterCount + 1
        internal := some (fiber, .leaving) }
    else none
  | .trypop fiber =>
    match state.internal with
    | some (owner, .waking count wakeCount) =>
      if owner = fiber then some (trypop state fiber count wakeCount) else none
    | _ => none
  | .leave fiber =>
    if state.internal = some (fiber, .leaving) then
      some { state with internal := none, call := update state.call fiber .idle }
    else none

def machine (Fiber : Type) [DecidableEq Fiber] : Machine (State Fiber) (Action Fiber) where
  initial state := state = init
  step := step

abbrev History (Fiber : Type) := List (State Fiber × Action Fiber)

/-- What one signal or broadcast was entitled to wake and what it has woken. -/
structure Record (Fiber : Type) where
  caller : Fiber
  claim : List Fiber
  woken : List Fiber
deriving DecidableEq, Repr

/-- What the condition variable promises: `line` holds the waiters that nobody
has claimed yet, oldest first, and `calls` the claims, newest first. -/
structure Account (Fiber : Type) where
  line : List Fiber
  calls : List (Record Fiber)
deriving DecidableEq, Repr

/-- Book a wake-up on the newest claim of its caller. -/
def book (caller woken : Fiber) : List (Record Fiber) → List (Record Fiber)
  | [] => []
  | record :: older =>
    if record.caller = caller then { record with woken := record.woken ++ [woken] } :: older
    else record :: book caller woken older

/-- A signal that finds a waiter claims the oldest one, a broadcast claims all
of them. -/
def Account.step (account : Account Fiber) (state : State Fiber) : Action Fiber → Account Fiber
  | .wait fiber => { account with line := account.line ++ [fiber] }
  | .count fiber =>
    if state.internal = some (fiber, .entered .broadcast) then
      ⟨[], ⟨fiber, account.line, []⟩ :: account.calls⟩
    else if 0 < state.waiterCount then
      ⟨account.line.tail, ⟨fiber, account.line.take 1, []⟩ :: account.calls⟩
    else ⟨account.line, ⟨fiber, [], []⟩ :: account.calls⟩
  | .trypop fiber =>
    match state.waiters.trypop with
    | some (woken, _) => { account with calls := book fiber woken account.calls }
    | none => account
  | _ => account

def account (history : History Fiber) : Account Fiber :=
  history.foldl (fun account taken => account.step taken.1 taken.2) ⟨[], []⟩

@[simp] theorem account_append (history : History Fiber) (state : State Fiber)
    (action : Action Fiber) :
    account (history ++ [(state, action)]) = (account history).step state action := by
  simp [account, List.foldl_append]

def Account.claimed (account : Account Fiber) : List Fiber :=
  account.calls.flatMap Record.claim

def Account.woken (account : Account Fiber) : List Fiber :=
  account.calls.flatMap Record.woken

/-- How many times `fiber` has begun, and has returned from, a wait. -/
def waits (history : History Fiber) (fiber : Fiber) : Nat :=
  history.countP fun taken => decide (taken.2 = .wait fiber)

def returns (history : History Fiber) (fiber : Fiber) : Nat :=
  history.countP fun taken => decide (taken.2 = .relock fiber)

/-- The exchange of a broadcast returns a value of type `int`. -/
def InRange (state : State Fiber) : Action Fiber → Prop
  | .count fiber =>
    state.internal = some (fiber, .entered .broadcast) → state.waiterCount < 2 ^ 31
  | _ => True

instance (state : State Fiber) : (action : Action Fiber) → Decidable (InRange state action)
  | .count fiber => inferInstanceAs (Decidable
      (state.internal = some (fiber, .entered .broadcast) → state.waiterCount < 2 ^ 31))
  | .lock _ | .unlock _ | .wait _ | .exchange _ | .link _ | .release _ | .relock _ | .call _ _
  | .enter _ | .addBack _ | .trypop _ | .leave _ => inferInstanceAs (Decidable True)

end LibFiber.Cond
