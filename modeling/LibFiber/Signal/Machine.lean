import LibFiber.Refusal

namespace LibFiber.Signal

open Semantics Function

/-! A signal with one waiter and any number of raisers.

A step is one access to `waiter` or to the waiting fiber's `scratch`.  A fiber
that parks leaves the store of `FIBER_SIGNAL_READY_TO_WAKE` to the maintenance
after its context switch; it takes no step of its own until it is scheduled.
The yield is granted in `machine` and may be refused in `refusing`.
-/

inductive Word where
  | noWaiter
  | raised
  /-- The one fiber that calls `fiber_signal_wait`. -/
  | fiber
deriving DecidableEq, Repr

inductive WaiterPhase where
  | outside
  | clearing
  | swapping
  /-- Its compare-and-swap is done, its context switch is not. -/
  | parking
  | parked
  | woken
  /-- About to store `FIBER_SIGNAL_NO_WAITER` and return. -/
  | leaving
deriving DecidableEq, Repr

inductive RaiserPhase where
  | idle
  | exchanging
  /-- It took the waiter out and puts `FIBER_SIGNAL_NO_WAITER` back. -/
  | resetting
  | spinning
  | scheduling
  | returned (woken : Bool)
deriving DecidableEq, Repr

structure State (Fiber : Type) where
  waiter : Word
  /-- Whether `scratch` is `FIBER_SIGNAL_READY_TO_WAKE`. -/
  ready : Bool
  self : WaiterPhase
  raiser : Fiber → RaiserPhase

inductive Action (Fiber : Type) where
  | wait
  /-- The next access of the waiting fiber, or the deferred store for it. -/
  | moveWaiter
  | raise (fiber : Fiber)
  | moveRaiser (fiber : Fiber)
deriving DecidableEq, Repr

/-- `fiber_signal_init`, with whatever the waiting fiber's `scratch` holds. -/
def init {Fiber : Type} (ready : Bool) : State Fiber where
  waiter := .noWaiter
  ready
  self := .outside
  raiser := fun _ => .idle

section Steps

variable {Fiber : Type}

def wait (state : State Fiber) : Option (State Fiber) :=
  match state.self with
  | .outside => some { state with self := .clearing }
  | _ => none

/-- `fiber_signal_wait` -/
def moveWaiter (state : State Fiber) : Option (State Fiber) :=
  match state.self with
  | .outside | .parked => none
  | .clearing => some { state with ready := false, self := .swapping }
  | .swapping =>
    if state.waiter = .noWaiter then some { state with waiter := .fiber, self := .parking }
    else some { state with self := .leaving }
  | .parking => some { state with ready := true, self := .parked }
  | .woken => some { state with ready := false, self := .leaving }
  | .leaving => some { state with waiter := .noWaiter, self := .outside }

/-- A parked fiber goes on behind its yield. -/
def WaiterPhase.schedule : WaiterPhase → WaiterPhase
  | .parked => .woken
  | phase => phase

variable [DecidableEq Fiber]

def State.goto (state : State Fiber) (fiber : Fiber) (next : RaiserPhase) : State Fiber :=
  { state with raiser := update state.raiser fiber next }

def raise (state : State Fiber) (fiber : Fiber) : Option (State Fiber) :=
  match state.raiser fiber with
  | .idle | .returned _ => some (state.goto fiber .exchanging)
  | _ => none

/-- `fiber_signal_raise` -/
def moveRaiser (state : State Fiber) (fiber : Fiber) : Option (State Fiber) :=
  match state.raiser fiber with
  | .idle | .returned _ => none
  | .exchanging =>
    some { state with
      waiter := .raised
      raiser := update state.raiser fiber
        (if state.waiter = .fiber then .resetting else .returned false) }
  | .resetting =>
    some { state with waiter := .noWaiter, raiser := update state.raiser fiber .spinning }
  | .spinning => some (if state.ready = true then state.goto fiber .scheduling else state)
  | .scheduling =>
    some { state with
      self := state.self.schedule
      raiser := update state.raiser fiber (.returned true) }

def step (state : State Fiber) : Action Fiber → Option (State Fiber)
  | .wait => wait state
  | .moveWaiter => moveWaiter state
  | .raise fiber => raise state fiber
  | .moveRaiser fiber => moveRaiser state fiber

end Steps

def machine (Fiber : Type) [DecidableEq Fiber] : Machine (State Fiber) (Action Fiber) where
  initial state := ∃ ready, state = init ready
  step := step

/-- The yield of `fiber_signal_wait`, with the one fiber that makes it. -/
def yields (Fiber : Type) : Yields (State Fiber) (Action Fiber) Unit where
  refuse state _ :=
    match state.self with
    | .parking => some ({ state with self := .woken }, true)
    | _ => none
  maintain state _ :=
    match state.self with
    | .outside => some { state with ready := true }
    | _ => none
  resume state _ :=
    match state.self with
    | .parked => some { state with self := .woken }
    | _ => none
  stores state
    | .moveWaiter => if state.self = .parking then some () else none
    | _ => none

def refusing (Fiber : Type) [DecidableEq Fiber] :=
  (machine Fiber).withFaults (yields Fiber).faults

abbrev History (Fiber : Type) := List (State Fiber × Action Fiber)

inductive Move {Fiber : Type} [DecidableEq Fiber] (state : State Fiber) :
    Action Fiber → State Fiber → Prop where
  | wait : state.self = .outside → Move state .wait { state with self := .clearing }
  | clear : state.self = .clearing →
      Move state .moveWaiter { state with ready := false, self := .swapping }
  | park : state.self = .swapping → state.waiter = .noWaiter →
      Move state .moveWaiter { state with waiter := .fiber, self := .parking }
  | refuse : state.self = .swapping → state.waiter ≠ .noWaiter →
      Move state .moveWaiter { state with self := .leaving }
  | store : state.self = .parking →
      Move state .moveWaiter { state with ready := true, self := .parked }
  | resume : state.self = .woken →
      Move state .moveWaiter { state with ready := false, self := .leaving }
  | leave : state.self = .leaving →
      Move state .moveWaiter { state with waiter := .noWaiter, self := .outside }
  | raise : state.raiser fiber = .idle ∨ (∃ woken, state.raiser fiber = .returned woken) →
      Move state (.raise fiber) (state.goto fiber .exchanging)
  | claim : state.raiser fiber = .exchanging → state.waiter = .fiber →
      Move state (.moveRaiser fiber)
        { state with waiter := .raised, raiser := update state.raiser fiber .resetting }
  | mark : state.raiser fiber = .exchanging → state.waiter ≠ .fiber →
      Move state (.moveRaiser fiber)
        { state with waiter := .raised, raiser := update state.raiser fiber (.returned false) }
  | reset : state.raiser fiber = .resetting →
      Move state (.moveRaiser fiber)
        { state with waiter := .noWaiter, raiser := update state.raiser fiber .spinning }
  | spin : state.raiser fiber = .spinning → state.ready = false →
      Move state (.moveRaiser fiber) state
  | proceed : state.raiser fiber = .spinning → state.ready →
      Move state (.moveRaiser fiber) (state.goto fiber .scheduling)
  | schedule : state.raiser fiber = .scheduling →
      Move state (.moveRaiser fiber)
        { state with
          self := state.self.schedule
          raiser := update state.raiser fiber (.returned true) }

section Moves

variable {Fiber : Type} [DecidableEq Fiber] {after : State Fiber}

theorem moveWaiter_moves (stepped : moveWaiter state = some after) :
    Move state .moveWaiter after := by
  cases phase : state.self <;> simp only [moveWaiter, phase, reduceCtorEq] at stepped
  all_goals (try split at stepped) <;> cases stepped <;> constructor <;> assumption

theorem moveRaiser_moves (stepped : moveRaiser state fiber = some after) :
    Move state (.moveRaiser fiber) after := by
  cases phase : state.raiser fiber <;>
    simp only [moveRaiser, phase, reduceCtorEq, Option.some.injEq] at stepped
  all_goals subst stepped
  all_goals (try split) <;> constructor <;> simp_all

theorem step_moves (stepped : step state action = some after) :
    Move state action after := by
  cases action with
  | wait =>
    cases phase : state.self <;> simp only [step, wait, phase, reduceCtorEq] at stepped
    cases stepped
    exact .wait phase
  | moveWaiter => exact moveWaiter_moves stepped
  | raise fiber =>
    cases phase : state.raiser fiber <;>
      simp only [step, raise, phase, reduceCtorEq] at stepped <;> cases stepped
    · exact .raise (.inl phase)
    · exact .raise (.inr ⟨_, phase⟩)
  | moveRaiser fiber => exact moveRaiser_moves stepped

end Moves

end LibFiber.Signal
