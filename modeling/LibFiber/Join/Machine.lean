import LibFiber.Refusal

namespace LibFiber.Join

open Semantics Function

/-! One fiber that finishes and the fibers that join or detach it.

A step is one access to `detach_state`, `join_info` or a `result` field.  A
fiber that waits leaves the store of its `join_info` entry to the maintenance
after its context switch; from its call on it takes no step of its own until it
is scheduled.  The yields are granted in `machine` and may be refused in `refusing`.
-/

inductive DetachState where
  | none
  | waitForJoiner
  | waitToJoin
  | detached
deriving DecidableEq, Repr

/-- What `join_info` can hold: the finishing fiber or one of the others. -/
inductive Party (Fiber : Type) where
  | target
  | other (fiber : Fiber)
deriving DecidableEq, Repr

/-- The finishing fiber, from the call of `fiber_mark_completed` on. -/
inductive TargetPhase (Fiber : Type) where
  | running
  /-- Its result is stored; the test of `detach_state` is next. -/
  | testing
  | exchanging
  /-- In `fiber_manager_set_and_wait`, its entry not stored yet. -/
  | parking
  | parked
  /-- In `fiber_manager_clear_or_wait`. -/
  | clearing
  | handing (party : Party Fiber)
  | scheduling (party : Party Fiber)
  | finishing
  | done
deriving DecidableEq, Repr

inductive Op where
  | join
  | tryjoin
  | detach
deriving DecidableEq, Repr

inductive Code where
  | success
  | error
deriving DecidableEq, Repr

/-- Another fiber in one of the three calls.  `out` is what the call stores
through its `result` argument. -/
inductive Phase (Fiber Value : Type) where
  | idle
  | testing (op : Op)
  /-- The second test of `fiber_tryjoin`. -/
  | retesting
  | exchanging (op : Op)
  | parking
  | parked
  /-- Scheduled again, about to read its own result field. -/
  | woken
  | unloading (out : Option Value)
  /-- About to read the result of the finishing fiber. -/
  | reading (op : Op)
  | clearing (op : Op) (out : Option Value)
  | scheduling (op : Op) (out : Option Value) (party : Party Fiber)
  | returned (op : Op) (code : Code) (out : Option Value)
deriving DecidableEq, Repr

structure State (Fiber Value : Type) where
  detachState : DetachState
  joinInfo : Option (Party Fiber)
  target : TargetPhase Fiber
  targetResult : Option Value
  phase : Fiber → Phase Fiber Value
  result : Fiber → Option Value

inductive Action (Fiber : Type) where
  | call (fiber : Fiber) (op : Op)
  /-- The next access of a fiber in a call, or the deferred store for it. -/
  | move (fiber : Fiber)
  | moveTarget
deriving DecidableEq, Repr

def init {Fiber Value : Type} : State Fiber Value where
  detachState := .none
  joinInfo := none
  target := .running
  targetResult := none
  phase := fun _ => .idle
  result := fun _ => none

variable {Fiber Value : Type} [DecidableEq Fiber]

def State.goto (state : State Fiber Value) (fiber : Fiber) (next : Phase Fiber Value) :
    State Fiber Value :=
  { state with phase := update state.phase fiber next }

/-- Schedule a party.  One that is parked goes on behind its wait. -/
def State.schedule (state : State Fiber Value) : Party Fiber → State Fiber Value
  | .target =>
    match state.target with
    | .parked => { state with target := .finishing }
    | _ => state
  | .other fiber =>
    match state.phase fiber with
    | .parked => state.goto fiber .woken
    | _ => state

/-- `fiber_mark_completed`, called with `value`. -/
def moveTarget (value : Option Value) (state : State Fiber Value) : Option (State Fiber Value) :=
  match state.target with
  | .running => some { state with targetResult := value, target := .testing }
  | .testing =>
    some { state with
      target := if state.detachState = .detached then .finishing else .exchanging }
  | .exchanging =>
    some { state with
      detachState := .waitForJoiner
      target := match state.detachState with
        | .none => .parking
        | .waitToJoin => .clearing
        | .waitForJoiner | .detached => .finishing }
  | .parking => some { state with joinInfo := some .target, target := .parked }
  | .parked => none
  | .clearing =>
    match state.joinInfo with
    | some party => some { state with joinInfo := none, target := .handing party }
    | none => some state
  | .handing party =>
    some { state with
      result := match party with
        | .other fiber => update state.result fiber state.targetResult
        | .target => state.result
      target := .scheduling party }
  | .scheduling party => some { state.schedule party with target := .finishing }
  | .finishing => some { state with target := .done }
  | .done => none

/-- What follows the exchange of `detach_state`, given the old value. -/
def exchanged (op : Op) : DetachState → Phase Fiber Value
  | .none =>
    match op with
    | .join => .parking
    | .tryjoin => .returned .tryjoin .error none
    | .detach => .returned .detach .success none
  | .waitForJoiner =>
    match op with
    | .join | .tryjoin => .reading op
    | .detach => .clearing .detach none
  | .waitToJoin =>
    match op with
    | .join | .tryjoin => .returned op .error none
    | .detach => .clearing .detach none
  | .detached => .returned op .error none

def Op.stores : Op → DetachState
  | .join | .tryjoin => .waitToJoin
  | .detach => .detached

/-- Where a call starts.  `fiber_detach` exchanges at once. -/
def Op.entry : Op → Phase Fiber Value
  | .join => .testing .join
  | .tryjoin => .testing .tryjoin
  | .detach => .exchanging .detach

def move (state : State Fiber Value) (fiber : Fiber) : Option (State Fiber Value) :=
  match state.phase fiber with
  | .idle | .parked | .returned _ _ _ => none
  | .testing op =>
    some (state.goto fiber (if state.detachState = .detached then .returned op .error none
        else if op = .tryjoin then .retesting else .exchanging op))
  | .retesting =>
    some (state.goto fiber (if state.detachState = .waitForJoiner then .exchanging .tryjoin
        else .returned .tryjoin .error none))
  | .exchanging op =>
    some { state with
      detachState := op.stores
      phase := update state.phase fiber (exchanged op state.detachState) }
  | .parking =>
    some { state with
      joinInfo := some (.other fiber)
      phase := update state.phase fiber .parked }
  | .woken => some (state.goto fiber (.unloading (state.result fiber)))
  | .unloading out =>
    some { state with
      result := update state.result fiber none
      phase := update state.phase fiber (.returned .join .success out) }
  | .reading op => some (state.goto fiber (.clearing op state.targetResult))
  | .clearing op out =>
    match state.joinInfo with
    | some party =>
      some { state with
        joinInfo := none
        phase := update state.phase fiber (.scheduling op out party) }
    | none => some state
  | .scheduling op out party =>
    some ((state.schedule party).goto fiber (.returned op .success out))

/-- Calls are made on a fiber that is not done. -/
def step (value : Option Value) (state : State Fiber Value) :
    Action Fiber → Option (State Fiber Value)
  | .call fiber op =>
    if state.target = .done then none
    else
      match state.phase fiber with
      | .idle | .returned _ _ _ => some (state.goto fiber op.entry)
      | _ => none
  | .move fiber => move state fiber
  | .moveTarget => moveTarget value state

/-- The finishing fiber passes `value` to `fiber_mark_completed`. -/
def machine (Fiber : Type) {Value : Type} [DecidableEq Fiber] (value : Option Value) :
    Machine (State Fiber Value) (Action Fiber) where
  initial state := state = init
  step := step value

/-- A refused yield of `fiber_manager_set_and_wait` ends the wait, and one of
`fiber_manager_clear_or_wait` leads to its next exchange. -/
def refuse (state : State Fiber Value) : Party Fiber → Option (State Fiber Value × Bool)
  | .target =>
    match state.target, state.joinInfo with
    | .parking, _ => some ({ state with target := .finishing }, true)
    | .clearing, none => some (state, false)
    | _, _ => none
  | .other fiber =>
    match state.phase fiber, state.joinInfo with
    | .parking, _ => some (state.goto fiber .woken, true)
    | .clearing _ _, none => some (state, false)
    | _, _ => none

def maintain (state : State Fiber Value) : Party Fiber → Option (State Fiber Value)
  | .target =>
    match state.target with
    | .done => some { state with joinInfo := some .target }
    | _ => none
  | .other fiber =>
    match state.phase fiber with
    | .idle | .returned _ _ _ | .clearing _ _ =>
      some { state with joinInfo := some (.other fiber) }
    | _ => none

def resume (state : State Fiber Value) : Party Fiber → Option (State Fiber Value)
  | .target =>
    match state.target with
    | .parked => some { state with target := .finishing }
    | _ => none
  | .other fiber =>
    match state.phase fiber with
    | .parked => some (state.goto fiber .woken)
    | _ => none

def stores (state : State Fiber Value) : Action Fiber → Option (Party Fiber)
  | .call _ _ => none
  | .move fiber =>
    match state.phase fiber with
    | .parking => some (.other fiber)
    | _ => none
  | .moveTarget =>
    match state.target with
    | .parking => some .target
    | _ => none

def refusing (Fiber : Type) {Value : Type} [DecidableEq Fiber] (value : Option Value) :=
  (machine Fiber value).withFaults
    (⟨refuse, maintain, resume, stores⟩ : Yields _ _ (Party Fiber)).faults

abbrev History (Fiber Value : Type) := List (State Fiber Value × Action Fiber)

def schedules (state : State Fiber Value) : Action Fiber → Option (Party Fiber)
  | .call _ _ => none
  | .move fiber =>
    match state.phase fiber with
    | .scheduling _ _ party => some party
    | _ => none
  | .moveTarget =>
    match state.target with
    | .scheduling party => some party
    | _ => none

def Phase.outcome : Phase Fiber Value → Option (Op × Code × Option Value)
  | .returned op code out => some (op, code, out)
  | _ => none

def returns (state : State Fiber Value) : Action Fiber → Option (Op × Code × Option Value)
  | .call _ _ | .moveTarget => none
  | .move fiber => (move state fiber).bind fun after => (after.phase fiber).outcome

/-- The outcome of a join or tryjoin that succeeds. -/
def joined : Op × Code × Option Value → Bool
  | (.join, .success, _) | (.tryjoin, .success, _) => true
  | _ => false

def succeeds (state : State Fiber Value) (action : Action Fiber) : Bool :=
  (returns state action).any joined

def successes (history : History Fiber Value) : Nat :=
  history.countP fun taken => succeeds taken.1 taken.2

end LibFiber.Join
