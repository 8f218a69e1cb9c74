import LibFiber.Data.VersionedList
import LibFiber.Refusal

namespace LibFiber.MultiSignal

open Data Semantics Function

/-! A signal that any number of fibers wait on and raise.

A step is one access to the signal, a node or a `scratch` field.  The double
word is compared and swapped as one, its halves are read one by one.  A node is
in the hands of the fiber that waits with it; before and after, anybody may
write to it and it may become another fiber's node.  The yield of a wait is
granted in `machine` and may be refused in `refusing`.
-/

inductive Pointer (Node : Type) where
  | null
  /-- `FIBER_MULTI_SIGNAL_RAISED` -/
  | raised
  | node (node : Node)
deriving DecidableEq, Repr

/-- A fiber in `fiber_multi_signal_wait`, from the clearing of `scratch` on. -/
inductive WaitPhase (Node : Type) where
  | clearing
  /-- About to store itself in its node. -/
  | naming (node : Node)
  | counting (node : Node)
  | heading (node : Node) (counter : Nat)
  | consuming (node : Node) (counter : Nat)
  | linking (node : Node) (counter : Nat) (head : Pointer Node)
  | pushing (node : Node) (counter : Nat) (head : Pointer Node)
  /-- Its node is in the list, its context switch is not done. -/
  | parking
  | parked
  | woken
deriving DecidableEq, Repr

/-- A fiber in `fiber_multi_signal_raise` or `_raise_strict`. -/
inductive RaisePhase (Fiber Node : Type) where
  | counting
  | heading (counter : Nat)
  | marking (counter : Nat) (head : Pointer Node)
  | following (counter : Nat) (node : Node)
  | popping (counter : Nat) (node : Node) (next : Pointer Node)
  /-- The node is its own; about to read which fiber is in it. -/
  | fetching (node : Node)
  | restoring (node : Node) (toWake : Fiber)
  | spinning (toWake : Fiber)
  | scheduling (toWake : Fiber)
deriving DecidableEq, Repr

inductive Phase (Fiber Node : Type) where
  | idle
  | wait (phase : WaitPhase Node)
  | raise (strict : Bool) (phase : RaisePhase Fiber Node)
  | waited
  | raised (strict woken : Bool)
deriving DecidableEq, Repr

structure State (Fiber Node : Type) where
  word : Versioned (Pointer Node)
  next : Node → Pointer Node
  data : Node → Option Fiber
  /-- The `mpsc_fifo_node` of each fiber. -/
  node : Fiber → Node
  /-- Whose `mpsc_fifo_node` a node is.  No access reads this. -/
  owner : Node → Option Fiber
  /-- Whether `scratch` is `FIBER_SIGNAL_READY_TO_WAKE`. -/
  ready : Fiber → Bool
  phase : Fiber → Phase Fiber Node

inductive Action (Fiber Node : Type) where
  | wait (fiber : Fiber)
  | raise (fiber : Fiber) (strict : Bool)
  /-- The next access of a fiber in a call, or the deferred store for it. -/
  | move (fiber : Fiber)
  /-- Some other use of a node that no waiting fiber holds. -/
  | scribble (node : Node) (next : Pointer Node) (toStore : Option Fiber)
  /-- A fiber outside of the calls comes back with another node. -/
  | trade (fiber : Fiber) (node : Node)
deriving DecidableEq, Repr

/-- The fiber holds its node for the signal. -/
def Phase.holds {Fiber Node : Type} : Phase Fiber Node → Bool
  | .wait .clearing | .wait .woken => false
  | .wait _ => true
  | _ => false

def Phase.outside {Fiber Node : Type} : Phase Fiber Node → Bool
  | .idle | .waited | .raised _ _ => true
  | _ => false

variable {Fiber Node : Type} [DecidableEq Fiber] [DecidableEq Node]

def State.goto (state : State Fiber Node) (fiber : Fiber) (next : Phase Fiber Node) :
    State Fiber Node :=
  { state with phase := update state.phase fiber next }

def State.schedule (state : State Fiber Node) (fiber : Fiber) : State Fiber Node :=
  if state.phase fiber = .wait .parked then state.goto fiber (.wait .woken) else state

/-- `fiber_multi_signal_wait` -/
def moveWait (state : State Fiber Node) (fiber : Fiber) :
    WaitPhase Node → Option (State Fiber Node)
  | .clearing =>
    some { state with
      ready := update state.ready fiber false
      phase := update state.phase fiber (.wait (.naming (state.node fiber))) }
  | .naming node =>
    some { state with
      data := update state.data node (some fiber)
      phase := update state.phase fiber (.wait (.counting node)) }
  | .counting node => some (state.goto fiber (.wait (.heading node state.word.counter)))
  | .heading node counter =>
    some (state.goto fiber (.wait (match state.word.head with
      | .raised => .consuming node counter
      | head => .linking node counter head)))
  | .consuming node counter =>
    match state.word.swap counter .raised .null with
    | some word => some { state with word, phase := update state.phase fiber .waited }
    | none => some (state.goto fiber (.wait (.counting node)))
  | .linking node counter head =>
    some { state with
      next := update state.next node head
      phase := update state.phase fiber (.wait (.pushing node counter head)) }
  | .pushing node counter head =>
    match state.word.swap counter head (.node node) with
    | some word => some { state with word, phase := update state.phase fiber (.wait .parking) }
    | none => some (state.goto fiber (.wait (.counting node)))
  | .parking =>
    some { state with
      ready := update state.ready fiber true
      phase := update state.phase fiber (.wait .parked) }
  | .parked => none
  | .woken =>
    some { state with
      ready := update state.ready fiber false
      phase := update state.phase fiber .waited }

/-- `fiber_multi_signal_raise`, or `fiber_multi_signal_raise_strict`, which does
not raise the signal when it finds nobody waiting. -/
def moveRaise (state : State Fiber Node) (fiber : Fiber) (strict : Bool) :
    RaisePhase Fiber Node → Option (State Fiber Node)
  | .counting => some (state.goto fiber (.raise strict (.heading state.word.counter)))
  | .heading counter =>
    some (state.goto fiber (.raise strict (match state.word.head with
      | .node node => .following counter node
      | head => if strict = true then .counting else .marking counter head)))
  | .marking counter head =>
    match state.word.swap counter head .raised with
    | some word =>
      some { state with word, phase := update state.phase fiber (.raised strict false) }
    | none => some (state.goto fiber (.raise strict .counting))
  | .following counter node =>
    some (state.goto fiber (.raise strict (.popping counter node (state.next node))))
  | .popping counter node next =>
    match state.word.swap counter (.node node) next with
    | some word =>
      some { state with
        word
        phase := update state.phase fiber (.raise strict (.fetching node)) }
    | none => some (state.goto fiber (.raise strict .counting))
  | .fetching node =>
    (state.data node).map fun toWake =>
      state.goto fiber (.raise strict (.restoring node toWake))
  | .restoring node toWake =>
    some { state with
      node := update state.node toWake node
      phase := update state.phase fiber (.raise strict (.spinning toWake)) }
  | .spinning toWake =>
    some (state.goto fiber (.raise strict
      (if state.ready toWake = true then .scheduling toWake else .spinning toWake)))
  | .scheduling toWake => some ((state.schedule toWake).goto fiber (.raised strict true))

def move (state : State Fiber Node) (fiber : Fiber) : Option (State Fiber Node) :=
  match state.phase fiber with
  | .idle | .waited | .raised _ _ => none
  | .wait phase => moveWait state fiber phase
  | .raise strict phase => moveRaise state fiber strict phase

def step (state : State Fiber Node) : Action Fiber Node → Option (State Fiber Node)
  | .wait fiber =>
    if (state.phase fiber).outside = true then some (state.goto fiber (.wait .clearing))
    else none
  | .raise fiber strict =>
    if (state.phase fiber).outside = true then some (state.goto fiber (.raise strict .counting))
    else none
  | .move fiber => move state fiber
  | .scribble node next toStore =>
    if (state.owner node).any (fun fiber => (state.phase fiber).holds) = true then none
    else
      some { state with
        next := update state.next node next
        data := update state.data node toStore }
  | .trade fiber node =>
    if (state.phase fiber).outside ∧ state.owner node = none then
      some { state with
        node := update state.node fiber node
        owner := update (update state.owner (state.node fiber) none) node (some fiber) }
    else none

/-- What a step contributes to the protocol. -/
inductive Event (Fiber : Type) where
  | call (fiber : Fiber)
  /-- The fiber's node gets into the list. -/
  | park (fiber : Fiber)
  /-- The fiber accepts a raised signal. -/
  | consume (fiber : Fiber)
  | mark (raiser : Fiber)
  /-- The raiser takes the first node out. -/
  | claim (raiser : Fiber)
  | schedule (raiser toWake : Fiber)
deriving DecidableEq, Repr

def Phase.event (word : Versioned (Pointer Node)) (fiber : Fiber) :
    Phase Fiber Node → Option (Event Fiber)
  | .wait (.consuming _ counter) => (word.swap counter .raised .null).map fun _ => .consume fiber
  | .wait (.pushing node counter head) =>
    (word.swap counter head (.node node)).map fun _ => .park fiber
  | .raise _ (.marking counter head) => (word.swap counter head .raised).map fun _ => .mark fiber
  | .raise _ (.popping counter node next) =>
    (word.swap counter (.node node) next).map fun _ => .claim fiber
  | .raise _ (.scheduling toWake) => some (.schedule fiber toWake)
  | _ => none

def event (state : State Fiber Node) : Action Fiber Node → Option (Event Fiber)
  | .wait fiber | .raise fiber _ => some (.call fiber)
  | .move fiber => (state.phase fiber).event state.word fiber
  | .scribble _ _ _ | .trade _ _ => none

/-- Nobody is in a call; what the nodes and the `scratch` fields hold is left
open. -/
def initial (state : State Fiber Node) : Prop :=
  state.word = ⟨0, .null⟩ ∧ (∀ fiber, state.owner (state.node fiber) = some fiber) ∧
    ∀ fiber, state.phase fiber = .idle

def machine (Fiber Node : Type) [DecidableEq Fiber] [DecidableEq Node] :
    Machine (State Fiber Node) (Action Fiber Node) where
  initial := initial
  step := step

/-- The yield of `fiber_multi_signal_wait`. -/
def yields (Fiber Node : Type) [DecidableEq Fiber] :
    Yields (State Fiber Node) (Action Fiber Node) Fiber where
  refuse state fiber :=
    match state.phase fiber with
    | .wait .parking => some (state.goto fiber (.wait .woken), true)
    | _ => none
  maintain state fiber :=
    if (state.phase fiber).outside = true then
      some { state with ready := update state.ready fiber true }
    else none
  resume state fiber :=
    match state.phase fiber with
    | .wait .parked => some (state.goto fiber (.wait .woken))
    | _ => none
  stores state
    | .move fiber =>
      match state.phase fiber with
      | .wait .parking => some fiber
      | _ => none
    | _ => none

def refusing (Fiber Node : Type) [DecidableEq Fiber] [DecidableEq Node] :=
  (machine Fiber Node).withFaults (yields Fiber Node).faults

abbrev History (Fiber Node : Type) := List (State Fiber Node × Action Fiber Node)

end LibFiber.MultiSignal
