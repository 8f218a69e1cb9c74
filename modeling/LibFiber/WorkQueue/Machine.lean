import LibFiber.Mpsc.Machine

namespace LibFiber.WorkQueue

open Semantics Function

/-! `work_queue`: fibers that push items, and the one of them that works.

A step is one access to `in_count`, `out_count` or to the `mpsc_fifo` below.  The
fifo is meant for one consumer; nothing here keeps two fibers from popping, each
with local variables of its own, and `fifo.consumer` repeats those of the fiber
that moved last.
-/

inductive Phase (Node Value : Type) where
  | resting
  /-- In `work_queue_push`, about to increment `in_count`. -/
  | entering
  /-- In `mpsc_fifo_push`. -/
  | pushing
  /-- In `work_queue_get_work`, with the local variables of `mpsc_fifo_trypop`. -/
  | popping (consumer : Mpsc.ConsumerPhase Node Value)
  | checking
  | comparing (outCount : Int)
  | reading
  | zeroing (oldOutCount : Int)
  | subtracting (oldOutCount : Int)
  /-- It has an item, about to increment `out_count`. -/
  | loadingOut (node : Node)
  | storingOut (node : Node) (outCount : Int)
deriving DecidableEq, Repr

structure State (Fiber Node Value : Type) where
  fifo : Mpsc.State Fiber Node Value
  inCount : Int
  outCount : Int
  /-- Told `WORK_QUEUE_START_WORKING`, and not `WORK_QUEUE_EMPTY` since. -/
  worker : Fiber → Bool
  phase : Fiber → Phase Node Value

inductive Action (Fiber Node Value : Type) where
  | fill (node : Node) (data : Value) (next : Option Node)
  | push (fiber : Fiber) (node : Node)
  | getWork (fiber : Fiber)
  | move (fiber : Fiber)
deriving DecidableEq, Repr

def Phase.rests {Node Value : Type} : Phase Node Value → Bool
  | .resting => true
  | _ => false

/-- `work_queue_init` -/
def init {Fiber Node Value : Type} (fifo : Mpsc.State Fiber Node Value) :
    State Fiber Node Value where
  fifo
  inCount := 0
  outCount := 0
  worker := fun _ => false
  phase := fun _ => .resting

section Steps

variable {Fiber Node Value : Type} [DecidableEq Fiber] [DecidableEq Node]

omit [DecidableEq Node] in
def State.goto (state : State Fiber Node Value) (fiber : Fiber) (next : Phase Node Value) :
    State Fiber Node Value :=
  { state with phase := update state.phase fiber next }

omit [DecidableEq Node] in
def State.trypop (state : State Fiber Node Value) (fiber : Fiber) : State Fiber Node Value :=
  { state with
    fifo := { state.fifo with consumer := .popping }
    phase := update state.phase fiber (.popping .popping) }

/-- Where `work_queue_get_work` goes on from `mpsc_fifo_trypop`. -/
def Phase.after : Mpsc.ConsumerPhase Node Value → Phase Node Value
  | .popped none => .checking
  | .popped (some node) => .loadingOut node
  | consumer => .popping consumer

/-- `work_queue_push` and `work_queue_get_work` -/
def move (state : State Fiber Node Value) (fiber : Fiber) : Option (State Fiber Node Value) :=
  match state.phase fiber with
  | .resting => none
  | .entering =>
    some { state with
      inCount := state.inCount + 1
      worker := if state.inCount + 1 = 1 then update state.worker fiber true else state.worker
      phase := update state.phase fiber .pushing }
  | .pushing =>
    (Mpsc.moveProducer state.fifo fiber).map fun fifo =>
      { state with
        fifo
        phase := update state.phase fiber
          (if fifo.producer fiber = .idle then .resting else .pushing) }
  | .popping consumer =>
    (Mpsc.moveConsumer { state.fifo with consumer }).map fun fifo =>
      { state with fifo, phase := update state.phase fiber (.after fifo.consumer) }
  | .checking => some (state.goto fiber (.comparing state.outCount))
  | .comparing outCount =>
    if outCount = state.inCount then some (state.goto fiber .reading)
    else some (state.trypop fiber)
  | .reading => some (state.goto fiber (.zeroing state.outCount))
  | .zeroing oldOutCount =>
    some { state with
      outCount := 0
      phase := update state.phase fiber (.subtracting oldOutCount) }
  | .subtracting oldOutCount =>
    if state.inCount - oldOutCount = 0 then
      some { state with
        inCount := state.inCount - oldOutCount
        worker := update state.worker fiber false
        phase := update state.phase fiber .resting }
    else some ({ state with inCount := state.inCount - oldOutCount }.trypop fiber)
  | .loadingOut node => some (state.goto fiber (.storingOut node state.outCount))
  | .storingOut _ outCount =>
    some { state with
      outCount := outCount + 1
      phase := update state.phase fiber .resting }

/-- Only the worker calls `work_queue_get_work`, and it stays the worker until the
call reports `WORK_QUEUE_EMPTY`. -/
def step (state : State Fiber Node Value) :
    Action Fiber Node Value → Option (State Fiber Node Value)
  | .fill node data next =>
    (Mpsc.fill state.fifo node data next).map fun fifo => { state with fifo }
  | .push fiber node =>
    if (state.phase fiber).rests = true then
      (Mpsc.push state.fifo fiber node).map fun fifo =>
        { state with fifo, phase := update state.phase fiber .entering }
    else none
  | .getWork fiber =>
    if (state.phase fiber).rests ∧ state.worker fiber = true then
      some (state.trypop fiber)
    else none
  | .move fiber => move state fiber

end Steps

def machine (Fiber Node Value : Type) [DecidableEq Fiber] [DecidableEq Node] :
    Machine (State Fiber Node Value) (Action Fiber Node Value) where
  initial state := ∃ fifo, (Mpsc.machine Fiber Node Value).initial fifo ∧ state = init fifo
  step := step

abbrev History (Fiber Node Value : Type) := List (State Fiber Node Value × Action Fiber Node Value)

inductive Thinks {Fiber Node Value : Type} (state : State Fiber Node Value) :
    Phase Node Value → Phase Node Value → Prop where
  | check : Thinks state .checking (.comparing state.outCount)
  | equal : Thinks state (.comparing state.inCount) .reading
  | read : Thinks state .reading (.zeroing state.outCount)
  | load : Thinks state (.loadingOut node) (.storingOut node state.outCount)

inductive Move {Fiber Node Value : Type} [DecidableEq Fiber] [DecidableEq Node]
    (state : State Fiber Node Value) :
    Action Fiber Node Value → State Fiber Node Value → Prop where
  | fill : Mpsc.step state.fifo (.fill node data next) = some fifo →
      Move state (.fill node data next) { state with fifo }
  | push : state.phase fiber = .resting → Mpsc.step state.fifo (.push fiber node) = some fifo →
      Move state (.push fiber node)
        { state with fifo, phase := update state.phase fiber .entering }
  | enter : state.phase fiber = .entering →
      Move state (.move fiber)
        { state with
          inCount := state.inCount + 1
          worker := if state.inCount + 1 = 1 then update state.worker fiber true else state.worker
          phase := update state.phase fiber .pushing }
  | produce :
      state.phase fiber = .pushing → Mpsc.step state.fifo (.moveProducer fiber) = some fifo →
      Move state (.move fiber)
        { state with
          fifo
          phase := update state.phase fiber
            (if fifo.producer fiber = .idle then .resting else .pushing) }
  | getWork : state.phase fiber = .resting → state.worker fiber →
      Move state (.getWork fiber) (state.trypop fiber)
  | retry : state.phase fiber = .comparing outCount →
      Move state (.move fiber) (state.trypop fiber)
  | consume : state.phase fiber = .popping consumer →
      Mpsc.step { state.fifo with consumer } .moveConsumer = some fifo →
      Move state (.move fiber)
        { state with fifo, phase := update state.phase fiber (.after fifo.consumer) }
  | think : Thinks state (state.phase fiber) next →
      Move state (.move fiber) (state.goto fiber next)
  | zero : state.phase fiber = .zeroing oldOutCount →
      Move state (.move fiber)
        { state with
          outCount := 0
          phase := update state.phase fiber (.subtracting oldOutCount) }
  | finish : state.phase fiber = .subtracting oldOutCount →
      state.inCount - oldOutCount = 0 →
      Move state (.move fiber)
        { state with
          inCount := state.inCount - oldOutCount
          worker := update state.worker fiber false
          phase := update state.phase fiber .resting }
  | resume : state.phase fiber = .subtracting oldOutCount →
      state.inCount - oldOutCount ≠ 0 →
      Move state (.move fiber)
        ({ state with inCount := state.inCount - oldOutCount }.trypop fiber)
  | count : state.phase fiber = .storingOut node outCount →
      Move state (.move fiber)
        { state with
          outCount := outCount + 1
          phase := update state.phase fiber .resting }

section Moves

variable {Fiber Node Value : Type} [DecidableEq Fiber] [DecidableEq Node]
variable {state : State Fiber Node Value}

omit [DecidableEq Fiber] [DecidableEq Node] in
theorem resting_of_rests (rests : (state.phase fiber).rests) :
    state.phase fiber = .resting := by
  cases phase : state.phase fiber with
  | resting => rfl
  | _ => simp [phase, Phase.rests] at rests

attribute [local grind intro] Thinks Move

theorem move_moves (stepped : move state fiber = some after) : Move state (.move fiber) after := by
  cases phase : state.phase fiber <;> simp only [move, phase, reduceCtorEq] at stepped
  case pushing =>
    obtain ⟨fifo, moved, rfl⟩ := Option.map_eq_some_iff.mp stepped
    exact .produce phase moved
  case popping =>
    obtain ⟨fifo, moved, rfl⟩ := Option.map_eq_some_iff.mp stepped
    exact .consume phase moved
  case subtracting =>
    split at stepped <;> cases stepped
    · exact .finish phase ‹_›
    · exact .resume phase ‹_›
  all_goals grind

theorem step_moves (stepped : step state action = some after) : Move state action after := by
  cases action with
  | fill node data next =>
    obtain ⟨fifo, moved, rfl⟩ := Option.map_eq_some_iff.mp stepped
    exact .fill moved
  | push fiber node =>
    obtain ⟨rests, stepped⟩ := Option.ite_none_right_eq_some.mp stepped
    obtain ⟨fifo, moved, rfl⟩ := Option.map_eq_some_iff.mp stepped
    exact .push (resting_of_rests rests) moved
  | getWork fiber =>
    obtain ⟨⟨rests, working⟩, ⟨⟩⟩ := Option.ite_none_right_eq_some.mp stepped
    exact .getWork (resting_of_rests rests) working
  | move fiber => exact move_moves stepped

end Moves

end LibFiber.WorkQueue
