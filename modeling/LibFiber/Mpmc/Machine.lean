import LibFiber.Semantics.Machine
import LibFiber.Data.LinkedNodes

namespace LibFiber.Mpmc

open Semantics Function

/-! `mpmc_fifo` with any number of pushing and popping threads.

A step is one access to `head`, `tail`, a hazard slot or a node.  The `next`
fields are left out: a push stores to the one of its own node, and nobody reads
them.  What becomes of a retired node is left open here, only that it goes back to
the clients at some point.
-/

/-- Whose a node is, as far as its reclamation is concerned. -/
inductive Status where
  /-- A client's, to push or to write to. -/
  | free
  | busy
  /-- Between `hazard_pointer_free` and the call of its `gc_function`. -/
  | retired
deriving DecidableEq, Repr

inductive Phase (Node Value : Type) where
  | idle
  /-- About to store null in `new_node->prev`. -/
  | resetting (node : Node)
  | loadingTail (node : Node)
  | publishingTail (node tail : Node)
  | checkingTail (node tail : Node)
  | swappingTail (node tail : Node)
  /-- About to store `node` in `tail->prev`. -/
  | linking (tail node : Node)
  | unpublishing
  | loadingHead
  | publishingHead (head : Node)
  | checkingHead (head : Node)
  | readingPrev (head : Node)
  /-- It found null in `head->prev`. -/
  | leaving
  | publishingPrev (head prev : Node)
  | recheckingHead (head prev : Node)
  | readingValue (head prev : Node)
  | swappingHead (head prev : Node) (value : Value)
  | clearingHead (head : Node) (value : Value)
  | clearingPrev (head : Node) (value : Value)
  /-- About to call `hazard_pointer_free`. -/
  | retiring (head : Node) (value : Value)
  | returned (value : Option Value)
deriving DecidableEq, Repr

structure State (Thread Node Value : Type) where
  head : Node
  tail : Node
  prev : Node → Option Node
  value : Node → Value
  /-- The `hazard_pointers` of the threads' records. -/
  slot : Thread × Nat → Option Node
  status : Node → Status
  phase : Thread → Phase Node Value

inductive Action (Thread Node Value : Type) where
  | fill (node : Node) (value : Value) (prev : Option Node)
  | push (thread : Thread) (node : Node)
  | trypop (thread : Thread)
  /-- The next access of the thread; a weak compare-and-swap may fail for no
  reason. -/
  | move (thread : Thread) (spurious : Bool)
  /-- A client hands a node of its own to `hazard_pointer_free`. -/
  | dispose (node : Node)
  /-- The node's `gc_function` is called. -/
  | reclaim (node : Node)
deriving DecidableEq, Repr

/-- `mpmc_fifo_init`, in any memory. -/
def init {Thread Node Value : Type} [DecidableEq Node] (initialNode : Node)
    (prev : Node → Option Node) (value : Node → Value) : State Thread Node Value where
  head := initialNode
  tail := initialNode
  prev := update prev initialNode none
  value
  slot := fun _ => none
  status := update (fun _ => .free) initialNode .busy
  phase := fun _ => .idle

def Phase.resting {Node Value : Type} : Phase Node Value → Bool
  | .idle | .returned _ => true
  | _ => false

section Steps

variable {Thread Node Value : Type} [DecidableEq Thread] [DecidableEq Node]

def State.goto (state : State Thread Node Value) (thread : Thread) (next : Phase Node Value) :
    State Thread Node Value :=
  { state with phase := update state.phase thread next }

/-- `hazard_pointer_using` and `hazard_pointer_done_using` -/
def State.store (state : State Thread Node Value) (thread : Thread) (index : Nat)
    (node : Option Node) : State Thread Node Value :=
  { state with slot := update state.slot (thread, index) node }

def fill (state : State Thread Node Value) (node : Node) (value : Value) (prev : Option Node) :
    Option (State Thread Node Value) :=
  if state.status node = .free then
    some { state with value := update state.value node value, prev := update state.prev node prev }
  else none

def push (state : State Thread Node Value) (thread : Thread) (node : Node) :
    Option (State Thread Node Value) :=
  if (state.phase thread).resting ∧ state.status node = .free then
    some { state with
      status := update state.status node .busy
      phase := update state.phase thread (.resetting node) }
  else none

def trypop (state : State Thread Node Value) (thread : Thread) :
    Option (State Thread Node Value) :=
  if (state.phase thread).resting = true then some (state.goto thread .loadingHead) else none

/-- `mpmc_fifo_push` and `mpmc_fifo_trypop` -/
def move (state : State Thread Node Value) (thread : Thread) (spurious : Bool) :
    Option (State Thread Node Value) :=
  match state.phase thread with
  | .idle | .returned _ => none
  | .resetting node =>
    some { state with
      prev := update state.prev node none
      phase := update state.phase thread (.loadingTail node) }
  | .loadingTail node => some (state.goto thread (.publishingTail node state.tail))
  | .publishingTail node tail =>
    some ((state.store thread 0 (some tail)).goto thread (.checkingTail node tail))
  | .checkingTail node tail =>
    if tail = state.tail then some (state.goto thread (.swappingTail node tail))
    else some (state.goto thread (.loadingTail node))
  | .swappingTail node tail =>
    if state.tail = tail ∧ spurious = false then
      some { state with
        tail := node
        phase := update state.phase thread (.linking tail node) }
    else some (state.goto thread (.loadingTail node))
  | .linking tail node =>
    some { state with
      prev := update state.prev tail (some node)
      phase := update state.phase thread .unpublishing }
  | .unpublishing => some ((state.store thread 0 none).goto thread .idle)
  | .loadingHead => some (state.goto thread (.publishingHead state.head))
  | .publishingHead head =>
    some ((state.store thread 0 (some head)).goto thread (.checkingHead head))
  | .checkingHead head =>
    if head = state.head then some (state.goto thread (.readingPrev head))
    else some (state.goto thread .loadingHead)
  | .readingPrev head =>
    match state.prev head with
    | none => some (state.goto thread .leaving)
    | some prev => some (state.goto thread (.publishingPrev head prev))
  | .leaving => some ((state.store thread 0 none).goto thread (.returned none))
  | .publishingPrev head prev =>
    some ((state.store thread 1 (some prev)).goto thread (.recheckingHead head prev))
  | .recheckingHead head prev =>
    if head = state.head then some (state.goto thread (.readingValue head prev))
    else some (state.goto thread .loadingHead)
  | .readingValue head prev =>
    some (state.goto thread (.swappingHead head prev (state.value prev)))
  | .swappingHead head prev value =>
    if state.head = head ∧ spurious = false then
      some { state with
        head := prev
        phase := update state.phase thread (.clearingHead head value) }
    else some (state.goto thread .loadingHead)
  | .clearingHead head value =>
    some ((state.store thread 0 none).goto thread (.clearingPrev head value))
  | .clearingPrev head value =>
    some ((state.store thread 1 none).goto thread (.retiring head value))
  | .retiring head value =>
    some { state with
      status := update state.status head .retired
      phase := update state.phase thread (.returned (some value)) }

omit [DecidableEq Thread] in
/-- The node changes hands between its clients and its reclamation. -/
def pass (state : State Thread Node Value) (node : Node) (before after : Status) :
    Option (State Thread Node Value) :=
  if state.status node = before then
    some { state with status := update state.status node after }
  else none

def step (state : State Thread Node Value) :
    Action Thread Node Value → Option (State Thread Node Value)
  | .fill node value prev => fill state node value prev
  | .push thread node => push state thread node
  | .trypop thread => trypop state thread
  | .move thread spurious => move state thread spurious
  | .dispose node => pass state node .free .retired
  | .reclaim node => pass state node .retired .free

end Steps

def machine (Thread Node Value : Type) [DecidableEq Thread] [DecidableEq Node] :
    Machine (State Thread Node Value) (Action Thread Node Value) where
  initial state := ∃ initialNode prev value, state = init initialNode prev value
  step := step

abbrev History (Thread Node Value : Type) :=
  List (State Thread Node Value × Action Thread Node Value)

/-- The node that the thread has validated in a slot, from the second read of
`head` or `tail` until its last access to the node.  Clearing the slots and retiring
the old head come after that. -/
def Phase.protects {Node Value : Type} : Phase Node Value → Nat → Option Node
  | .swappingTail _ tail, 0 | .linking tail _, 0 => some tail
  | .readingPrev head, 0 | .publishingPrev head _, 0 | .recheckingHead head _, 0
  | .readingValue head _, 0 | .swappingHead head _ _, 0 => some head
  | .readingValue _ prev, 1 | .swappingHead _ prev _, 1 => some prev
  | _, _ => none

/-- The free node that a client writes to or pushes. -/
def Action.reuses {Thread Node Value : Type} : Action Thread Node Value → Option Node
  | .fill node _ _ | .push _ node => some node
  | .trypop _ | .move _ _ | .dispose _ | .reclaim _ => none

/-- A node is not used again while a thread has it validated. -/
def Careful {Thread Node Value : Type} (state : State Thread Node Value)
    (action : Action Thread Node Value) : Prop :=
  ∀ node, action.reuses = some node →
    ∀ thread index, (state.phase thread).protects index ≠ some node

inductive Reads {Thread Node Value : Type} (state : State Thread Node Value) (spurious : Bool) :
    Phase Node Value → Phase Node Value → Prop where
  | loadTail : Reads state spurious (.loadingTail node) (.publishingTail node state.tail)
  | confirmTail :
      Reads state spurious (.checkingTail node state.tail) (.swappingTail node state.tail)
  | rejectTail : tail ≠ state.tail →
      Reads state spurious (.checkingTail node tail) (.loadingTail node)
  | missTail : ¬ (state.tail = tail ∧ spurious = false) →
      Reads state spurious (.swappingTail node tail) (.loadingTail node)
  | loadHead : Reads state spurious .loadingHead (.publishingHead state.head)
  | confirmHead : Reads state spurious (.checkingHead state.head) (.readingPrev state.head)
  | rejectHead : head ≠ state.head →
      Reads state spurious (.checkingHead head) .loadingHead
  | readNull : state.prev head = none →
      Reads state spurious (.readingPrev head) .leaving
  | readPrev : state.prev head = some prev →
      Reads state spurious (.readingPrev head) (.publishingPrev head prev)
  | reconfirm :
      Reads state spurious (.recheckingHead state.head prev) (.readingValue state.head prev)
  | rereject : head ≠ state.head →
      Reads state spurious (.recheckingHead head prev) .loadingHead
  | readValue :
      Reads state spurious (.readingValue head prev) (.swappingHead head prev (state.value prev))
  | missHead : ¬ (state.head = head ∧ spurious = false) →
      Reads state spurious (.swappingHead head prev value) .loadingHead

inductive Stores {Node Value : Type} :
    Phase Node Value → Nat → Option Node → Phase Node Value → Prop where
  | tail : Stores (.publishingTail node tail) 0 (some tail) (.checkingTail node tail)
  | pushed : Stores .unpublishing 0 none .idle
  | head : Stores (.publishingHead head) 0 (some head) (.checkingHead head)
  | empty : Stores .leaving 0 none (.returned none)
  | prev : Stores (.publishingPrev head prev) 1 (some prev) (.recheckingHead head prev)
  | clearHead : Stores (.clearingHead head value) 0 none (.clearingPrev head value)
  | clearPrev : Stores (.clearingPrev head value) 1 none (.retiring head value)

inductive Move {Thread Node Value : Type} [DecidableEq Thread] [DecidableEq Node]
    (state : State Thread Node Value) :
    Action Thread Node Value → State Thread Node Value → Prop where
  | fill : state.status node = .free →
      Move state (.fill node value prev)
        { state with value := update state.value node value, prev := update state.prev node prev }
  | push : (state.phase thread).resting →
      state.status node = .free →
      Move state (.push thread node)
        { state with
          status := update state.status node .busy
          phase := update state.phase thread (.resetting node) }
  | trypop : (state.phase thread).resting →
      Move state (.trypop thread) (state.goto thread .loadingHead)
  | read : Reads state spurious (state.phase thread) next →
      Move state (.move thread spurious) (state.goto thread next)
  | store : Stores (state.phase thread) index node next →
      Move state (.move thread spurious) ((state.store thread index node).goto thread next)
  | reset : state.phase thread = .resetting node →
      Move state (.move thread spurious)
        { state with
          prev := update state.prev node none
          phase := update state.phase thread (.loadingTail node) }
  | swapTail : state.phase thread = .swappingTail node state.tail →
      Move state (.move thread false)
        { state with
          tail := node
          phase := update state.phase thread (.linking state.tail node) }
  | link : state.phase thread = .linking tail node →
      Move state (.move thread spurious)
        { state with
          prev := update state.prev tail (some node)
          phase := update state.phase thread .unpublishing }
  | swapHead : state.phase thread = .swappingHead state.head prev value →
      Move state (.move thread false)
        { state with
          head := prev
          phase := update state.phase thread (.clearingHead state.head value) }
  | retire : state.phase thread = .retiring head value →
      Move state (.move thread spurious)
        { state with
          status := update state.status head .retired
          phase := update state.phase thread (.returned (some value)) }
  | dispose : state.status node = .free →
      Move state (.dispose node) { state with status := update state.status node .retired }
  | reclaim : state.status node = .retired →
      Move state (.reclaim node) { state with status := update state.status node .free }

section Moves

variable {Thread Node Value : Type} [DecidableEq Thread] [DecidableEq Node]
variable {after : State Thread Node Value}

attribute [local grind intro] Reads Stores Move

theorem move_moves (stepped : move state thread spurious = some after) :
    Move state (.move thread spurious) after := by
  cases phase : state.phase thread <;> simp only [move, phase, reduceCtorEq] at stepped
  all_goals grind

theorem step_moves (stepped : step state action = some after) : Move state action after := by
  cases action with
  | move thread spurious => exact move_moves stepped
  | fill | push | trypop | dispose | reclaim =>
    simp only [step, fill, push, trypop, pass] at stepped
    grind

/-- What can become of a node's status. -/
inductive Turns {Thread Node Value : Type} (state : State Thread Node Value) :
    Action Thread Node Value → Node → Status → Prop where
  | same : Turns state action node (state.status node)
  | push : state.status node = .free →
      Turns state (.push thread node) node .busy
  | retire : state.phase thread = .retiring node value →
      Turns state (.move thread spurious) node .retired
  | dispose : state.status node = .free → Turns state (.dispose node) node .retired
  | reclaim : state.status node = .retired → Turns state (.reclaim node) node .free

theorem turns_update {changed : Node} (turns : Turns state action changed status) (node : Node) :
    Turns state action node (update state.status changed status node) := by
  by_cases same : node = changed
  · rw [same, update_self]
    exact turns
  · rw [update_of_ne same]
    exact .same

theorem Move.turns (move : Move state action after)
    (node : Node) : Turns state action node (after.status node) := by
  cases move with
  | push _ free => exact turns_update (.push free) node
  | retire phase => exact turns_update (.retire phase) node
  | dispose free => exact turns_update (.dispose free) node
  | reclaim retired => exact turns_update (.reclaim retired) node
  | fill | trypop | read | store | reset | swapTail | link | swapHead => exact .same

theorem Turns.retired (turns : Turns state action node status) (unclaimed : action ≠ .reclaim node)
    (retired : state.status node = .retired) : status = .retired := by
  cases turns with
  | same => exact retired
  | push free | dispose free => simp [free] at retired
  | retire => rfl
  | reclaim => exact (unclaimed rfl).elim

theorem Turns.free (turns : Turns state action node status) (unclaimed : action ≠ .reclaim node)
    (freed : status = .free) : state.status node = .free := by
  cases turns with
  | same => exact freed
  | push | retire | dispose => cases freed
  | reclaim => exact (unclaimed rfl).elim

def Action.mover : Action Thread Node Value → Option Thread
  | .push thread _ | .trypop thread | .move thread _ => some thread
  | .fill _ _ _ | .dispose _ | .reclaim _ => none

theorem Move.phase_of_ne {other : Thread}
    (move : Move state action after) (apart : action.mover ≠ some other) :
    after.phase other = state.phase other := by
  cases move with
  | fill | dispose | reclaim => rfl
  | push | trypop | read | store | reset | swapTail | link | swapHead | retire =>
    refine update_of_ne ?_ _ _
    rintro rfl
    exact apart rfl

theorem Move.reuses_free (move : Move state action after) (reuses : action.reuses = some node) :
    state.status node = .free := by
  cases move with
  | fill free | push _ free =>
    cases reuses
    exact free
  | trypop | read | store | reset | swapTail | link | swapHead | retire | dispose | reclaim =>
    cases reuses

end Moves

end LibFiber.Mpmc
