import LibFiber.Mpmc.Machine
import LibFiber.Data.BinarySearch

namespace LibFiber.Hazard

open Semantics Data Function

/-! The hazard pointers behind `mpmc_fifo`: records, retired lists and scans.

The records form a list that only grows, at its head, and a record's `next` field
never changes once the record is in it; a pointer to a record stands for the part
of the list from there on.  Threads register while others scan.
-/

/-- `hazard_pointer_thread_record_t`, without the slots. -/
structure Record (Node : Type) where
  retireThreshold : Nat
  retiredCount : Nat
  retiredList : List Node
  /-- Zero as long as there is no `plist`. -/
  plistSize : Nat

inductive Phase (Thread Node : Type) where
  | outside
  /-- In `hazard_pointer_thread_record_create_and_push`: `cur_head`, the walk that
  counts the threads, and the count. -/
  | counting (curHead cur : List Thread) (threads : Nat)
  | inserting (curHead : List Thread)
  /-- The walk that raises the other threads' thresholds. -/
  | raising (cur : List Thread)
  /-- In `hazard_pointer_free`, before the test of `retired_count`. -/
  | testing
  /-- In `hazard_pointer_scan`. -/
  | entering
  | sizing (head : List Thread)
  | collecting (plist : List Node) (slots : List (Thread × Nat))
  | sweeping (plist nodes : List Node)
deriving DecidableEq, Repr

structure State (Thread Node Value : Type) where
  queue : Mpmc.State Thread Node Value
  records : List Thread
  record : Thread → Record Node
  phase : Thread → Phase Thread Node

inductive Action (Thread Node Value : Type) where
  | register (thread : Thread)
  | fill (node : Node) (value : Value) (prev : Option Node)
  | push (thread : Thread) (node : Node)
  | trypop (thread : Thread)
  /-- `hazard_pointer_free` of a client's own node. -/
  | free (thread : Thread) (node : Node)
  | scan (thread : Thread)
  | move (thread : Thread) (spurious : Bool)
deriving DecidableEq, Repr

/-- `MPMC_HAZARD_COUNT` -/
def mpmcHazardCount : Nat := 2

/-- A queue and no records. -/
def init {Thread Node Value : Type} (queue : Mpmc.State Thread Node Value) :
    State Thread Node Value where
  queue
  records := []
  record := fun _ => ⟨0, 0, [], 0⟩
  phase := fun _ => .outside

section Steps

variable {Thread Node Value : Type} [DecidableEq Thread] [LinearOrder Node]

omit [LinearOrder Node] in
def State.goto (state : State Thread Node Value) (thread : Thread) (next : Phase Thread Node) :
    State Thread Node Value :=
  { state with phase := update state.phase thread next }

/-- The thread goes on from its own code. -/
def State.ready (state : State Thread Node Value) (thread : Thread) : Bool :=
  thread ∈ state.records ∧ state.phase thread = .outside

omit [LinearOrder Node] in
/-- `hazard_pointer_free`, up to the test of `retired_count`. -/
def State.retire (state : State Thread Node Value) (thread : Thread) (node : Node) :
    State Thread Node Value :=
  { state with
    record := update state.record thread
      { state.record thread with
        retiredList := node :: (state.record thread).retiredList
        retiredCount := (state.record thread).retiredCount + 1 }
    phase := update state.phase thread .testing }

/-- The thread's next access to the queue.  It ends a pop with
`hazard_pointer_free`. -/
def moveQueue (state : State Thread Node Value) (thread : Thread) (spurious : Bool) :
    Option (State Thread Node Value) :=
  match state.queue.phase thread with
  | .retiring head _ =>
    (Mpmc.move state.queue thread spurious).map fun queue =>
      { state with queue }.retire thread head
  | _ => (Mpmc.move state.queue thread spurious).map fun queue => { state with queue }

omit [LinearOrder Node] in
/-- `hazard_pointer_thread_record_create_and_push` -/
def moveRegister (pointersPerThread : Nat) (state : State Thread Node Value) (thread : Thread)
    (spurious : Bool) : Option (State Thread Node Value) :=
  match state.phase thread with
  | .counting curHead (_ :: rest) threads =>
    some (state.goto thread (.counting curHead rest (threads + 1)))
  | .counting curHead [] threads =>
    some { state with
      record := update state.record thread
        { state.record thread with retireThreshold := 2 * threads * pointersPerThread }
      phase := update state.phase thread (.inserting curHead) }
  | .inserting curHead =>
    if state.records = curHead ∧ spurious = false then
      some { state with
        records := thread :: curHead
        phase := update state.phase thread (.raising curHead) }
    else some (state.goto thread (.counting state.records state.records 1))
  | .raising (cur :: rest) =>
    some { state with
      record := update state.record cur
        { state.record cur with
          retireThreshold := (state.record cur).retireThreshold + 2 * pointersPerThread }
      phase := update state.phase thread (.raising rest) }
  | .raising [] => some (state.goto thread .outside)
  | _ => none

/-- `hazard_pointer_scan`, and the test that leads to it. -/
def moveScan (pointersPerThread : Nat) (state : State Thread Node Value) (thread : Thread) :
    Option (State Thread Node Value) :=
  match state.phase thread with
  | .testing =>
    if (state.record thread).retireThreshold ≤ (state.record thread).retiredCount then
      some (state.goto thread .entering)
    else some (state.goto thread .outside)
  | .entering => some (state.goto thread (.sizing state.records))
  | .sizing (first :: rest) =>
    some { state with
      record := update state.record thread
        { state.record thread with
          plistSize := max (state.record thread).plistSize
            ((state.record first).retireThreshold / 2) }
      phase := update state.phase thread (.collecting []
        ((first :: rest).flatMap fun other => (List.range pointersPerThread).map (other, ·))) }
  | .collecting plist (slot :: rest) =>
    some (state.goto thread (.collecting (plist ++ (state.queue.slot slot).toList) rest))
  | .collecting plist [] =>
    some { state with
      record := update state.record thread
        { state.record thread with retiredList := [], retiredCount := 0 }
      phase := update state.phase thread
        (.sweeping (plist.insertionSort (· ≤ ·)) (state.record thread).retiredList) }
  | .sweeping plist (node :: rest) =>
    if binarySearch plist node = true then
      some { state with
        record := update state.record thread
          { state.record thread with
            retiredList := node :: (state.record thread).retiredList
            retiredCount := (state.record thread).retiredCount + 1 }
        phase := update state.phase thread (.sweeping plist rest) }
    else
      -- The node's `gc_function` gives it back to the clients.
      some { state with
        queue := { state.queue with status := update state.queue.status node .free }
        phase := update state.phase thread (.sweeping plist rest) }
  | .sweeping _ [] => some (state.goto thread .outside)
  | _ => none

def move (pointersPerThread : Nat) (state : State Thread Node Value) (thread : Thread)
    (spurious : Bool) : Option (State Thread Node Value) :=
  match state.phase thread with
  | .outside => if thread ∈ state.records then moveQueue state thread spurious else none
  | .counting _ _ _ | .inserting _ | .raising _ =>
    moveRegister pointersPerThread state thread spurious
  | .testing | .entering | .sizing _ | .collecting _ _ | .sweeping _ _ =>
    moveScan pointersPerThread state thread

def step (pointersPerThread : Nat) (state : State Thread Node Value) :
    Action Thread Node Value → Option (State Thread Node Value)
  | .register thread =>
    if thread ∉ state.records ∧ state.phase thread = .outside then
      some (state.goto thread (.counting state.records state.records 1))
    else none
  | .fill node value prev =>
    (Mpmc.fill state.queue node value prev).map fun queue => { state with queue }
  | .push thread node =>
    if state.ready thread = true then
      (Mpmc.push state.queue thread node).map fun queue => { state with queue }
    else none
  | .trypop thread =>
    if state.ready thread = true then
      (Mpmc.trypop state.queue thread).map fun queue => { state with queue }
    else none
  | .free thread node =>
    if state.ready thread ∧ (state.queue.phase thread).resting = true then
      (Mpmc.pass state.queue node .free .retired).map fun queue =>
        { state with queue }.retire thread node
    else none
  | .scan thread =>
    if state.ready thread ∧ (state.queue.phase thread).resting = true then
      some (state.goto thread .entering)
    else none
  | .move thread spurious => move pointersPerThread state thread spurious

end Steps

/-- Threads with at least the slots that `mpmc_fifo` asks for. -/
def machine (Thread Node Value : Type) [DecidableEq Thread] [LinearOrder Node]
    (pointersPerThread : Nat) : Machine (State Thread Node Value) (Action Thread Node Value) where
  initial state := mpmcHazardCount ≤ pointersPerThread ∧
    ∃ queue, (Mpmc.machine Thread Node Value).initial queue ∧ state = init queue
  step := step pointersPerThread

abbrev History (Thread Node Value : Type) :=
  List (State Thread Node Value × Action Thread Node Value)

end LibFiber.Hazard
