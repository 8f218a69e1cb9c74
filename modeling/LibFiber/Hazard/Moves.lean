import LibFiber.Hazard.Machine

namespace LibFiber.Hazard

open Semantics Data Function

/-! What the steps do to the queue, to the retired nodes and to the scans. -/

section Moves

variable {Thread Node Value : Type}

/-- Neither a scan that has begun to read the slots nor one that sorts out the
retired nodes. -/
def Phase.plain : Phase Thread Node → Bool
  | .outside | .counting _ _ _ | .inserting _ | .raising _ | .testing | .entering => true
  | .sizing _ | .collecting _ _ | .sweeping _ _ => false

/-- The node handed to `hazard_pointer_free`. -/
def retires (taken : State Thread Node Value × Action Thread Node Value) : Option Node :=
  match taken.2 with
  | .free _ node => some node
  | .move thread _ =>
    match taken.1.phase thread, taken.1.queue.phase thread with
    | .outside, .retiring head _ => some head
    | _, _ => none
  | _ => none

variable [LinearOrder Node]

/-- The node whose `gc_function` is called. -/
def collects (taken : State Thread Node Value × Action Thread Node Value) : Option Node :=
  match taken.2 with
  | .move thread _ =>
    match taken.1.phase thread with
    | .sweeping plist (node :: _) => if binarySearch plist node = true then none else some node
    | _ => none
  | _ => none

/-- The steps of the queue that retire nothing. -/
inductive Serves (state : State Thread Node Value) :
    Action Thread Node Value → Mpmc.Action Thread Node Value → Prop where
  | fill : Serves state (.fill node value prev) (.fill node value prev)
  | push : thread ∈ state.records →
      Serves state (.push thread node) (.push thread node)
  | trypop : thread ∈ state.records →
      Serves state (.trypop thread) (.trypop thread)
  | move : thread ∈ state.records →
      state.phase thread = .outside →
      (∀ head value, state.queue.phase thread ≠ .retiring head value) →
      Serves state (.move thread spurious) (.move thread spurious)

variable [DecidableEq Thread]

/-- The threads' slots, in the order in which a scan reads them. -/
def slotsOf (pointersPerThread : Nat) (threads : List Thread) : List (Thread × Nat) :=
  threads.flatMap fun thread => (List.range pointersPerThread).map (thread, ·)

inductive Move (pointersPerThread : Nat) (state : State Thread Node Value) :
    Action Thread Node Value → State Thread Node Value → Prop where
  | use : Serves state action act →
      Mpmc.step state.queue act = some queue →
      Move pointersPerThread state action { state with queue }
  | retire : thread ∈ state.records →
      state.phase thread = .outside → state.queue.phase thread = .retiring head value →
      Mpmc.step state.queue (.move thread spurious) = some queue →
      Move pointersPerThread state (.move thread spurious) ({ state with queue }.retire thread head)
  | dispose : state.phase thread = .outside → Mpmc.step state.queue (.dispose node) = some queue →
      Move pointersPerThread state (.free thread node) ({ state with queue }.retire thread node)
  /-- The thread goes on without a look at slots or retired nodes. -/
  | stroll : retires (state, action) = none →
      collects (state, action) = none → next.plain →
      (∀ plist node rest, state.phase thread ≠ .sweeping plist (node :: rest)) →
      (∀ other, (record other).retiredList = (state.record other).retiredList) →
      Move pointersPerThread state action
        { state with record, phase := update state.phase thread next }
  | insert : state.phase thread = .inserting state.records →
      Move pointersPerThread state (.move thread spurious)
        { state with
          records := thread :: state.records
          phase := update state.phase thread (.raising state.records) }
  | enter : state.phase thread = .entering →
      Move pointersPerThread state (.move thread spurious)
        (state.goto thread (.sizing state.records))
  | size : state.phase thread = .sizing (first :: rest) →
      Move pointersPerThread state (.move thread spurious)
        { state with
          record := update state.record thread { state.record thread with plistSize := size }
          phase := update state.phase thread
            (.collecting [] (slotsOf pointersPerThread (first :: rest))) }
  | collect : state.phase thread = .collecting plist (slot :: rest) →
      Move pointersPerThread state (.move thread spurious)
        (state.goto thread (.collecting (plist ++ (state.queue.slot slot).toList) rest))
  | take : state.phase thread = .collecting plist [] →
      Move pointersPerThread state (.move thread spurious)
        { state with
          record := update state.record thread
            { state.record thread with retiredList := [], retiredCount := 0 }
          phase := update state.phase thread
            (.sweeping (plist.insertionSort (· ≤ ·)) (state.record thread).retiredList) }
  | keep : state.phase thread = .sweeping plist (node :: rest) →
      binarySearch plist node →
      Move pointersPerThread state (.move thread spurious)
        { state with
          record := update state.record thread
            { state.record thread with
              retiredList := node :: (state.record thread).retiredList
              retiredCount := (state.record thread).retiredCount + 1 }
          phase := update state.phase thread (.sweeping plist rest) }
  | collectGarbage : state.phase thread = .sweeping plist (node :: rest) →
      binarySearch plist node = false →
      Move pointersPerThread state (.move thread spurious)
        { state with
          queue := { state.queue with status := update state.queue.status node .free }
          phase := update state.phase thread (.sweeping plist rest) }

variable {state : State Thread Node Value}

attribute [local grind intro] Serves Move

theorem ready_iff : state.ready thread ↔
    thread ∈ state.records ∧ state.phase thread = .outside := by
  simp [State.ready]

theorem moveQueue_moves (listed : thread ∈ state.records) (outside : state.phase thread = .outside)
    (stepped : moveQueue state thread spurious = some after) :
    Move pointersPerThread state (.move thread spurious) after := by
  cases phase : state.queue.phase thread <;>
    simp only [moveQueue, phase, Option.map_eq_some_iff] at stepped <;>
    obtain ⟨queue, moved, rfl⟩ := stepped
  case retiring => exact .retire listed outside phase moved
  all_goals exact .use (.move listed outside (by simp [phase])) moved

/-- A step of a thread that neither retires a node nor sorts one out. -/
theorem Move.of_stroll (phase : state.phase thread = before) (inside : before ≠ .outside)
    (swept : ∀ plist node rest, before ≠ .sweeping plist (node :: rest)) (plain : next.plain)
    (kept : ∀ other, (record other).retiredList = (state.record other).retiredList) :
    Move pointersPerThread state (.move thread spurious)
      { state with record, phase := update state.phase thread next } := by
  subst phase
  refine .stroll ?_ ?_ plain swept kept
  · grind [retires]
  · grind [collects]

theorem moveRegister_moves
    (stepped : moveRegister pointersPerThread state thread spurious = some after)
    (inside : state.phase thread ≠ .outside) :
    Move pointersPerThread state (.move thread spurious) after := by
  cases phase : state.phase thread with
  | counting curHead cur threads =>
    cases cur <;> simp only [moveRegister, phase] at stepped <;> cases stepped
    · exact .of_stroll phase nofun nofun rfl (by grind [update_apply])
    · exact .of_stroll phase nofun nofun rfl fun _ => rfl
  | inserting curHead =>
    simp only [moveRegister, phase] at stepped
    split at stepped
    · grind
    · cases stepped
      exact .of_stroll phase nofun nofun rfl fun _ => rfl
  | raising cur =>
    cases cur <;> simp only [moveRegister, phase] at stepped <;> cases stepped
    · exact .of_stroll phase nofun nofun rfl fun _ => rfl
    · exact .of_stroll phase nofun nofun rfl (by grind [update_apply])
  | outside => exact (inside phase).elim
  | testing | entering | sizing | collecting | sweeping =>
    simp [moveRegister, phase] at stepped

theorem moveScan_moves (stepped : moveScan pointersPerThread state thread = some after)
    (inside : state.phase thread ≠ .outside) :
    Move pointersPerThread state (.move thread spurious) after := by
  cases phase : state.phase thread with
  | testing =>
    simp only [moveScan, phase] at stepped
    split at stepped <;> cases stepped <;> exact .of_stroll phase nofun nofun rfl fun _ => rfl
  | entering =>
    simp only [moveScan, phase] at stepped
    grind
  | sizing head =>
    cases head <;> simp only [moveScan, phase, reduceCtorEq] at stepped
    cases stepped
    exact .size phase
  | collecting plist slots =>
    cases slots <;> simp only [moveScan, phase] at stepped <;> grind
  | sweeping plist nodes =>
    cases nodes <;> simp only [moveScan, phase] at stepped
    · cases stepped
      exact .of_stroll phase nofun nofun rfl fun _ => rfl
    · grind
  | outside => exact (inside phase).elim
  | counting | inserting | raising => simp [moveScan, phase] at stepped

theorem move_moves (stepped : move pointersPerThread state thread spurious = some after) :
    Move pointersPerThread state (.move thread spurious) after := by
  cases phase : state.phase thread <;>
    simp only [move, phase, Option.ite_none_right_eq_some] at stepped
  case outside => exact moveQueue_moves stepped.1 phase stepped.2
  case counting | inserting | raising => exact moveRegister_moves stepped (by simp [phase])
  all_goals exact moveScan_moves stepped (by simp [phase])

theorem step_moves (stepped : step pointersPerThread state action = some after) :
    Move pointersPerThread state action after := by
  cases action with
  | register | scan =>
    simp only [step, Option.ite_none_right_eq_some, Option.some.injEq, ready_iff] at stepped
    obtain ⟨outside, rfl⟩ := stepped
    exact .stroll rfl rfl rfl (by simp [outside]) fun _ => rfl
  | fill node value prev =>
    obtain ⟨queue, moved, rfl⟩ := Option.map_eq_some_iff.mp stepped
    exact .use .fill moved
  | push | trypop | free =>
    simp only [step, Option.ite_none_right_eq_some, Option.map_eq_some_iff, ready_iff] at stepped
    obtain ⟨ready, queue, moved, rfl⟩ := stepped
    first
      | exact .use (.push ready.1) moved
      | exact .use (.trypop ready.1) moved
      | exact .dispose ready.1.2 moved
  | move thread spurious => exact move_moves stepped

end Moves

end LibFiber.Hazard
