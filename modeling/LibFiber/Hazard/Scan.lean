import LibFiber.Hazard.Moves

namespace LibFiber.Hazard

open Semantics Data Function

/-! What a whole `hazard_pointer_scan` does while nobody writes to the slots: it keeps the
retired nodes that are in a slot and gives up the others. -/

variable {Thread Node Value : Type} [LinearOrder Node]

/-- What is in the slots of all the records. -/
def State.hazards (pointersPerThread : Nat) (state : State Thread Node Value) : List Node :=
  (slotsOf pointersPerThread state.records).filterMap state.queue.slot

theorem length_slotsOf (pointersPerThread : Nat) (threads : List Thread) :
    (slotsOf pointersPerThread threads).length = threads.length * pointersPerThread := by
  induction threads with
  | nil => simp [slotsOf]
  | cons first rest ih =>
    rw [slotsOf] at ih
    simp only [slotsOf, List.flatMap_cons, List.length_append, ih, List.length_map,
      List.length_range, List.length_cons]
    rw [Nat.add_mul, Nat.one_mul, Nat.add_comm]

omit [LinearOrder Node] in
theorem length_hazards (pointersPerThread : Nat) (state : State Thread Node Value) :
    (state.hazards pointersPerThread).length ≤ state.records.length * pointersPerThread := by
  rw [← length_slotsOf]
  exact List.length_filterMap_le _ _

variable [DecidableEq Thread]

/-- One thread takes the next steps, and nobody else moves. -/
def State.alone (pointersPerThread : Nat) (state : State Thread Node Value) (thread : Thread)
    (count : Nat) : Option (State Thread Node Value) :=
  (machine Thread Node Value pointersPerThread).exec state
    (List.replicate count (.move thread false))

/-- The nodes that the thread hands to their `gc_function` on the way. -/
def State.reclaimed (pointersPerThread : Nat) (state : State Thread Node Value) (thread : Thread)
    (count : Nat) : List Node :=
  ((machine Thread Node Value pointersPerThread).trail state
    (List.replicate count (.move thread false))).filterMap collects

/-- The same, step by step. -/
inductive Alone (pointersPerThread : Nat) (thread : Thread) :
    State Thread Node Value → Nat → List Node → State Thread Node Value → Prop where
  | stop : Alone pointersPerThread thread state 0 [] state
  | step : step pointersPerThread state (.move thread false) = some next →
      Alone pointersPerThread thread next count gone after →
      Alone pointersPerThread thread state (count + 1)
        ((collects (state, .move thread false)).toList ++ gone) after

variable {state : State Thread Node Value}
variable {nodes : List Node}

namespace Alone

theorem silent (collected : collects (state, .move thread false) = none)
    (stepped : Hazard.step pointersPerThread state (.move thread false) = some next)
    (alone : Alone pointersPerThread thread next count gone after) :
    Alone pointersPerThread thread state (count + 1) gone after := by
  have longer := alone.step stepped
  rwa [collected] at longer

theorem trans (first : Alone pointersPerThread thread state count gone next)
    (second : Alone pointersPerThread thread next more others after) :
    Alone pointersPerThread thread state (count + more) (gone ++ others) after := by
  induction first with
  | stop => simpa using second
  | @step state middle count gone next stepped _ ih =>
    rw [List.append_assoc, Nat.add_right_comm]
    exact (ih second).step stepped

theorem exec (alone : Alone pointersPerThread thread state count gone after) :
    state.alone pointersPerThread thread count = some after ∧
      state.reclaimed pointersPerThread thread count = gone := by
  induction alone with
  | stop => exact ⟨rfl, rfl⟩
  | @step state next count gone after stepped _ ih =>
    have moved : (machine Thread Node Value pointersPerThread).step state (.move thread false) =
        some next := stepped
    constructor
    · rw [State.alone, List.replicate_succ, Machine.exec, moved, Option.bind_some]
      exact ih.1
    · rw [← ih.2, State.reclaimed, List.replicate_succ, Machine.trail, moved]
      cases collected : collects (state, Action.move thread false) <;>
        simp [collected, State.reclaimed]

end Alone

theorem collecting_alone (pointersPerThread : Nat) {slots : List (Thread × Nat)}
    (phase : state.phase thread = .collecting plist slots) :
    Alone pointersPerThread thread state slots.length []
      (state.goto thread (.collecting (plist ++ slots.filterMap state.queue.slot) [])) := by
  induction slots generalizing state plist with
  | nil =>
    have same : state.goto thread (.collecting (plist ++ []) []) = state := by
      rw [List.append_nil, State.goto, ← phase, update_eq_self]
    rw [List.filterMap_nil, same]
    exact .stop
  | cons slot rest ih =>
    have stepped : step pointersPerThread state (.move thread false) =
        some (state.goto thread (.collecting (plist ++ (state.queue.slot slot).toList) rest)) := by
      simp [step, move, moveScan, phase]
    have standing : (state.goto thread
        (.collecting (plist ++ (state.queue.slot slot).toList) rest)).phase thread =
          .collecting (plist ++ (state.queue.slot slot).toList) rest := update_self _ _ _
    have further := ih standing
    have shape : plist ++ (slot :: rest).filterMap state.queue.slot =
        plist ++ (state.queue.slot slot).toList ++ rest.filterMap state.queue.slot := by
      cases found : state.queue.slot slot <;> simp [found]
    rw [shape]
    refine .silent (by simp [collects, phase]) stepped ?_
    simpa [State.goto] using further

theorem sweeping_alone (pointersPerThread : Nat)
    (phase : state.phase thread = .sweeping plist nodes) :
    ∃ after, Alone pointersPerThread thread state nodes.length
        (nodes.filter fun node => !binarySearch plist node) after ∧
      after.phase thread = .sweeping plist [] ∧
      (after.record thread).retiredList =
        (nodes.filter fun node => binarySearch plist node).reverse ++
          (state.record thread).retiredList ∧
      (after.record thread).retiredCount =
        (nodes.filter fun node => binarySearch plist node).length +
          (state.record thread).retiredCount := by
  induction nodes generalizing state with
  | nil => exact ⟨state, .stop, phase, rfl, by simp⟩
  | cons node rest ih =>
    by_cases hazardous : binarySearch plist node
    · obtain ⟨next, stepped, standing, list, number⟩ :
          ∃ next, step pointersPerThread state (.move thread false) = some next ∧
            next.phase thread = .sweeping plist rest ∧
            (next.record thread).retiredList = node :: (state.record thread).retiredList ∧
            (next.record thread).retiredCount = (state.record thread).retiredCount + 1 := by
        simp [step, move, moveScan, phase, hazardous]
      obtain ⟨after, alone, ends, kept, counted⟩ := ih standing
      refine ⟨after, ?_, ends, ?_, ?_⟩
      · rw [List.filter_cons_of_neg (by simp [hazardous])]
        exact alone.silent (by simp [collects, phase, hazardous]) stepped
      · rw [kept, list, List.filter_cons_of_pos (by simpa using hazardous)]
        simp
      · rw [counted, number, List.filter_cons_of_pos (by simpa using hazardous), List.length_cons]
        omega
    · obtain ⟨next, stepped, standing, record⟩ :
          ∃ next, step pointersPerThread state (.move thread false) = some next ∧
            next.phase thread = .sweeping plist rest ∧ next.record = state.record := by
        simp [step, move, moveScan, phase, hazardous]
      obtain ⟨after, alone, ends, kept, counted⟩ := ih standing
      rw [record] at kept counted
      refine ⟨after, ?_, ends, ?_, ?_⟩
      · have collected : collects (state, .move thread false) = some node := by
          simp [collects, phase, hazardous]
        have longer := alone.step stepped
        rw [collected] at longer
        rw [List.filter_cons_of_pos (by simp [hazardous])]
        exact longer
      · rw [kept, List.filter_cons_of_neg (by simpa using hazardous)]
      · rw [counted, List.filter_cons_of_neg (by simpa using hazardous)]

theorem binarySearch_sorted (node : Node) (plist : List Node) :
    binarySearch (plist.insertionSort (· ≤ ·)) node = decide (node ∈ plist) := by
  rw [Bool.eq_iff_iff, binarySearch_iff (List.pairwise_insertionSort _ _),
    List.mem_insertionSort, decide_eq_true_iff]

/-- The number of steps of a scan. -/
def State.scanSteps (pointersPerThread : Nat) (state : State Thread Node Value) (thread : Thread) :
    Nat :=
  state.records.length * pointersPerThread + (state.record thread).retiredList.length + 4

/-- The thread scans alone, to the end of the call. -/
structure Scans (pointersPerThread : Nat) (thread : Thread) (state : State Thread Node Value)
    (steps : Nat) (after : State Thread Node Value) : Prop where
  alone : Alone pointersPerThread thread state steps
    ((state.record thread).retiredList.filter
      fun node => node ∉ state.hazards pointersPerThread) after
  ends : after.phase thread = .outside
  kept : (after.record thread).retiredList = ((state.record thread).retiredList.filter
    fun node => node ∈ state.hazards pointersPerThread).reverse
  counted : (after.record thread).retiredCount = (after.record thread).retiredList.length

theorem read_alone (pointersPerThread : Nat)
    (phase : state.phase thread = .collecting [] (slotsOf pointersPerThread state.records)) :
    ∃ after, Scans pointersPerThread thread state (state.records.length * pointersPerThread +
      ((state.record thread).retiredList.length + 1 + 1)) after := by
  have reading := collecting_alone pointersPerThread phase
  rw [length_slotsOf, List.nil_append] at reading
  obtain ⟨sorted, taken, standing, list, number⟩ : ∃ sorted : State Thread Node Value,
      step pointersPerThread (state.goto thread (.collecting (state.hazards pointersPerThread) []))
        (.move thread false) = some sorted ∧
      sorted.phase thread = .sweeping ((state.hazards pointersPerThread).insertionSort (· ≤ ·))
        (state.record thread).retiredList ∧
      (sorted.record thread).retiredList = [] ∧ (sorted.record thread).retiredCount = 0 := by
    simp [step, move, moveScan, State.goto]
  obtain ⟨swept, sweeping, ends, kept, counted⟩ := sweeping_alone pointersPerThread standing
  have left : step pointersPerThread swept (.move thread false) =
      some (swept.goto thread .outside) := by
    simp [step, move, moveScan, ends]
  have returning := sweeping.trans (.silent (by simp [collects, ends]) left .stop)
  have whole := reading.trans (.silent (by simp [collects, State.goto]) taken returning)
  simp only [binarySearch_sorted, list, number, List.append_nil, List.nil_append]
    at whole kept counted
  refine ⟨swept.goto thread .outside, by simpa using whole, update_self _ _ _, kept, ?_⟩
  show (swept.record thread).retiredCount = (swept.record thread).retiredList.length
  rw [counted, kept]
  simp

theorem scan_alone (pointersPerThread : Nat) (phase : state.phase thread = .entering)
    (listed : state.records ≠ []) :
    ∃ after, Scans pointersPerThread thread state (state.scanSteps pointersPerThread thread)
      after := by
  obtain ⟨first, rest, records⟩ := List.exists_cons_of_ne_nil listed
  have entered : step pointersPerThread state (.move thread false) =
      some (state.goto thread (.sizing state.records)) := by
    simp [step, move, moveScan, phase]
  obtain ⟨sized, sizing, queue, same, list, standing⟩ : ∃ sized : State Thread Node Value,
      step pointersPerThread (state.goto thread (.sizing state.records)) (.move thread false) =
        some sized ∧
      sized.queue = state.queue ∧ sized.records = state.records ∧
      (sized.record thread).retiredList = (state.record thread).retiredList ∧
      sized.phase thread = .collecting [] (slotsOf pointersPerThread state.records) := by
    simp [step, move, moveScan, State.goto, records, slotsOf]
  have hazards : sized.hazards pointersPerThread = state.hazards pointersPerThread := by
    simp only [State.hazards, queue, same]
  obtain ⟨after, alone, ends, kept, counted⟩ :=
    read_alone pointersPerThread (show sized.phase thread = _ by rw [standing, same])
  rw [list, hazards] at alone kept
  rw [same] at alone
  refine ⟨after, ?_, ends, kept, counted⟩
  have quiet : collects (state, .move thread false) = none := by simp [collects, phase]
  have still : collects (state.goto thread (.sizing state.records), .move thread false) = none := by
    simp [collects, State.goto]
  exact Alone.silent quiet entered (.silent still sizing alone)

omit [DecidableEq Thread] in
theorem length_hazardous (distinct : nodes.Nodup) :
    (nodes.filter fun node => node ∈ state.hazards pointersPerThread).length ≤
      state.records.length * pointersPerThread := by
  refine Nat.le_trans (List.Subperm.length_le ?_) (length_hazards pointersPerThread state)
  refine List.subperm_of_subset (distinct.filter _) fun node member => ?_
  simpa using (List.mem_filter.mp member).2

/-- A scan of distinct retired nodes calls `gc_function` once for each of them that is in no
slot and for nothing else, and keeps the others and their number.  A scan that
`hazard_pointer_free` starts at the threshold reclaims one node for each slot at least, and
leaves no more than that. -/
theorem scan_partitions (pointersPerThread : Nat) (state : State Thread Node Value)
    (thread : Thread) (listed : state.records ≠ [])
    (distinct : (state.record thread).retiredList.Nodup) :
    (state.phase thread = .entering → ∃ after,
      state.alone pointersPerThread thread (state.scanSteps pointersPerThread thread) =
        some after ∧
      after.phase thread = .outside ∧
      (∀ node, (state.reclaimed pointersPerThread thread
          (state.scanSteps pointersPerThread thread)).count node =
        if node ∈ (state.record thread).retiredList ∧
          node ∉ state.hazards pointersPerThread then 1 else 0) ∧
      (after.record thread).retiredList.Nodup ∧
      (∀ node, node ∈ (after.record thread).retiredList ↔
        node ∈ (state.record thread).retiredList ∧ node ∈ state.hazards pointersPerThread) ∧
      (after.record thread).retiredCount = (after.record thread).retiredList.length) ∧
    (state.phase thread = .testing →
      (state.record thread).retiredCount = (state.record thread).retiredList.length →
      (state.record thread).retireThreshold = 2 * state.records.length * pointersPerThread →
      (state.record thread).retireThreshold ≤ (state.record thread).retiredCount →
      ∃ after, state.alone pointersPerThread thread
          (state.scanSteps pointersPerThread thread + 1) = some after ∧
        after.phase thread = .outside ∧
        state.records.length * pointersPerThread ≤ (state.reclaimed pointersPerThread thread
          (state.scanSteps pointersPerThread thread + 1)).length ∧
        (after.record thread).retiredCount ≤ state.records.length * pointersPerThread) := by
  constructor
  · intro phase
    obtain ⟨after, alone, ends, kept, counted⟩ := scan_alone pointersPerThread phase listed
    obtain ⟨executed, gone⟩ := alone.exec
    refine ⟨after, executed, ends, ?_, ?_, ?_, counted⟩
    · intro node
      rw [gone]
      have once := (distinct.filter fun node =>
        decide (node ∉ state.hazards pointersPerThread)).count (a := node)
      simpa only [List.mem_filter, decide_eq_true_eq] using once
    · rw [kept, List.nodup_reverse]
      exact distinct.filter _
    · intro node
      simp [kept]
  · intro phase counted threshold reached
    have started : step pointersPerThread state (.move thread false) =
        some (state.goto thread .entering) := by
      simp [step, move, moveScan, phase, reached]
    have entering : (state.goto thread .entering).phase thread = .entering := update_self _ _ _
    obtain ⟨after, alone, ends, kept, number⟩ := scan_alone pointersPerThread entering listed
    obtain ⟨executed, gone⟩ := (Alone.silent (by simp [collects, phase]) started alone).exec
    have few : ((state.record thread).retiredList.filter
        fun node => node ∈ state.hazards pointersPerThread).length ≤
          state.records.length * pointersPerThread := length_hazardous distinct
    have split := List.length_eq_length_filter_add (l := (state.record thread).retiredList)
      fun node => decide (node ∈ state.hazards pointersPerThread)
    refine ⟨after, executed, ends, ?_, ?_⟩
    · have reclaimed : state.reclaimed pointersPerThread thread
          (state.scanSteps pointersPerThread thread + 1) =
          (state.record thread).retiredList.filter
            fun node => decide (node ∉ state.hazards pointersPerThread) := gone
      simp only [decide_not] at reclaimed
      rw [reclaimed]
      rw [Nat.mul_assoc] at threshold
      omega
    · rw [number, kept, List.length_reverse]
      exact few

/-- Two records of one slot each, both with node 3, which is one of four retired nodes. -/
def holding (phase : Phase Bool Nat) : State Bool Nat Nat where
  queue := { Mpmc.init 0 (fun _ => none) (fun _ => 0) with slot := fun _ => some 3 }
  records := [true, false]
  record := fun _ => ⟨4, 4, [1, 2, 3, 4], 0⟩
  phase := fun _ => phase

theorem scan_partitions_repeated :
    (∃ after, (holding .entering).alone 1 true 10 = some after ∧
      ((holding .entering).reclaimed 1 true 10).count 3 = 0 ∧
      ((holding .entering).reclaimed 1 true 10).count 4 = 1 ∧
      3 ∈ (after.record true).retiredList) ∧
    ∃ after, (holding .testing).alone 1 true 11 = some after ∧
      2 ≤ ((holding .testing).reclaimed 1 true 11).length ∧
      (after.record true).retiredCount ≤ 2 := by
  constructor
  · obtain ⟨after, executed, _, gone, _, kept, _⟩ :=
      (scan_partitions 1 (holding .entering) true (by decide) (by decide)).1 rfl
    exact ⟨after, executed, gone 3, gone 4, (kept 3).mpr (by decide)⟩
  · obtain ⟨after, executed, _, many, few⟩ :=
      (scan_partitions 1 (holding .testing) true (by decide) (by decide)).2 rfl rfl rfl (by decide)
    exact ⟨after, executed, many, few⟩

end LibFiber.Hazard
