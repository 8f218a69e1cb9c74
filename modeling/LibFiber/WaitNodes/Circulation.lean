import LibFiber.WaitNodes.Preservation

namespace LibFiber.WaitNodes

open Data Semantics Function

/-! Who has which node in the runs of a program. -/

section Nodes

variable {Fiber Queue Node : Type}

/-- From the store to `mpsc_fifo_node` on, until the fiber is switched to. -/
def Phase.pushes : Phase Queue Node → Bool
  | .terminating _ _ | .exchanging _ _ | .linking _ _ _ | .yielding _ _ | .parked _ _ => true
  | _ => false

/-- A waker has given the fiber its node and schedules it, or has scheduled it. -/
def State.Woken (state : State Fiber Queue Node) (fiber : Fiber) : Prop :=
  (∃ queue, (state.waker queue).wakes = some fiber) ∨ 0 < (state.fiber fiber).scheduled

/-- The fiber is between its push and its wake. -/
def State.Waits (state : State Fiber Queue Node) (fiber : Fiber) : Prop :=
  (state.fiber fiber).phase.pushes ∧ ¬ state.Woken fiber

structure Circulates (state : State Fiber Queue Node) (contents : Queue → LinkedFifo Node) :
    Prop where
  unset : ∀ fiber, (state.fiber fiber).phase ≠ .absent →
    ((state.fiber fiber).mpscFifoNode = none ↔ state.Waits fiber)
  waitAsserts : ∀ fiber, (state.fiber fiber).phase ≠ .aborted
  wakeAsserts : ∀ queue, state.waker queue ≠ .aborted
  /-- The nodes of a queue are the sentinel and the members, without repetition. -/
  represents : ∀ queue, state.made queue →
    LinkedFifo.Represents state.next (state.head queue) (state.tail queue) (contents queue)
  queues : ∀ first second, state.made first → state.made second → first ≠ second →
    List.Disjoint (state.head first :: (contents first).members)
      (state.head second :: (contents second).members)
  fibers : ∀ first second node, (state.fiber first).Holds node →
    (state.fiber second).Holds node → first = second
  outside : ∀ fiber node queue, (state.fiber fiber).Holds node → state.made queue →
    node ∉ state.head queue :: (contents queue).members
  /-- A woken fiber has one node, and it is not the one that it pushed. -/
  again : ∀ fiber queue pushed, (state.fiber fiber).phase = .parked queue pushed →
    state.Woken fiber → ∃ own, own ≠ pushed ∧ ∀ node, (state.fiber fiber).Holds node ↔ node = own

/-- The standings between the push and the return. -/
def Standing.waits : Standing Queue Node → Bool
  | .pushing | .queued _ _ | .taken _ _ | .woken _ _ | .scheduled _ => true
  | _ => false

theorem Phase.Admits.waits_eq {phase : Phase Queue Node} {stood : Standing Queue Node}
    (admits : phase.Admits stood) : stood.waits = phase.pushes := by
  cases phase with
  | aborted => exact admits.elim
  | yielding | parked => rcases admits with rfl | rfl | rfl | rfl <;> rfl
  | _ =>
    rw [show stood = _ from admits]
    rfl

variable [DecidableEq Queue] {state : State Fiber Queue Node} {contents : Queue → LinkedFifo Node}
variable {place : Node → Owner Fiber Queue} {standing : Fiber → Standing Queue Node}

section

variable (sound : Sound state contents place standing)
include sound

theorem Sound.woken_of_wakes (wakes : (state.waker queue).wakes = some fiber) :
    ∃ pushed, standing fiber = .woken queue pushed := by
  have fits := sound.wakers queue
  cases phase : state.waker queue with
  | testing other | readying other | scheduling other =>
    rw [phase] at wakes fits
    obtain rfl : other = fiber := Option.some.inj wakes
    exact fits
  | _ => simp [phase, WakerPhase.wakes] at wakes

theorem Sound.woken_iff (pushes : (state.fiber fiber).phase.pushes) :
    state.Woken fiber ↔ (state.fiber fiber).mpscFifoNode.isSome := by
  have waits := (sound.stands fiber).1.waits_eq.trans pushes
  have fits := (sound.stands fiber).2
  -- Before the wake no waker has the fiber, and it is in no run queue.
  have asleep : (state.fiber fiber).mpscFifoNode = none ∧ (state.fiber fiber).scheduled = 0 →
      (∀ queue pushed, standing fiber ≠ .woken queue pushed) →
      (state.Woken fiber ↔ (state.fiber fiber).mpscFifoNode.isSome) := by
    intro ⟨unset, idle⟩ apart
    refine iff_of_false ?_ (by simp [unset])
    intro woken
    rcases woken with ⟨queue, wakes⟩ | queued
    · obtain ⟨pushed, woken⟩ := sound.woken_of_wakes wakes
      exact apart queue pushed woken
    · exact absurd idle (Nat.pos_iff_ne_zero.mp queued)
  cases stood : standing fiber with
  | absent | suspended | active => simp [stood, Standing.waits] at waits
  | pushing | queued | taken =>
    rw [stood] at fits
    exact asleep fits fun _ _ => by rw [stood]; nofun
  | woken queue pushed =>
    rw [stood] at fits
    exact iff_of_true (.inl ⟨queue, sound.waking fiber queue pushed stood⟩) fits.1
  | scheduled pushed =>
    rw [stood] at fits
    exact iff_of_true (.inr (by rw [fits.2.2]; exact Nat.one_pos)) fits.1

theorem Sound.unset_iff (present : (state.fiber fiber).phase ≠ .absent) :
    (state.fiber fiber).mpscFifoNode = none ↔ state.Waits fiber := by
  have fits := (sound.stands fiber).2
  have admits := (sound.stands fiber).1
  cases pushes : (state.fiber fiber).phase.pushes with
  | true =>
    rw [State.Waits, sound.woken_iff pushes]
    simp [pushes]
  | false =>
    refine iff_of_false ?_ fun waits => nomatch pushes.symm.trans waits.1
    have outside := admits.waits_eq.trans pushes
    cases stood : standing fiber with
    | absent =>
      rw [stood] at admits
      cases phase : (state.fiber fiber).phase with
      | absent => exact (present phase).elim
      | _ => simp [phase, Phase.Admits] at admits
    | suspended | active =>
      rw [stood] at fits
      exact fun unset => by simp [unset, Standing.Fits] at fits
    | _ => simp [stood, Standing.waits] at outside

theorem Sound.circulates :
    Circulates state contents where
  unset := fun fiber => sound.unset_iff
  waitAsserts := by
    intro fiber aborted
    exact sound.admits aborted
  wakeAsserts := by
    intro queue aborted
    have fits := sound.wakers queue
    rw [aborted] at fits
    exact fits
  represents := fun queue made => (sound.lanes.published queue made).represents
  queues := fun _ _ => sound.lanes.disjoint queue_injective
  fibers := by
    intro first second node left right
    have same := (sound.held first node left).symm.trans (sound.held second node right)
    exact Owner.fiber.inj same
  outside := by
    intro fiber node queue holds made member
    exact nomatch (sound.held fiber node holds).symm.trans
      (sound.lanes.queued queue made node member)
  again := by
    intro fiber queue pushed phase woken
    have pushes : (state.fiber fiber).phase.pushes := by rw [phase]; rfl
    obtain ⟨own, owned⟩ := Option.isSome_iff_exists.mp ((sound.woken_iff pushes).mp woken)
    refine ⟨own, ?_, ?_⟩
    · intro same
      rcases sound.admits phase with stood | stood | stood | stood
      · exact nomatch (sound.fits stood).1.symm.trans owned
      · exact nomatch (sound.fits stood).1.symm.trans owned
      · exact (sound.fits stood).2.1 (same ▸ owned)
      · exact (sound.fits stood).2.1 (same ▸ owned)
    · intro node
      rw [FiberRecord.Holds, owned, phase]
      simp [Phase.hand, eq_comm]

end

/-- In a program without a refused yield the nodes circulate. -/
theorem nodes_circulate [DecidableEq Fiber] [DecidableEq Node] {history : History Fiber Queue Node}
    (run : (machine Fiber Queue Node).Run history state)
    (switches : ∀ taken ∈ history, ∀ fiber other, taken.2 ≠ .refuse fiber other) :
    ∃ contents, Circulates state contents := by
  have sound : ∃ contents place standing, Sound state contents place standing := by
    refine run.invariant_of_allowed (fun _ action => ∀ fiber other, action ≠ .refuse fiber other)
      (fun _ state => ∃ contents place standing, Sound state contents place standing) ?_ ?_ switches
    · intro state initial
      obtain ⟨next, data, head, tail, rfl⟩ := initial
      exact ⟨_, _, _, start_sound next data head tail⟩
    · intro history before action after _ kept allowed stepped
      obtain ⟨contents, place, standing, sound⟩ := kept
      exact step_sound sound stepped allowed
  obtain ⟨contents, place, standing, sound⟩ := sound
  exact ⟨contents, sound.circulates⟩

end Nodes

def blank : State Bool Unit Nat := start (fun _ => none) (fun _ => none) (fun _ => 0) fun _ => 0

/-- Two fibers and a queue, each with a node of its own.  One fiber waits, and is woken. -/
def wokenSchedule : List (Action Bool Unit Nat) :=
  [.init () 0, .createFromThread true 1, .create false 2, .wait true ()] ++
    List.replicate 10 (.moveFiber true) ++ [.save true, .wake () 1] ++
    List.replicate 11 (.moveWaker ())

/-- The fiber has the sentinel's node then, and its own node is the sentinel. -/
theorem nodes_circulate_woken :
    ∃ (history : History Bool Unit Nat) (state : State Bool Unit Nat),
      (machine Bool Unit Nat).Run history state ∧
      (∀ taken ∈ history, ∀ fiber other, taken.2 ≠ .refuse fiber other) ∧
      (state.fiber true).phase = .parked () 1 ∧ (state.fiber true).mpscFifoNode = some 0 ∧
      state.head () = 1 ∧ ∃ contents, Circulates state contents := by
  obtain ⟨state, run, checked⟩ := Machine.run_of_check
    (show (machine Bool Unit Nat).initial blank from ⟨_, _, _, _, rfl⟩)
    (show ((machine Bool Unit Nat).exec blank wokenSchedule).any (fun state =>
      decide ((state.fiber true).phase = .parked () 1 ∧ (state.fiber true).mpscFifoNode = some 0 ∧
        state.head () = 1)) by decide +kernel)
  obtain ⟨parked, owned, sentinel⟩ := of_decide_eq_true checked
  have switches : ∀ taken ∈ (machine Bool Unit Nat).trail blank wokenSchedule,
      ∀ fiber other, taken.2 ≠ .refuse fiber other := by decide +kernel
  exact ⟨_, state, run, switches, parked, owned, sentinel, nodes_circulate run switches⟩

/-- The same fiber, whose yield finds the other fiber and is refused. -/
def refusedSchedule : List (Action Bool Unit Nat) :=
  [.init () 0, .createFromThread true 1, .create false 2, .wait true ()] ++
    List.replicate 9 (.moveFiber true) ++ [.refuse true false, .wait true (), .moveFiber true]

/-- It returns from its wait without a node, and cannot wait again. -/
theorem nodes_circulate_refused :
    ∃ (history : History Bool Unit Nat) (state : State Bool Unit Nat),
      (machine Bool Unit Nat).Run history state ∧
      (∃ taken ∈ history, (taken.1.fiber true).phase = .active ∧
        (taken.1.fiber true).mpscFifoNode = none) ∧
      (state.fiber true).phase = .aborted := by
  obtain ⟨state, run, checked⟩ := Machine.run_of_check
    (show (machine Bool Unit Nat).initial blank from ⟨_, _, _, _, rfl⟩)
    (show ((machine Bool Unit Nat).exec blank refusedSchedule).any (fun state =>
      decide ((state.fiber true).phase = .aborted)) by decide +kernel)
  exact ⟨_, state, run, by decide +kernel, of_decide_eq_true checked⟩

end LibFiber.WaitNodes
