import LibFiber.Data.LinkedLanes
import LibFiber.WaitNodes.Machine

namespace LibFiber.WaitNodes

open Data Semantics Function

/-! Every node is a fiber's, a queue's or a waker's, and a fiber has one whenever it does
not wait. -/

inductive Owner (Fiber Queue : Type) where
  | heap
  | fiber (fiber : Fiber)
  | queue (queue : Queue)
  /-- The queue's waker took it out. -/
  | waker (queue : Queue)

/-- Where a fiber stands with its wait.  From the exchange on the node is the one that it
pushed. -/
inductive Standing (Queue Node : Type) where
  | absent
  | suspended
  | active
  | pushing
  | queued (queue : Queue) (node : Node)
  /-- Found by the queue's waker, and without a node still. -/
  | taken (queue : Queue) (node : Node)
  | woken (queue : Queue) (node : Node)
  | scheduled (node : Node)

section Invariant

variable {Fiber Queue Node : Type}
variable {record : FiberRecord Queue Node}

def Phase.Admits (standing : Standing Queue Node) : Phase Queue Node → Prop
  | .absent => standing = .absent
  | .suspended => standing = .suspended
  | .terminating _ _ | .exchanging _ _ => standing = .pushing
  | .linking queue _ node => standing = .queued queue node
  | .yielding queue node | .parked queue node =>
    standing = .queued queue node ∨ standing = .taken queue node ∨
      standing = .woken queue node ∨ standing = .scheduled node
  | .aborted => False
  | _ => standing = .active

/-- The node and the entries in the run queues that a fiber has. -/
def Standing.Fits (node : Option Node) (scheduled : Nat) : Standing Queue Node → Prop
  | .absent | .pushing | .queued _ _ | .taken _ _ => node = none ∧ scheduled = 0
  | .active => node.isSome ∧ scheduled = 0
  | .suspended => node.isSome ∧ scheduled = 1
  | .woken _ pushed => node.isSome ∧ node ≠ some pushed ∧ scheduled = 0
  | .scheduled pushed => node.isSome ∧ node ≠ some pushed ∧ scheduled = 1

def FiberRecord.Stands (standing : Standing Queue Node) (record : FiberRecord Queue Node) : Prop :=
  record.phase.Admits standing ∧ standing.Fits record.mpscFifoNode record.scheduled

/-- The node that a push has not put into the queue yet. -/
def Phase.hand : Phase Queue Node → Option Node
  | .terminating _ node | .exchanging _ node => some node
  | _ => none

def FiberRecord.Holds (node : Node) (record : FiberRecord Queue Node) : Prop :=
  record.mpscFifoNode = some node ∨ record.phase.hand = some node

def Phase.pending [DecidableEq Queue] (queue : Queue) : Phase Queue Node → Option (Node × Node)
  | .linking into prevTail node => if into = queue then some (prevTail, node) else none
  | _ => none

def FiberRecord.pending [DecidableEq Queue] (queue : Queue) (record : FiberRecord Queue Node) :
    Option (Node × Node) :=
  record.phase.pending queue

def State.pending [DecidableEq Queue] (state : State Fiber Queue Node) (queue : Queue) :
    Fiber → Option (Node × Node) :=
  FiberRecord.pending queue ∘ state.fiber

/-- What a fiber relies on. -/
def FiberRecord.Knows (made : Queue → Bool) (next : Node → Option Node)
    (data : Node → Option Fiber) (fiber : Fiber) (record : FiberRecord Queue Node) : Prop :=
  match record.phase with
  | .active => record.state = .running
  | .assertingState queue => made queue ∧ record.state = .running
  | .assertingNode queue | .saving queue | .taking queue | .linking queue _ _ =>
    made queue
  | .filling queue node => made queue ∧ record.mpscFifoNode = some node
  | .clearing queue node =>
    made queue ∧ record.mpscFifoNode = some node ∧ data node = some fiber
  | .terminating queue node => made queue ∧ data node = some fiber
  | .exchanging queue node => made queue ∧ data node = some fiber ∧ next node = none
  | _ => True

/-- A waker has taken a fiber and another node than the one that the fiber pushed. -/
def Claims (queue : Queue) (place : Node → Owner Fiber Queue)
    (standing : Fiber → Standing Queue Node) (out : Node) (fiber : Fiber) : Prop :=
  place out = .waker queue ∧ ∃ pushed, standing fiber = .taken queue pushed ∧ pushed ≠ out

/-- What a queue's waker relies on. -/
def WakerPhase.Fits (queue : Queue) (head : Node) (next : Node → Option Node)
    (data : Node → Option Fiber) (place : Node → Owner Fiber Queue)
    (standing : Fiber → Standing Queue Node) : WakerPhase Fiber Node → Prop
  | .idle | .popping | .looping => True
  | .poppingNext prevHead => prevHead = head
  | .advancing prevHead prevHeadNext => prevHead = head ∧ next head = some prevHeadNext
  | .copying prevHead prevHeadNext =>
    prevHeadNext = head ∧ ∃ fiber, data head = some fiber ∧
      Claims queue place standing prevHead fiber
  | .storing prevHead value =>
    ∃ fiber, value = some fiber ∧ Claims queue place standing prevHead fiber
  | .popped out => ∃ fiber, data out = some fiber ∧ Claims queue place standing out fiber
  | .asserting out fiber | .assigning out fiber => Claims queue place standing out fiber
  | .testing fiber | .readying fiber | .scheduling fiber =>
    ∃ pushed, standing fiber = .woken queue pushed
  | .aborted => False

/-- The fiber that has its node back and is about to be scheduled. -/
def WakerPhase.wakes : WakerPhase Fiber Node → Option Fiber
  | .testing fiber | .readying fiber | .scheduling fiber => some fiber
  | _ => none

structure Sound [DecidableEq Queue] (state : State Fiber Queue Node)
    (contents : Queue → LinkedFifo Node) (place : Node → Owner Fiber Queue)
    (standing : Fiber → Standing Queue Node) : Prop where
  lanes : LinkedLanes .queue state.made state.next state.head state.tail state.pending contents
    place
  unused : ∀ node, state.free node → place node = .heap
  held : ∀ fiber node, (state.fiber fiber).Holds node → place node = .fiber fiber
  stands : ∀ fiber, (state.fiber fiber).Stands (standing fiber)
  knows : ∀ fiber, (state.fiber fiber).Knows state.made state.next state.data fiber
  carries : ∀ queue, state.made queue → ∀ node ∈ (contents queue).members,
    ∃ fiber, state.data node = some fiber ∧ standing fiber = .queued queue node
  wakers : ∀ queue, (state.waker queue).Fits queue (state.head queue) state.next state.data
    place standing
  making : ∀ queue, state.waker queue ≠ .idle → state.made queue
  waking : ∀ fiber queue node, standing fiber = .woken queue node →
    (state.waker queue).wakes = some fiber

/-! ## What the steps of others leave as it is -/

theorem FiberRecord.Knows.frame (knows : record.Knows made next data fiber)
    (grows : ∀ queue, made queue → later queue)
    (same : ∀ node, record.Holds node → other node = next node ∧ value node = data node) :
    record.Knows later other value fiber := by
  obtain ⟨own, state, scheduled, phase⟩ := record
  cases phase with
  | absent | suspended | yielding | parked | finished | aborted => trivial
  | active => exact knows
  | assertingState queue | filling queue node => exact ⟨grows queue knows.1, knows.2⟩
  | assertingNode queue | saving queue | taking queue | linking queue => exact grows queue knows
  | clearing queue node =>
    obtain ⟨made, owned, filled⟩ := knows
    exact ⟨grows queue made, owned, (same node (.inl owned)).2.trans filled⟩
  | terminating queue node =>
    obtain ⟨made, filled⟩ := knows
    exact ⟨grows queue made, (same node (.inr rfl)).2.trans filled⟩
  | exchanging queue node =>
    obtain ⟨made, filled, ends⟩ := knows
    obtain ⟨link, content⟩ := same node (.inr rfl)
    exact ⟨grows queue made, content.trans filled, link.trans ends⟩

section Frames

variable {now : Fiber → Standing Queue Node}

/-- A queue's waker finds the fiber that it takes and the one that it wakes where they were. -/
def Attends (queue : Queue) (standing now : Fiber → Standing Queue Node) : Prop :=
  ∀ fiber node, (standing fiber = .taken queue node → now fiber = .taken queue node) ∧
    (standing fiber = .woken queue node → now fiber = .woken queue node)

theorem Attends.refl : Attends queue standing standing := fun _ _ => ⟨id, id⟩

theorem Claims.frame (claims : Claims queue place standing out fiber)
    (kept : place out = .waker queue → later out = .waker queue)
    (attends : Attends queue standing now) : Claims queue later now out fiber := by
  obtain ⟨mine, pushed, taken, apart⟩ := claims
  exact ⟨kept mine, pushed, (attends fiber pushed).1 taken, apart⟩

theorem WakerPhase.Fits.frame {phase : WakerPhase Fiber Node}
    (fits : phase.Fits queue head next data place standing)
    (link : ∀ node, next head = some node → other head = some node)
    (content : value head = data head)
    (kept : ∀ node, place node = .waker queue → later node = .waker queue ∧ value node = data node)
    (attends : Attends queue standing now) : phase.Fits queue head other value later now := by
  cases phase with
  | idle | popping | looping => trivial
  | poppingNext prevHead | aborted => exact fits
  | advancing prevHead prevHeadNext => exact ⟨fits.1, link _ fits.2⟩
  | copying prevHead prevHeadNext =>
    obtain ⟨same, fiber, found, claims⟩ := fits
    exact ⟨same, fiber, content.trans found, claims.frame (fun mine => (kept _ mine).1) attends⟩
  | storing prevHead value =>
    obtain ⟨fiber, found, claims⟩ := fits
    exact ⟨fiber, found, claims.frame (fun mine => (kept _ mine).1) attends⟩
  | popped out =>
    obtain ⟨fiber, found, claims⟩ := fits
    exact ⟨fiber, (kept out claims.1).2.trans found,
      claims.frame (fun mine => (kept _ mine).1) attends⟩
  | asserting out fiber | assigning out fiber =>
    exact Claims.frame fits (fun mine => (kept _ mine).1) attends
  | testing fiber | readying fiber | scheduling fiber =>
    obtain ⟨pushed, woken⟩ := fits
    exact ⟨pushed, (attends fiber pushed).2 woken⟩

end Frames

variable {state : State Fiber Queue Node} {contents : Queue → LinkedFifo Node}
variable {place : Node → Owner Fiber Queue} {standing : Fiber → Standing Queue Node}

theorem queue_injective : Injective (Owner.queue : Queue → Owner Fiber Queue) :=
  fun _ _ same => Owner.queue.inj same

variable [DecidableEq Queue]

theorem Sound.write {owner : Owner Fiber Queue} (sound : Sound state contents place standing)
    (owned : place node = owner) (outside : ∀ queue, owner ≠ .queue queue)
    (same : ∀ other, other ≠ node → next other = state.next other ∧ data other = state.data other)
    (holder : ∀ fiber, owner = .fiber fiber → (state.fiber fiber).Knows state.made next data fiber)
    (taker : ∀ queue, owner = .waker queue →
      (state.waker queue).Fits queue (state.head queue) next data place standing) :
    Sound { state with next, data } contents place standing := by
  subst owned
  have queued : ∀ queue, state.made queue → ∀ other ∈ state.head queue ::
      (contents queue).members, other ≠ node := by
    intro queue made other member equal
    exact outside queue (equal ▸ sound.lanes.queued queue made other member)
  refine { sound with lanes := ?_, knows := ?_, carries := ?_, wakers := ?_ }
  · exact sound.lanes.write outside fun other apart => (same other apart).1
  · intro fiber
    by_cases mine : place node = .fiber fiber
    · exact holder fiber mine
    · refine (sound.knows fiber).frame (fun _ made => made) fun other holds => same other ?_
      intro equal
      exact mine (equal ▸ sound.held fiber other holds)
  · intro queue made other member
    obtain ⟨fiber, found, stands⟩ := sound.carries queue made other member
    have apart := queued queue made other (List.mem_cons_of_mem _ member)
    exact ⟨fiber, (same other apart).2.trans found, stands⟩
  · intro queue
    by_cases mine : place node = .waker queue
    · exact taker queue mine
    · by_cases idle : state.waker queue = .idle
      · show (state.waker queue).Fits queue (state.head queue) next data place standing
        rw [idle]
        trivial
      · have apart := queued queue (sound.making queue idle) _ List.mem_cons_self
        refine (sound.wakers queue).frame (fun _ leads => (same _ apart).1.trans leads)
          (same _ apart).2 (fun other out => ⟨out, (same other ?_).2⟩) .refl
        intro equal
        exact mine (equal ▸ out)

variable [DecidableEq Fiber] [DecidableEq Node]
variable {phase : Phase Queue Node}

omit [DecidableEq Fiber] in
theorem Sound.hand (sound : Sound state contents place standing) (free : state.free node)
    (fiber : Fiber) :
    Sound { state with free := update state.free node false } contents
      (update place node (.fiber fiber)) standing := by
  have unused := sound.unused node free
  refine { sound with lanes := ?_, unused := free_taken sound.unused, held := ?_, wakers := ?_ }
  · exact sound.lanes.hand (by simp [unused])
  · exact fun other element holds => place_update unused nofun (sound.held other element holds)
  · intro queue
    exact (sound.wakers queue).frame (fun _ leads => leads) rfl
      (fun _ out => ⟨place_update unused nofun out, rfl⟩) .refl

/-- The standings in which a waker or a queue has the fiber. -/
def Standing.claimed : Standing Queue Node → Bool
  | .queued _ _ | .taken _ _ | .woken _ _ => true
  | _ => false

/-- A fiber moves, and no queue and no waker has it before or after that. -/
def Quiet (before now : Standing Queue Node) : Prop :=
  now = before ∨ before.claimed = false ∧ now.claimed = false

omit [DecidableEq Queue] [DecidableEq Node] in
theorem Quiet.iff (quiet : Quiet (standing fiber) now) (claimed : spot.claimed) (other : Fiber) :
    update standing fiber now other = spot ↔ standing other = spot := by
  by_cases same : other = fiber
  · subst other
    rw [update_self]
    rcases quiet with rfl | ⟨before, after⟩
    · exact Iff.rfl
    · constructor
      · intro equal
        rw [equal, claimed] at after
        cases after
      · intro equal
        rw [equal, claimed] at before
        cases before
  · rw [update_of_ne same]

omit [DecidableEq Queue] [DecidableEq Node] in
theorem Quiet.attends (quiet : Quiet (standing fiber) now)
    (queue : Queue) : Attends queue standing (update standing fiber now) :=
  fun other _ => ⟨(quiet.iff rfl other).mpr, (quiet.iff rfl other).mpr⟩

omit [DecidableEq Queue] [DecidableEq Node] in
theorem stands_update {records : Fiber → FiberRecord Queue Node}
    (stands : ∀ fiber, (records fiber).Stands (standing fiber)) (stand : record.Stands now)
    (other : Fiber) :
    (update records fiber record other).Stands (update standing fiber now other) := by
  by_cases same : other = fiber
  · subst other
    rwa [update_self, update_self]
  · rw [update_of_ne same, update_of_ne same]
    exact stands other

omit [DecidableEq Queue] [DecidableEq Node] in
theorem knows_update {records : Fiber → FiberRecord Queue Node}
    (knows : record.Knows made next data fiber)
    (others : ∀ other, (records other).Knows made next data other) (other : Fiber) :
    (update records fiber record other).Knows made next data other :=
  (forall_update_iff records fun fiber record => record.Knows made next data fiber).mpr
    ⟨knows, fun other _ => others other⟩ other

section

variable (sound : Sound state contents place standing)
include sound

omit [DecidableEq Node] in
theorem Sound.become (here : (state.fiber fiber).phase = phase) (now : Standing Queue Node)
    (pending : ∀ queue, record.phase.pending queue = phase.pending queue)
    (holds : ∀ node, record.Holds node → place node = .fiber fiber) (stands : record.Stands now)
    (knows : record.Knows state.made state.next state.data fiber)
    (quiet : Quiet (standing fiber) now) :
    Sound (state.become fiber record) contents place (update standing fiber now) where
  lanes := by
    have same : (state.become fiber record).pending = state.pending := by
      funext queue
      have step : record.pending queue = (state.fiber fiber).pending queue := by
        rw [FiberRecord.pending, pending queue, ← here]
        rfl
      exact comp_update_of_eq step
    rw [same]
    exact sound.lanes
  unused := sound.unused
  held := held_update sound.held holds fun _ _ _ => id
  stands := stands_update sound.stands stands
  knows := knows_update knows sound.knows
  carries := by
    intro queue made node member
    obtain ⟨other, found, queued⟩ := sound.carries queue made node member
    exact ⟨other, found, (quiet.iff rfl other).mpr queued⟩
  wakers := fun queue => (sound.wakers queue).frame (fun _ leads => leads) rfl
    (fun _ out => ⟨out, rfl⟩) (quiet.attends queue)
  making := sound.making
  waking := fun other queue node woken =>
    sound.waking other queue node ((quiet.iff rfl other).mp woken)

omit [DecidableEq Fiber] [DecidableEq Node] in
theorem Sound.made_follow (made : state.made queue) (phase : WakerPhase Fiber Node) (other : Queue)
    (busy : update state.waker queue phase other ≠ .idle) : state.made other := by
  by_cases same : other = queue
  · rw [same, made]
  · rw [update_of_ne same] at busy
    exact sound.making other busy

omit [DecidableEq Fiber] [DecidableEq Node] in
theorem Sound.wakes_follow
    (phase : WakerPhase Fiber Node) {other : Queue} (woken : standing fiber = .woken other node)
    (apart : other ≠ queue) : (update state.waker queue phase other).wakes = some fiber := by
  rw [update_of_ne apart]
  exact sound.waking fiber other node woken

omit [DecidableEq Fiber] [DecidableEq Node] in
theorem Sound.follow {phase : WakerPhase Fiber Node} (made : state.made queue)
    (fits : phase.Fits queue (state.head queue) state.next state.data place standing)
    (wakes : phase.wakes = (state.waker queue).wakes) :
    Sound (state.follow queue phase) contents place standing := by
  refine { sound with wakers := ?_, making := sound.made_follow made phase, waking := ?_ }
  · exact (forall_update_iff state.waker (fun queue (phase : WakerPhase Fiber Node) =>
      phase.Fits queue (state.head queue) state.next state.data place standing)).mpr
        ⟨fits, fun other _ => sound.wakers other⟩
  · intro fiber other node woken
    by_cases same : other = queue
    · subst other
      simpa only [State.follow, update_self, wakes] using sound.waking fiber queue node woken
    · exact sound.wakes_follow phase woken same

end

/-! ## What a fiber's standing says -/

omit [DecidableEq Queue] [DecidableEq Node] in
theorem Phase.Admits.pushed (admits : phase.Admits stood)
    (waits : stood = .queued queue node ∧ (∀ prevTail, phase ≠ .linking queue prevTail node) ∨
      stood = .taken queue node ∨ stood = .woken queue node) :
    phase = .yielding queue node ∨ phase = .parked queue node := by
  cases phase with
  | yielding | parked =>
    rcases admits with rfl | rfl | rfl | rfl <;> rcases waits with ⟨same, _⟩ | same | same <;>
      cases same <;> simp
  | linking into prevTail own =>
    obtain rfl : stood = .queued into own := admits
    rcases waits with ⟨same, linked⟩ | same | same
    · cases same
      exact (linked prevTail rfl).elim
    · cases same
    · cases same
  | aborted => exact admits.elim
  | _ =>
    rw [show stood = _ from admits] at waits
    rcases waits with ⟨same, _⟩ | same | same <;> cases same

omit [DecidableEq Queue] [DecidableEq Node] in
theorem Phase.admits_of_pushed (behind : phase = .yielding queue node ∨ phase = .parked queue node)
    (waits : now = .taken queue node ∨ now = .woken queue node ∨ now = .scheduled node) :
    phase.Admits now := by
  rcases behind with rfl | rfl
  · exact .inr waits
  · exact .inr waits

omit [DecidableEq Queue] [DecidableEq Node] in
theorem FiberRecord.knows_of_pushed
    (behind : record.phase = .yielding queue node ∨ record.phase = .parked queue node) :
    record.Knows made next data fiber := by
  rw [FiberRecord.Knows]
  rcases behind with phase | phase
  · rw [phase]
    trivial
  · rw [phase]
    trivial

omit [DecidableEq Fiber] [DecidableEq Node] in
theorem Sound.admits (sound : Sound state contents place standing)
    (here : (state.fiber fiber).phase = phase) : phase.Admits (standing fiber) :=
  here ▸ (sound.stands fiber).1

omit [DecidableEq Fiber] [DecidableEq Node] in
theorem Sound.fits (sound : Sound state contents place standing) {stood : Standing Queue Node}
    (here : standing fiber = stood) :
    stood.Fits (state.fiber fiber).mpscFifoNode (state.fiber fiber).scheduled :=
  here ▸ (sound.stands fiber).2

omit [DecidableEq Fiber] [DecidableEq Node] in
theorem Sound.none_woken (sound : Sound state contents place standing)
    (wakes : (state.waker queue).wakes = none) (other : Fiber) (element : Node) :
    standing other ≠ .woken queue element := by
  intro woken
  have waking := sound.waking other queue element woken
  rw [wakes] at waking
  cases waking

omit [DecidableEq Queue] [DecidableEq Node] in
theorem woken_of_update (woken : update standing fiber now other = .woken into element)
    (apart : ∀ queue node, now ≠ .woken queue node) :
    standing other = .woken into element := by
  by_cases same : other = fiber
  · subst other
    rw [update_self] at woken
    exact (apart into element woken).elim
  · rwa [update_of_ne same] at woken

omit [DecidableEq Queue] [DecidableEq Node] in
theorem attends_update (stood : standing fiber = was)
    (apart : ∀ node, .taken queue node ≠ was ∧ .woken queue node ≠ was) :
    Attends queue standing (update standing fiber now) :=
  fun _ node => ⟨place_update stood (apart node).1, place_update stood (apart node).2⟩

end Invariant

end LibFiber.WaitNodes
