import LibFiber.Data.Handover
import LibFiber.Data.Lanes
import LibFiber.DistFifo.Machine

namespace LibFiber.DistFifo

open Data Data.LinkedFifo Semantics Function

/-! What is popped from a fifo is what its owner pushed, in the same order, and a
node is in one place at a time. -/

section Invariant

variable {Thread Fifo Node Value : Type}

/-- Where a node is: in a fifo, in the hands of a client, or in those of a thread that
pushes it or has just taken it out. -/
inductive Owner (Thread Fifo : Type) where
  | fifo (fifo : Fifo)
  | client
  | thread (thread : Thread)

/-- The node that a call has to itself. -/
def Phase.Holds (node : Node) : Phase Fifo Node Value → Prop
  | .terminating _ newNode => newNode = node
  | .linking _ _ newNode => newNode = node
  | .storing _ prevHead _ => prevHead = node
  | _ => False

/-- The local variables agree with the fifo, as far as they have to; `last` is its last
node, which `fifo->tail` is not yet while its owner is about to store it. -/
def Phase.Fits (owner : Fifo → Thread) (thread : Thread) (head : Fifo → Versioned Node)
    (next : Node → Option Node) (data : Node → Value) (last : Fifo → Node) :
    Phase Fifo Node Value → Prop
  | .terminating fifo _ => owner fifo = thread
  | .linking fifo tail newNode => owner fifo = thread ∧ last fifo = tail ∧ next newNode = none
  | .moving fifo newNode => owner fifo = thread ∧ last fifo = newNode
  | .popping fifo oldHead => oldHead.Holds (head fifo) next data
  | _ => True

structure Sound (owner : Fifo → Thread) (state : State Thread Fifo Node Value)
    (nodes : Fifo → List Node) (last : Fifo → Node) (place : Node → Owner Thread Fifo) : Prop where
  represents : ∀ fifo,
    Represents state.next (state.head fifo).head (last fifo) (ofNodes (nodes fifo))
  queued : ∀ fifo, ∀ node ∈ (state.head fifo).head :: nodes fifo, place node = .fifo fifo
  clients : ∀ node, state.free node → place node = .client
  held : ∀ thread node, (state.phase thread).Holds node → place node = .thread thread
  tails : ∀ fifo, (∀ node, state.phase (owner fifo) ≠ .moving fifo node) →
    state.tail fifo = last fifo
  fits : ∀ thread, (state.phase thread).Fits owner thread state.head state.next state.data last

variable {owner : Fifo → Thread} {state : State Thread Fifo Node Value}
variable {nodes : Fifo → List Node} {last : Fifo → Node} {place : Node → Owner Thread Fifo}

theorem initial_sound (initial : Initial state) :
    ∃ last place, Sound owner state (fun _ => []) last place := by
  obtain ⟨first, distinct, heads, tails, ends, taken, idle⟩ := initial
  obtain ⟨place, lanes, outside⟩ := Lanes.start distinct ends Owner.fifo .client
  refine ⟨first, place, ?_⟩
  exact {
    represents := by
      intro fifo
      rw [heads]
      exact lanes.represents fifo
    queued := by
      intro fifo
      rw [heads]
      exact lanes.queued fifo
    clients := by
      intro node free
      refine outside node fun fifo same => ?_
      rw [← same, taken fifo] at free
      cases free
    held := by
      intro thread node holds
      rw [idle] at holds
      exact holds.elim
    tails := fun fifo _ => congrFun tails fifo
    fits := by
      intro thread
      rw [idle]
      trivial }

theorem Sound.lanes (sound : Sound owner state nodes last place) :
    Lanes Owner.fifo state.next (fun fifo => (state.head fifo).head) last nodes place :=
  ⟨sound.represents, sound.queued⟩

theorem fifo_injective : Injective (Owner.fifo : Fifo → Owner Thread Fifo) :=
  fun _ _ => Owner.fifo.inj

/-- Stores to a node that is in no fifo: the fifos are the same, and so is what the
threads that do not hold the node rely on. -/
theorem Sound.write
    (sound : Sound owner state nodes last place) (outside : ∀ fifo, place node ≠ .fifo fifo)
    (same : ∀ other, other ≠ node → next other = state.next other ∧ data other = state.data other) :
    (∀ fifo, Represents next (state.head fifo).head (last fifo) (ofNodes (nodes fifo))) ∧
      ∀ thread, place node ≠ .thread thread →
        (state.phase thread).Fits owner thread state.head next data last := by
  constructor
  · exact (sound.lanes.write outside fun other apart => (same other apart).1).represents
  · intro thread apart
    have fits := sound.fits thread
    have held := sound.held thread
    cases phase : state.phase thread with
    | idle | counting | storing | popped => trivial
    | terminating fifo newNode | moving fifo newNode =>
      rw [phase] at fits
      exact fits
    | linking fifo tail newNode =>
      rw [phase] at fits held
      have other : newNode ≠ node := fun equal => apart (equal ▸ held newNode rfl)
      exact ⟨fits.1, fits.2.1, (same newNode other).1.trans fits.2.2⟩
    | popping fifo oldHead =>
      rw [phase] at fits
      refine Snapshot.Holds.congr fits fun found leads => ?_
      have front : (state.head fifo).head ≠ node := fun equal =>
        outside fifo (equal ▸ sound.queued fifo _ List.mem_cons_self)
      have behind : found ≠ node := fun equal =>
        outside fifo (equal ▸ sound.lanes.next_queued leads)
      exact ⟨(same _ front).1.trans leads, (same _ behind).2⟩

theorem resting_ne_moving (resting : (state.phase thread).resting) (fifo : Fifo)
    (node : Node) : state.phase thread ≠ .moving fifo node := by
  intro moving
  rw [moving] at resting
  cases resting

variable [DecidableEq Thread]

theorem Sound.tails_update (sound : Sound owner state nodes last place)
    (before : ∀ fifo node, state.phase thread ≠ .moving fifo node) (fifo : Fifo)
    (moved : ∀ node, update state.phase thread next (owner fifo) ≠ .moving fifo node) :
    state.tail fifo = last fifo := by
  refine sound.tails fifo fun node => ?_
  by_cases mine : owner fifo = thread
  · rw [mine]
    exact before fifo node
  · simpa only [update_of_ne mine] using moved node

theorem fits_update {next : Phase Fifo Node Value}
    (own : next.Fits owner thread head pointers data ends)
    (others : ∀ other, other ≠ thread →
      (state.phase other).Fits owner other head pointers data ends) (other : Thread) :
    (update state.phase thread next other).Fits owner other head pointers data ends :=
  (forall_update_iff state.phase fun other phase =>
    phase.Fits owner other head pointers data ends).mpr ⟨own, others⟩ other

theorem Sound.goto (sound : Sound owner state nodes last place)
    (before : ∀ fifo node, state.phase thread ≠ .moving fifo node)
    (empty : ∀ node, ¬ next.Holds node)
    (fits : next.Fits owner thread state.head state.next state.data last) :
    Sound owner (state.goto thread next) nodes last place where
  represents := sound.represents
  queued := sound.queued
  clients := sound.clients
  held := held_update sound.held (fun node holds => (empty node holds).elim) fun _ _ _ => id
  tails := sound.tails_update before
  fits := fits_update fits fun other _ => sound.fits other

omit [DecidableEq Thread] in
theorem Reads.fits [DecidableEq Node] {before : Phase Fifo Node Value}
    (reads : Reads state before next)
    (fits : before.Fits owner thread state.head state.next state.data last) :
    next.Fits owner thread state.head state.next state.data last := by
  cases reads with
  | @count fifo => exact Snapshot.Holds.count (state.head fifo) state.next state.data
  | @head fifo counter =>
    have seen : Snapshot.Holds (state.head fifo) state.next state.data (.counted counter) := fits
    exact seen.head
  | @follow prevHead prevHeadNext fifo counter leads =>
    have seen : Snapshot.Holds (state.head fifo) state.next state.data
      (.headed counter prevHead) := fits
    exact seen.follow leads
  | load => exact Snapshot.Holds.load fits
  | empty | retry => trivial

theorem Sound.read [DecidableEq Node]
    (sound : Sound owner state nodes last place) (reads : Reads state (state.phase thread) next) :
    Sound owner (state.goto thread next) nodes last place := by
  refine sound.goto ?_ ?_ (reads.fits (sound.fits thread))
  · intro fifo node moving
    rw [moving] at reads
    cases reads
  · intro node holds
    generalize state.phase thread = before at reads
    cases reads <;> exact holds

variable [DecidableEq Node]

omit [DecidableEq Thread] in
theorem Phase.Fits.link [DecidableEq Fifo] {phase : Phase Fifo Node Value}
    {head : Fifo → Versioned Node} {next : Node → Option Node} {data : Node → Value}
    (fits : phase.Fits owner thread head next data last) (others : owner fifo ≠ thread)
    (ends : next (last fifo) = none) (unlinked : ∀ held, phase.Holds held → held ≠ last fifo) :
    phase.Fits owner thread head (update next (last fifo) (some node)) data
      (update last fifo node) := by
  have elsewhere : ∀ found, owner found = thread → found ≠ fifo := by
    intro found own same
    exact others (same ▸ own)
  cases phase with
  | idle | counting | storing | popped => trivial
  | terminating => exact fits
  | linking found tail newNode =>
    obtain ⟨own, ahead, terminated⟩ := fits
    refine ⟨own, ?_, (update_of_ne (unlinked newNode rfl) _ _).trans terminated⟩
    rw [update_of_ne (elsewhere found own), ahead]
  | moving found newNode =>
    refine ⟨fits.1, ?_⟩
    rw [update_of_ne (elsewhere found fits.1), fits.2]
  | popping found oldHead =>
    -- The head has a successor already if the thread has seen one.
    refine Snapshot.Holds.congr fits fun successor leads => ⟨?_, rfl⟩
    have front : (head found).head ≠ last fifo := by
      intro same
      rw [same, ends] at leads
      cases leads
    exact (update_of_ne front _ _).trans leads

section

variable (sound : Sound owner state nodes last place)
include sound

omit [DecidableEq Thread] in
theorem Sound.fill (free : state.free node) :
    Sound owner { state with
      data := update state.data node value
      next := update state.next node pointer } nodes last place := by
  have client := sound.clients node free
  have outside : ∀ fifo, place node ≠ .fifo fifo := by simp [client]
  obtain ⟨represents, fits⟩ := sound.write outside
    (fun other apart =>
      ⟨update_of_ne apart pointer state.next, update_of_ne apart value state.data⟩)
  exact {
    represents
    queued := sound.queued
    clients := sound.clients
    held := sound.held
    tails := sound.tails
    fits := fun thread => fits thread (by simp [client]) }

theorem Sound.push (resting : (state.phase thread).resting) (owns : owner fifo = thread)
    (free : state.free node) :
    Sound owner { state with
      free := update state.free node false
      phase := update state.phase thread (.terminating fifo node) } nodes last
      (update place node (.thread thread)) := by
  have client := sound.clients node free
  exact {
    represents := sound.represents
    queued := (sound.lanes.hand (by simp [client])).queued
    clients := free_taken sound.clients
    held := held_update sound.held
      (fun found (holds : node = found) => holds ▸ update_self node _ place)
      fun _ _ _ => place_update client nofun
    tails := sound.tails_update (resting_ne_moving resting)
    fits := fits_update owns fun other _ => sound.fits other }

theorem Sound.terminate (phase : state.phase thread = .terminating fifo node) :
    Sound owner { state with
      next := update state.next node none
      phase := update state.phase thread (.linking fifo (state.tail fifo) node) }
      nodes last place := by
  have own : place node = .thread thread := sound.held thread node (by rw [phase]; rfl)
  have owns := sound.fits thread
  rw [phase] at owns
  have before : ∀ fifo found, state.phase thread ≠ .moving fifo found := by simp [phase]
  have outside : ∀ fifo, place node ≠ .fifo fifo := by simp [own]
  obtain ⟨represents, fits⟩ := sound.write outside
    (fun other apart => ⟨update_of_ne apart none state.next, rfl⟩)
  exact {
    represents
    queued := sound.queued
    clients := sound.clients
    held := held_update sound.held (fun found (holds : node = found) => holds ▸ own)
      fun _ _ _ => id
    tails := sound.tails_update before
    fits := by
      refine fits_update ⟨owns, ?_, update_self _ _ _⟩ ?_
      · refine (sound.tails fifo fun found => ?_).symm
        rw [show owner fifo = thread from owns]
        exact before fifo found
      · intro other apart
        exact fits other (by simp [own, apart.symm]) }

variable [DecidableEq Fifo]

theorem Sound.link {tail : Node} (phase : state.phase thread = .linking fifo tail node) :
    Sound owner { state with
      next := update state.next tail (some node)
      phase := update state.phase thread (.moving fifo node) }
      (update nodes fifo (nodes fifo ++ [node])) (update last fifo node)
      (update place node (.fifo fifo)) := by
  have own : place node = .thread thread := sound.held thread node (by rw [phase]; rfl)
  have fits := sound.fits thread
  rw [phase] at fits
  obtain ⟨owns, rfl, terminated⟩ := fits
  have outside : ∀ fifo, place node ≠ .fifo fifo := by simp [own]
  have lanes := sound.lanes.push fifo_injective outside terminated fifo
  have ends : state.next (last fifo) = none := (sound.represents fifo).path.2
  exact {
    represents := lanes.represents
    queued := lanes.queued
    clients := fun found free => place_update own nofun (sound.clients found free)
    held := held_update sound.held (fun _ => False.elim)
      fun _ apart _ => place_update own (by simpa using apart)
    tails := by
      intro other moved
      have apart : other ≠ fifo := by
        intro same
        subst other
        refine moved node ?_
        show update state.phase thread _ (owner fifo) = _
        rw [owns, update_self]
      rw [update_of_ne apart]
      exact sound.tails_update (by simp [phase]) other moved
    fits := by
      refine fits_update ⟨owns, update_self _ _ _⟩ fun other apart => ?_
      refine (sound.fits other).link (fun same => apart (same.symm.trans owns)) ends ?_
      intro held holds equal
      have theirs := sound.held other held holds
      rw [equal, sound.lanes.last_queued fifo] at theirs
      cases theirs }

omit [DecidableEq Node] in
theorem Sound.move (phase : state.phase thread = .moving fifo node) :
    Sound owner { state with
      tail := update state.tail fifo node
      phase := update state.phase thread .idle } nodes last place := by
  have fits := sound.fits thread
  rw [phase] at fits
  obtain ⟨owns, moved⟩ := fits
  exact {
    represents := sound.represents
    queued := sound.queued
    clients := sound.clients
    held := held_update sound.held (fun _ => False.elim) fun _ _ _ => id
    tails := by
      intro other stored
      show update state.tail fifo node other = last other
      by_cases same : other = fifo
      · rw [same, update_self, moved]
      · rw [update_of_ne same]
        refine sound.tails other fun found => ?_
        by_cases mine : owner other = thread
        · rw [mine, phase]
          intro equal
          cases equal
          exact same rfl
        · simpa only [update_of_ne mine] using stored found
    fits := fits_update trivial fun other _ => sound.fits other }

/-- A successful `compare_and_swap2` takes out the node at the head, whose successor and
its data are what the thread has seen. -/
theorem Sound.swap
    (phase : state.phase thread = .popping fifo (.loaded counter prevHead prevHeadNext value))
    (swapped : (state.head fifo).swap counter prevHead prevHeadNext = some newHead) :
    ∃ rest, nodes fifo = prevHeadNext :: rest ∧ state.data prevHeadNext = value ∧
      Sound owner { state with
        head := update state.head fifo newHead
        phase := update state.phase thread (.storing fifo prevHead value) }
        (update nodes fifo rest) last (update place prevHead (.thread thread)) := by
  obtain ⟨current, rfl, rfl⟩ := Versioned.swap_eq_some swapped
  have fits := sound.fits thread
  rw [phase] at fits
  obtain ⟨_, leads, loaded⟩ := fits.2 current
  have queued := sound.queued fifo (state.head fifo).head List.mem_cons_self
  obtain ⟨rest, shape, lanes⟩ := sound.lanes.pop fifo_injective leads
  have heads : (fun other => (update state.head fifo
      ⟨(state.head fifo).counter + 1, prevHeadNext⟩ other).head) =
      update (fun other => (state.head other).head) fifo prevHeadNext :=
    comp_update Versioned.head state.head fifo _
  rw [← heads] at lanes
  refine ⟨rest, shape, loaded, ?_⟩
  exact {
    represents := lanes.represents
    queued := lanes.queued
    clients := fun found free => place_update queued nofun (sound.clients found free)
    held := held_update sound.held
      (fun found (holds : (state.head fifo).head = found) => holds ▸ update_self _ _ place)
      fun _ _ _ => place_update queued nofun
    tails := sound.tails_update (by simp [phase])
    fits := by
      refine fits_update trivial fun other _ => ?_
      have theirs := sound.fits other
      cases rival : state.phase other with
      | idle | counting | storing | popped => trivial
      | terminating | linking | moving =>
        rw [rival] at theirs
        exact theirs
      | popping found oldHead =>
        rw [rival] at theirs
        by_cases same : found = fifo
        · subst found
          simp only [Phase.Fits, update_self]
          exact Snapshot.Holds.stale theirs (Nat.lt_succ_self _)
        · simp only [Phase.Fits, update_of_ne same]
          exact theirs }

omit [DecidableEq Fifo] in
theorem Sound.store (phase : state.phase thread = .storing fifo node value) :
    Sound owner { state with
      data := update state.data node value
      free := update state.free node true
      phase := update state.phase thread (.popped (.node node)) }
      nodes last (update place node .client) := by
  have own : place node = .thread thread := sound.held thread node (by rw [phase]; rfl)
  have outside : ∀ fifo, place node ≠ .fifo fifo := by simp [own]
  obtain ⟨represents, fits⟩ := sound.write outside
    (fun other apart => ⟨rfl, update_of_ne apart value state.data⟩)
  exact {
    represents
    queued := (sound.lanes.hand outside).queued
    clients := free_returned sound.clients
    held := held_update sound.held (fun _ => False.elim)
      fun _ apart _ => place_update own (by simpa using apart)
    tails := sound.tails_update (by simp [phase])
    fits := fits_update trivial fun other apart => fits other (by simp [own, apart.symm]) }

end

end Invariant

section Histories

variable {Thread Fifo Node Value : Type}

/-- What a step links to a fifo. -/
def pushes : State Thread Fifo Node Value × Action Thread Fifo Node Value → Option (Fifo × Value)
  | (state, .move thread) =>
    match state.phase thread with
    | .linking fifo _ newNode => some (fifo, state.data newNode)
    | _ => none
  | _ => none

/-- What a successful `compare_and_swap2` takes from a fifo, and who takes it. -/
def takes [DecidableEq Node] :
    State Thread Fifo Node Value × Action Thread Fifo Node Value → Option (Thread × Fifo × Value)
  | (state, .move thread) =>
    match state.phase thread with
    | .popping fifo (.loaded counter prevHead prevHeadNext data) =>
      ((state.head fifo).swap counter prevHead prevHeadNext).map fun _ => (thread, fifo, data)
    | _ => none
  | _ => none

def Phase.fifo : Phase Fifo Node Value → Option Fifo
  | .counting fifo | .popping fifo _ | .storing fifo _ _ => some fifo
  | _ => none

def Phase.node : Phase Fifo Node Value → Option Node
  | .popped (.node node) => some node
  | _ => none

/-- The data in the node that a call for a fifo returns at the step. -/
def returns [DecidableEq Thread] [DecidableEq Fifo] [DecidableEq Node] :
    State Thread Fifo Node Value × Action Thread Fifo Node Value → Option (Thread × Fifo × Value)
  | (state, .move thread) => do
    let after ← move state thread
    let node ← (after.phase thread).node
    let fifo ← (state.phase thread).fifo
    some (thread, fifo, after.data node)
  | _ => none

/-- The value that a call has taken out and not returned yet. -/
def Phase.inHand : Phase Fifo Node Value → List (Fifo × Value)
  | .storing fifo _ data => [(fifo, data)]
  | _ => []

def ofFifo [DecidableEq Fifo] (fifo : Fifo) (event : Fifo × Value) : Option Value :=
  if event.1 = fifo then some event.2 else none

/-- The values pushed to a fifo, oldest first. -/
def pushed [DecidableEq Fifo] (fifo : Fifo) (history : History Thread Fifo Node Value) :
    List Value :=
  history.filterMap fun step => (pushes step).bind (ofFifo fifo)

/-- The values popped from a fifo, in the order of the swaps. -/
def popped [DecidableEq Fifo] [DecidableEq Node] (fifo : Fifo)
    (history : History Thread Fifo Node Value) : List Value :=
  history.filterMap fun step => (takes step).bind fun event => ofFifo fifo event.2

theorem inHand_resting {phase : Phase Fifo Node Value} (resting : phase.resting) :
    phase.inHand = [] := by
  cases phase with
  | idle | popped => rfl
  | terminating | linking | moving | counting | popping | storing => cases resting

variable [DecidableEq Thread] [DecidableEq Fifo] [DecidableEq Node]
variable {place : Node → Owner Thread Fifo}
variable {history : History Thread Fifo Node Value}

omit [DecidableEq Thread] [DecidableEq Fifo] in
theorem Sound.map_data (sound : Sound owner state nodes last place)
    (outside : ∀ fifo, place node ≠ .fifo fifo) (fifo : Fifo) :
    (nodes fifo).map (update state.data node value) = (nodes fifo).map state.data := by
  refine List.map_congr_left fun found member => update_of_ne ?_ _ _
  rintro rfl
  exact outside fifo (sound.queued fifo found (List.mem_cons_of_mem _ member))

theorem Sound.step (sound : Sound owner state nodes last place)
    (move : Move owner state action after) :
    ∃ nodes' last' place', Sound owner after nodes' last' place' ∧ ∀ fifo,
      (nodes fifo).map state.data ++ ((pushes (state, action)).bind (ofFifo fifo)).toList =
        ((takes (state, action)).bind fun event => ofFifo fifo event.2).toList ++
          (nodes' fifo).map after.data := by
  cases move with
  | fill free =>
    have client := sound.clients _ free
    refine ⟨_, _, _, sound.fill free, fun fifo => ?_⟩
    rw [sound.map_data (by simp [client])]
    simp [pushes, takes]
  | push resting owns free =>
    exact ⟨_, _, _, sound.push resting owns free, fun fifo => by simp [pushes, takes]⟩
  | @trypop thread fifo resting =>
    refine ⟨_, _, _, sound.goto (resting_ne_moving resting) (fun _ => id) trivial, fun fifo => ?_⟩
    simp [pushes, takes, State.goto]
  | terminate phase =>
    exact ⟨_, _, _, sound.terminate phase, fun fifo => by simp [pushes, takes, phase]⟩
  | @link thread own tail newNode phase =>
    refine ⟨_, _, _, sound.link phase, fun fifo => ?_⟩
    by_cases same : own = fifo
    · subst same
      simp [pushes, takes, ofFifo, phase]
    · simp [pushes, takes, ofFifo, phase, same, update_of_ne (Ne.symm same)]
  | move phase => exact ⟨_, _, _, sound.move phase, fun fifo => by simp [pushes, takes, phase]⟩
  | @read thread next reads =>
    refine ⟨_, _, _, sound.read reads, fun fifo => ?_⟩
    generalize phase : state.phase thread = before at reads
    cases reads with
    | count | head | follow | load | empty => simp [pushes, takes, phase, State.goto]
    | retry failed => simp [pushes, takes, phase, failed, State.goto]
  | @swap thread own counter prevHead prevHeadNext data newHead phase swapped =>
    obtain ⟨rest, shape, loaded, sound⟩ := sound.swap phase swapped
    refine ⟨_, _, _, sound, fun fifo => ?_⟩
    by_cases same : own = fifo
    · subst same
      simp [pushes, takes, ofFifo, phase, swapped, shape, loaded]
    · simp [pushes, takes, ofFifo, phase, swapped, same, update_of_ne (Ne.symm same)]
  | @store thread fifo prevHead data phase =>
    have own : place prevHead = .thread thread := sound.held thread prevHead (by rw [phase]; rfl)
    refine ⟨_, _, _, sound.store phase, fun fifo => ?_⟩
    rw [sound.map_data (by simp [own])]
    simp [pushes, takes, phase]

theorem returns_eq_none {after : State Thread Fifo Node Value}
    (stepped : step owner state (.move thread) = some after)
    (phase : after.phase thread = next) (pending : next.node = none) :
    returns (state, .move thread) = none := by
  have moved : move state thread = some after := stepped
  simp [returns, moved, phase, pending]

theorem step_handed (stepped : step owner state action = some after)
    (handed : Handed (history.filterMap takes) (history.filterMap returns)
      (Phase.inHand ∘ state.phase)) :
    Handed ((history ++ [(state, action)]).filterMap takes)
      ((history ++ [(state, action)]).filterMap returns) (Phase.inHand ∘ after.phase) := by
  cases step_moves stepped with
  | fill => exact handed.carry rfl rfl rfl
  | push resting | trypop resting =>
    exact handed.carry rfl rfl (comp_update_of_eq (inHand_resting resting).symm)
  | terminate phase | link phase | move phase =>
    exact handed.carry (by simp [takes, phase]) (returns_eq_none stepped (update_self _ _ _) rfl)
      (comp_update_of_eq (by rw [phase]; rfl))
  | @read thread next reads =>
    have mute : next.node = none → returns (state, .move thread) = none :=
      returns_eq_none stepped (update_self _ _ _)
    generalize phase : state.phase thread = before at reads
    cases reads with
    | count | head | follow | load | empty =>
      exact handed.carry (by simp [takes, phase]) (mute rfl)
        (comp_update_of_eq (by rw [phase]; rfl))
    | retry failed =>
      exact handed.carry (by simp [takes, phase, failed]) (mute rfl)
        (comp_update_of_eq (by rw [phase]; rfl))
  | @swap thread fifo counter prevHead prevHeadNext data newHead phase swapped =>
    have took : takes (state, .move thread) = some (thread, fifo, data) := by
      simp [takes, phase, swapped]
    exact handed.taken took (returns_eq_none stepped (update_self _ _ _) rfl)
      (by simp [phase, Phase.inHand]) (comp_update _ _ _ _)
  | @store thread fifo prevHead data phase =>
    have gave : returns (state, .move thread) = some (thread, fifo, data) := by
      simp [returns, move, phase, Phase.node, Phase.fifo]
    exact handed.given (by simp [takes, phase]) gave (by simp [phase, Phase.inHand])
      (comp_update _ _ _ _)

theorem Sound.returned (sound : Sound owner state nodes last place)
    (move : Move owner state (.move thread) after)
    (phase : after.phase thread = .popped (.node node)) :
    state.free node = false ∧ after.free node := by
  cases move with
  | terminate | link | move | swap => simp at phase
  | @read _ next reads =>
    obtain rfl : next = .popped (.node node) := by simpa [State.goto] using phase
    generalize state.phase thread = before at reads
    cases reads
  | @store _ fifo prevHead data was =>
    obtain rfl : prevHead = node := by simpa using phase
    have own := sound.held thread prevHead (by rw [was]; rfl)
    refine ⟨?_, update_self _ _ _⟩
    by_contra free
    rw [sound.clients prevHead (by simpa using free)] at own
    cases own

theorem Sound.untouched (sound : Sound owner state nodes last place)
    (free : state.free node) (move : Move owner state (.move thread) after) :
    after.next node = state.next node ∧ after.data node = state.data node := by
  have client := sound.clients node free
  cases move with
  | move | read | swap => exact ⟨rfl, rfl⟩
  | @terminate _ fifo newNode phase =>
    have own := sound.held thread newNode (by rw [phase]; rfl)
    refine ⟨update_of_ne ?_ _ _, rfl⟩
    rintro rfl
    rw [client] at own
    cases own
  | @link _ fifo tail newNode phase =>
    have fits := sound.fits thread
    rw [phase] at fits
    have queued := sound.lanes.last_queued fifo
    refine ⟨update_of_ne ?_ _ _, rfl⟩
    rintro rfl
    rw [fits.2.1, client] at queued
    cases queued
  | @store _ fifo prevHead data phase =>
    have own := sound.held thread prevHead (by rw [phase]; rfl)
    refine ⟨rfl, update_of_ne ?_ _ _⟩
    rintro rfl
    rw [client] at own
    cases own

theorem run_sound (run : (machine Node Value owner).Run history state) :
    ∃ nodes last place, Sound owner state nodes last place ∧ ∀ fifo,
      pushed fifo history = popped fifo history ++ (nodes fifo).map state.data := by
  refine Machine.Run.invariant (fun history state => ∃ nodes last place,
    Sound owner state nodes last place ∧ ∀ fifo,
      pushed fifo history = popped fifo history ++ (nodes fifo).map state.data) ?_ ?_ run
  · intro state initial
    obtain ⟨last, place, sound⟩ := initial_sound initial
    exact ⟨_, last, place, sound, fun fifo => rfl⟩
  · rintro history before action after ⟨nodes, last, place, sound, balance⟩ stepped
    obtain ⟨nodes', last', place', sound', change⟩ := sound.step (step_moves stepped)
    refine ⟨nodes', last', place', sound', fun fifo => ?_⟩
    have balance := balance fifo
    simp only [pushed, popped, filterMap_snoc] at balance ⊢
    rw [balance, List.append_assoc, change fifo, List.append_assoc]

theorem run_handed (run : (machine Node Value owner).Run history state) :
    Handed (history.filterMap takes) (history.filterMap returns) (Phase.inHand ∘ state.phase) := by
  refine run.invariant (fun history state => Handed (history.filterMap takes)
    (history.filterMap returns) (Phase.inHand ∘ state.phase)) ?_ ?_
  · rintro state ⟨_, _, _, _, _, _, idle⟩
    rw [idle]
    exact .start
  · intro history before action after handed stepped
    exact step_handed stepped handed

/-- The values popped from a fifo are the first of those pushed to it, in their order,
and the rest are in it; what a thread has popped it returns, in that order; and a node
that is returned becomes the clients', is in no fifo and no call stores to it, until a
client pushes it again. -/
theorem dist_fifo_order (owner : Fifo → Thread) {history : History Thread Fifo Node Value}
    {state : State Thread Fifo Node Value} (run : (machine Node Value owner).Run history state) :
    ∃ nodes : Fifo → List Node,
      (∀ fifo, (∃ last, Path state.next last (state.head fifo).head (nodes fifo) ∧
          state.next last = none) ∧
        pushed fifo history = popped fifo history ++ (nodes fifo).map state.data) ∧
      (∀ thread, own thread (history.filterMap takes) =
        own thread (history.filterMap returns) ++ (state.phase thread).inHand) ∧
      (∀ thread after node, step owner state (.move thread) = some after →
        after.phase thread = .popped (.node node) → state.free node = false ∧ after.free node) ∧
      ∀ node, state.free node → (∀ fifo, node ∉ (state.head fifo).head :: nodes fifo) ∧
        ∀ thread after, step owner state (.move thread) = some after →
          after.next node = state.next node ∧ after.data node = state.data node := by
  obtain ⟨nodes, last, place, sound, balance⟩ := run_sound run
  refine ⟨nodes, fun fifo => ⟨⟨last fifo, (sound.represents fifo).path⟩, balance fifo⟩,
    run_handed run, fun thread after node stepped => sound.returned (step_moves stepped),
    fun node free => ⟨fun fifo member => ?_, fun thread after stepped => ?_⟩⟩
  · have queued := sound.queued fifo node member
    rw [sound.clients node free] at queued
    cases queued
  · exact sound.untouched free (step_moves stepped)

end Histories

/-- Each thread has a fifo, with the nodes `0` and `1` at first; the other nodes are its
clients'. -/
def blank : State Bool Bool Nat Nat where
  head fifo := ⟨0, fifo.toNat⟩
  tail := Bool.toNat
  next _ := none
  data _ := 0
  free node := 1 < node
  phase _ := .idle

theorem blank_initial : (machine Nat Nat (id : Bool → Bool)).initial blank :=
  ⟨Bool.toNat, fun left right => by cases left <;> cases right <;> simp, fun _ => rfl, rfl,
    fun _ => rfl, by rintro (_ | _) <;> rfl, rfl⟩

/-- The owner is about to pop its own value when a thief takes it and pushes the node
to another fifo; the owner's swap fails, and it finds its fifo empty when it tries again. -/
def stolen : List (Action Bool Bool Nat Nat) :=
  List.flatten [[.fill 2 11 none, .push false false 2], List.replicate 3 (.move false),
    .trypop false false :: List.replicate 4 (.move false),
    .trypop true false :: List.replicate 6 (.move true),
    [.fill 0 22 none, .push true true 0], List.replicate 3 (.move true), [.move false],
    .trypop false false :: List.replicate 3 (.move false)]

theorem dist_fifo_order_stolen : ∃ history state,
    (machine Nat Nat (id : Bool → Bool)).Run history state ∧
      pushed false history = [11] ∧ popped false history = [11] ∧
      own true (history.filterMap returns) = [(false, 11)] ∧
      pushed true history = [22] ∧ popped true history = [] ∧
      ∃ nodes : Bool → List Nat, ∀ fifo, (∃ last,
        Path state.next last (state.head fifo).head (nodes fifo) ∧ state.next last = none) ∧
        pushed fifo history = popped fifo history ++ (nodes fifo).map state.data := by
  have run := Machine.run_of_isSome blank_initial
    (show ((machine Nat Nat id).exec blank stolen).isSome by decide +kernel)
  obtain ⟨nodes, contents, _⟩ := dist_fifo_order id run
  exact ⟨_, _, run, by decide +kernel, by decide +kernel, by decide +kernel, by decide +kernel,
    by decide +kernel, nodes, contents⟩

end LibFiber.DistFifo
