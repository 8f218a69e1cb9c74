import LibFiber.Data.Lanes
import LibFiber.Data.Rotation
import LibFiber.MpscRelaxed.Machine

namespace LibFiber.MpscRelaxed

open Data Data.LinkedFifo Semantics Function

/-! The consumer of `mpscr_fifo` pops what each producer pushed, in that producer's order,
and gives up after one visit to each. -/

inductive Owner (Producer : Type) where
  | client
  | fifo (index : Producer)
  /-- In `spsc_fifo_push`, up to its link. -/
  | producer (index : Producer)
  /-- In `spsc_fifo_trypop`, behind the store to `head`. -/
  | consumer

section Invariant

variable {Producer Node Value : Type}

def ProducerPhase.Holds (node : Node) : ProducerPhase Node → Prop
  | .idle => False
  | .terminating newNode | .moving newNode | .linking _ newNode => newNode = node

def ConsumerPhase.Holds (node : Node) : ConsumerPhase Producer Node Value → Prop
  | .copying _ prevHead _ | .storing _ prevHead _ => prevHead = node
  | _ => False

/-- `last` is the last node that is linked; the tail is ahead of it while its producer is
about to link the node there. -/
def ProducerPhase.Fits (next : Node → Option Node) (tail last : Node) : ProducerPhase Node → Prop
  | .idle | .terminating _ => tail = last
  | .moving newNode => tail = last ∧ next newNode = none
  | .linking prevTail newNode => tail = newNode ∧ prevTail = last ∧ next newNode = none

def ConsumerPhase.Fits (head : Producer → Node) (next : Node → Option Node) :
    ConsumerPhase Producer Node Value → Prop
  | .following _ index prevHead => prevHead = head index
  | .advancing index prevHead prevHeadNext =>
    prevHead = head index ∧ next prevHead = some prevHeadNext
  | .copying index _ prevHeadNext => prevHeadNext = head index
  | _ => True

structure Sound (state : State Producer Node Value) (nodes : Producer → List Node)
    (last : Producer → Node) (place : Node → Owner Producer) : Prop where
  represents : ∀ index,
    Represents state.next (state.head index) (last index) (ofNodes (nodes index))
  queued : ∀ index, ∀ node ∈ state.head index :: nodes index, place node = .fifo index
  clients : ∀ node, state.free node → place node = .client
  producers : ∀ index node, (state.producer index).Holds node → place node = .producer index
  consumer : ∀ node, state.consumer.Holds node → place node = .consumer
  trails : ∀ index, (state.producer index).Fits state.next (state.tail index) (last index)
  fits : state.consumer.Fits state.head state.next

variable {state : State Producer Node Value} {nodes : Producer → List Node}
variable {last : Producer → Node} {place : Node → Owner Producer} {index : Producer}
variable {next : Node → Option Node}

theorem initial_sound (initial : Initial state) :
    ∃ last place, Sound state (fun _ => []) last place := by
  obtain ⟨first, distinct, _, heads, tails, ends, taken, idle, resting⟩ := initial
  obtain ⟨place, lanes, outside⟩ := Lanes.start distinct ends Owner.fifo .client
  rw [← heads] at lanes
  refine ⟨state.head, place, ?_⟩
  exact {
    represents := lanes.represents
    queued := lanes.queued
    clients := by
      intro node free
      refine outside node fun index same => ?_
      rw [← same, taken index] at free
      cases free
    producers := by
      intro index node holds
      rw [idle] at holds
      exact holds.elim
    consumer := by
      intro node holds
      rw [resting] at holds
      exact holds.elim
    trails := by
      intro index
      rw [idle, tails, heads]
      rfl
    fits := by
      rw [resting]
      trivial }

theorem Sound.lanes (sound : Sound state nodes last place) :
    Lanes Owner.fifo state.next state.head last nodes place :=
  ⟨sound.represents, sound.queued⟩

theorem fifo_injective : Injective (Owner.fifo : Producer → Owner Producer) :=
  fun _ _ => Owner.fifo.inj

theorem Sound.congr_next (sound : Sound state nodes last place)
    (outside : ∀ index, place node ≠ .fifo index)
    (same : ∀ other, other ≠ node → next other = state.next other) :
    (∀ index, Represents next (state.head index) (last index) (ofNodes (nodes index))) ∧
      (∀ index, place node ≠ .producer index →
        (state.producer index).Fits next (state.tail index) (last index)) ∧
      state.consumer.Fits state.head next := by
  refine ⟨(sound.lanes.write outside same).represents, fun index apart => ?_, ?_⟩
  · have trails := sound.trails index
    have held := sound.producers index
    cases phase : state.producer index with
    | idle | terminating =>
      rw [phase] at trails
      exact trails
    | moving newNode =>
      rw [phase] at trails held
      have other : newNode ≠ node := fun equal => apart (equal ▸ held newNode rfl)
      exact ⟨trails.1, (same newNode other).trans trails.2⟩
    | linking prevTail newNode =>
      rw [phase] at trails held
      have other : newNode ≠ node := fun equal => apart (equal ▸ held newNode rfl)
      exact ⟨trails.1, trails.2.1, (same newNode other).trans trails.2.2⟩
  · have fits := sound.fits
    cases phase : state.consumer with
    | idle | looping | popping | storing | popped => trivial
    | following | copying =>
      rw [phase] at fits
      exact fits
    | advancing index prevHead prevHeadNext =>
      rw [phase] at fits
      obtain ⟨rfl, leads⟩ := fits
      have front : state.head index ≠ node := by
        intro equal
        exact outside index (equal ▸ sound.queued index _ List.mem_cons_self)
      exact ⟨rfl, (same _ front).trans leads⟩

theorem Sound.follow {next : ConsumerPhase Producer Node Value}
    (sound : Sound state nodes last place) (fits : next.Fits state.head state.next)
    (holds : ∀ node, next.Holds node → state.consumer.Holds node) :
    Sound { state with counter, consumer := next } nodes last place :=
  { sound with fits, consumer := fun node held => sound.consumer node (holds node held) }

theorem Reads.fits [NeZero numProducers] {state : State (Fin numProducers) Node Value}
    {before next : ConsumerPhase (Fin numProducers) Node Value}
    (reads : Reads state counter before next) (fits : before.Fits state.head state.next) :
    next.Fits state.head state.next := by
  cases reads with
  | visit | give | pass | copy => trivial
  | head => rfl
  | follow leads => exact ⟨fits, leads⟩

theorem Reads.holds [NeZero numProducers] {state : State (Fin numProducers) Node Value}
    {before next : ConsumerPhase (Fin numProducers) Node Value}
    (reads : Reads state counter before next) (holds : next.Holds node) : before.Holds node := by
  cases reads with
  | copy => exact holds
  | visit | give | head | follow | pass => exact holds.elim

variable [DecidableEq Node]

theorem Sound.fill (sound : Sound state nodes last place) (free : state.free node) :
    Sound { state with
      data := update state.data node value
      next := update state.next node pointer } nodes last place := by
  have client := sound.clients node free
  have outside : ∀ index, place node ≠ .fifo index := by simp [client]
  obtain ⟨represents, trails, fits⟩ := sound.congr_next outside
    (fun other apart => update_of_ne apart pointer state.next)
  exact {
    represents
    queued := sound.queued
    clients := sound.clients
    producers := sound.producers
    consumer := sound.consumer
    trails := fun index => trails index (by simp [client])
    fits }

variable [DecidableEq Producer]

theorem Sound.push (sound : Sound state nodes last place) (idle : state.producer index = .idle)
    (free : state.free node) :
    Sound { state with
      free := update state.free node false
      producer := update state.producer index (.terminating node) } nodes last
      (update place node (.producer index)) := by
  have client := sound.clients node free
  have trails := sound.trails index
  rw [idle] at trails
  exact {
    represents := sound.represents
    queued := (sound.lanes.hand (by simp [client])).queued
    clients := free_taken sound.clients
    producers := held_update sound.producers
      (fun found (holds : node = found) => holds ▸ update_self node _ place)
      fun _ _ _ => place_update client nofun
    consumer := fun found holds => place_update client nofun (sound.consumer found holds)
    trails := (forall_update_iff state.producer
        (fun other phase => phase.Fits state.next (state.tail other) (last other))).mpr
      ⟨trails, fun other _ => sound.trails other⟩
    fits := sound.fits }

theorem Sound.terminate (sound : Sound state nodes last place)
    (phase : state.producer index = .terminating node) :
    Sound { state with
      next := update state.next node none
      producer := update state.producer index (.moving node) } nodes last place := by
  have own : place node = .producer index := sound.producers index node (by rw [phase]; rfl)
  have mine := sound.trails index
  rw [phase] at mine
  have outside : ∀ index, place node ≠ .fifo index := by simp [own]
  obtain ⟨represents, trails, fits⟩ := sound.congr_next outside
    (fun other apart => update_of_ne apart none state.next)
  exact {
    represents
    queued := sound.queued
    clients := sound.clients
    producers := held_update sound.producers (fun found (holds : node = found) => holds ▸ own)
      fun _ _ _ => id
    consumer := sound.consumer
    trails := (forall_update_iff state.producer (fun other phase =>
        phase.Fits (update state.next node none) (state.tail other) (last other))).mpr
      ⟨⟨mine, update_self _ _ _⟩, fun other apart => trails other (by simp [own, apart.symm])⟩
    fits }

omit [DecidableEq Node] in
theorem Sound.move (sound : Sound state nodes last place)
    (phase : state.producer index = .moving node) :
    Sound { state with
      tail := update state.tail index node
      producer := update state.producer index (.linking (state.tail index) node) }
      nodes last place := by
  have own : place node = .producer index := sound.producers index node (by rw [phase]; rfl)
  have mine := sound.trails index
  rw [phase] at mine
  exact {
    represents := sound.represents
    queued := sound.queued
    clients := sound.clients
    producers := held_update sound.producers (fun found (holds : node = found) => holds ▸ own)
      fun _ _ _ => id
    consumer := sound.consumer
    trails := by
      refine (forall_update_iff state.producer (fun other phase =>
        phase.Fits state.next (update state.tail index node other) (last other))).mpr ⟨?_, ?_⟩
      · rw [update_self]
        exact ⟨rfl, mine.1, mine.2⟩
      · intro other apart
        rw [update_of_ne apart]
        exact sound.trails other
    fits := sound.fits }

theorem ProducerPhase.Fits.link {phase : ProducerPhase Node} {tail ahead behind : Node}
    (fits : phase.Fits next tail ahead) (unlinked : ∀ held, phase.Holds held → held ≠ behind) :
    phase.Fits (update next behind (some node)) tail ahead := by
  cases phase with
  | idle | terminating => exact fits
  | moving newNode => exact ⟨fits.1, (update_of_ne (unlinked newNode rfl) _ _).trans fits.2⟩
  | linking prevTail newNode =>
    exact ⟨fits.1, fits.2.1, (update_of_ne (unlinked newNode rfl) _ _).trans fits.2.2⟩

omit [DecidableEq Producer] in
theorem ConsumerPhase.Fits.link {phase : ConsumerPhase Producer Node Value} {head : Producer → Node}
    {behind : Node} (fits : phase.Fits head next) (ends : next behind = none) :
    phase.Fits head (update next behind (some node)) := by
  cases phase with
  | idle | looping | popping | storing | popped => trivial
  | following | copying => exact fits
  | advancing found prevHead prevHeadNext =>
    obtain ⟨front, leads⟩ := fits
    have apart : prevHead ≠ behind := by
      intro equal
      rw [equal, ends] at leads
      cases leads
    exact ⟨front, (update_of_ne apart _ _).trans leads⟩

theorem Sound.link {prevTail : Node} (sound : Sound state nodes last place)
    (phase : state.producer index = .linking prevTail node) :
    Sound { state with
      next := update state.next prevTail (some node)
      producer := update state.producer index .idle }
      (update nodes index (nodes index ++ [node])) (update last index node)
      (update place node (.fifo index)) := by
  have own : place node = .producer index := sound.producers index node (by rw [phase]; rfl)
  have mine := sound.trails index
  rw [phase] at mine
  obtain ⟨moved, rfl, terminated⟩ := mine
  have outside : ∀ index, place node ≠ .fifo index := by simp [own]
  have lanes := sound.lanes.push fifo_injective outside terminated index
  have ends : state.next (last index) = none := (sound.represents index).path.2
  exact {
    represents := lanes.represents
    queued := lanes.queued
    clients := fun found free => place_update own nofun (sound.clients found free)
    producers := held_update sound.producers (fun _ => False.elim)
      fun _ apart _ => place_update own (by simpa using apart)
    consumer := fun found holds => place_update own nofun (sound.consumer found holds)
    trails := by
      refine (forall_update_iff state.producer (fun other phase => phase.Fits
        (update state.next (last index) (some node)) (state.tail other)
        (update last index node other))).mpr ⟨?_, ?_⟩
      · rw [update_self]
        exact moved
      · intro other apart
        rw [update_of_ne apart]
        refine (sound.trails other).link fun held holds equal => ?_
        have theirs := sound.producers other held holds
        rw [equal, sound.lanes.last_queued index] at theirs
        cases theirs
    fits := sound.fits.link ends }

theorem Sound.advance (sound : Sound state nodes last place)
    (phase : state.consumer = .advancing index prevHead prevHeadNext) :
    ∃ rest, nodes index = prevHeadNext :: rest ∧ Sound { state with
      head := update state.head index prevHeadNext
      consumer := .copying index prevHead prevHeadNext }
      (update nodes index rest) last (update place prevHead .consumer) := by
  have fits := sound.fits
  rw [phase] at fits
  obtain ⟨rfl, leads⟩ := fits
  have queued := sound.queued index (state.head index) List.mem_cons_self
  obtain ⟨rest, shape, lanes⟩ := sound.lanes.pop fifo_injective leads
  refine ⟨rest, shape, ?_⟩
  exact {
    represents := lanes.represents
    queued := lanes.queued
    clients := fun found free => place_update queued nofun (sound.clients found free)
    producers := fun other found holds =>
      place_update queued nofun (sound.producers other found holds)
    consumer := by
      intro found holds
      rw [← show state.head index = found from holds, update_self]
    trails := sound.trails
    fits := by
      show prevHeadNext = update state.head index prevHeadNext index
      rw [update_self] }

omit [DecidableEq Producer] in
theorem Sound.store (sound : Sound state nodes last place)
    (phase : state.consumer = .storing index node value) :
    Sound { state with
      data := update state.data node value
      free := update state.free node true
      consumer := .popped (some node) } nodes last (update place node .client) := by
  have own : place node = .consumer := sound.consumer node (by rw [phase]; rfl)
  exact {
    represents := sound.represents
    queued := (sound.lanes.hand (by simp [own])).queued
    clients := free_returned sound.clients
    producers := fun other found holds =>
      place_update own nofun (sound.producers other found holds)
    consumer := fun _ => False.elim
    trails := sound.trails
    fits := trivial }

end Invariant

section Histories

variable {Producer Node Value : Type}

/-- What a push has put in its producer's fifo once it has stored the link. -/
def pushes : State Producer Node Value × Action Producer Node Value → Option (Producer × Value)
  | (state, .moveProducer index) =>
    match state.producer index with
    | .linking _ newNode => some (index, state.data newNode)
    | _ => none
  | _ => none

/-- The producer whose fifo the call is at. -/
def ConsumerPhase.index : ConsumerPhase Producer Node Value → Option Producer
  | .popping _ index | .following _ index _ | .advancing index _ _ | .copying index _ _
  | .storing index _ _ => some index
  | _ => none

def ConsumerPhase.node : ConsumerPhase Producer Node Value → Option Node
  | .popped node => node
  | _ => none

/-- The data in the node that a pop from a producer's fifo returns at the step. -/
def returns {numProducers : Nat} [NeZero numProducers] [DecidableEq Node] :
    State (Fin numProducers) Node Value × Action (Fin numProducers) Node Value →
      Option (Fin numProducers × Value)
  | (state, .moveConsumer) => do
    let after ← moveConsumer state
    let node ← after.consumer.node
    let index ← state.consumer.index
    some (index, after.data node)
  | _ => none

/-- The fifos in which the call has found nothing, from its first visit on. -/
def tour (visited : List Producer)
    (taken : State Producer Node Value × Action Producer Node Value) : List Producer :=
  match taken.2, taken.1.consumer with
  | .trypop, _ => []
  | .moveConsumer, .following _ index prevHead =>
    match taken.1.next prevHead with
    | none => visited ++ [index]
    | some _ => visited
  | _, _ => visited

def visits (history : List (State Producer Node Value × Action Producer Node Value)) :
    List Producer :=
  history.foldl tour []

variable [DecidableEq Producer]

def ofProducer (index : Producer) (event : Producer × Value) : Option Value :=
  if event.1 = index then some event.2 else none

/-- The values that a producer has pushed, oldest first. -/
def pushed (index : Producer)
    (history : List (State Producer Node Value × Action Producer Node Value)) : List Value :=
  history.filterMap fun taken => (pushes taken).bind (ofProducer index)

def ConsumerPhase.inHand (data : Node → Value) (index : Producer) :
    ConsumerPhase Producer Node Value → List Value
  | .copying own _ prevHeadNext => if own = index then [data prevHeadNext] else []
  | .storing own _ value => if own = index then [value] else []
  | _ => []

end Histories

section Runs

theorem inHand_resting {phase : ConsumerPhase (Fin numProducers) Node Value}
    (resting : phase.resting) (data : Node → Value) (index : Fin numProducers) :
    phase.inHand data index = [] := by
  cases phase with
  | idle | popped => rfl
  | looping | popping | following | advancing | copying | storing => cases resting

variable {Node Value : Type} {numProducers : Nat} [NeZero numProducers]
variable {state : State (Fin numProducers) Node Value}
variable {action : Action (Fin numProducers) Node Value} {nodes : Fin numProducers → List Node}
variable {last : Fin numProducers → Node} {node : Node}
variable {history : History numProducers Node Value}
variable {next : ConsumerPhase (Fin numProducers) Node Value}

/-- The values popped from a producer's fifo, oldest first. -/
def popped [DecidableEq Node] (index : Fin numProducers)
    (history : History numProducers Node Value) : List Value :=
  history.filterMap fun taken => (returns taken).bind (ofProducer index)

theorem Reads.inHand (reads : Reads state counter before next) (index : Fin numProducers) :
    next.node = none ∧ next.inHand state.data index = before.inHand state.data index := by
  cases reads <;> exact ⟨rfl, rfl⟩

variable [DecidableEq Node]

omit [NeZero numProducers] in
theorem Sound.map_data (sound : Sound state nodes last place)
    (outside : ∀ index, place node ≠ .fifo index) (index : Fin numProducers) :
    (nodes index).map (update state.data node value) = (nodes index).map state.data := by
  refine List.map_congr_left fun found member => update_of_ne ?_ _ _
  intro same
  exact outside index (same ▸ sound.queued index found (List.mem_cons_of_mem _ member))

omit [NeZero numProducers] in
theorem Sound.inHand_fill (sound : Sound state nodes last place)
    (outside : ∀ index, place node ≠ .fifo index) (index : Fin numProducers) :
    state.consumer.inHand (update state.data node value) index =
      state.consumer.inHand state.data index := by
  have fits := sound.fits
  cases phase : state.consumer with
  | idle | looping | popping | following | advancing | storing | popped => rfl
  | copying own prevHead prevHeadNext =>
    rw [phase] at fits
    obtain rfl : prevHeadNext = state.head own := fits
    have front : state.head own ≠ node := by
      intro same
      exact outside own (same ▸ sound.queued own _ List.mem_cons_self)
    simp only [ConsumerPhase.inHand, update_of_ne front]

/-- A producer's fifo, with what the consumer has taken from it, gains at its end what a
step pushes and loses at its front what a pop returns. -/
theorem Sound.step (sound : Sound state nodes last place)
    (stepped : step state action = some after) :
    ∃ nodes' last' place', Sound after nodes' last' place' ∧ ∀ index,
      state.consumer.inHand state.data index ++ (nodes index).map state.data ++
          ((pushes (state, action)).bind (ofProducer index)).toList =
        ((returns (state, action)).bind (ofProducer index)).toList ++
          after.consumer.inHand after.data index ++ (nodes' index).map after.data := by
  cases step_moves stepped with
  | fill free =>
    have client := sound.clients _ free
    refine ⟨_, _, _, sound.fill free, fun index => ?_⟩
    rw [sound.inHand_fill (by simp [client]), sound.map_data (by simp [client])]
    simp [pushes, returns]
  | push idle free => exact ⟨_, _, _, sound.push idle free, fun index => by simp [pushes, returns]⟩
  | trypop resting =>
    refine ⟨_, _, _, sound.follow trivial fun _ => False.elim, fun index => ?_⟩
    rw [inHand_resting resting]
    simp [pushes, returns, ConsumerPhase.inHand]
  | terminate phase =>
    exact ⟨_, _, _, sound.terminate phase, fun index => by simp [pushes, returns, phase]⟩
  | move phase =>
    exact ⟨_, _, _, sound.move phase, fun index => by simp [pushes, returns, phase]⟩
  | @link own prevTail newNode phase =>
    refine ⟨_, _, _, sound.link phase, fun index => ?_⟩
    by_cases same : own = index
    · subst same
      simp [pushes, returns, ofProducer, phase]
    · simp [pushes, returns, ofProducer, phase, same, update_of_ne (Ne.symm same)]
  | read reads =>
    refine ⟨_, _, _, sound.follow (reads.fits sound.fits) fun _ => reads.holds, fun index => ?_⟩
    have moved : moveConsumer state = some _ := stepped
    simp [pushes, returns, moved, reads.inHand index]
  | @advance own prevHead prevHeadNext phase =>
    obtain ⟨rest, shape, shorter⟩ := sound.advance phase
    refine ⟨_, _, _, shorter, fun index => ?_⟩
    by_cases same : own = index
    · subst same
      simp [pushes, returns, moveConsumer, ConsumerPhase.node, phase, ConsumerPhase.inHand, shape]
    · simp [pushes, returns, moveConsumer, ConsumerPhase.node, phase, ConsumerPhase.inHand, same,
        update_of_ne (Ne.symm same)]
  | @store own prevHead data phase =>
    have mine : place prevHead = .consumer := sound.consumer prevHead (by rw [phase]; rfl)
    refine ⟨_, _, _, sound.store phase, fun index => ?_⟩
    rw [sound.map_data (by simp [mine])]
    have gives : returns (state, .moveConsumer) = some (own, data) := by
      simp [returns, moveConsumer, ConsumerPhase.node, ConsumerPhase.index, phase]
    by_cases same : own = index
    · simp [pushes, gives, ofProducer, phase, ConsumerPhase.inHand, same]
    · simp [pushes, gives, ofProducer, phase, ConsumerPhase.inHand, same]

theorem Sound.returned (sound : Sound state nodes last place)
    (move : Move state .moveConsumer after) (phase : after.consumer = .popped (some node)) :
    state.free node = false ∧ after.free node := by
  cases move with
  | read reads =>
    have unreturned := (reads.inHand (Fin.ofNat numProducers 0)).1
    simp_all [ConsumerPhase.node]
  | advance => cases phase
  | @store own prevHead data was =>
    obtain rfl : prevHead = node := by simpa using phase
    have mine := sound.consumer prevHead (by rw [was]; rfl)
    refine ⟨?_, update_self _ _ _⟩
    by_contra free
    rw [sound.clients prevHead (by simpa using free)] at mine
    cases mine

theorem run_sound (run : (machine numProducers Node Value).Run history state) :
    ∃ nodes last place, Sound state nodes last place ∧ ∀ index,
      pushed index history = popped index history ++ state.consumer.inHand state.data index ++
        (nodes index).map state.data := by
  refine run.invariant (fun history state => ∃ nodes last place, Sound state nodes last place ∧
    ∀ index, pushed index history = popped index history ++
      state.consumer.inHand state.data index ++ (nodes index).map state.data) ?_ ?_
  · intro state initial
    obtain ⟨last, place, sound⟩ := initial_sound initial
    obtain ⟨_, _, _, _, _, _, _, _, resting⟩ := initial
    exact ⟨_, last, place, sound, fun index => by rw [resting]; rfl⟩
  · intro history before action after earlier stepped
    obtain ⟨nodes, last, place, sound, balance⟩ := earlier
    obtain ⟨nodes', last', place', sound', change⟩ := sound.step stepped
    refine ⟨nodes', last', place', sound', fun index => ?_⟩
    have balance := balance index
    have change := change index
    simp only [pushed, popped, filterMap_snoc] at balance ⊢
    rw [balance]
    simp only [List.append_assoc] at change ⊢
    rw [change]

/-- The call has visited the producers whose turn it was, from the count it started at. -/
def Rotates (numProducers : Nat) [NeZero numProducers] (counter : Nat)
    (visited : List (Fin numProducers)) : ConsumerPhase (Fin numProducers) Node Value → Prop
  | .looping i => i ≤ numProducers ∧
      ∃ start, counter = start + i ∧ visited = turns numProducers start i
  | .popping i index | .following i index _ => i < numProducers ∧ ∃ start,
      counter = start + i + 1 ∧ index = Fin.ofNat numProducers (start + i) ∧
        visited = turns numProducers start i
  | .popped none => ∃ start, visited = turns numProducers start numProducers
  | _ => True

omit [DecidableEq Node] in
theorem Reads.rotates (reads : Reads state counter state.consumer next)
    (rotates : Rotates numProducers state.counter visited state.consumer) :
    Rotates numProducers counter (tour visited (state, .moveConsumer)) next := by
  generalize phase : state.consumer = before at reads rotates
  cases reads with
  | @visit i within =>
    obtain ⟨_, start, count, turned⟩ := rotates
    simp only [tour, phase]
    exact ⟨within, start, by rw [count], by rw [count], turned⟩
  | @give i done =>
    obtain ⟨bound, start, _, turned⟩ := rotates
    obtain rfl : i = numProducers := by omega
    simp only [tour, phase]
    exact ⟨start, turned⟩
  | head =>
    simp only [tour, phase]
    exact rotates
  | follow found =>
    trivial
  | @pass prevHead i index found =>
    obtain ⟨within, start, count, turn, turned⟩ := rotates
    simp only [tour, phase, found]
    refine ⟨within, start, count, ?_⟩
    rw [turned, turn, turns_succ]
  | copy => trivial

theorem Move.rotates (move : Move state action after)
    (rotates : Rotates numProducers state.counter visited state.consumer) :
    Rotates numProducers after.counter (tour visited (state, action)) after.consumer := by
  cases move with
  | fill | push | terminate | move | link => exact rotates
  | trypop => exact ⟨Nat.zero_le _, state.counter, rfl, rfl⟩
  | read reads => exact reads.rotates rotates
  | advance | store => trivial

theorem run_rotates (run : (machine numProducers Node Value).Run history state) :
    Rotates numProducers state.counter (visits history) state.consumer := by
  refine run.invariant (fun history state =>
    Rotates numProducers state.counter (visits history) state.consumer) ?_ ?_
  · intro state initial
    obtain ⟨_, _, _, _, _, _, _, _, resting⟩ := initial
    rw [resting]
    trivial
  · intro history before action after rotates stepped
    rw [visits, List.foldl_append]
    exact (step_moves stepped).rotates rotates

/-- The values popped from a producer's fifo are the first of those it has pushed, in its
order, but for one that is about to be returned, and the rest are linked in the fifo.  A
visit that finds nothing comes when all of them are popped; and when a pop returns none it
has visited every fifo once, and found nothing in it.  A node that is returned becomes the
clients'. -/
theorem mpsc_relaxed_order (run : (machine numProducers Node Value).Run history state) :
    (∀ index, ∃ nodes last, Path state.next last (state.head index) nodes ∧
      state.next last = none ∧
      pushed index history = popped index history ++
        state.consumer.inHand state.data index ++ nodes.map state.data) ∧
    (∀ i index prevHead, state.consumer = .following i index prevHead →
      state.next prevHead = none → pushed index history = popped index history) ∧
    (state.consumer = .popped none → ∀ index, (visits history).count index = 1) ∧
    ∀ after node, step state .moveConsumer = some after → after.consumer = .popped (some node) →
      state.free node = false ∧ after.free node := by
  obtain ⟨nodes, last, place, sound, balance⟩ := run_sound run
  refine ⟨fun index => ?_, ?_, ?_, fun after node stepped => sound.returned (step_moves stepped)⟩
  · obtain ⟨path, ends⟩ := (sound.represents index).path
    exact ⟨nodes index, last index, path, ends, balance index⟩
  · intro i index prevHead phase ends
    have fits := sound.fits
    rw [phase] at fits
    obtain rfl : prevHead = state.head index := fits
    have links := (sound.represents index).links
    have nothing : nodes index = [] := by
      cases shape : nodes index with
      | nil => rfl
      | cons first rest =>
        rw [shape] at links
        have leads : state.next (state.head index) = some first := links.1
        rw [ends] at leads
        cases leads
    have balance := balance index
    rw [phase, nothing] at balance
    simpa [ConsumerPhase.inHand] using balance
  · intro phase index
    have rotates := run_rotates run
    rw [phase] at rotates
    obtain ⟨start, visited⟩ := rotates
    rw [visited, count_turns]

end Runs

/-- The second producer's node is at the tail and not linked when the consumer comes, which
finds nothing; then it pops from the second fifo, and the node goes to the first one. -/
def passed (first second : Fin 2) : List (Action (Fin 2) Nat Nat) :=
  List.flatten [[.fill 2 11 none, .push second 2], List.replicate 2 (.moveProducer second),
    .trypop :: List.replicate 7 .moveConsumer, [.moveProducer second],
    .trypop :: List.replicate 9 .moveConsumer,
    .fill 1 22 none :: .push first 1 :: List.replicate 3 (.moveProducer first),
    .trypop :: List.replicate 6 .moveConsumer, .trypop :: List.replicate 7 .moveConsumer]

def blank : State (Fin 2) Nat Nat where
  counter := 0
  head := Fin.val
  tail := Fin.val
  next _ := none
  data _ := 0
  free node := 1 < node
  producer _ := .idle
  consumer := .idle

theorem mpsc_relaxed_order_passed : ∃ history state,
    (machine 2 Nat Nat).Run history state ∧ pushed 1 history = [11] ∧ popped 1 history = [11] ∧
      pushed 0 history = [22] ∧ popped 0 history = [22] ∧ state.consumer = .popped none ∧
      state.counter = 7 ∧ ∀ index, (visits history).count index = 1 := by
  have initial : (machine 2 Nat Nat).initial blank :=
    ⟨Fin.val, Fin.val_injective, rfl, rfl, rfl, fun _ => rfl, by decide +kernel, rfl, rfl⟩
  have run := Machine.run_of_isSome initial
    (show ((machine 2 Nat Nat).exec blank (passed 0 1)).isSome by decide +kernel)
  exact ⟨_, _, run, by decide +kernel, by decide +kernel, by decide +kernel, by decide +kernel,
    by decide +kernel, by decide +kernel,
    (mpsc_relaxed_order run).2.2.1 (by decide +kernel)⟩

end LibFiber.MpscRelaxed
