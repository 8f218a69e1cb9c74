import LibFiber.Data.Handover
import LibFiber.Data.LinkedNodes
import LibFiber.Data.Placement
import LibFiber.LockfreeFifo.Machine

namespace LibFiber.LockfreeFifo

open Data Data.LinkedFifo Semantics Function

/-! What the consumers of `lockfree::fifo` pop is what the producers pushed, in the order
of their exchanges. -/

inductive Owner (Thread : Type) where
  | heap
  | queue
  /-- A thread constructs it, or is about to free it. -/
  | thread (thread : Thread)

section Invariant

variable {Thread Node Value : Type}

def Phase.Holds (node : Node) : Phase Node Value → Prop
  | .clearing newNode _ | .filling newNode _ | .exchanging newNode _ => newNode = node
  | .freeing oldHead _ => oldHead = node
  | _ => False

def Phase.pending : Phase Node Value → Option (Node × Node)
  | .linking oldTail newNode => some (oldTail, newNode)
  | _ => none

/-- A node is what it was constructed as until its exchange; a consumer is right about
the head while the tag stays. -/
def Phase.Fits (head : Versioned Node) (next : Node → Option Node) (data : Node → Value) :
    Phase Node Value → Prop
  | .filling newNode _ => next newNode = none
  | .exchanging newNode value => next newNode = none ∧ data newNode = value
  | .popping snapshot => snapshot.Holds head next data
  | _ => True

def State.pending (state : State Thread Node Value) : Thread → Option (Node × Node) :=
  Phase.pending ∘ state.phase

structure Sound (state : State Thread Node Value) (queue : LinkedFifo Node)
    (place : Node → Owner Thread) : Prop where
  published : Published state.next state.head.head state.tail state.pending queue
  queued : ∀ node ∈ state.head.head :: queue.members, place node = .queue
  unused : ∀ node, state.free node → place node = .heap
  held : ∀ thread node, (state.phase thread).Holds node → place node = .thread thread
  fits : ∀ thread, (state.phase thread).Fits state.head state.next state.data

variable {state : State Thread Node Value} {queue : LinkedFifo Node}
variable {place : Node → Owner Thread} {thread : Thread} {node : Node}

theorem initial_sound [DecidableEq Node] (initial : Initial state) :
    ∃ place, Sound state LinkedFifo.empty place := by
  obtain ⟨first, heads, tail, ends, taken, idle⟩ := initial
  refine ⟨update (fun _ => .heap) first .queue, ?_⟩
  exact {
    published := by
      rw [heads, tail]
      exact .empty ends fun thread => by simp [State.pending, idle, Phase.pending]
    queued := by
      intro node member
      obtain rfl : node = first := by
        simpa [heads, LinkedFifo.empty, LinkedFifo.members] using member
      exact update_self _ _ _
    unused := by
      intro node free
      have apart : node ≠ first := by
        intro same
        rw [same, taken] at free
        cases free
      exact update_of_ne apart _ _
    held := by
      intro thread node holds
      rw [idle] at holds
      exact holds.elim
    fits := by
      intro thread
      rw [idle]
      trivial }

theorem Sound.next_queued (sound : Sound state queue place)
    (leads : state.next state.head.head = some node) : place node = .queue := by
  have member := sound.published.represents.links.next_mem List.mem_cons_self leads
  exact sound.queued node (List.mem_cons_of_mem _ member)

/-- Stores to a node that is not in the queue: the queue is the same, and so is what the
threads that do not hold the node rely on. -/
theorem Sound.write (sound : Sound state queue place) (outside : place node ≠ .queue)
    (same : ∀ other, other ≠ node → next other = state.next other ∧ data other = state.data other) :
    Published next state.head.head state.tail state.pending queue ∧
      ∀ thread, place node ≠ .thread thread → (state.phase thread).Fits state.head next data := by
  have inside : ∀ other, place other = .queue → other ≠ node := by
    intro other queued equal
    exact outside (equal ▸ queued)
  constructor
  · exact sound.published.congr fun other member =>
      (same other (inside other (sound.queued other member))).1
  · intro thread apart
    have fits := sound.fits thread
    have held := sound.held thread
    cases phase : state.phase thread with
    | idle | clearing | linking | snapping | freeing | popped => trivial
    | filling newNode value =>
      rw [phase] at fits held
      have other : newNode ≠ node := fun equal => apart (equal ▸ held newNode rfl)
      exact (same newNode other).1.trans fits
    | exchanging newNode value =>
      rw [phase] at fits held
      have other : newNode ≠ node := fun equal => apart (equal ▸ held newNode rfl)
      exact ⟨(same newNode other).1.trans fits.1, (same newNode other).2.trans fits.2⟩
    | popping snapshot =>
      rw [phase] at fits
      refine Snapshot.Holds.congr fits fun found leads => ?_
      have front := inside _ (sound.queued _ List.mem_cons_self)
      have behind := inside found (sound.next_queued leads)
      exact ⟨(same _ front).1.trans leads, (same _ behind).2⟩

variable [DecidableEq Thread]
variable {next : Phase Node Value}

theorem fits_update (own : next.Fits head pointers data)
    (others : ∀ other, other ≠ thread → (state.phase other).Fits head pointers data)
    (other : Thread) : (update state.phase thread next other).Fits head pointers data :=
  (forall_update_iff state.phase fun _ phase => phase.Fits head pointers data).mpr
    ⟨own, others⟩ other

theorem Sound.goto (sound : Sound state queue place)
    (pending : next.pending = (state.phase thread).pending) (empty : ∀ node, ¬ next.Holds node)
    (fits : next.Fits state.head state.next state.data) :
    Sound (state.goto thread next) queue place where
  published := by
    have same : (state.goto thread next).pending = state.pending := comp_update_of_eq pending
    rw [same]
    exact sound.published
  queued := sound.queued
  unused := sound.unused
  held := held_update sound.held (fun node holds => (empty node holds).elim) fun _ _ _ => id
  fits := fits_update fits fun other _ => sound.fits other

theorem pending_resting {phase : Phase Node Value} (resting : phase.resting) :
    phase.pending = none := by
  cases phase with
  | idle | popped => rfl
  | clearing | filling | exchanging | linking | snapping | popping | freeing => cases resting

variable [DecidableEq Node]

omit [DecidableEq Thread] in
theorem Reads.fits (reads : Reads state before next)
    (fits : before.Fits state.head state.next state.data) :
    next.Fits state.head state.next state.data := by
  cases reads with
  | tag => exact Snapshot.Holds.count state.head state.next state.data
  | @head tag =>
    have seen : Snapshot.Holds state.head state.next state.data (.counted tag) := fits
    exact seen.head
  | @follow oldHead oldHeadNext tag leads =>
    have seen : Snapshot.Holds state.head state.next state.data (.headed tag oldHead) := fits
    exact seen.follow leads
  | load => exact Snapshot.Holds.load fits
  | empty | failure => trivial

omit [DecidableEq Thread] in
theorem Reads.pending (reads : Reads state before next) :
    next.pending = before.pending := by
  cases reads <;> rfl

section

variable (sound : Sound state queue place)
include sound

theorem Sound.read (reads : Reads state (state.phase thread) next) :
    Sound (state.goto thread next) queue place := by
  have empty : ∀ node, ¬ next.Holds node := by
    intro node holds
    generalize state.phase thread = before at reads
    cases reads <;> exact holds
  exact sound.goto reads.pending empty (reads.fits (sound.fits thread))

omit [DecidableEq Thread] in
theorem Sound.scribble (free : state.free node) :
    Sound { state with
      data := update state.data node value
      next := update state.next node pointer } queue place := by
  have heap := sound.unused node free
  have outside : place node ≠ .queue := by simp [heap]
  obtain ⟨published, fits⟩ := sound.write outside
    (fun other apart =>
      ⟨update_of_ne apart pointer state.next, update_of_ne apart value state.data⟩)
  exact {
    published
    queued := sound.queued
    unused := sound.unused
    held := sound.held
    fits := fun thread => fits thread (by simp [heap]) }

theorem Sound.push (resting : (state.phase thread).resting) (free : state.free node) :
    Sound { state with
      free := update state.free node false
      phase := update state.phase thread (.clearing node value) } queue
      (update place node (.thread thread)) := by
  have heap := sound.unused node free
  have pending := pending_resting resting
  exact {
    published := by
      have same : Phase.pending ∘ update state.phase thread (.clearing node value) =
          state.pending := comp_update_of_eq pending.symm
      simpa only [State.pending, same] using sound.published
    queued := fun other member => place_update heap nofun (sound.queued other member)
    unused := free_taken sound.unused
    held := held_update sound.held
      (fun found (holds : node = found) => holds ▸ update_self node _ place)
      fun _ _ _ => place_update heap nofun
    fits := fits_update trivial fun other _ => sound.fits other }

omit [DecidableEq Node] in
theorem Sound.construct {next : Node → Option Node} {data : Node → Value} {phase : Phase Node Value}
    (own : (state.phase thread).Holds node) (idle : (state.phase thread).pending = none)
    (same : ∀ other, other ≠ node → next other = state.next other ∧ data other = state.data other)
    (holds : ∀ found, phase.Holds found → found = node) (quiet : phase.pending = none)
    (fits : phase.Fits state.head next data) :
    Sound { state with next, data, phase := update state.phase thread phase } queue place := by
  have mine := sound.held thread node own
  have outside : place node ≠ .queue := by simp [mine]
  obtain ⟨published, others⟩ := sound.write outside same
  have still : Phase.pending ∘ update state.phase thread phase = state.pending :=
    comp_update_of_eq (quiet.trans idle.symm)
  exact {
    published := by simpa only [State.pending, still] using published
    queued := sound.queued
    unused := sound.unused
    held := held_update sound.held (fun found holding => holds found holding ▸ mine)
      fun _ _ _ => id
    fits := fits_update fits fun other apart => others other (by simp [mine, apart.symm]) }

theorem Sound.exchange (phase : state.phase thread = .exchanging node value) :
    Sound { state with
      tail := node
      phase := update state.phase thread (.linking state.tail node) }
      (queue.exchange node) (update place node .queue) := by
  have mine : place node = .thread thread := sound.held thread node (by rw [phase]; rfl)
  have fits := sound.fits thread
  rw [phase] at fits
  have idle : state.pending thread = none := by simp [State.pending, phase, Phase.pending]
  have outside : node ∉ state.head.head :: queue.members := by
    intro member
    have queued := sound.queued node member
    rw [mine] at queued
    cases queued
  exact {
    published := by
      have moved : Phase.pending ∘ update state.phase thread (.linking state.tail node) =
          update state.pending thread (some (state.tail, node)) := comp_update _ _ _ _
      rw [State.pending, moved]
      exact sound.published.exchange idle outside fits.1
    queued := by
      intro other member
      rw [members_exchange, ← List.cons_append, List.mem_append, List.mem_singleton] at member
      rcases member with earlier | rfl
      · exact place_update mine nofun (sound.queued other earlier)
      · exact update_self _ _ _
    unused := fun other free => place_update mine nofun (sound.unused other free)
    held := held_update sound.held (fun _ => False.elim)
      fun _ apart _ => place_update mine (by simpa using apart)
    fits := fits_update trivial fun other _ => sound.fits other }

theorem Sound.link (phase : state.phase thread = .linking oldTail node) :
    Sound { state with
      next := update state.next oldTail (some node)
      phase := update state.phase thread .idle } (queue.link node) place := by
  have pends : state.pending thread = some (oldTail, node) := by
    simp [State.pending, phase, Phase.pending]
  have awaits := sound.published.waits pends
  have ends : state.next oldTail = none := sound.published.represents.links.next_awaits awaits
  have tailQueued : place oldTail = .queue := sound.queued oldTail awaits.mem.1
  exact {
    published := by
      have moved : Phase.pending ∘ update state.phase thread .idle =
          update state.pending thread none := comp_update _ _ _ _
      rw [State.pending, moved]
      exact sound.published.link pends
    queued := by
      rw [members_link]
      exact sound.queued
    unused := sound.unused
    held := held_update sound.held (fun _ => False.elim) fun _ _ _ => id
    fits := by
      refine fits_update trivial fun other _ => ?_
      have theirs := sound.fits other
      have apart : ∀ found, (state.phase other).Holds found → found ≠ oldTail := by
        intro found holds equal
        have own := sound.held other found holds
        rw [equal, tailQueued] at own
        cases own
      cases rival : state.phase other with
      | idle | clearing | linking | snapping | freeing | popped => trivial
      | filling newNode value =>
        rw [rival] at theirs apart
        exact (update_of_ne (apart newNode rfl) _ _).trans theirs
      | exchanging newNode value =>
        rw [rival] at theirs apart
        exact ⟨(update_of_ne (apart newNode rfl) _ _).trans theirs.1, theirs.2⟩
      | popping snapshot =>
        rw [rival] at theirs
        -- The head has a successor already if the consumer has seen one.
        refine Snapshot.Holds.congr theirs fun successor leads => ⟨?_, rfl⟩
        have front : state.head.head ≠ oldTail := by
          intro same
          rw [same, ends] at leads
          cases leads
        exact (update_of_ne front _ _).trans leads }

theorem Sound.swap (phase : state.phase thread = .popping (.loaded tag oldHead oldHeadNext value))
    (swapped : state.head.swap tag oldHead oldHeadNext = some head) :
    ∃ rest, queue.trypop = some (oldHeadNext, rest) ∧ state.data oldHeadNext = value ∧
      Sound { state with head, phase := update state.phase thread (.freeing oldHead value) }
        rest (update place oldHead (.thread thread)) := by
  obtain ⟨current, rfl, rfl⟩ := Versioned.swap_eq_some swapped
  have fits := sound.fits thread
  rw [phase] at fits
  obtain ⟨_, leads, loaded⟩ := fits.2 current
  obtain ⟨rest, front⟩ := sound.published.trypop_of_next leads
  have queued := sound.queued state.head.head List.mem_cons_self
  obtain ⟨absent, _⟩ := List.nodup_cons.mp sound.published.represents.distinct
  have shape : queue.members = oldHeadNext :: rest.members := members_trypop front
  refine ⟨rest, front, loaded, ?_⟩
  exact {
    published := by
      have same : Phase.pending ∘ update state.phase thread (.freeing state.head.head value) =
          state.pending := comp_update_of_eq (by rw [phase]; rfl)
      rw [State.pending, same]
      exact sound.published.trypop front
    queued := by
      intro found member
      have member : found ∈ queue.members := by rwa [shape]
      have apart : found ≠ state.head.head := fun same => absent (same ▸ member)
      exact (update_of_ne apart _ _).trans
        (sound.queued found (List.mem_cons_of_mem _ member))
    unused := fun found free => place_update queued nofun (sound.unused found free)
    held := held_update sound.held
      (fun found (holds : state.head.head = found) => holds ▸ update_self _ _ place)
      fun _ _ _ => place_update queued nofun
    fits := by
      refine fits_update trivial fun other _ => ?_
      have theirs := sound.fits other
      cases rival : state.phase other with
      | idle | clearing | linking | snapping | freeing | popped => trivial
      | filling | exchanging =>
        rw [rival] at theirs
        exact theirs
      | popping snapshot =>
        rw [rival] at theirs
        exact Snapshot.Holds.stale theirs (Nat.lt_succ_self _) }

theorem Sound.free (phase : state.phase thread = .freeing node value) :
    Sound { state with
      free := update state.free node true
      phase := update state.phase thread (.popped value) }
      queue (update place node .heap) := by
  have mine : place node = .thread thread := sound.held thread node (by rw [phase]; rfl)
  exact {
    published := by
      have same : Phase.pending ∘ update state.phase thread (.popped value) = state.pending :=
        comp_update_of_eq (by rw [phase]; rfl)
      rw [State.pending, same]
      exact sound.published
    queued := fun found member => place_update mine nofun (sound.queued found member)
    unused := free_returned sound.unused
    held := held_update sound.held (fun _ => False.elim)
      fun _ apart _ => place_update mine (by simpa using apart)
    fits := fits_update trivial fun other _ => sound.fits other }

end

end Invariant

section Histories

variable {Thread Node Value : Type}

/-- The value that a producer's exchange puts in the queue. -/
def pushes : State Thread Node Value × Action Thread Node Value → Option Value
  | (state, .move thread) =>
    match state.phase thread with
    | .exchanging _ value => some value
    | _ => none
  | _ => none

/-- What a successful `compare_and_swap` takes out, and who takes it. -/
def takes [DecidableEq Node] :
    State Thread Node Value × Action Thread Node Value → Option (Thread × Value)
  | (state, .move thread) =>
    match state.phase thread with
    | .popping (.loaded tag oldHead oldHeadNext dest) =>
      (state.head.swap tag oldHead oldHeadNext).map fun _ => (thread, dest)
    | _ => none
  | _ => none

def Phase.result : Phase Node Value → Option Value
  | .popped dest => some dest
  | _ => none

def returns [DecidableEq Thread] [DecidableEq Node] :
    State Thread Node Value × Action Thread Node Value → Option (Thread × Value)
  | (state, .move thread) =>
    (move state thread).bind fun after => (after.phase thread).result.map (thread, ·)
  | _ => none

/-- The values pushed, in the order of the exchanges. -/
def pushed (history : History Thread Node Value) : List Value :=
  history.filterMap pushes

/-- The values popped, with the threads, in the order of the swaps. -/
def popped [DecidableEq Node] (history : History Thread Node Value) : List (Thread × Value) :=
  history.filterMap takes

def returned [DecidableEq Thread] [DecidableEq Node] (history : History Thread Node Value) :
    List (Thread × Value) :=
  history.filterMap returns

def Phase.inHand : Phase Node Value → List Value
  | .freeing _ dest => [dest]
  | _ => []

variable [DecidableEq Thread] [DecidableEq Node] {state : State Thread Node Value}
variable {queue : LinkedFifo Node}
variable {place : Node → Owner Thread} {history : History Thread Node Value} {node : Node}

omit [DecidableEq Thread] in
theorem Sound.map_data (sound : Sound state queue place) (outside : place node ≠ .queue) :
    queue.members.map (update state.data node value) = queue.members.map state.data := by
  refine List.map_congr_left fun found member => update_of_ne ?_ _ _
  intro same
  exact outside (same ▸ sound.queued found (List.mem_cons_of_mem _ member))

theorem Sound.step (sound : Sound state queue place) (move : Move state action after) :
    ∃ queue' place', Sound after queue' place' ∧
      queue.members.map state.data ++ (pushes (state, action)).toList =
        ((takes (state, action)).map Prod.snd).toList ++ queue'.members.map after.data := by
  cases move with
  | scribble free =>
    have heap := sound.unused _ free
    refine ⟨_, _, sound.scribble free, ?_⟩
    rw [sound.map_data (by simp [heap])]
    simp [pushes, takes]
  | push resting free => exact ⟨_, _, sound.push resting free, by simp [pushes, takes]⟩
  | pop resting =>
    refine ⟨_, _, sound.goto (pending_resting resting).symm (fun _ => id) trivial, ?_⟩
    simp [pushes, takes, State.goto]
  | @clear thread newNode value phase =>
    have same : ∀ other, other ≠ newNode → update state.next newNode none other = state.next other ∧
          state.data other = state.data other :=
      fun other apart => ⟨update_of_ne apart _ _, rfl⟩
    refine ⟨_, _, sound.construct (by rw [phase]; rfl) (by rw [phase]; rfl) same
      (fun _ => Eq.symm) rfl (update_self _ _ _), ?_⟩
    simp [pushes, takes, phase]
  | @fill thread newNode value phase =>
    have own : (state.phase thread).Holds newNode := by rw [phase]; rfl
    have mine := sound.held thread newNode own
    have cleared := sound.fits thread
    rw [phase] at cleared
    have same : ∀ other, other ≠ newNode → state.next other = state.next other ∧
        update state.data newNode value other = state.data other :=
      fun other apart => ⟨rfl, update_of_ne apart _ _⟩
    refine ⟨_, _, sound.construct own (by rw [phase]; rfl) same (fun _ => Eq.symm) rfl
      ⟨cleared, update_self _ _ _⟩, ?_⟩
    rw [sound.map_data (by simp [mine])]
    simp [pushes, takes, phase]
  | @exchange thread newNode value phase =>
    have constructed := sound.fits thread
    rw [phase] at constructed
    refine ⟨_, _, sound.exchange phase, ?_⟩
    simp [pushes, takes, phase, constructed.2]
  | link phase => exact ⟨_, _, sound.link phase, by simp [pushes, takes, phase]⟩
  | @read thread next reads =>
    refine ⟨_, _, sound.read reads, ?_⟩
    generalize phase : state.phase thread = before at reads
    cases reads with
    | tag | head | follow | load | empty => simp [pushes, takes, phase, State.goto]
    | failure failed => simp [pushes, takes, phase, failed, State.goto]
  | swap phase swapped =>
    obtain ⟨rest, front, loaded, shorter⟩ := sound.swap phase swapped
    refine ⟨_, _, shorter, ?_⟩
    simp [pushes, takes, phase, swapped, members_trypop front, loaded]
  | free phase => exact ⟨_, _, sound.free phase, by simp [pushes, takes, phase]⟩

theorem run_sound (run : (machine Thread Node Value).Run history state) :
    ∃ queue place, Sound state queue place ∧
      pushed history = (popped history).map Prod.snd ++ queue.members.map state.data := by
  refine run.invariant (fun history state => ∃ queue place, Sound state queue place ∧
    pushed history = (popped history).map Prod.snd ++ queue.members.map state.data) ?_ ?_
  · intro state initial
    obtain ⟨place, sound⟩ := initial_sound initial
    exact ⟨_, place, sound, rfl⟩
  · intro history before action after earlier stepped
    obtain ⟨queue, place, sound, balance⟩ := earlier
    obtain ⟨queue', place', sound', change⟩ := sound.step (step_moves stepped)
    refine ⟨queue', place', sound', ?_⟩
    have taken : (takes (before, action)).toList.map Prod.snd =
        ((takes (before, action)).map Prod.snd).toList := by
      cases takes (before, action) <;> rfl
    simp only [pushed, popped, filterMap_snoc, List.map_append] at balance ⊢
    rw [balance, List.append_assoc, change, taken, List.append_assoc]

omit [DecidableEq Node] in
theorem inHand_resting {phase : Phase Node Value} (resting : phase.resting) :
    phase.inHand = [] := by
  cases phase with
  | idle | popped => rfl
  | clearing | filling | exchanging | linking | snapping | popping | freeing => cases resting

theorem returns_eq (stepped : step state (.move thread) = some after)
    (phase : after.phase thread = next) :
    returns (state, .move thread) = next.result.map (thread, ·) := by
  have moved : move state thread = some after := stepped
  simp [returns, moved, phase]

theorem step_handed (stepped : step state action = some after)
    (handed : Handed (popped history) (returned history) (Phase.inHand ∘ state.phase)) :
    Handed (popped (history ++ [(state, action)])) (returned (history ++ [(state, action)]))
      (Phase.inHand ∘ after.phase) := by
  cases step_moves stepped with
  | scribble => exact handed.carry rfl rfl rfl
  | push resting | pop resting =>
    exact handed.carry rfl rfl (comp_update_of_eq (inHand_resting resting).symm)
  | clear phase | fill phase | exchange phase | link phase =>
    exact handed.carry (by simp [takes, phase]) (returns_eq stepped (update_self _ _ _))
      (comp_update_of_eq (by rw [phase]; rfl))
  | @read thread next reads =>
    have gives : returns (state, .move thread) = next.result.map (thread, ·) :=
      returns_eq stepped (update_self _ _ _)
    generalize phase : state.phase thread = before at reads
    cases reads with
    | tag | head | follow | load | empty =>
      exact handed.carry (by simp [takes, phase]) gives (comp_update_of_eq (by rw [phase]; rfl))
    | failure failed =>
      exact handed.carry (by simp [takes, phase, failed]) gives
        (comp_update_of_eq (by rw [phase]; rfl))
  | @swap thread tag oldHead oldHeadNext dest head phase swapped =>
    have took : takes (state, .move thread) = some (thread, dest) := by
      simp [takes, phase, swapped]
    exact handed.taken took (returns_eq stepped (update_self _ _ _))
      (by simp [phase, Phase.inHand]) (comp_update _ _ _ _)
  | @free thread oldHead dest phase =>
    have gave : returns (state, .move thread) = some (thread, dest) :=
      returns_eq stepped (update_self _ _ _)
    exact handed.given (by simp [takes, phase]) gave (by simp [phase, Phase.inHand])
      (comp_update _ _ _ _)

/-- What a pop frees as it returns is in use, and no part of the queue. -/
theorem Sound.frees (sound : Sound state queue place) (move : Move state (.move thread) after)
    (phase : after.phase thread = .popped dest) :
    ∃ node, state.free node = false ∧ after.free = update state.free node true ∧
      node ∉ state.head.head :: queue.members := by
  cases move with
  | clear | fill | exchange | link | swap => simp at phase
  | @read _ next reads =>
    obtain rfl : next = .popped dest := by simpa [State.goto] using phase
    generalize state.phase thread = before at reads
    cases reads
  | @free _ oldHead dest was =>
    have own := sound.held thread oldHead (by rw [was]; rfl)
    refine ⟨oldHead, ?_, rfl, fun member => ?_⟩
    · by_contra free
      rw [sound.unused oldHead (by simpa using free)] at own
      cases own
    · rw [sound.queued oldHead member] at own
      cases own

theorem run_handed (run : (machine Thread Node Value).Run history state) :
    Handed (popped history) (returned history) (Phase.inHand ∘ state.phase) := by
  refine run.invariant (fun history state =>
    Handed (popped history) (returned history) (Phase.inHand ∘ state.phase)) ?_ ?_
  · intro state initial
    obtain ⟨_, _, _, _, _, idle⟩ := initial
    rw [idle]
    exact .start
  · intro history before action after handed stepped
    exact step_handed stepped handed

/-- The values popped are the first of those pushed, in the order of the exchanges, and
the rest are in the queue, linked but for the pushes that have their link to store; what
a thread has popped it returns, in that order, with a node freed that was in use and is
not in the queue any more; and the queue is no freed memory. -/
theorem lockfree_fifo_order (run : (machine Thread Node Value).Run history state) :
    ∃ queue : LinkedFifo Node,
      pushed history = (popped history).map Prod.snd ++ queue.members.map state.data ∧
      Published state.next state.head.head state.tail state.pending queue ∧
      (∀ thread, own thread (popped history) =
        own thread (returned history) ++ (state.phase thread).inHand) ∧
      (∀ thread after dest, step state (.move thread) = some after →
        after.phase thread = .popped dest →
        ∃ node, state.free node = false ∧ after.free = update state.free node true ∧
          node ∉ state.head.head :: queue.members) ∧
      ∀ node ∈ state.head.head :: queue.members, state.free node = false := by
  obtain ⟨queue, place, sound, balance⟩ := run_sound run
  refine ⟨queue, balance, sound.published, run_handed run,
    fun thread after dest stepped => sound.frees (step_moves stepped), fun node member => ?_⟩
  have queued := sound.queued node member
  cases free : state.free node with
  | false => rfl
  | true =>
    rw [sound.unused node free] at queued
    cases queued

end Histories

/-- A consumer has read the head's successor and its data when another one pops them and
frees the head, which is pushed again at once; the first one's swap fails, and it finds
the second value. -/
def reused : List (Action Bool Nat Nat) :=
  List.flatten [.push true 11 1 :: List.replicate 4 (.move true),
    .pop false :: List.replicate 4 (.move false), .pop true :: List.replicate 6 (.move true),
    .scribble 0 7 (some 5) :: .push true 22 0 :: List.replicate 3 (.move true),
    List.replicate 4 (.move false), [.move true], List.replicate 6 (.move false)]

def blank : State Bool Nat Nat where
  head := ⟨0, 0⟩
  tail := 0
  next _ := none
  data _ := 0
  free node := node ≠ 0
  phase _ := .idle

theorem lockfree_fifo_order_reused : ∃ history state,
    (machine Bool Nat Nat).Run history state ∧ pushed history = [11, 22] ∧
      popped history = [(true, 11), (false, 22)] ∧ returned history = [(true, 11), (false, 22)] ∧
      ∃ queue : LinkedFifo Nat,
        pushed history = (popped history).map Prod.snd ++ queue.members.map state.data := by
  have run := Machine.run_of_isSome
    (show (machine Bool Nat Nat).initial blank from ⟨0, rfl, rfl, rfl, rfl, rfl⟩)
    (show ((machine Bool Nat Nat).exec blank reused).isSome by decide +kernel)
  obtain ⟨queue, balance, _⟩ := lockfree_fifo_order run
  exact ⟨_, _, run, by decide +kernel, by decide +kernel, by decide +kernel, queue, balance⟩

end LibFiber.LockfreeFifo
