import LibFiber.Mpsc.Invariant
import LibFiber.Data.Ledger

namespace LibFiber.Mpsc

open Semantics Data Function

/-! The consumer of `mpsc_fifo` takes what was pushed, in the order of the
exchanges. -/

section Phases

variable {Producer Node Value : Type}

def ConsumerPhase.node : ConsumerPhase Node Value → Option Node
  | .popped node => node
  | _ => none

/-- The value of a pop between its store to `head` and its return. -/
def ConsumerPhase.inHand (data : Node → Value) : ConsumerPhase Node Value → List Value
  | .copying _ prevHeadNext => [data prevHeadNext]
  | .storing _ value => [value]
  | _ => []

variable {state : State Producer Node Value} {history : History Producer Node Value}
variable {phase : ConsumerPhase Node Value} {node : Node}

theorem Reads.fits (reads : Reads state phase next) (fits : phase.Fits state) :
    next.Fits state := by
  cases reads with
  | peekHead | popHead => rfl
  | peekNext found =>
    obtain rfl : _ = state.head := fits
    exact found
  | popNext found =>
    obtain rfl : _ = state.head := fits
    exact ⟨rfl, found⟩
  | peekNull | glance | popNull | copy => trivial

theorem Reads.inHand (reads : Reads state phase next) :
    next.inHand state.data = phase.inHand state.data := by
  cases reads <;> rfl

theorem Reads.holds (reads : Reads state phase next)
    (holds : next.Holds node) : phase.Holds node := by
  cases reads with
  | copy => exact holds
  | peekHead | peekNext | peekNull | glance | popHead | popNext | popNull => exact holds.elim

theorem ConsumerPhase.inHand_resting
    (resting : phase.resting) (data : Node → Value) : phase.inHand data = [] := by
  cases phase with
  | idle | peeked | popped => rfl
  | peeking | peekingNext | glancing | popping | poppingNext | advancing | copying | storing =>
    cases resting

theorem ConsumerPhase.inHand_congr
    (fits : phase.Fits state) (same : other state.head = state.data state.head) :
    phase.inHand other = phase.inHand state.data := by
  cases phase with
  | copying prevHead prevHeadNext =>
    obtain rfl : prevHeadNext = state.head := fits
    exact congrArg (fun value => [value]) same
  | idle | peeking | peekingNext | glancing | peeked | popping | poppingNext | advancing
  | storing | popped => rfl

theorem Reads.node_eq_none (reads : Reads state phase next) : next.node = none := by
  cases reads <;> rfl

theorem Sound.data_congr [DecidableEq Node] {was : Owner Producer}
    (sound : Sound state queue owner) (owned : owner node = was) (outside : .queue ≠ was)
    (value : Value) (member : Node) (listed : member ∈ state.head :: queue.members) :
    update state.data node value member = state.data member := by
  have apart : member ≠ node := by
    rintro rfl
    exact outside ((sound.queued member listed).symm.trans owned)
  exact update_of_ne apart _ _

variable [DecidableEq Node]

/-- The data in the node that a `mpsc_fifo_trypop` returns at the step. -/
def returned : State Producer Node Value × Action Producer Node Value → Option Value
  | (state, .moveConsumer) =>
    (moveConsumer state).bind fun after => after.consumer.node.map after.data
  | _ => none

def popped (history : History Producer Node Value) : List Value :=
  history.filterMap returned

/-- What the last successful peek reported, until the next successful pop. -/
def promise (kept : Option Value) :
    State Producer Node Value × Action Producer Node Value → Option Value
  | (state, .moveConsumer) =>
    match (moveConsumer state).map State.consumer with
    | some (.peeked (some data)) => some data
    | some (.popped (some _)) => none
    | _ => kept
  | _ => kept

def promised (history : History Producer Node Value) : Option Value :=
  history.foldl promise none

theorem popped_append (taken : State Producer Node Value × Action Producer Node Value) :
    popped (history ++ [taken]) = popped history ++ (returned taken).toList :=
  filterMap_snoc returned history taken

theorem promised_append (taken : State Producer Node Value × Action Producer Node Value) :
    promised (history ++ [taken]) = promise (promised history) taken := by
  simp [promised]

theorem Reads.moves (reads : Reads state state.consumer next) :
    moveConsumer state = some { state with consumer := next } := by
  generalize phase : state.consumer = before at reads
  cases reads <;> simp [moveConsumer, *]

theorem Reads.returned (reads : Reads state state.consumer next) :
    returned (state, .moveConsumer) = none := by
  simp [Mpsc.returned, reads.moves, reads.node_eq_none]

end Phases

section History

variable {Producer Node Value : Type} [DecidableEq Producer]

/-- The record of the pushes, in the order of their exchanges. -/
def record (places : List (Place Producer Node Value))
    (taken : State Producer Node Value × Action Producer Node Value) :
    List (Place Producer Node Value) :=
  match taken.2 with
  | .moveProducer producer =>
    match taken.1.producer producer with
    | .exchanging node => places ++ [⟨producer, node, taken.1.data node, false⟩]
    | .linking _ _ => settle producer places
    | .idle | .terminating _ => places
  | _ => places

def places (history : History Producer Node Value) : List (Place Producer Node Value) :=
  history.foldl record []

variable {state after : State Producer Node Value}
variable {history : History Producer Node Value}
variable {phase : ConsumerPhase Node Value} {node : Node}

theorem places_append (taken : State Producer Node Value × Action Producer Node Value) :
    places (history ++ [taken]) = record (places history) taken := by
  simp [places]

theorem record_getElem? {pushes : List (Place Producer Node Value)} {index : Nat}
    {place : Place Producer Node Value}
    (taken : State Producer Node Value × Action Producer Node Value)
    (found : pushes[index]? = some place) (linked : place.linked) :
    ∃ later, (record pushes taken)[index]? = some later ∧ later.linked ∧
      later.value = place.value := by
  unfold record
  split
  · rename_i producer _
    split
    · obtain ⟨within, _⟩ := List.getElem?_eq_some_iff.mp found
      exact ⟨place, (List.getElem?_append_left within).trans found, linked, rfl⟩
    · rw [settle, List.getElem?_map, found]
      refine ⟨_, rfl, ?_⟩
      by_cases own : place.producer = producer
      · simp [own]
      · simp [own, linked]
    · exact ⟨place, found, linked, rfl⟩
    · exact ⟨place, found, linked, rfl⟩
  · exact ⟨place, found, linked, rfl⟩

variable [DecidableEq Node]

/-- The queue holds what was pushed and not popped. -/
def Traced (history : History Producer Node Value) (state : State Producer Node Value)
    (queue : LinkedFifo Node) : Prop :=
  Ledger state.pending state.data queue (popped history ++ state.consumer.inHand state.data)
    (places history)

theorem Traced.carry (traced : Traced history state queue)
    (quiet : record (places history) (state, action) = places history)
    (silent : returned (state, action) = none)
    (same : ∀ node ∈ queue.members, after.data node = state.data node)
    (still : after.pending = state.pending)
    (inHand : after.consumer.inHand after.data = state.consumer.inHand state.data) :
    Traced (history ++ [(state, action)]) after queue := by
  rw [Traced, places_append, popped_append, quiet, silent, inHand, still]
  simpa using Ledger.congr traced same

theorem exchange_traced (traced : Traced history state queue)
    (phase : state.producer producer = .exchanging node) :
    Traced (history ++ [(state, .moveProducer producer)])
      { state with
        tail := node
        producer := update state.producer producer (.linking state.tail node) }
      (queue.exchange node) := by
  have recorded : record (places history) (state, .moveProducer producer) =
      places history ++ [⟨producer, node, state.data node, false⟩] := by
    simp [record, phase]
  have idle : state.pending producer = none := by
    simp [State.pending, phase, ProducerPhase.pending]
  rw [Traced, places_append, popped_append, recorded, State.pending, comp_update]
  simp only [returned, Option.toList_none, List.append_nil]
  exact Ledger.exchange traced idle state.tail

theorem link_traced {producer : Producer} {prevTail : Node}
    (sound : Sound state queue owner) (traced : Traced history state queue)
    (phase : state.producer producer = .linking prevTail node) :
    Traced (history ++ [(state, .moveProducer producer)])
      { state with
        next := update state.next prevTail (some node)
        producer := update state.producer producer .idle }
      (queue.link node) := by
  have recorded : record (places history) (state, .moveProducer producer) =
      settle producer (places history) := by
    simp [record, phase]
  rw [Traced, places_append, popped_append, recorded, State.pending, comp_update]
  simp only [returned, Option.toList_none, List.append_nil]
  exact Ledger.link traced sound.published (pending_eq phase)

theorem advance_traced (traced : Traced history state queue)
    (phase : state.consumer = .advancing prevHead prevHeadNext)
    (front : queue.trypop = some (prevHeadNext, rest)) :
    Traced (history ++ [(state, .moveConsumer)])
      { state with head := prevHeadNext, consumer := .copying prevHead prevHeadNext } rest := by
  have ledger := Ledger.trypop traced front
  rw [Traced, places_append, popped_append]
  simpa [record, returned, moveConsumer, ConsumerPhase.node, phase,
    ConsumerPhase.inHand, State.pending] using ledger

theorem store_traced {prevHead : Node} {data : Value} (sound : Sound state queue owner)
    (traced : Traced history state queue) (phase : state.consumer = .storing prevHead data) :
    Traced (history ++ [(state, .moveConsumer)])
      { state with
        data := update state.data prevHead data
        free := update state.free prevHead true
        consumer := .popped (some prevHead) }
      queue := by
  have owned := sound.consumer prevHead (by rw [phase]; rfl)
  have ledger : Ledger state.pending (update state.data prevHead data) queue
      (popped history ++ state.consumer.inHand state.data) (places history) := by
    refine Ledger.congr traced fun node member => ?_
    exact sound.data_congr owned nofun data node (List.mem_cons_of_mem _ member)
  rw [Traced, places_append, popped_append]
  simpa [record, returned, moveConsumer, ConsumerPhase.node, phase,
    ConsumerPhase.inHand, State.pending] using ledger

theorem Move.keeps (move : Move state action after)
    (sound : Sound state queue owner) (traced : Traced history state queue) :
    ∃ queue owner, Sound after queue owner ∧ Traced (history ++ [(state, action)]) after queue := by
  cases move with
  | fill free =>
    have same := sound.data_congr (sound.clients _ free) nofun
    refine ⟨queue, owner, fill_sound sound free _ _, traced.carry rfl rfl ?_ rfl ?_⟩
    · intro node member
      exact same _ node (List.mem_cons_of_mem _ member)
    · exact ConsumerPhase.inHand_congr sound.fits (same _ _ List.mem_cons_self)
  | push idle free =>
    refine ⟨queue, _, push_sound sound idle free, traced.carry rfl rfl (fun _ _ => rfl) ?_ rfl⟩
    exact comp_update_of_eq (by rw [idle]; rfl)
  | terminate phase =>
    refine ⟨queue, owner, terminate_sound sound phase,
      traced.carry (by simp [record, phase]) rfl (fun _ _ => rfl) ?_ rfl⟩
    exact comp_update_of_eq (by rw [phase]; rfl)
  | exchange phase => exact ⟨_, _, exchange_sound sound phase, exchange_traced traced phase⟩
  | link phase => exact ⟨_, _, link_sound sound phase, link_traced sound traced phase⟩
  | peek resting | trypop resting =>
    refine ⟨queue, owner, sound.follow trivial (fun _ holds => holds.elim),
      traced.carry rfl rfl (fun _ _ => rfl) rfl ?_⟩
    exact (ConsumerPhase.inHand_resting resting _).symm
  | read reads =>
    exact ⟨queue, owner, sound.follow (reads.fits sound.fits) (fun _ => reads.holds),
      traced.carry rfl reads.returned (fun _ _ => rfl) rfl reads.inHand⟩
  | advance phase =>
    have fits := sound.fits
    rw [phase] at fits
    obtain ⟨rest, front⟩ := sound.published.trypop_of_next fits.2
    exact ⟨rest, _, advance_sound sound phase front, advance_traced traced phase front⟩
  | store phase => exact ⟨queue, _, store_sound sound phase, store_traced sound traced phase⟩

theorem run_keeps (run : (machine Producer Node Value).Run history state) :
    ∃ queue owner, Sound state queue owner ∧ Traced history state queue := by
  refine run.invariant
    (fun history state => ∃ queue owner, Sound state queue owner ∧ Traced history state queue) ?_ ?_
  · rintro _ ⟨sentinel, next, data, rfl⟩
    exact ⟨_, _, init_sound sentinel next data, Ledger.empty _ _⟩
  · rintro history before action after ⟨queue, owner, sound, traced⟩ stepped
    exact (step_moves stepped).keeps sound traced

/-- The peeked data is the next to be popped. -/
def Kept (history : History Producer Node Value) : Prop :=
  ∀ data, promised history = some data →
    ∃ place, (places history)[(popped history).length]? = some place ∧
      place.linked ∧ place.value = data

theorem Kept.carry {taken : State Producer Node Value × Action Producer Node Value}
    (kept : Kept history) (same : promise (promised history) taken = promised history)
    (silent : returned taken = none) : Kept (history ++ [taken]) := by
  intro data promises
  rw [promised_append, same] at promises
  obtain ⟨place, found, linked, rfl⟩ := kept data promises
  obtain ⟨later, still, linked, value⟩ := record_getElem? taken found linked
  refine ⟨later, ?_, linked, value⟩
  rw [places_append, popped_append, silent]
  simpa using still

theorem glance_kept (sound : Sound state queue owner)
    (traced : Traced history state queue) (phase : state.consumer = .glancing headNext) :
    Kept (history ++ [(state, .moveConsumer)]) := by
  have leads := sound.fits
  rw [phase] at leads
  obtain ⟨rest, front⟩ := sound.published.trypop_of_next leads
  obtain ⟨place, found, linked, value⟩ := Ledger.front traced front
  intro data promises
  obtain rfl : state.data headNext = data := by
    simpa [promised_append, promise, moveConsumer, phase] using promises
  refine ⟨place, ?_, linked, value⟩
  rw [places_append, popped_append]
  simpa [record, returned, moveConsumer, ConsumerPhase.node, phase,
    ConsumerPhase.inHand] using found

theorem Move.kept (move : Move state action after)
    (sound : Sound state queue owner) (traced : Traced history state queue)
    (kept : Kept history) : Kept (history ++ [(state, action)]) := by
  cases move with
  | fill | push | terminate | exchange | link | peek | trypop => exact kept.carry rfl rfl
  | read reads =>
    have silent := reads.returned
    generalize phase : state.consumer = before at reads
    cases reads with
    | glance => exact glance_kept sound traced phase
    | peekHead | peekNext | peekNull | popHead | popNext | popNull | copy =>
      exact kept.carry (by simp [promise, moveConsumer, *]) silent
  | advance phase =>
    exact kept.carry (by simp [promise, moveConsumer, phase])
      (by simp [returned, moveConsumer, ConsumerPhase.node, phase])
  | store phase =>
    intro data promises
    simp [promised_append, promise, moveConsumer, phase] at promises

theorem run_kept (run : (machine Producer Node Value).Run history state) : Kept history := by
  refine Machine.Run.invariant_of_allowed (fun _ _ => True) (fun history _ => Kept history)
    ?_ ?_ run (fun _ _ => trivial)
  · intro state initial data promises
    simp [promised] at promises
  · intro history before action after earlier kept _ stepped
    obtain ⟨queue, owner, sound, traced⟩ := run_keeps earlier
    exact (step_moves stepped).kept sound traced kept

end History

section Results

variable {Producer Node Value : Type}

/-- What can be reached from the queue's fields and from the pushes that are
still to link their nodes. -/
inductive Referenced (state : State Producer Node Value) : Node → Prop where
  | head : Referenced state state.head
  | tail : Referenced state state.tail
  | next : Referenced state node → state.next node = some successor →
      Referenced state successor
  | pending : state.producer producer = .linking prevTail node → Referenced state node

/-- The nodes a push goes on to write or to put in the queue. -/
def ProducerPhase.Writes (node : Node) : ProducerPhase Node → Prop
  | .idle => False
  | .terminating own => own = node
  | .exchanging own => own = node
  | .linking prevTail _ => prevTail = node

variable {state : State Producer Node Value}
variable {node : Node}

theorem Sound.referenced (sound : Sound state queue owner) (referenced : Referenced state node) :
    node ∈ state.head :: queue.members := by
  induction referenced with
  | head => exact List.mem_cons_self
  | tail => exact sound.published.represents.links.tail_mem
  | next _ leads member =>
    exact List.mem_cons_of_mem _ (sound.published.represents.links.next_mem member leads)
  | pending phase =>
    exact List.mem_cons_of_mem _ (sound.published.waits (pending_eq phase)).mem.2

theorem Sound.unwritten (sound : Sound state queue owner) (free : state.free node)
    (producer : Producer) : ¬ (state.producer producer).Writes node := by
  have owned := sound.clients node free
  intro writes
  cases phase : state.producer producer with
  | idle => simp [phase, ProducerPhase.Writes] at writes
  | terminating own =>
    obtain rfl : own = node := by simpa [phase, ProducerPhase.Writes] using writes
    simp [sound.claimed (.inl phase)] at owned
  | exchanging own =>
    obtain rfl : own = node := by simpa [phase, ProducerPhase.Writes] using writes
    simp [sound.claimed (.inr phase)] at owned
  | linking prevTail own =>
    obtain rfl : prevTail = node := by simpa [phase, ProducerPhase.Writes] using writes
    have waits := sound.published.waits (pending_eq phase)
    simp [sound.queued prevTail waits.mem.1] at owned

variable [DecidableEq Producer] [DecidableEq Node] {history : History Producer Node Value}

/-- A pop that looks at the queue finds nothing when the earliest push that is
not popped has not been linked, or there is none. -/
theorem Sound.finds_nothing (sound : Sound state queue owner) (traced : Traced history state queue)
    {prevHead : Node} (phase : state.consumer = .poppingNext prevHead) :
    state.next prevHead = none ↔ ∀ place, (places history)[(popped history).length]? = some place →
        place.linked = false := by
  have fits := sound.fits
  rw [phase] at fits
  obtain rfl : prevHead = state.head := fits
  have ledger := Ledger.trypop_eq_none traced
  rw [sound.published.represents.next_head, Option.map_eq_none_iff, ledger]
  simp [phase, ConsumerPhase.inHand]

/-- A pop that has found its node is about to return the earliest push that is not
popped. -/
theorem Traced.about_to_return (traced : Traced history state queue)
    (phase : state.consumer = .storing prevHead data) :
    ((places history).map Place.value)[(popped history).length]? = some data := by
  rw [Ledger.values traced]
  simp [phase, ConsumerPhase.inHand]

theorem moveConsumer_popped {node : Option Node} (moved : step state .moveConsumer = some after)
    (phase : after.consumer = .popped node) :
    (∃ prevHead, state.consumer = .poppingNext prevHead ∧ state.next prevHead = none ∧
      node = none) ∨
    ∃ prevHead data, state.consumer = .storing prevHead data ∧ node.map after.data = some data := by
  have move := step_moves moved
  cases move with
  | read reads =>
    generalize state.consumer = before at reads
    cases reads with
    | popNull found =>
      cases phase
      exact .inl ⟨_, rfl, found, rfl⟩
    | peekHead | peekNext | peekNull | glance | popHead | popNext | copy => cases phase
  | advance => cases phase
  | store was =>
    cases phase
    exact .inr ⟨_, _, was, by simp⟩

/-- The queue is first in, first out: what is popped is what was pushed in the
order of the exchanges, a pop fails only when the earliest push left has not
been linked and otherwise returns a node with its data, a peek tells what the
next pop returns, and a node that is handed back is no part of the queue any more. -/
theorem mpsc_refines_fifo (run : (machine Producer Node Value).Run history state) :
    popped history <+: (places history).map Place.value ∧
    (∀ prevHead, state.consumer = .poppingNext prevHead →
      ((∃ after, step state .moveConsumer = some after ∧ after.consumer = .popped none) ↔
        ∀ place, (places history)[(popped history).length]? = some place → place.linked = false)) ∧
    (∀ prevHead data, state.consumer = .storing prevHead data →
      ∃ after, step state .moveConsumer = some after ∧
        after.consumer = .popped (some prevHead) ∧ after.free prevHead ∧
        ((places history).map Place.value)[(popped history).length]? =
          some (after.data prevHead)) ∧
    (∀ data, promised history = some data →
      ∀ after node, step state .moveConsumer = some after → after.consumer = .popped node →
        node.map after.data = some data) ∧
    (∀ node, state.free node →
      ¬ Referenced state node ∧ ∀ producer, ¬ (state.producer producer).Writes node) := by
  obtain ⟨queue, owner, sound, traced⟩ := run_keeps run
  refine ⟨?_, ?_, ?_, ?_, ?_⟩
  · exact (List.prefix_append _ _).trans (Ledger.taken_isPrefix traced)
  · intro prevHead phase
    rw [← sound.finds_nothing traced phase]
    cases found : state.next prevHead with
    | none | some prevHeadNext => simp [step, moveConsumer, phase, found]
  · intro prevHead data phase
    refine ⟨_, (by rw [step, moveConsumer, phase]), rfl, update_self _ _ _, ?_⟩
    simpa using traced.about_to_return phase
  · intro data promises after node moved phase
    obtain ⟨place, found, linked, rfl⟩ := run_kept run data promises
    rcases moveConsumer_popped moved phase with ⟨prevHead, was, empty, rfl⟩ | ⟨_, _, was, held⟩
    · have unlinked := (sound.finds_nothing traced was).mp empty place found
      simp [unlinked] at linked
    · have front := traced.about_to_return was
      rw [held, ← front]
      simp [found]
  · intro node free
    refine ⟨?_, sound.unwritten free⟩
    intro referenced
    have owned := sound.queued node (sound.referenced referenced)
    simp [sound.clients node free] at owned

end Results

/-- A producer stalls between its two steps while another push completes behind
it, so that a pop finds nothing.  Then the first value is peeked and popped, and
the sentinel that came back with it is pushed again. -/
def stalled : List (Action Bool Nat Nat) :=
  List.flatten [[.fill 1 11 none, .push true 1, .moveProducer true, .moveProducer true],
    [.fill 2 22 (some 0), .push false 2], List.replicate 3 (.moveProducer false),
    [.trypop, .moveConsumer, .moveConsumer, .moveProducer true],
    .peek :: List.replicate 3 .moveConsumer, .trypop :: List.replicate 5 .moveConsumer,
    .push false 0 :: List.replicate 3 (.moveProducer false),
    .peek :: List.replicate 3 .moveConsumer, .trypop :: List.replicate 4 .moveConsumer]

def blank : State Bool Nat Nat := init 0 (fun _ => none) (fun _ => 0)

theorem mpsc_refines_fifo_recycled : ∃ history state,
    (machine Bool Nat Nat).Run history state ∧
      (places history).map Place.value = [11, 22, 11] ∧ popped history = [11] ∧
      promised history = some 22 ∧ state.consumer = .storing 1 22 ∧
      ∀ after node, step state .moveConsumer = some after → after.consumer = .popped node →
        node.map after.data = some 22 := by
  have run := Machine.run_of_isSome
    (show (machine Bool Nat Nat).initial blank from ⟨0, _, _, rfl⟩)
    (show ((machine Bool Nat Nat).exec blank stalled).isSome by decide +kernel)
  exact ⟨_, _, run, by decide +kernel, by decide +kernel, by decide +kernel, by decide +kernel,
    (mpsc_refines_fifo run).2.2.2.1 22 (by decide +kernel)⟩

end LibFiber.Mpsc
