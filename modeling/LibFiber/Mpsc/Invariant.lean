import LibFiber.Mpsc.Machine
import LibFiber.Data.Placement

namespace LibFiber.Mpsc

open Semantics Data Function

/-! The nodes of `mpsc_fifo` make up a `LinkedFifo`, whose waiting nodes are those
of the producers between their two steps, and every node is in one place. -/

inductive Owner (Producer : Type) where
  | client
  /-- In `mpsc_fifo_push`, before the exchange. -/
  | producer (producer : Producer)
  | queue
  /-- In `mpsc_fifo_trypop`, behind the store to `head`. -/
  | consumer
deriving DecidableEq

def ProducerPhase.Claims {Node : Type} (node : Node) : ProducerPhase Node → Prop
  | .terminating own | .exchanging own => own = node
  | .idle | .linking _ _ => False

/-- The store that a push has left to do behind its exchange. -/
def ProducerPhase.pending {Node : Type} : ProducerPhase Node → Option (Node × Node)
  | .linking prevTail node => some (prevTail, node)
  | .idle | .terminating _ | .exchanging _ => none

def ConsumerPhase.Holds {Node Value : Type} (node : Node) : ConsumerPhase Node Value → Prop
  | .copying prevHead _ | .storing prevHead _ => prevHead = node
  | _ => False

section Invariant

variable {Producer Node Value : Type}

/-- What the consumer's local variables say about the queue. -/
def ConsumerPhase.Fits (state : State Producer Node Value) : ConsumerPhase Node Value → Prop
  | .peekingNext head => head = state.head
  | .glancing headNext => state.next state.head = some headNext
  | .poppingNext prevHead => prevHead = state.head
  | .advancing prevHead prevHeadNext =>
    prevHead = state.head ∧ state.next state.head = some prevHeadNext
  | .copying _ prevHeadNext => prevHeadNext = state.head
  | .idle | .peeking | .peeked _ | .popping | .storing _ _ | .popped _ => True

def State.pending (state : State Producer Node Value) : Producer → Option (Node × Node) :=
  ProducerPhase.pending ∘ state.producer

structure Sound (state : State Producer Node Value) (queue : LinkedFifo Node)
    (owner : Node → Owner Producer) : Prop where
  published : LinkedFifo.Published state.next state.head state.tail state.pending queue
  ended : ∀ producer node, state.producer producer = .exchanging node → state.next node = none
  fits : state.consumer.Fits state
  clients : ∀ node, state.free node → owner node = .client
  producers : ∀ producer node, (state.producer producer).Claims node →
    owner node = .producer producer
  queued : ∀ node ∈ state.head :: queue.members, owner node = .queue
  consumer : ∀ node, state.consumer.Holds node → owner node = .consumer

theorem ConsumerPhase.Fits.frame {state after : State Producer Node Value}
    {phase : ConsumerPhase Node Value} (fits : phase.Fits state) (head : after.head = state.head)
    (kept : ∀ node, state.next state.head = some node → after.next state.head = some node) :
    phase.Fits after := by
  cases phase with
  | idle | peeking | peeked | popping | storing | popped => trivial
  | peekingNext | poppingNext | copying => exact Eq.trans fits head.symm
  | glancing headNext =>
    show after.next after.head = some headNext
    rw [head]
    exact kept _ fits
  | advancing prevHead prevHeadNext =>
    show prevHead = after.head ∧ after.next after.head = some prevHeadNext
    rw [head]
    exact ⟨fits.1, kept _ fits.2⟩

variable {state : State Producer Node Value} {queue : LinkedFifo Node}
variable {owner : Node → Owner Producer}

theorem pending_eq (phase : state.producer producer = .linking prevTail node) :
    state.pending producer = some (prevTail, node) := by
  simp [State.pending, phase, ProducerPhase.pending]

theorem Sound.follow (sound : Sound state queue owner) {phase : ConsumerPhase Node Value}
    (fits : phase.Fits state) (holds : ∀ node, phase.Holds node → state.consumer.Holds node) :
    Sound { state with consumer := phase } queue owner :=
  { sound with
    fits := fits.frame rfl fun _ found => found
    consumer := fun node held => sound.consumer node (holds node held) }

theorem Sound.claimed (sound : Sound state queue owner)
    (phase : state.producer producer = .terminating node ∨
      state.producer producer = .exchanging node) : owner node = .producer producer := by
  refine sound.producers producer node ?_
  rcases phase with phase | phase
  · rw [phase]
    rfl
  · rw [phase]
    rfl

theorem init_sound [DecidableEq Node] (sentinel : Node) (next : Node → Option Node)
    (data : Node → Value) :
    Sound (init sentinel next data : State Producer Node Value) LinkedFifo.empty
      (update (fun _ => .client) sentinel .queue) where
  published := .empty (update_self _ _ _) (fun _ => rfl)
  ended producer node := by simp [init]
  fits := trivial
  clients node free := by
    have apart : node ≠ sentinel := by simpa [init] using free
    exact update_of_ne apart _ _
  producers producer node claims := claims.elim
  queued node member := by
    obtain rfl : node = sentinel := by
      simpa [init, LinkedFifo.empty, LinkedFifo.members] using member
    exact update_self _ _ _
  consumer node holds := holds.elim

variable [DecidableEq Producer] [DecidableEq Node]

section

variable (sound : Sound state queue owner)
include sound

omit [DecidableEq Producer] in
theorem Sound.congr_next (owned : owner node = was) (outside : .queue ≠ was) (link : Option Node) :
    LinkedFifo.Published (update state.next node link) state.head state.tail state.pending queue ∧
      update state.next node link state.head = state.next state.head := by
  have apart : ∀ member ∈ state.head :: queue.members, member ≠ node := by
    rintro member listed rfl
    exact outside ((sound.queued member listed).symm.trans owned)
  constructor
  · exact sound.published.congr fun member listed => update_of_ne (apart member listed) _ _
  · exact update_of_ne (apart state.head List.mem_cons_self) _ _

omit [DecidableEq Producer] in
theorem Sound.ended_update (owned : owner node = was) (link : Option Node) (other : Producer)
    (different : .producer other ≠ was) {element : Node}
    (phase : state.producer other = .exchanging element) :
    update state.next node link element = none := by
  have apart : element ≠ node := by
    rintro rfl
    exact different ((sound.claimed (.inr phase)).symm.trans owned)
  exact (update_of_ne apart _ _).trans (sound.ended other element phase)

omit [DecidableEq Node] in
theorem Sound.ended_goto (other : Producer) (element : Node)
    (phase : update state.producer producer next other = .exchanging element)
    (now : ∀ node, next ≠ .exchanging node) :
    state.next element = none := by
  by_cases same : other = producer
  · subst other
    rw [update_self] at phase
    exact (now element phase).elim
  · rw [update_of_ne same] at phase
    exact sound.ended other element phase

omit [DecidableEq Producer] in
theorem fill_sound (free : state.free node) (data : Value) (link : Option Node) :
    Sound { state with data := update state.data node data, next := update state.next node link }
      queue owner := by
  have owned := sound.clients node free
  obtain ⟨published, kept⟩ := sound.congr_next owned nofun link
  refine { sound with published, ended := ?_, fits := ?_ }
  · intro producer element phase
    exact sound.ended_update owned link producer nofun phase
  · exact sound.fits.frame rfl fun _ leads => kept.trans leads

theorem push_sound (idle : state.producer producer = .idle) (free : state.free node) :
    Sound
      { state with
        free := update state.free node false
        producer := update state.producer producer (.terminating node) }
      queue (update owner node (.producer producer)) := by
  have owned := sound.clients node free
  have quiet : ProducerPhase.pending ∘ update state.producer producer (.terminating node) =
      state.pending := comp_update_of_eq (by rw [idle]; rfl)
  refine ⟨?_, ?_, sound.fits.frame rfl fun _ leads => leads, free_taken sound.clients, ?_, ?_, ?_⟩
  · rw [State.pending, quiet]
    exact sound.published
  · exact fun other element phase => sound.ended_goto other element phase nofun
  · exact held_update sound.producers
      (fun element (claims : node = element) => claims ▸ update_self node _ owner)
      fun _ _ _ => place_update owned nofun
  · exact fun element member => place_update owned nofun (sound.queued element member)
  · exact fun element holds => place_update owned nofun (sound.consumer element holds)

theorem terminate_sound (phase : state.producer producer = .terminating node) :
    Sound
      { state with
        next := update state.next node none
        producer := update state.producer producer (.exchanging node) }
      queue owner := by
  have owned := sound.claimed (.inl phase)
  have quiet : ProducerPhase.pending ∘ update state.producer producer (.exchanging node) =
      state.pending := comp_update_of_eq (by rw [phase]; rfl)
  obtain ⟨published, kept⟩ := sound.congr_next owned nofun none
  refine ⟨?_, ?_, sound.fits.frame rfl fun _ leads => kept.trans leads, sound.clients, ?_,
    sound.queued, sound.consumer⟩
  · rw [State.pending, quiet]
    exact published
  · intro other element exchanging
    by_cases same : other = producer
    · subst other
      obtain rfl : node = element := by simpa using exchanging
      exact update_self _ _ _
    · refine sound.ended_update owned none other (by simpa using same) ?_
      simpa [update_of_ne same] using exchanging
  · exact held_update sound.producers (fun element (claims : node = element) => claims ▸ owned)
      fun _ _ _ => id

theorem exchange_sound (phase : state.producer producer = .exchanging node) :
    Sound
      { state with
        tail := node
        producer := update state.producer producer (.linking state.tail node) }
      (queue.exchange node) (update owner node .queue) := by
  have owned := sound.claimed (.inr phase)
  have outside : node ∉ state.head :: queue.members := by
    intro member
    simp [sound.queued node member] at owned
  have idle : state.pending producer = none := by
    simp [State.pending, phase, ProducerPhase.pending]
  refine ⟨?_, ?_, sound.fits.frame rfl fun _ leads => leads, ?_, ?_, ?_, ?_⟩
  · rw [State.pending, comp_update]
    exact sound.published.exchange idle outside (sound.ended producer node phase)
  · exact fun other element exchanging => sound.ended_goto other element exchanging nofun
  · exact fun element free => place_update owned nofun (sound.clients element free)
  · exact held_update sound.producers (fun _ => False.elim)
      fun _ apart _ => place_update owned (by simpa using apart)
  · intro element member
    rw [LinkedFifo.members_exchange, ← List.cons_append] at member
    rcases List.mem_append.mp member with earlier | last
    · exact place_update owned nofun (sound.queued element earlier)
    · rw [List.mem_singleton.mp last]
      exact update_self _ _ _
  · exact fun element holds => place_update owned nofun (sound.consumer element holds)

theorem link_sound (phase : state.producer producer = .linking prevTail node) :
    Sound
      { state with
        next := update state.next prevTail (some node)
        producer := update state.producer producer .idle }
      (queue.link node) owner := by
  have awaits := sound.published.waits (pending_eq phase)
  have owned := sound.queued prevTail awaits.mem.1
  have unset := sound.published.represents.links.next_awaits awaits
  refine ⟨?_, ?_, ?_, sound.clients, ?_, ?_, sound.consumer⟩
  · rw [State.pending, comp_update]
    exact sound.published.link (pending_eq phase)
  · intro other element exchanging
    by_cases same : other = producer
    · subst other
      simp at exchanging
    · refine sound.ended_update owned (some node) other nofun ?_
      simpa [update_of_ne same] using exchanging
  · refine sound.fits.frame rfl fun found leads => ?_
    have apart : state.head ≠ prevTail := by
      intro same
      simp [← same, leads] at unset
    exact (update_of_ne apart _ _).trans leads
  · exact held_update sound.producers (fun _ => False.elim) fun _ _ _ => id
  · exact fun element member => sound.queued element (by simpa using member)

omit [DecidableEq Producer] in
theorem advance_sound (phase : state.consumer = .advancing prevHead prevHeadNext)
    (popped : queue.trypop = some (prevHeadNext, rest)) :
    Sound { state with head := prevHeadNext, consumer := .copying prevHead prevHeadNext } rest
      (update owner prevHead .consumer) := by
  have fits := sound.fits
  rw [phase] at fits
  obtain ⟨rfl, leads⟩ := fits
  have owned := sound.queued state.head List.mem_cons_self
  have distinct := sound.published.represents.distinct
  rw [LinkedFifo.members_trypop popped] at distinct
  refine ⟨sound.published.trypop popped, sound.ended, rfl, ?_, ?_, ?_, ?_⟩
  · exact fun element free => place_update owned nofun (sound.clients element free)
  · exact fun other element claims =>
      place_update owned nofun (sound.producers other element claims)
  · intro element member
    have apart : element ≠ state.head := by
      rintro rfl
      exact (List.nodup_cons.mp distinct).1 member
    rw [update_of_ne apart]
    refine sound.queued element (List.mem_cons_of_mem _ ?_)
    rw [LinkedFifo.members_trypop popped]
    exact member
  · intro element holds
    obtain rfl : state.head = element := holds
    exact update_self _ _ _

omit [DecidableEq Producer] in
theorem store_sound (phase : state.consumer = .storing prevHead data) :
    Sound
      { state with
        data := update state.data prevHead data
        free := update state.free prevHead true
        consumer := .popped (some prevHead) }
      queue (update owner prevHead .client) := by
  have owned := sound.consumer prevHead (by rw [phase]; rfl)
  refine ⟨sound.published, sound.ended, trivial, free_returned sound.clients, ?_, ?_,
    fun element holds => holds.elim⟩
  · exact fun other element claims =>
      place_update owned nofun (sound.producers other element claims)
  · exact fun element member => place_update owned nofun (sound.queued element member)

end

end Invariant

end LibFiber.Mpsc
