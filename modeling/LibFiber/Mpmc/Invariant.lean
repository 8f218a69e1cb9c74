import LibFiber.Mpmc.Machine

namespace LibFiber.Mpmc

open Semantics Data Function

/-! The nodes of `mpmc_fifo` make up a `LinkedFifo` along the `prev` fields, as long
as no node is used again while a thread has it validated: a head that a thread
validated stays the head or is past for good. -/

inductive Owner (Thread : Type) where
  | client
  /-- In `mpmc_fifo_push`, before the compare-and-swap of `tail`. -/
  | pusher (thread : Thread)
  | queue
  /-- In `mpmc_fifo_trypop`, behind the compare-and-swap of `head`. -/
  | popper (thread : Thread)
  | retired
deriving DecidableEq

def Owner.status {Thread : Type} : Owner Thread → Status
  | .client => .free
  | .pusher _ | .queue | .popper _ => .busy
  | .retired => .retired

/-- Taken out of the queue and not used again. -/
def Owner.past {Thread : Type} : Owner Thread → Bool
  | .popper _ | .retired | .client => true
  | .pusher _ | .queue => false

namespace Phase

variable {Node Value : Type}

def pending : Phase Node Value → Option (Node × Node)
  | .linking tail node => some (tail, node)
  | _ => none

def claims : Phase Node Value → Option Node
  | .resetting node | .loadingTail node | .publishingTail node _ | .checkingTail node _
  | .swappingTail node _ => some node
  | _ => none

/-- The node whose `prev` field the push has cleared. -/
def ended : Phase Node Value → Option Node
  | .loadingTail node | .publishingTail node _ | .checkingTail node _ | .swappingTail node _ =>
    some node
  | _ => none

def holds : Phase Node Value → Option Node
  | .clearingHead head _ | .clearingPrev head _ | .retiring head _ => some head
  | _ => none

/-- What the thread knows to be in its slots. -/
def shows : Phase Node Value → Nat → Option Node
  | .checkingTail _ tail, 0 => some tail
  | .checkingHead head, 0 => some head
  | .recheckingHead _ prev, 1 => some prev
  | phase, index => phase.protects index

theorem shows_of_protects {phase : Phase Node Value} {index : Nat} {node : Node}
    (protects : phase.protects index = some node) : phase.shows index = some node := by
  cases phase with
  | checkingTail | checkingHead => cases protects
  | recheckingHead head prev =>
    rcases index with _ | _ | index
    · exact protects
    · cases protects
    · cases protects
  | _ => exact protects

end Phase

section Invariant

variable {Thread Node Value : Type}

def State.pending (state : State Thread Node Value) : Thread → Option (Node × Node) :=
  Phase.pending ∘ state.phase

def Passed (state : State Thread Node Value) (owner : Node → Owner Thread) (node : Node) : Prop :=
  state.prev node ≠ none ∧ (owner node).past

/-- What a pop's local variables say about the queue. -/
def Phase.Fits (state : State Thread Node Value) (owner : Node → Owner Thread) :
    Phase Node Value → Prop
  | .readingPrev head => head = state.head ∨ Passed state owner head
  | .publishingPrev head prev | .recheckingHead head prev | .readingValue head prev =>
    (head = state.head ∧ state.prev head = some prev) ∨ Passed state owner head
  | .swappingHead head prev value =>
    (head = state.head ∧ state.prev head = some prev ∧ state.value prev = value) ∨
      Passed state owner head
  | _ => True

structure Local (state : State Thread Node Value) (owner : Node → Owner Thread) (thread : Thread)
    (phase : Phase Node Value) : Prop where
  claims : ∀ node, phase.claims = some node → owner node = .pusher thread
  holds : ∀ node, phase.holds = some node → owner node = .popper thread
  ended : ∀ node, phase.ended = some node → state.prev node = none
  slots : ∀ index node, phase.shows index = some node → state.slot (thread, index) = some node
  fits : phase.Fits state owner

structure Sound (state : State Thread Node Value) (queue : LinkedFifo Node)
    (owner : Node → Owner Thread) : Prop where
  published : LinkedFifo.Published state.prev state.head state.tail state.pending queue
  status : ∀ node, state.status node = (owner node).status
  queued : ∀ node ∈ state.head :: queue.members, owner node = .queue
  threads : ∀ thread, Local state owner thread (state.phase thread)

/-- What a step of another thread, a client or the reclamation leaves as it is. -/
structure Spares (state : State Thread Node Value) (owner : Node → Owner Thread)
    (after : State Thread Node Value) (later : Node → Owner Thread) (thread : Thread)
    (phase : Phase Node Value) : Prop where
  owned : ∀ node, owner node = .pusher thread ∨ owner node = .popper thread →
    later node = owner node
  prev : ∀ node, owner node = .pusher thread → after.prev node = state.prev node
  slot : ∀ index, after.slot (thread, index) = state.slot (thread, index)
  passed : ∀ head, phase.protects 0 = some head → Passed state owner head → Passed after later head
  head : after.head = state.head ∨ Passed after later state.head
  front : ∀ prev, state.prev state.head = some prev →
    after.prev state.head = some prev ∧ after.value prev = state.value prev

variable {state : State Thread Node Value} {queue : LinkedFifo Node}
variable {owner : Node → Owner Thread}
variable {phase : Phase Node Value}

theorem Spares.fits (spares : Spares state owner after later thread phase)
    (fits : phase.Fits state owner) : phase.Fits after later := by
  cases phase with
  | readingPrev head =>
    rcases fits with rfl | passed
    · exact spares.head.imp Eq.symm id
    · exact .inr (spares.passed head rfl passed)
  | publishingPrev head prev | recheckingHead head prev | readingValue head prev =>
    rcases fits with ⟨rfl, leads⟩ | passed
    · exact spares.head.imp (fun same => ⟨same.symm, (spares.front prev leads).1⟩) id
    · exact .inr (spares.passed head rfl passed)
  | swappingHead head prev value =>
    rcases fits with ⟨rfl, leads, read⟩ | passed
    · obtain ⟨still, same⟩ := spares.front prev leads
      exact spares.head.imp (fun kept => ⟨kept.symm, still, same.trans read⟩) id
    · exact .inr (spares.passed head rfl passed)
  | _ => trivial

theorem Spares.of_slots {phases : Thread → Phase Node Value} {slot : Thread × Nat → Option Node}
    (slots : ∀ index, slot (thread, index) = state.slot (thread, index)) :
    Spares state owner { state with slot, phase := phases } owner thread phase :=
  ⟨fun _ _ => rfl, fun _ _ => rfl, slots, fun _ _ passed => passed, .inl rfl,
    fun _ leads => ⟨leads, rfl⟩⟩

theorem ended_claims (ended : phase.ended = some node) : phase.claims = some node := by
  cases phase with
  | loadingTail | publishingTail | checkingTail | swappingTail => exact ended
  | _ => cases ended

theorem Local.spared (holds : Local state owner thread phase)
    (spares : Spares state owner after later thread phase) : Local after later thread phase where
  claims node claimed := by
    have owned := holds.claims node claimed
    rw [spares.owned node (.inl owned), owned]
  holds node held := by
    have owned := holds.holds node held
    rw [spares.owned node (.inr owned), owned]
  ended node ended := by
    rw [spares.prev node (holds.claims node (ended_claims ended))]
    exact holds.ended node ended
  slots index node shown := (spares.slot index).trans (holds.slots index node shown)
  fits := spares.fits holds.fits

theorem Local.of_idle (claims : phase.claims = none) (holds : phase.holds = none)
    (shows : ∀ index, phase.shows index = none) (fits : phase.Fits state owner) :
    Local state owner thread phase where
  claims node claimed := by simp [claims] at claimed
  holds node held := by simp [holds] at held
  ended node ended := by simp [ended_claims ended] at claims
  slots index node shown := by simp [shows] at shown
  fits := fits

theorem shows_add_two (phase : Phase Node Value) (index : Nat) :
    phase.shows (index + 2) = none := by
  cases phase <;> rfl

theorem slots_of {slot : Thread × Nat → Option Node}
    (first : ∀ node, phase.shows 0 = some node → slot (thread, 0) = some node)
    (second : ∀ node, phase.shows 1 = some node → slot (thread, 1) = some node)
    (index : Nat) (node : Node) (shown : phase.shows index = some node) :
    slot (thread, index) = some node := by
  rcases index with _ | _ | index
  · exact first node shown
  · exact second node shown
  · simp [shows_add_two] at shown

theorem Reads.holds
    (reads : Reads state spurious phase next) (holds : Local state owner thread phase) :
    Local state owner thread next := by
  have first := holds.slots 0
  have second := holds.slots 1
  cases reads with
  | loadTail | rejectTail | missTail =>
    exact ⟨holds.claims, nofun, holds.ended, nofun, trivial⟩
  | confirmTail => exact ⟨holds.claims, nofun, holds.ended, slots_of first nofun, trivial⟩
  | loadHead | rejectHead | readNull | rereject | missHead =>
    exact .of_idle rfl rfl (fun _ => rfl) trivial
  | confirmHead => exact ⟨nofun, nofun, nofun, slots_of first nofun, .inl rfl⟩
  | readPrev found =>
    refine ⟨nofun, nofun, nofun, slots_of first nofun, ?_⟩
    exact holds.fits.imp (fun same => ⟨same, found⟩) id
  | reconfirm => exact ⟨nofun, nofun, nofun, slots_of first second, holds.fits⟩
  | readValue =>
    refine ⟨nofun, nofun, nofun, slots_of first second, ?_⟩
    exact holds.fits.imp (fun found => ⟨found.1, found.2, rfl⟩) id

theorem Reads.pending (reads : Reads state spurious phase next) : next.pending = phase.pending := by
  cases reads <;> rfl

theorem Stores.pending (stores : Stores phase index stored next) :
    next.pending = phase.pending := by
  cases stores <;> rfl

theorem pending_eq (phase : state.phase thread = .linking tail node) :
    state.pending thread = some (tail, node) := by
  simp [State.pending, phase, Phase.pending]

theorem Sound.front (sound : Sound state queue owner)
    (phase : state.phase thread = .swappingHead state.head prev value) :
    state.prev state.head = some prev ∧ state.value prev = value := by
  have fits := (sound.threads thread).fits
  rw [phase] at fits
  rcases fits with ⟨_, leads, read⟩ | ⟨_, past⟩
  · exact ⟨leads, read⟩
  · simp [sound.queued state.head List.mem_cons_self, Owner.past] at past

variable [DecidableEq Thread]

theorem Stores.holds
    (stores : Stores phase index stored next) (holds : Local state owner thread phase) :
    Local (state.store thread index stored) owner thread next := by
  have first := holds.slots 0
  have written : ∀ index stored, (state.store thread index stored).slot (thread, index) = stored :=
    fun index stored => update_self _ _ _
  cases stores with
  | tail =>
    refine ⟨holds.claims, nofun, holds.ended, slots_of ?_ nofun, trivial⟩
    exact fun node shown => (written 0 _).trans shown
  | pushed | empty => exact .of_idle rfl rfl (fun _ => rfl) trivial
  | head =>
    refine ⟨nofun, nofun, nofun, slots_of ?_ nofun, trivial⟩
    exact fun node shown => (written 0 _).trans shown
  | prev =>
    refine ⟨nofun, nofun, nofun, slots_of ?_ ?_, holds.fits⟩
    · intro node shown
      exact (update_of_ne (by simp) _ _).trans (first node shown)
    · exact fun node shown => (written 1 _).trans shown
  | clearHead | clearPrev => exact ⟨nofun, holds.holds, nofun, nofun, trivial⟩

section

variable (sound : Sound state queue owner)
include sound

theorem Sound.moved (phases : after.phase = update state.phase thread next)
    (published : LinkedFifo.Published after.prev after.head after.tail after.pending rest)
    (status : ∀ node, after.status node = (later node).status)
    (queued : ∀ node ∈ after.head :: rest.members, later node = .queue)
    (mover : Local after later thread next) (spares : ∀ other, other ≠ thread →
      Spares state owner after later other (state.phase other)) :
    Sound after rest later := by
  refine ⟨published, status, queued, fun other => ?_⟩
  rw [phases]
  by_cases same : other = thread
  · subst other
    rw [update_self]
    exact mover
  · rw [update_of_ne same]
    exact (sound.threads other).spared (spares other same)

theorem Sound.goto (still : next.pending = (state.phase thread).pending)
    (mover : Local state owner thread next) : Sound (state.goto thread next) queue owner := by
  refine sound.moved rfl ?_ sound.status sound.queued ?_ fun other apart => ?_
  · have same : (state.goto thread next).pending = state.pending := comp_update_of_eq still
    rw [same]
    exact sound.published
  · exact mover.spared (.of_slots fun _ => rfl)
  · exact .of_slots fun _ => rfl

theorem read_sound (reads : Reads state spurious (state.phase thread) next) :
    Sound (state.goto thread next) queue owner :=
  sound.goto reads.pending (reads.holds (sound.threads thread))

theorem trypop_sound (resting : (state.phase thread).resting) :
    Sound (state.goto thread .loadingHead) queue owner := by
  refine sound.goto ?_ (.of_idle rfl rfl (fun _ => rfl) trivial)
  cases phase : state.phase thread with
  | idle | returned => rfl
  | _ => simp [phase, Phase.resting] at resting

theorem store_sound (stores : Stores (state.phase thread) index stored next) :
    Sound ((state.store thread index stored).goto thread next) queue owner := by
  refine sound.moved rfl ?_ sound.status sound.queued ?_ fun other apart => ?_
  · have same : ((state.store thread index stored).goto thread next).pending = state.pending :=
      comp_update_of_eq stores.pending
    rw [same]
    exact sound.published
  · exact (stores.holds (sound.threads thread)).spared (.of_slots fun _ => rfl)
  · exact .of_slots fun place => update_of_ne (by simp [apart]) _ _

omit [DecidableEq Thread] in
theorem Sound.unmoved (phases : after.phase = state.phase)
    (published : LinkedFifo.Published after.prev after.head after.tail after.pending queue)
    (status : ∀ node, after.status node = (later node).status)
    (queued : ∀ node ∈ after.head :: queue.members, later node = .queue)
    (spares : ∀ thread, Spares state owner after later thread (state.phase thread)) :
    Sound after queue later := by
  refine ⟨published, status, queued, fun thread => ?_⟩
  rw [phases]
  exact (sound.threads thread).spared (spares thread)

omit [DecidableEq Thread] in
theorem Sound.front_mem (leads : state.prev state.head = some prev) : prev ∈ queue.members :=
  sound.published.represents.links.next_mem List.mem_cons_self leads

omit [DecidableEq Thread] in
theorem Sound.apart (owned : owner node = was) (outside : .queue ≠ was) {member : Node}
    (listed : member ∈ state.head :: queue.members) : member ≠ node := by
  rintro rfl
  exact outside ((sound.queued member listed).symm.trans owned)

omit [DecidableEq Thread] in
theorem Sound.spares_outside (owned : owner node = was) (outside : .queue ≠ was)
    (others : .pusher other ≠ was) (unheld : .popper other ≠ was)
    (unpast : phase.protects 0 = some node → was.past = false) (head : after.head = state.head)
    (slot : after.slot = state.slot) (same : ∀ member, member ≠ node → later member = owner member)
    (prev : ∀ member, member ≠ node → after.prev member = state.prev member)
    (value : ∀ member, member ≠ node → after.value member = state.value member) :
    Spares state owner after later other phase := by
  have apart : ∀ {member : Node}, member ∈ state.head :: queue.members → member ≠ node :=
    fun listed => sound.apart owned outside listed
  refine ⟨?_, ?_, fun index => congrFun slot _, ?_, .inl head, ?_⟩
  · rintro member (held | held)
    · refine same member ?_
      rintro rfl
      exact others (held.symm.trans owned)
    · refine same member ?_
      rintro rfl
      exact unheld (held.symm.trans owned)
  · intro member held
    refine prev member ?_
    rintro rfl
    exact others (held.symm.trans owned)
  · rintro member protects ⟨leads, past⟩
    have different : member ≠ node := by
      rintro rfl
      simp [owned, unpast protects] at past
    refine ⟨?_, ?_⟩
    · rw [prev member different]
      exact leads
    · rw [same member different]
      exact past
  · intro front leads
    refine ⟨(prev state.head (apart List.mem_cons_self)).trans leads, value front ?_⟩
    exact apart (List.mem_cons_of_mem _ (sound.front_mem leads))

omit [DecidableEq Thread] in
theorem Sound.owner_of_free (free : state.status node = .free) :
    owner node = .client := by
  rw [sound.status node] at free
  cases owned : owner node with
  | client => rfl
  | _ => simp [owned, Owner.status] at free

omit [DecidableEq Thread] in
theorem Sound.owner_of_retired (retired : state.status node = .retired) :
    owner node = .retired := by
  rw [sound.status node] at retired
  cases owned : owner node with
  | retired => rfl
  | _ => simp [owned, Owner.status] at retired

end

variable [DecidableEq Node]

section

variable (sound : Sound state queue owner)
include sound

omit [DecidableEq Thread] in
theorem Sound.status_update (now : Owner Thread) (member : Node) :
    update state.status node now.status member = (update owner node now member).status := by
  by_cases same : member = node
  · rw [same, update_self, update_self]
  · rw [update_of_ne same, update_of_ne same]
    exact sound.status member

omit [DecidableEq Thread] in
theorem Sound.queued_update (owned : owner node = was) (outside : .queue ≠ was) :
    ∀ member ∈ state.head :: queue.members, update owner node now member = .queue := by
  intro member listed
  rw [update_of_ne (sound.apart owned outside listed)]
  exact sound.queued member listed

omit [DecidableEq Thread] in
theorem fill_sound {prev : Option Node}
    (free : state.status node = .free) (careful : Careful state (.fill node value prev)) :
    Sound { state with value := update state.value node value, prev := update state.prev node prev }
      queue owner := by
  have owned := sound.owner_of_free free
  refine sound.unmoved rfl ?_ sound.status sound.queued fun thread => ?_
  · exact sound.published.congr fun member listed =>
      update_of_ne (sound.apart owned nofun listed) _ _
  · exact sound.spares_outside owned nofun nofun nofun
      (fun protects => (careful node rfl thread 0 protects).elim) rfl rfl (fun _ _ => rfl)
      (fun _ different => update_of_ne different _ _)
      (fun _ different => update_of_ne different _ _)

theorem push_sound (resting : (state.phase thread).resting) (free : state.status node = .free)
    (careful : Careful state (.push thread node)) :
    Sound
      { state with
        status := update state.status node .busy
        phase := update state.phase thread (.resetting node) }
      queue (update owner node (.pusher thread)) := by
  have owned := sound.owner_of_free free
  have quiet : Phase.pending ∘ update state.phase thread (.resetting node) = state.pending := by
    refine comp_update_of_eq ?_
    cases phase : state.phase thread with
    | idle | returned => rfl
    | _ => simp [phase, Phase.resting] at resting
  refine sound.moved rfl ?_ (sound.status_update (.pusher thread))
    (sound.queued_update owned nofun) ?_ fun other apart => ?_
  · rw [State.pending, quiet]
    exact sound.published
  · refine ⟨?_, nofun, nofun, nofun, trivial⟩
    rintro _ ⟨⟩
    exact update_self _ _ _
  · exact sound.spares_outside owned nofun nofun nofun
      (fun protects => (careful node rfl other 0 protects).elim) rfl rfl
      (fun _ different => update_of_ne different _ _) (fun _ _ => rfl) (fun _ _ => rfl)

theorem reset_sound (phase : state.phase thread = .resetting node) :
    Sound
      { state with
        prev := update state.prev node none
        phase := update state.phase thread (.loadingTail node) }
      queue owner := by
  have owned := (sound.threads thread).claims node (by rw [phase]; rfl)
  have quiet : Phase.pending ∘ update state.phase thread (.loadingTail node) = state.pending :=
    comp_update_of_eq (by rw [phase]; rfl)
  refine sound.moved rfl ?_ sound.status sound.queued ?_ fun other apart => ?_
  · rw [State.pending, quiet]
    exact sound.published.congr fun member listed =>
      update_of_ne (sound.apart owned nofun listed) _ _
  · refine ⟨?_, nofun, ?_, nofun, trivial⟩
    · rintro _ ⟨⟩
      exact owned
    · rintro _ ⟨⟩
      exact update_self _ _ _
  · exact sound.spares_outside owned nofun (by simpa using apart) nofun (fun _ => rfl) rfl rfl
      (fun _ _ => rfl) (fun _ different => update_of_ne different _ _) (fun _ _ => rfl)

theorem swapTail_sound (phase : state.phase thread = .swappingTail node state.tail) :
    Sound
      { state with
        tail := node
        phase := update state.phase thread (.linking state.tail node) }
      (queue.exchange node) (update owner node .queue) := by
  have own := sound.threads thread
  rw [phase] at own
  have owned := own.claims node rfl
  have idle : state.pending thread = none := by simp [State.pending, phase, Phase.pending]
  refine sound.moved rfl ?_ ?_ ?_ ?_ fun other apart => ?_
  · rw [State.pending, comp_update]
    exact sound.published.exchange idle (fun listed => sound.apart owned nofun listed rfl)
      (own.ended node rfl)
  · intro member
    by_cases same : member = node
    · rw [same, update_self]
      exact (sound.status node).trans (by rw [owned]; rfl)
    · rw [update_of_ne same]
      exact sound.status member
  · intro member listed
    rw [LinkedFifo.members_exchange, ← List.cons_append] at listed
    rcases List.mem_append.mp listed with earlier | last
    · exact sound.queued_update owned nofun member earlier
    · rw [List.mem_singleton.mp last]
      exact update_self _ _ _
  · exact ⟨nofun, nofun, nofun, slots_of (own.slots 0) nofun, trivial⟩
  · exact sound.spares_outside owned nofun (by simpa using apart) nofun (fun _ => rfl) rfl rfl
      (fun _ different => update_of_ne different _ _) (fun _ _ => rfl) (fun _ _ => rfl)

theorem link_sound (phase : state.phase thread = .linking tail node) :
    Sound
      { state with
        prev := update state.prev tail (some node)
        phase := update state.phase thread .unpublishing }
      (queue.link node) owner := by
  have awaits := sound.published.waits (pending_eq phase)
  have owned := sound.queued tail awaits.mem.1
  have unset := sound.published.represents.links.next_awaits awaits
  have different : ∀ member, owner member ≠ .queue → member ≠ tail := by
    rintro member outside rfl
    exact outside owned
  refine sound.moved rfl ?_ sound.status ?_ (.of_idle rfl rfl (fun _ => rfl) trivial)
    fun other apart => ⟨fun _ _ => rfl, ?_, fun _ => rfl, ?_, .inl rfl, ?_⟩
  · rw [State.pending, comp_update]
    exact sound.published.link (pending_eq phase)
  · exact fun member listed => sound.queued member (by simpa using listed)
  · intro member held
    exact update_of_ne (different member (by rw [held]; nofun)) _ _
  · rintro member _ ⟨leads, past⟩
    have outside : owner member ≠ .queue := by
      intro queued
      simp [queued, Owner.past] at past
    refine ⟨?_, past⟩
    show update state.prev tail (some node) member ≠ none
    rw [update_of_ne (different member outside)]
    exact leads
  · intro front leads
    have different : state.head ≠ tail := by
      intro same
      simp [← same, leads] at unset
    exact ⟨(update_of_ne different _ _).trans leads, rfl⟩

theorem swapHead_sound (phase : state.phase thread = .swappingHead state.head prev value)
    (popped : queue.trypop = some (prev, rest)) :
    Sound
      { state with
        head := prev
        phase := update state.phase thread (.clearingHead state.head value) }
      rest (update owner state.head (.popper thread)) := by
  obtain ⟨leads, _⟩ := sound.front phase
  have owned := sound.queued state.head List.mem_cons_self
  have quiet : Phase.pending ∘ update state.phase thread (.clearingHead state.head value) =
      state.pending := comp_update_of_eq (by rw [phase]; rfl)
  have distinct := sound.published.represents.distinct
  rw [LinkedFifo.members_trypop popped] at distinct
  have different : ∀ member, owner member ≠ .queue → member ≠ state.head := by
    rintro member outside rfl
    exact outside owned
  refine sound.moved rfl ?_ ?_ ?_ ?_ fun other apart => ⟨?_, fun _ _ => rfl, fun _ => rfl, ?_, ?_,
    fun _ leads => ⟨leads, rfl⟩⟩
  · rw [State.pending, quiet]
    exact sound.published.trypop popped
  · intro member
    by_cases same : member = state.head
    · rw [same, update_self]
      exact (sound.status state.head).trans (by rw [owned]; rfl)
    · rw [update_of_ne same]
      exact sound.status member
  · intro member listed
    have apart : member ≠ state.head := by
      rintro rfl
      exact (List.nodup_cons.mp distinct).1 listed
    rw [update_of_ne apart]
    refine sound.queued member (List.mem_cons_of_mem _ ?_)
    rw [LinkedFifo.members_trypop popped]
    exact listed
  · refine ⟨nofun, ?_, nofun, nofun, trivial⟩
    rintro _ ⟨⟩
    exact update_self _ _ _
  · rintro member (held | held)
    · exact update_of_ne (different member (by rw [held]; nofun)) _ _
    · exact update_of_ne (different member (by rw [held]; nofun)) _ _
  · rintro member _ ⟨leads, past⟩
    have outside : owner member ≠ .queue := by
      intro queued
      simp [queued, Owner.past] at past
    refine ⟨leads, ?_⟩
    rw [update_of_ne (different member outside)]
    exact past
  · refine .inr ⟨?_, ?_⟩
    · rw [leads]
      nofun
    · rw [update_self]
      rfl

end

omit [DecidableEq Thread] in
theorem Spares.of_past (owned : owner node = was) (past : was.past) (others : .popper other ≠ was)
    (still : now.past) {status : Node → Status} {phases : Thread → Phase Node Value} :
    Spares state owner { state with status, phase := phases } (update owner node now) other
      phase := by
  refine ⟨?_, fun _ _ => rfl, fun _ => rfl, ?_, .inl rfl, fun _ leads => ⟨leads, rfl⟩⟩
  · rintro member (held | held)
    · refine update_of_ne ?_ _ _
      rintro rfl
      rw [← owned, held] at past
      cases past
    · refine update_of_ne ?_ _ _
      rintro rfl
      exact others (held.symm.trans owned)
  · rintro member _ ⟨leads, earlier⟩
    refine ⟨leads, ?_⟩
    by_cases same : member = node
    · rw [same, update_self]
      exact still
    · rw [update_of_ne same]
      exact earlier

theorem retire_sound (sound : Sound state queue owner)
    (phase : state.phase thread = .retiring head value) :
    Sound
      { state with
        status := update state.status head .retired
        phase := update state.phase thread (.returned (some value)) }
      queue (update owner head .retired) := by
  have owned := (sound.threads thread).holds head (by rw [phase]; rfl)
  have quiet : Phase.pending ∘ update state.phase thread (.returned (some value)) =
      state.pending := comp_update_of_eq (by rw [phase]; rfl)
  refine sound.moved rfl ?_ (sound.status_update .retired) (sound.queued_update owned nofun)
    (.of_idle rfl rfl (fun _ => rfl) trivial) fun other apart => ?_
  · rw [State.pending, quiet]
    exact sound.published
  · exact .of_past owned rfl (by simpa using apart) rfl

omit [DecidableEq Thread] in
theorem pass_sound (now : Owner Thread) (sound : Sound state queue owner)
    (owned : owner node = was) (before : was = .client ∨ was = .retired) (past : now.past) :
    Sound { state with status := update state.status node now.status } queue
      (update owner node now) := by
  have outside : .queue ≠ was := by
    rcases before with rfl | rfl <;> nofun
  refine sound.unmoved rfl sound.published (sound.status_update now)
    (sound.queued_update owned outside) fun thread => ?_
  rcases before with rfl | rfl
  · exact .of_past owned rfl nofun past
  · exact .of_past owned rfl nofun past

omit [DecidableEq Thread] in
theorem init_sound (initialNode : Node) (prev : Node → Option Node) (value : Node → Value) :
    Sound (init initialNode prev value : State Thread Node Value) LinkedFifo.empty
      (update (fun _ => .client) initialNode .queue) where
  published := .empty (update_self _ _ _) (fun _ => rfl)
  status node := by
    by_cases same : node = initialNode
    · rw [same]
      simp [init, Owner.status]
    · simp [init, update_of_ne same, Owner.status]
  queued node listed := by
    obtain rfl : node = initialNode := by
      simpa [init, LinkedFifo.empty, LinkedFifo.members] using listed
    exact update_self _ _ _
  threads _ := .of_idle rfl rfl (fun _ => rfl) trivial

omit [DecidableEq Thread] [DecidableEq Node] in
theorem Sound.busy_of_queued (sound : Sound state queue owner)
    (listed : node ∈ state.head :: queue.members) : state.status node = .busy := by
  rw [sound.status, sound.queued node listed]
  rfl

omit [DecidableEq Node] [DecidableEq Thread] in
theorem Reads.protects (sound : Sound state queue owner) (reads : Reads state spurious phase next)
    (holds : Local state owner thread phase) (protects : next.protects index = some node) :
    phase.protects index = some node ∨ node ∈ state.head :: queue.members := by
  cases reads with
  | confirmTail =>
    rcases index with _ | index
    · obtain rfl : state.tail = node := by simpa [Phase.protects] using protects
      exact .inr sound.published.represents.links.tail_mem
    · cases protects
  | confirmHead =>
    rcases index with _ | index
    · obtain rfl : state.head = node := by simpa [Phase.protects] using protects
      exact .inr List.mem_cons_self
    · cases protects
  | readPrev =>
    rcases index with _ | index
    · exact .inl protects
    · cases protects
  | @reconfirm prev =>
    rcases index with _ | _ | index
    · exact .inl protects
    · obtain rfl : prev = node := by simpa [Phase.protects] using protects
      rcases holds.fits with ⟨_, leads⟩ | ⟨_, past⟩
      · exact .inr (List.mem_cons_of_mem _ (sound.front_mem leads))
      · simp [sound.queued state.head List.mem_cons_self, Owner.past] at past
    · cases protects
  | readValue =>
    rcases index with _ | _ | index
    · exact .inl protects
    · exact .inl protects
    · cases protects
  | loadTail | rejectTail | missTail | loadHead | rejectHead | readNull | rereject | missHead =>
    cases protects

omit [DecidableEq Node] in
theorem protects_update
    (protects : (update state.phase thread next other).protects index = some node) :
    other = thread ∧ next.protects index = some node ∨
      (state.phase other).protects index = some node := by
  by_cases same : other = thread
  · subst other
    rw [update_self] at protects
    exact .inl ⟨rfl, protects⟩
  · rw [update_of_ne same] at protects
    exact .inr protects

theorem Move.protects (move : Move state action after) (sound : Sound state queue owner)
    (protects : (after.phase other).protects index = some node) :
    (state.phase other).protects index = some node ∨ node ∈ state.head :: queue.members := by
  cases move with
  | fill | dispose | reclaim => exact .inl protects
  | push | trypop | reset | link | swapHead | retire =>
    rcases protects_update protects with ⟨_, now⟩ | before
    · cases now
    · exact .inl before
  | @read _ thread _ reads =>
    rcases protects_update protects with ⟨rfl, now⟩ | before
    · exact reads.protects sound (sound.threads other) now
    · exact .inl before
  | @store thread _ _ _ _ stores =>
    rcases protects_update protects with ⟨rfl, now⟩ | before
    · left
      generalize state.phase other = phase at stores ⊢
      cases stores with
      | prev =>
        rcases index with _ | index
        · exact now
        · cases now
      | tail | pushed | head | empty | clearHead | clearPrev => cases now
    · exact .inl before
  | @swapTail thread _ phase =>
    rcases protects_update protects with ⟨rfl, now⟩ | before
    · left
      rw [phase]
      rcases index with _ | index
      · exact now
      · cases now
    · exact .inl before

end Invariant

end LibFiber.Mpmc
