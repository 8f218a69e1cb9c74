import LibFiber.Data.LinkedNodes
import LibFiber.Semantics.Machine

namespace LibFiber.EventChannel

open Data Data.LinkedFifo Semantics Function

/-! `UnboundedMultiProducerChannel` and `UnboundedSingleProducerChannel`: whose memory
`freeEvent` releases.

A step is a whole call.  An event is known by the block of memory that it is stored in,
an `event_wrapper`, whose first part is a node of the queue.  The queue returns a value
in the node that was its head, so the block that an event names as its `wrapper` is
another one than its own.  The two channels differ in their queues only, which do the
same when no call comes between another one's steps.  The descriptor and the payload of
an event are left out.
-/

/-- What a client may do with an event. -/
inductive Status where
  | absent
  /-- Allocated or received, and neither freed nor sent since. -/
  | held
  | sent
deriving DecidableEq, Repr

structure State (Block : Type) where
  head : Block
  tail : Block
  next : Block → Option Block
  /-- The block of the event that a node of the queue carries. -/
  data : Block → Block
  /-- `wrapper` of the event in the block -/
  wrapper : Block → Block
  allocated : Block → Bool
  status : Block → Status
  /-- The events received and not freed since, oldest first.  No call reads this. -/
  receipts : List Block

inductive Action (Block : Type) where
  /-- Memory that is not allocated changes. -/
  | scribble (block : Block) (next : Option Block) (data wrapper : Block)
  | allocEvent (block : Block)
  | send (event : Block)
  | receive
  | tryReceive
  | freeEvent (event : Block)
deriving DecidableEq, Repr

section Steps

variable {Block : Type} [DecidableEq Block]

/-- `mpsc_fifo_push`, `spsc_fifo_push` -/
def State.push (state : State Block) (newNode : Block) : State Block :=
  { state with
    next := update (update state.next newNode none) state.tail (some newNode)
    tail := newNode }

/-- `mpsc_fifo_trypop`, `spsc_fifo_trypop`, with the node that they return -/
def State.trypop (state : State Block) : Option (Block × State Block) :=
  match state.next state.head with
  | some headNext =>
    some (state.head, { state with
      head := headNext
      data := update state.data state.head (state.data headNext) })
  | none => none

/-- The event of a message names the message as its wrapper. -/
def State.unwrap (state : State Block) (message : Block) : State Block :=
  { state with
    wrapper := update state.wrapper (state.data message) message
    status := update state.status (state.data message) .held
    receipts := state.receipts ++ [state.data message] }

def step (state : State Block) : Action Block → Option (State Block)
  | .scribble block next data wrapper =>
    if state.allocated block = false then
      some { state with
        next := update state.next block next
        data := update state.data block data
        wrapper := update state.wrapper block wrapper }
    else none
  | .allocEvent block =>
    if state.allocated block = false then
      some { state with
        data := update state.data block block
        wrapper := update state.wrapper block block
        allocated := update state.allocated block true
        status := update state.status block .held }
    else none
  | .send event =>
    if state.status event = .held then
      some { state.push (state.wrapper event) with status := update state.status event .sent }
    else none
  | .receive => state.trypop.map fun popped => popped.2.unwrap popped.1
  | .tryReceive =>
    match state.trypop with
    | some (message, popped) => some (popped.unwrap message)
    | none => some state
  | .freeEvent event =>
    if state.status event = .held then
      some { state with
        allocated := update state.allocated (state.wrapper event) false
        status := update state.status event .absent
        receipts := state.receipts.filter (· ≠ event) }
    else none

end Steps

/-- The channel with its first node, and no event yet. -/
def Initial {Block : Type} (state : State Block) : Prop :=
  state.tail = state.head ∧ state.next state.head = none ∧ state.allocated state.head ∧
    (state.status = fun _ => .absent) ∧ state.receipts = []

def machine (Block : Type) [DecidableEq Block] : Machine (State Block) (Action Block) where
  initial := Initial
  step := step

/-- An event that was received is freed when all other events received before it are. -/
def InTurn {Block : Type} (state : State Block) : Action Block → Prop
  | .freeEvent event =>
    ∀ earlier ∈ state.receipts, [earlier, event].Sublist state.receipts → earlier = event
  | _ => True

instance {Block : Type} [DecidableEq Block] (state : State Block) :
    (action : Action Block) → Decidable (InTurn state action)
  | .freeEvent event => inferInstanceAs (Decidable (∀ earlier ∈ state.receipts,
      [earlier, event].Sublist state.receipts → earlier = event))
  | .scribble _ _ _ _ | .allocEvent _ | .send _ | .receive | .tryReceive =>
    inferInstanceAs (Decidable True)

section Moves

variable {Block : Type} [DecidableEq Block]

/-- A message is received. -/
def State.received (state : State Block) (headNext : Block) : State Block :=
  { state with
    head := headNext
    data := update state.data state.head (state.data headNext)
    wrapper := update state.wrapper (state.data headNext) state.head
    status := update state.status (state.data headNext) .held
    receipts := state.receipts ++ [state.data headNext] }

theorem trypop_unwrap {state popped : State Block} {message : Block}
    (pops : state.trypop = some (message, popped)) :
    ∃ headNext, state.next state.head = some headNext ∧
      popped.unwrap message = state.received headNext := by
  cases leads : state.next state.head with
  | none => simp [State.trypop, leads] at pops
  | some headNext =>
    simp only [State.trypop, leads] at pops
    cases pops
    exact ⟨headNext, rfl, by simp [State.unwrap, State.received]⟩

inductive Move (state : State Block) : Action Block → State Block → Prop where
  | scribble : state.allocated block = false →
      Move state (.scribble block next data wrapper)
        { state with
          next := update state.next block next
          data := update state.data block data
          wrapper := update state.wrapper block wrapper }
  | allocEvent : state.allocated block = false →
      Move state (.allocEvent block)
        { state with
          data := update state.data block block
          wrapper := update state.wrapper block block
          allocated := update state.allocated block true
          status := update state.status block .held }
  | send : state.status event = .held →
      Move state (.send event)
        { state.push (state.wrapper event) with status := update state.status event .sent }
  | receive : action = .receive ∨ action = .tryReceive →
      state.next state.head = some headNext → Move state action (state.received headNext)
  | nothing : Move state .tryReceive state
  | freeEvent : state.status event = .held →
      Move state (.freeEvent event)
        { state with
          allocated := update state.allocated (state.wrapper event) false
          status := update state.status event .absent
          receipts := state.receipts.filter (· ≠ event) }

attribute [local grind intro] Move

theorem step_moves {state after : State Block} {action : Action Block}
    (stepped : step state action = some after) : Move state action after := by
  cases action with
  | scribble | allocEvent | send | freeEvent =>
    simp only [step] at stepped
    grind
  | receive | tryReceive =>
    cases pops : state.trypop <;> simp only [step, pops, Option.map_none, Option.map_some,
      reduceCtorEq, Option.some.injEq] at stepped
    all_goals first | exact stepped ▸ .nothing | grind [trypop_unwrap pops]

end Moves

section Invariant

variable {Block : Type}

/-- Each node of the queue carries an event that was sent, and the wrapper of an event
that is held is no node of the queue and carries the event. -/
structure Wrapped (state : State Block) (nodes : List Block) : Prop where
  represents : Represents state.next state.head state.tail (ofNodes nodes)
  linked : ∀ block ∈ state.head :: nodes, state.allocated block
  carries : ∀ node ∈ nodes, state.status (state.data node) = .sent
  once : (nodes.map state.data).Nodup
  outside : ∀ event, state.status event = .held → state.wrapper event ∉ state.head :: nodes
  wrapped : ∀ event, state.status event = .held →
    state.allocated (state.wrapper event) ∧ state.data (state.wrapper event) = event

/-- Where the other blocks' events were received: a wrapper stores no event, or its own,
or one that was received before its own. -/
structure Traced (state : State Block) (nodes : List Block) : Prop where
  stored : ∀ event, state.status event ≠ .absent → state.allocated event
  earlier : ∀ event, state.status event = .held → state.status (state.wrapper event) ≠ .absent →
    state.wrapper event = event ∨ [state.wrapper event, event].Sublist state.receipts
  front : state.status state.head ≠ .absent → state.head ∈ state.receipts
  own : ∀ node ∈ nodes, state.status node ≠ .absent →
    state.data node = node ∨ node ∈ state.receipts
  received : ∀ event ∈ state.receipts, state.status event ≠ .absent

variable {state : State Block} {nodes : List Block} {block event other : Block}

theorem initial_wrapped (initial : Initial state) : Wrapped state [] := by
  obtain ⟨tail, ends, allocated, absent, _⟩ := initial
  exact {
    represents := by
      rw [tail]
      exact .empty ends
    linked := by simpa using allocated
    carries := nofun
    once := List.nodup_nil
    outside := fun event held => by simp [absent] at held
    wrapped := fun event held => by simp [absent] at held }

theorem initial_traced (initial : Initial state) : Traced state [] := by
  obtain ⟨_, _, _, absent, receipts⟩ := initial
  exact {
    stored := fun event live => by simp [absent] at live
    earlier := fun event held => by simp [absent] at held
    front := fun live => by simp [absent] at live
    own := nofun
    received := by simp [receipts] }

theorem Traced.absent_of_unused (traced : Traced state nodes)
    (unused : state.allocated block = false) : state.status block = .absent := by
  cases status : state.status block with
  | absent => rfl
  | held | sent =>
    have stored := traced.stored block (by simp [status])
    rw [unused] at stored
    cases stored

theorem Wrapped.apart_of_unused (wrapped : Wrapped state nodes)
    (unused : state.allocated block = false) :
    (∀ node ∈ state.head :: nodes, node ≠ block) ∧
      ∀ event, state.status event = .held → state.wrapper event ≠ block := by
  refine ⟨fun node member same => ?_, fun event held same => ?_⟩
  · have used := wrapped.linked node member
    rw [same, unused] at used
    cases used
  · have used := (wrapped.wrapped event held).1
    rw [same, unused] at used
    cases used

theorem Wrapped.wrapper_injective (wrapped : Wrapped state nodes)
    (held : state.status event = .held) (also : state.status other = .held)
    (same : state.wrapper event = state.wrapper other) : event = other := by
  rw [← (wrapped.wrapped event held).2, same, (wrapped.wrapped other also).2]

theorem Wrapped.data_ne (wrapped : Wrapped state nodes) (held : state.status event = .held)
    {node : Block} (member : node ∈ nodes) : state.data node ≠ event := by
  intro same
  have sent := wrapped.carries node member
  rw [same, held] at sent
  cases sent

variable [DecidableEq Block] {status : Block → Status}

theorem held_of_update (gone : now ≠ .held) (still : update status event now other = .held) :
    status other = .held ∧ other ≠ event := by
  by_cases same : other = event
  · rw [same, update_self] at still
    exact (gone still).elim
  · rw [update_of_ne same] at still
    exact ⟨still, same⟩

theorem live_of_update (live : status event ≠ .absent)
    (still : update status event now other ≠ .absent) : status other ≠ .absent := by
  by_cases same : other = event
  · exact same ▸ live
  · rwa [update_of_ne same] at still

section Scribble

variable {next : Option Block} {wrapper : Block}

theorem Wrapped.scribble (wrapped : Wrapped state nodes) (traced : Traced state nodes)
    (unused : state.allocated block = false) :
    Wrapped { state with
      next := update state.next block next
      data := update state.data block data
      wrapper := update state.wrapper block wrapper } nodes := by
  obtain ⟨unlinked, unwrapped⟩ := wrapped.apart_of_unused unused
  have absent := traced.absent_of_unused unused
  have kept : ∀ node ∈ nodes, update state.data block data node = state.data node :=
    fun node member => update_of_ne (unlinked node (List.mem_cons_of_mem _ member)) _ _
  have same : ∀ event, state.status event = .held →
      update state.wrapper block wrapper event = state.wrapper event := by
    intro event held
    refine update_of_ne (fun equal => ?_) _ _
    rw [equal, absent] at held
    cases held
  exact {
    represents := wrapped.represents.congr fun node member =>
      update_of_ne (unlinked node (by simpa using member)) _ _
    linked := wrapped.linked
    carries := by
      intro node member
      simp only [kept node member]
      exact wrapped.carries node member
    once := by
      rw [List.map_congr_left kept]
      exact wrapped.once
    outside := by
      intro event held
      simp only [same event held]
      exact wrapped.outside event held
    wrapped := by
      intro event held
      simp only [same event held, update_of_ne (unwrapped event held)]
      exact wrapped.wrapped event held }

theorem Traced.scribble (traced : Traced state nodes) (wrapped : Wrapped state nodes)
    (unused : state.allocated block = false) :
    Traced { state with
      next := update state.next block next
      data := update state.data block data
      wrapper := update state.wrapper block wrapper } nodes := by
  obtain ⟨unlinked, _⟩ := wrapped.apart_of_unused unused
  have absent := traced.absent_of_unused unused
  exact {
    stored := traced.stored
    earlier := by
      intro event held
      have apart : event ≠ block := by
        intro equal
        rw [equal, absent] at held
        cases held
      simp only [update_of_ne apart]
      exact traced.earlier event held
    front := traced.front
    own := by
      intro node member
      simp only [update_of_ne (unlinked node (List.mem_cons_of_mem _ member))]
      exact traced.own node member
    received := traced.received }

end Scribble

theorem Wrapped.allocEvent (wrapped : Wrapped state nodes) (traced : Traced state nodes)
    (unused : state.allocated block = false) :
    Wrapped { state with
      data := update state.data block block
      wrapper := update state.wrapper block block
      allocated := update state.allocated block true
      status := update state.status block .held } nodes := by
  obtain ⟨unlinked, unwrapped⟩ := wrapped.apart_of_unused unused
  have absent := traced.absent_of_unused unused
  have kept : ∀ node ∈ nodes, update state.data block block node = state.data node :=
    fun node member => update_of_ne (unlinked node (List.mem_cons_of_mem _ member)) _ _
  exact {
    represents := wrapped.represents
    linked := fun node member =>
      (update_of_ne (unlinked node member) _ _).trans (wrapped.linked node member)
    carries := by
      intro node member
      have sent := wrapped.carries node member
      have older : state.data node ≠ block := by
        intro same
        rw [same, absent] at sent
        cases sent
      simp only [kept node member, update_of_ne older, sent]
    once := by
      rw [List.map_congr_left kept]
      exact wrapped.once
    outside := by
      intro event held
      by_cases same : event = block
      · simp only [same, update_self]
        exact fun member => unlinked block member rfl
      · simp only [update_of_ne same] at held ⊢
        exact wrapped.outside event held
    wrapped := by
      intro event held
      by_cases same : event = block
      · simp only [same, update_self, and_self]
      · simp only [update_of_ne same] at held ⊢
        rw [update_of_ne (unwrapped event held), update_of_ne (unwrapped event held)]
        exact wrapped.wrapped event held }

theorem Traced.allocEvent (traced : Traced state nodes) (wrapped : Wrapped state nodes)
    (unused : state.allocated block = false) :
    Traced { state with
      data := update state.data block block
      wrapper := update state.wrapper block block
      allocated := update state.allocated block true
      status := update state.status block .held } nodes := by
  obtain ⟨unlinked, unwrapped⟩ := wrapped.apart_of_unused unused
  have absent := traced.absent_of_unused unused
  exact {
    stored := by
      intro event live
      by_cases same : event = block
      · rw [same]
        exact update_self _ _ _
      · simp only [update_of_ne same] at live ⊢
        exact traced.stored event live
    earlier := by
      intro event held live
      by_cases same : event = block
      · simp only [same, update_self, true_or]
      · simp only [update_of_ne same] at held live ⊢
        rw [update_of_ne (unwrapped event held)] at live
        exact traced.earlier event held live
    front := by
      intro live
      simp only [update_of_ne (unlinked _ List.mem_cons_self)] at live
      exact traced.front live
    own := by
      intro node member live
      have apart := unlinked node (List.mem_cons_of_mem _ member)
      simp only [update_of_ne apart] at live ⊢
      exact traced.own node member live
    received := by
      intro event member
      have live := traced.received event member
      have apart : event ≠ block := fun same => live (same ▸ absent)
      simp only [update_of_ne apart]
      exact live }

theorem Wrapped.send (wrapped : Wrapped state nodes) (held : state.status event = .held) :
    Wrapped { state.push (state.wrapper event) with status := update state.status event .sent }
      (nodes ++ [state.wrapper event]) := by
  have outside := wrapped.outside event held
  obtain ⟨allocated, carried⟩ := wrapped.wrapped event held
  exact {
    represents := by
      have terminated : Represents (update state.next (state.wrapper event) none) state.head
          state.tail (ofNodes nodes) := by
        refine wrapped.represents.congr fun node member => update_of_ne (fun same => ?_) _ _
        exact outside (same ▸ by simpa using member)
      exact terminated.push outside (update_self _ _ _)
    linked := by
      intro block member
      rw [← List.cons_append, List.mem_append, List.mem_singleton] at member
      rcases member with queued | rfl
      · exact wrapped.linked block queued
      · exact allocated
    carries := by
      intro node member
      show update state.status event .sent (state.data node) = .sent
      rcases List.mem_append.mp member with queued | last
      · rw [update_of_ne (wrapped.data_ne held queued), wrapped.carries node queued]
      · rw [List.mem_singleton.mp last, carried, update_self]
    once := by
      show ((nodes ++ [state.wrapper event]).map state.data).Nodup
      rw [List.map_append, List.map_singleton, carried, List.nodup_append]
      refine ⟨wrapped.once, List.nodup_singleton _, ?_⟩
      intro data member other single same
      obtain ⟨node, queued, rfl⟩ := List.mem_map.mp member
      exact wrapped.data_ne held queued (same.trans (List.mem_singleton.mp single))
    outside := by
      intro other still member
      obtain ⟨also, apart⟩ := held_of_update (by decide) still
      rw [← List.cons_append, List.mem_append, List.mem_singleton] at member
      rcases member with queued | same
      · exact wrapped.outside other also queued
      · exact apart (wrapped.wrapper_injective also held same)
    wrapped := fun other still => wrapped.wrapped other (held_of_update (by decide) still).1 }

theorem Traced.send (traced : Traced state nodes) (wrapped : Wrapped state nodes)
    (held : state.status event = .held) :
    Traced { state.push (state.wrapper event) with status := update state.status event .sent }
      (nodes ++ [state.wrapper event]) := by
  have live : state.status event ≠ .absent := by simp [held]
  exact {
    stored := fun other still => traced.stored other (live_of_update live still)
    earlier := fun other still also =>
      traced.earlier other (held_of_update (by decide) still).1 (live_of_update live also)
    front := fun still => traced.front (live_of_update live still)
    own := by
      intro node member still
      rcases List.mem_append.mp member with queued | last
      · exact traced.own node queued (live_of_update live still)
      · obtain rfl := List.mem_singleton.mp last
        show state.data (state.wrapper event) = _ ∨ _
        rw [(wrapped.wrapped event held).2]
        rcases traced.earlier event held (live_of_update live still) with same | before
        · exact .inl same.symm
        · exact .inr (before.subset List.mem_cons_self)
    received := by
      intro other member
      show update state.status event .sent other ≠ .absent
      by_cases same : other = event
      · simp [same]
      · rw [update_of_ne same]
        exact traced.received other member }

section Receive

variable {rest : List Block}

theorem Wrapped.receive (wrapped : Wrapped state (headNext :: rest))
    (leads : state.next state.head = some headNext) : Wrapped (state.received headNext) rest := by
  obtain ⟨_, ⟨⟩, shorter⟩ := wrapped.represents.pop leads
  have distinct : (state.head :: headNext :: rest).Nodup := by
    simpa using wrapped.represents.distinct
  obtain ⟨absent, _⟩ := List.nodup_cons.mp distinct
  obtain ⟨fresh, once⟩ :=
    List.nodup_cons.mp (show (_ :: rest.map state.data).Nodup from wrapped.once)
  have kept : ∀ node ∈ rest,
      update state.data state.head (state.data headNext) node = state.data node := by
    intro node member
    refine update_of_ne (fun same => ?_) _ _
    exact absent (same ▸ List.mem_cons_of_mem _ member)
  exact {
    represents := shorter
    linked := fun block member => wrapped.linked block (List.mem_cons_of_mem _ member)
    carries := by
      intro node member
      show update state.status _ _ (update state.data _ _ node) = _
      have other : state.data node ≠ state.data headNext := fun same =>
        fresh (same ▸ List.mem_map_of_mem member)
      rw [kept node member, update_of_ne other]
      exact wrapped.carries node (List.mem_cons_of_mem _ member)
    once := by
      show (rest.map (update state.data _ _)).Nodup
      rwa [List.map_congr_left kept]
    outside := by
      intro event held
      show update state.wrapper _ _ event ∉ _
      by_cases same : event = state.data headNext
      · rw [same, update_self]
        exact absent
      · rw [update_of_ne same]
        have held : state.status event = .held := by
          simpa only [State.received, update_of_ne same] using held
        exact fun member => wrapped.outside event held (List.mem_cons_of_mem _ member)
    wrapped := by
      intro event held
      show state.allocated (update state.wrapper _ _ event) ∧
        update state.data _ _ (update state.wrapper _ _ event) = event
      by_cases same : event = state.data headNext
      · rw [same, update_self, update_self]
        exact ⟨wrapped.linked _ List.mem_cons_self, rfl⟩
      · have held : state.status event = .held := by
          simpa only [State.received, update_of_ne same] using held
        have apart : state.wrapper event ≠ state.head := fun equal =>
          wrapped.outside event held (equal ▸ List.mem_cons_self)
        rw [update_of_ne same, update_of_ne apart]
        exact wrapped.wrapped event held }

theorem Traced.receive (traced : Traced state (headNext :: rest))
    (wrapped : Wrapped state (headNext :: rest)) : Traced (state.received headNext) rest := by
  have live : state.status (state.data headNext) ≠ .absent := by
    simp [wrapped.carries headNext List.mem_cons_self]
  have distinct : (state.head :: headNext :: rest).Nodup := by
    simpa using wrapped.represents.distinct
  obtain ⟨absent, _⟩ := List.nodup_cons.mp distinct
  exact {
    stored := fun event still => traced.stored event (live_of_update live still)
    earlier := by
      intro event held
      show update state.status _ _ (update state.wrapper _ _ event) ≠ _ →
        update state.wrapper _ _ event = _ ∨
          [update state.wrapper _ _ event, event].Sublist (state.receipts ++ _)
      intro still
      have still := live_of_update live still
      by_cases same : event = state.data headNext
      · rw [same, update_self] at still ⊢
        have earlier : [state.head].Sublist state.receipts :=
          List.singleton_sublist.mpr (traced.front still)
        exact .inr (earlier.append (List.Sublist.refl [state.data headNext]))
      · have held : state.status event = .held := by
          simpa only [State.received, update_of_ne same] using held
        rw [update_of_ne same] at still ⊢
        rcases traced.earlier event held still with own | before
        · exact .inl own
        · exact .inr (before.trans (List.sublist_append_left _ _))
    front := by
      intro still
      show headNext ∈ state.receipts ++ [state.data headNext]
      rw [List.mem_append, List.mem_singleton]
      rcases traced.own headNext List.mem_cons_self (live_of_update live still) with own | before
      · exact .inr own.symm
      · exact .inl before
    own := by
      intro node member still
      show update state.data _ _ node = node ∨ node ∈ state.receipts ++ _
      have apart : node ≠ state.head := fun same =>
        absent (same ▸ List.mem_cons_of_mem _ member)
      rw [update_of_ne apart]
      rcases traced.own node (List.mem_cons_of_mem _ member) (live_of_update live still) with
        own | before
      · exact .inl own
      · exact .inr (List.mem_append_left _ before)
    received := by
      intro event member
      show update state.status _ _ event ≠ _
      by_cases same : event = state.data headNext
      · simp [same]
      · rw [update_of_ne same]
        rcases List.mem_append.mp member with before | last
        · exact traced.received event before
        · exact (same (List.mem_singleton.mp last)).elim }

end Receive

omit [DecidableEq Block] in
theorem Traced.releases (traced : Traced state nodes) (held : state.status event = .held)
    (inTurn : InTurn state (.freeEvent event)) (live : state.status other ≠ .absent)
    (apart : other ≠ event) : state.wrapper event ≠ other := by
  intro same
  subst other
  rcases traced.earlier event held live with own | before
  · exact apart own
  · exact apart (inTurn _ (before.subset List.mem_cons_self) before)

theorem Wrapped.freeEvent (wrapped : Wrapped state nodes) (held : state.status event = .held) :
    Wrapped { state with
      allocated := update state.allocated (state.wrapper event) false
      status := update state.status event .absent
      receipts := state.receipts.filter (· ≠ event) } nodes where
  represents := wrapped.represents
  linked := by
    intro block member
    have apart : block ≠ state.wrapper event := fun same =>
      wrapped.outside event held (same ▸ member)
    exact (update_of_ne apart _ _).trans (wrapped.linked block member)
  carries node member :=
    (update_of_ne (wrapped.data_ne held member) _ _).trans (wrapped.carries node member)
  once := wrapped.once
  outside other still := wrapped.outside other (held_of_update (by decide) still).1
  wrapped := by
    intro other still
    obtain ⟨also, apart⟩ := held_of_update (by decide) still
    obtain ⟨allocated, carried⟩ := wrapped.wrapped other also
    have different : state.wrapper other ≠ state.wrapper event := fun same =>
      apart (wrapped.wrapper_injective also held same)
    exact ⟨(update_of_ne different _ _).trans allocated, carried⟩

theorem Traced.freeEvent (traced : Traced state nodes) (held : state.status event = .held)
    (inTurn : InTurn state (.freeEvent event)) :
    Traced { state with
      allocated := update state.allocated (state.wrapper event) false
      status := update state.status event .absent
      receipts := state.receipts.filter (· ≠ event) } nodes := by
  have live : ∀ other, update state.status event .absent other ≠ .absent →
      state.status other ≠ .absent ∧ other ≠ event := by
    intro other still
    refine ⟨live_of_update (by simp [held]) still, fun same => ?_⟩
    exact still (same ▸ update_self _ _ _)
  have kept : ∀ other ∈ state.receipts, other ≠ event →
      other ∈ state.receipts.filter (· ≠ event) := by
    intro other member apart
    exact List.mem_filter.mpr ⟨member, by simpa using apart⟩
  exact {
    stored := by
      intro other still
      obtain ⟨still, apart⟩ := live other still
      have different := traced.releases held inTurn still apart
      exact (update_of_ne different.symm _ _).trans (traced.stored other still)
    earlier := by
      intro other still also
      obtain ⟨still, apart⟩ := held_of_update (by decide) still
      obtain ⟨also, different⟩ := live _ also
      rcases traced.earlier other still also with own | before
      · exact .inl own
      · have filtered := before.filter (· ≠ event)
        rw [List.filter_cons_of_pos (by simpa using different),
          List.filter_cons_of_pos (by simpa using apart)] at filtered
        exact .inr filtered
    front := by
      intro still
      obtain ⟨still, apart⟩ := live _ still
      exact kept _ (traced.front still) apart
    own := by
      intro node member still
      obtain ⟨still, apart⟩ := live _ still
      rcases traced.own node member still with own | before
      · exact .inl own
      · exact .inr (kept node before apart)
    received := by
      intro other member
      obtain ⟨before, apart⟩ := List.mem_filter.mp member
      have apart : other ≠ event := by simpa using apart
      show update state.status event .absent other ≠ .absent
      rw [update_of_ne apart]
      exact traced.received other before }

end Invariant

section Runs

variable {Block : Type} [DecidableEq Block] {history : List (State Block × Action Block)}
variable {state : State Block}

theorem Move.keeps (move : Move state action after) (inTurn : InTurn state action)
    (wrapped : Wrapped state nodes) (traced : Traced state nodes) :
    ∃ nodes, Wrapped after nodes ∧ Traced after nodes := by
  cases move with
  | scribble unused => exact ⟨nodes, wrapped.scribble traced unused, traced.scribble wrapped unused⟩
  | allocEvent unused =>
    exact ⟨nodes, wrapped.allocEvent traced unused, traced.allocEvent wrapped unused⟩
  | send held => exact ⟨_, wrapped.send held, traced.send wrapped held⟩
  | receive _ leads =>
    obtain ⟨rest, rfl, _⟩ := wrapped.represents.pop leads
    exact ⟨rest, wrapped.receive leads, traced.receive wrapped⟩
  | nothing => exact ⟨nodes, wrapped, traced⟩
  | freeEvent held => exact ⟨nodes, wrapped.freeEvent held, traced.freeEvent held inTurn⟩

theorem run_keeps (run : (machine Block).Run history state)
    (inTurn : ∀ taken ∈ history, InTurn taken.1 taken.2) :
    ∃ nodes, Wrapped state nodes ∧ Traced state nodes := by
  refine Machine.Run.invariant_of_allowed InTurn
    (fun _ state => ∃ nodes, Wrapped state nodes ∧ Traced state nodes) ?_ ?_ run inTurn
  · exact fun state initial => ⟨[], initial_wrapped initial, initial_traced initial⟩
  · intro _ before action after _ earlier allowed stepped
    obtain ⟨nodes, wrapped, traced⟩ := earlier
    exact (step_moves stepped).keeps allowed wrapped traced

/-- As long as the events that were received are freed in turn, the memory of an event
that is held is allocated, and what `freeEvent` releases is no node of the queue and
stores no other event that is held. -/
theorem events_stay_readable (run : (machine Block).Run history state)
    (inTurn : ∀ taken ∈ history, InTurn taken.1 taken.2) :
    (∀ event, state.status event = .held → state.allocated event) ∧
    ∃ nodes, (Path state.next state.tail state.head nodes ∧ state.next state.tail = none) ∧
      ∀ event, state.status event = .held → InTurn state (.freeEvent event) →
        state.wrapper event ∉ state.head :: nodes ∧
        ∀ other, state.status other = .held → other ≠ event → state.wrapper event ≠ other := by
  obtain ⟨nodes, wrapped, traced⟩ := run_keeps run inTurn
  refine ⟨fun event held => traced.stored event (by simp [held]), nodes,
    wrapped.represents.path, ?_⟩
  intro event held turn
  refine ⟨wrapped.outside event held, fun other also apart => ?_⟩
  exact traced.releases held turn (by simp [also]) apart

end Runs

def blank : State Nat where
  head := 0
  tail := 0
  next _ := none
  data _ := 0
  wrapper _ := 0
  allocated block := block = 0
  status _ := .absent
  receipts := []

/-- The event `2` is sent again, and received and freed after the event `1`. -/
def freedInTurn : List (Action Nat) :=
  [.allocEvent 1, .send 1, .allocEvent 2, .send 2, .receive, .receive, .send 2, .freeEvent 1,
    .tryReceive, .allocEvent 0]

theorem events_stay_readable_resent : ∃ history state,
    (machine Nat).Run history state ∧ (∀ taken ∈ history, InTurn taken.1 taken.2) ∧
      state.status 2 = .held ∧ state.wrapper 2 = 2 ∧ state.status 0 = .held ∧
      ∀ event, state.status event = .held → state.allocated event := by
  have run := Machine.run_of_isSome
    (show (machine Nat).initial blank from ⟨rfl, rfl, rfl, rfl, rfl⟩)
    (show ((machine Nat).exec blank freedInTurn).isSome by decide +kernel)
  have inTurn : ∀ taken ∈ (machine Nat).trail blank freedInTurn, InTurn taken.1 taken.2 := by
    decide +kernel
  exact ⟨_, _, run, inTurn, by decide +kernel, by decide +kernel, by decide +kernel,
    (events_stay_readable run inTurn).1⟩

/-- Two events are received, and the second one is freed. -/
def freedOutOfTurn : List (Action Nat) :=
  [.allocEvent 1, .send 1, .allocEvent 2, .send 2, .receive, .receive]

/-- Its wrapper is the block of the first one, which is still held. -/
theorem events_stay_readable_overtaken : ∃ history state after,
    (machine Nat).Run history state ∧ state.status 1 = .held ∧ state.status 2 = .held ∧
      state.wrapper 2 = 1 ∧ step state (.freeEvent 2) = some after ∧
      after.status 1 = .held ∧ after.allocated 1 = false := by
  have run := Machine.run_of_isSome
    (show (machine Nat).initial blank from ⟨rfl, rfl, rfl, rfl, rfl⟩)
    (show ((machine Nat).exec blank freedOutOfTurn).isSome by decide +kernel)
  exact ⟨_, _, _, run, by decide +kernel, by decide +kernel, by decide +kernel, rfl,
    by decide +kernel, by decide +kernel⟩

end LibFiber.EventChannel
