import LibFiber.WaitNodes.Invariant

namespace LibFiber.WaitNodes

open Data Semantics Function

/-! The steps of fibers and wakers keep the nodes in their places. -/

section Steps

variable {Fiber Queue Node : Type} [DecidableEq Fiber] [DecidableEq Queue] [DecidableEq Node]
variable {state : State Fiber Queue Node} {contents : Queue → LinkedFifo Node}
variable {place : Node → Owner Fiber Queue} {standing : Fiber → Standing Queue Node}

omit [DecidableEq Fiber] [DecidableEq Node] in
theorem start_sound (next : Node → Option Node) (data : Node → Option Fiber)
    (head tail : Queue → Node) :
    Sound (start next data head tail) (fun _ => .empty) (fun _ => .heap) (fun _ => .absent) where
  lanes := {
    published := fun _ made => by cases made
    queued := fun _ made => by cases made }
  unused := fun _ _ => rfl
  held := fun _ _ holds => by rcases holds with owned | hand <;> contradiction
  stands := fun _ => ⟨rfl, rfl, rfl⟩
  knows := fun _ => trivial
  carries := fun _ made => by cases made
  wakers := fun _ => trivial
  making := fun _ busy => (busy rfl).elim
  waking := fun _ _ _ woken => by cases woken

section

variable (sound : Sound state contents place standing)
include sound

omit [DecidableEq Fiber] in
theorem calloc_sound (free : state.free node) :
    Sound
      { state with next := update state.next node none, data := update state.data node none }
      contents place standing := by
  have unused := sound.unused node free
  refine sound.write (sound.unused node free) nofun ?_ nofun nofun
  intro other apart
  exact ⟨update_of_ne apart _ _, update_of_ne apart _ _⟩

theorem create_sound (absent : (state.fiber fiber).phase = .absent) (free : state.free node)
    (created : record = ⟨some node, .ready, 1, .suspended⟩ ∨
      record = ⟨some node, .running, 0, .active⟩) :
    ∃ place standing, Sound ((state.calloc node).become fiber record) contents place standing := by
  have handed := (calloc_sound sound free).hand free fiber
  have gone : standing fiber = .absent := sound.admits absent
  have mine : ∀ other, some node = some other ∨ none = some other →
      update place node (.fiber fiber) other = .fiber fiber := by
    intro other holds
    obtain rfl : node = other := by simpa using holds
    exact update_self _ _ _
  rcases created with rfl | rfl
  · exact ⟨_, _, handed.become absent .suspended (fun _ => rfl) mine
      ⟨rfl, rfl, rfl⟩ trivial (.inr ⟨by rw [gone]; rfl, rfl⟩)⟩
  · exact ⟨_, _, handed.become absent .active (fun _ => rfl) mine
      ⟨rfl, rfl, rfl⟩ rfl (.inr ⟨by rw [gone]; rfl, rfl⟩)⟩

theorem init_sound (fresh : state.made queue = false) (free : state.free node) :
    ∃ contents place, Sound
      { state.calloc node with
        made := update state.made queue true
        head := update state.head queue node
        tail := update state.tail queue node } contents place standing := by
  have cleared := calloc_sound sound free
  have unused := sound.unused node free
  have grows : ∀ other, state.made other → update state.made queue true other := by
    intro other made
    by_cases same : other = queue
    · rw [same, update_self]
    · rwa [update_of_ne same]
  have older : ∀ other, state.made other → other ≠ queue := by
    intro other made same
    rw [same, fresh] at made
    cases made
  have idle : state.waker queue = .idle := by
    by_contra busy
    exact older queue (sound.making queue busy) rfl
  refine ⟨update contents queue .empty, update place node (.queue queue), ?_⟩
  refine { cleared with
    lanes := ?_
    unused := ?_
    held := ?_
    knows := ?_
    carries := ?_
    wakers := ?_
    making := ?_ }
  · refine cleared.lanes.make (by simp [unused]) (update_self _ _ _) fun fiber => ?_
    have knows := sound.knows fiber
    show FiberRecord.pending queue (state.fiber fiber) = none
    cases phase : (state.fiber fiber).phase with
    | linking into prevTail own =>
      have made : state.made into := by simpa only [FiberRecord.Knows, phase] using knows
      rw [FiberRecord.pending, phase, Phase.pending, if_neg (older into made)]
    | _ => simp only [FiberRecord.pending, phase, Phase.pending]
  · exact free_taken sound.unused
  · exact fun fiber other holds => place_update unused (by simp) (sound.held fiber other holds)
  · exact fun fiber => (cleared.knows fiber).frame grows fun _ _ => ⟨rfl, rfl⟩
  · intro other made element member
    by_cases same : other = queue
    · subst other
      simp [LinkedFifo.empty, LinkedFifo.members] at member
    · simp only [update_of_ne same] at made member
      exact cleared.carries other made element member
  · intro other
    show (state.waker other).Fits other (update state.head queue node other) _ _ _ _
    by_cases same : other = queue
    · subst other
      rw [idle]
      trivial
    · rw [update_of_ne same]
      exact (cleared.wakers other).frame (fun _ leads => leads) rfl
        (fun _ out => ⟨place_update unused (by simp) out, rfl⟩) .refl
  · exact fun other busy => grows other (sound.making other busy)

omit [DecidableEq Node] in
theorem Sound.keep (here : (state.fiber fiber).phase = phase)
    (pending : ∀ queue, record.phase.pending queue = phase.pending queue)
    (hand : record.phase.hand = phase.hand)
    (own : record.mpscFifoNode = (state.fiber fiber).mpscFifoNode)
    (scheduled : record.scheduled = (state.fiber fiber).scheduled)
    (admits : phase.Admits (standing fiber) → record.phase.Admits (standing fiber))
    (knows : record.Knows state.made state.next state.data fiber) :
    Sound (state.become fiber record) contents place standing := by
  have stands : record.Stands (standing fiber) := by
    refine ⟨admits (sound.admits here), ?_⟩
    rw [own, scheduled]
    exact (sound.stands fiber).2
  have holds : ∀ node, record.Holds node → place node = .fiber fiber := by
    intro node held
    rw [FiberRecord.Holds, own, hand, ← here] at held
    exact sound.held fiber node held
  have kept := sound.become here (standing fiber) pending holds stands knows (.inl rfl)
  rwa [update_eq_self] at kept

theorem fill_sound (phase : (state.fiber fiber).phase = .filling queue node) :
    Sound
      { state.goto fiber (.clearing queue node) with
        data := update state.data node (some fiber) } contents place standing := by
  have knows := sound.knows fiber
  rw [FiberRecord.Knows, phase] at knows
  obtain ⟨made, owned⟩ := knows
  have written : Sound { state with data := update state.data node (some fiber) } contents place
      standing := by
    refine sound.write (sound.held fiber node (.inl owned)) (by simp)
      (fun other apart => ⟨rfl, update_of_ne apart _ _⟩) ?_ (by simp)
    intro other mine
    cases mine
    rw [FiberRecord.Knows, phase]
    exact ⟨made, owned⟩
  exact written.keep phase (fun _ => rfl) rfl rfl rfl id ⟨made, owned, update_self _ _ _⟩

omit [DecidableEq Node] in
theorem clear_sound (phase : (state.fiber fiber).phase = .clearing queue node) :
    Sound
      (state.become fiber
        { state.fiber fiber with mpscFifoNode := none, phase := .terminating queue node })
      contents place (update standing fiber .pushing) := by
  have knows := sound.knows fiber
  rw [FiberRecord.Knows, phase] at knows
  obtain ⟨made, owned, filled⟩ := knows
  have stood : standing fiber = .active := sound.admits phase
  refine sound.become phase .pushing (fun _ => rfl) ?_ ⟨rfl, rfl, (sound.fits stood).2⟩
    ⟨made, filled⟩ (.inr ⟨by rw [stood]; rfl, rfl⟩)
  intro other holds
  rcases holds with none | hand
  · cases none
  · obtain rfl : node = other := Option.some.inj hand
    exact sound.held fiber node (.inl owned)

theorem terminate_sound (phase : (state.fiber fiber).phase = .terminating queue node) :
    Sound
      { state.goto fiber (.exchanging queue node) with next := update state.next node none }
      contents place standing := by
  have knows := sound.knows fiber
  rw [FiberRecord.Knows, phase] at knows
  have mine : place node = .fiber fiber := sound.held fiber node (.inr (by rw [phase]; rfl))
  have written : Sound { state with next := update state.next node none } contents place
      standing := by
    refine sound.write mine (by simp) (fun other apart => ⟨update_of_ne apart _ _, rfl⟩) ?_
      (by simp)
    intro other same
    cases same
    rw [FiberRecord.Knows, phase]
    exact knows
  exact written.keep phase (fun _ => rfl) rfl rfl rfl id ⟨knows.1, knows.2, update_self _ _ _⟩

theorem exchange_sound (phase : (state.fiber fiber).phase = .exchanging queue node) :
    Sound
      { state.goto fiber (.linking queue (state.tail queue) node) with
        tail := update state.tail queue node }
      (update contents queue ((contents queue).exchange node))
      (update place node (.queue queue)) (update standing fiber (.queued queue node)) := by
  have knows := sound.knows fiber
  rw [FiberRecord.Knows, phase] at knows
  obtain ⟨made, filled, ends⟩ := knows
  have mine : place node = .fiber fiber := sound.held fiber node (.inr (by rw [phase]; rfl))
  have stood : standing fiber = .pushing := sound.admits phase
  have unlinked : ∀ queue, (state.fiber fiber).pending queue = none := by
    intro queue
    rw [FiberRecord.pending, phase]
    rfl
  constructor
  case lanes =>
    refine sound.lanes.exchange made (by simp [mine]) ends (unlinked queue) ?_ ?_
    · show FiberRecord.pending queue ∘ update state.fiber fiber _ = _
      rw [comp_update]
      exact congrArg (update _ fiber) (if_pos rfl)
    · intro other apart
      refine comp_update_of_eq ((if_neg ?_).trans (unlinked other).symm)
      exact apart.symm
  case unused => exact fun other free => place_update mine (by simp) (sound.unused other free)
  case held =>
    refine held_update sound.held ?_ fun other apart _ => place_update mine (by simpa using apart)
    intro element holds
    have unset := (sound.fits stood).1
    rcases holds with owned | hand
    · cases unset.symm.trans owned
    · cases hand
  case stands =>
    have fits := sound.fits stood
    exact stands_update sound.stands ⟨rfl, fits⟩
  case knows => exact knows_update made sound.knows
  case carries =>
    intro other ready element member
    have older : element ∈ (contents other).members → ∃ fiber', state.data element = some fiber' ∧
          update standing fiber (.queued queue node) fiber' = .queued other element := by
      intro earlier
      obtain ⟨waiter, found, queued⟩ := sound.carries other ready element earlier
      exact ⟨waiter, found, place_update stood (by simp) queued⟩
    by_cases same : other = queue
    · subst other
      rw [update_self, LinkedFifo.members_exchange, List.mem_append, List.mem_singleton] at member
      rcases member with earlier | rfl
      · exact older earlier
      · exact ⟨fiber, filled, update_self _ _ _⟩
    · rw [update_of_ne same] at member
      exact older member
  case wakers =>
    exact fun other => (sound.wakers other).frame (fun _ leads => leads) rfl
      (fun _ out => ⟨place_update mine (by simp) out, rfl⟩)
      (attends_update stood (by simp))
  case making => exact sound.making
  case waking =>
    exact fun other into element woken =>
      sound.waking other into element (woken_of_update woken (by simp))

end

omit [DecidableEq Fiber] [DecidableEq Node] in
theorem pending_of_linking (phase : (state.fiber fiber).phase = .linking queue prevTail node) :
    state.pending queue fiber = some (prevTail, node) := by
  show (state.fiber fiber).pending queue = _
  rw [FiberRecord.pending, phase]
  exact if_pos rfl

section

variable (sound : Sound state contents place standing)
include sound

theorem link_sound (phase : (state.fiber fiber).phase = .linking queue prevTail node) :
    Sound
      { state.goto fiber (.yielding queue node) with
        next := update state.next prevTail (some node) }
      (update contents queue ((contents queue).link node)) place standing := by
  have made := sound.knows fiber
  rw [FiberRecord.Knows, phase] at made
  have stood : standing fiber = .queued queue node := sound.admits phase
  have pends := pending_of_linking phase
  have published := sound.lanes.published queue made
  have awaits := published.waits pends
  have inside := sound.lanes.queued queue made prevTail awaits.mem.1
  have unset := published.represents.links.next_awaits awaits
  constructor
  case lanes =>
    refine sound.lanes.link queue_injective made pends ?_ ?_
    · exact comp_update (FiberRecord.pending queue) state.fiber fiber _
    · intro other apart
      refine comp_update_of_eq (Eq.symm ?_)
      rw [FiberRecord.pending, phase]
      exact if_neg apart.symm
  case unused => exact sound.unused
  case held =>
    refine held_update sound.held ?_ fun _ _ _ => id
    intro element holds
    refine sound.held fiber element (holds.imp_right ?_)
    simp [Phase.hand]
  case stands =>
    exact (forall_update_iff state.fiber (fun fiber record => record.Stands (standing fiber))).mpr
      ⟨⟨.inl stood, (sound.stands fiber).2⟩, fun other _ => sound.stands other⟩
  case knows =>
    refine (forall_update_iff state.fiber (fun fiber record =>
      record.Knows state.made (update state.next prevTail (some node)) state.data fiber)).mpr
        ⟨trivial, fun other _ => ?_⟩
    refine (sound.knows other).frame (fun _ ready => ready) fun element holds => ⟨?_, rfl⟩
    refine update_of_ne ?_ _ _
    intro equal
    have mine := sound.held other element holds
    rw [equal, inside] at mine
    cases mine
  case carries =>
    intro other ready element member
    refine sound.carries other ready element ?_
    by_cases same : other = queue
    · subst other
      simpa only [update_self, LinkedFifo.members_link] using member
    · simpa only [update_of_ne same] using member
  case wakers =>
    refine fun other => (sound.wakers other).frame ?_ rfl (fun _ out => ⟨out, rfl⟩) .refl
    intro element leads
    refine (update_of_ne ?_ _ _).trans leads
    intro equal
    rw [equal, unset] at leads
    cases leads
  case making => exact sound.making
  case waking => exact sound.waking

omit [DecidableEq Node] in
theorem yield_sound (phase : (state.fiber fiber).phase = .active) :
    Sound
      (state.become fiber
        { state.fiber fiber with
          state := .ready
          scheduled := (state.fiber fiber).scheduled + 1
          phase := .suspended })
      contents place (update standing fiber .suspended) := by
  have stood : standing fiber = .active := sound.admits phase
  obtain ⟨owned, none⟩ := sound.fits stood
  refine sound.become phase .suspended (fun _ => rfl) ?_ ⟨rfl, owned, ?_⟩ trivial
    (.inr ⟨by rw [stood]; rfl, rfl⟩)
  · intro other holds
    exact sound.held fiber other (holds.imp_right nofun)
  · show (state.fiber fiber).scheduled + 1 = 1
    rw [none]

omit [DecidableEq Fiber] [DecidableEq Node] in
theorem Sound.runnable (queued : 0 < (state.fiber fiber).scheduled) :
    (state.fiber fiber).mpscFifoNode.isSome ∧ (state.fiber fiber).scheduled = 1 ∧
      (standing fiber).claimed = false := by
  have fits := (sound.stands fiber).2
  cases stood : standing fiber with
  | absent | pushing | queued | taken | active =>
    rw [stood] at fits
    exact absurd fits.2 (Nat.pos_iff_ne_zero.mp queued)
  | woken into pushed =>
    rw [stood] at fits
    exact absurd fits.2.2 (Nat.pos_iff_ne_zero.mp queued)
  | suspended =>
    rw [stood] at fits
    exact ⟨fits.1, fits.2, rfl⟩
  | scheduled pushed =>
    rw [stood] at fits
    exact ⟨fits.1, fits.2.2, rfl⟩

omit [DecidableEq Node] in
theorem switchTo_sound (queued : 0 < (state.fiber fiber).scheduled)
    (swapped : (state.fiber fiber).phase.swapped) :
    Sound
      (state.become fiber
        { state.fiber fiber with
          state := .running
          scheduled := (state.fiber fiber).scheduled - 1
          phase := .active })
      contents place (update standing fiber .active) := by
  obtain ⟨owned, once, unclaimed⟩ := sound.runnable queued
  refine sound.become rfl .active ?_ ?_ ⟨rfl, owned, ?_⟩ rfl (.inr ⟨unclaimed, rfl⟩)
  · intro queue
    cases phase : (state.fiber fiber).phase with
    | linking => simp [phase, Phase.swapped] at swapped
    | _ => rfl
  · intro other holds
    exact sound.held fiber other (holds.imp_right nofun)
  · show (state.fiber fiber).scheduled - 1 = 0
    rw [once]

theorem release_sound
    (mine : place node = .fiber fiber) (given : ¬ (state.fiber fiber).Holds node) :
    Sound { state with free := update state.free node true } contents (update place node .heap)
      standing := by
  refine { sound with lanes := ?_, unused := ?_, held := ?_, wakers := ?_ }
  · exact sound.lanes.hand (by simp [mine])
  · exact free_returned sound.unused
  · intro other element holds
    by_cases same : other = fiber
    · subst other
      have apart : element ≠ node := fun equal => given (equal ▸ holds)
      exact (update_of_ne apart _ _).trans (sound.held fiber element holds)
    · exact place_update mine (by simpa using same) (sound.held other element holds)
  · exact fun other => (sound.wakers other).frame (fun _ leads => leads) rfl
      (fun _ out => ⟨place_update mine nofun out, rfl⟩) .refl

theorem destroy_sound (phase : (state.fiber fiber).phase = .finished) :
    ∃ place standing, Sound (destroy state fiber) contents place standing := by
  have stood : standing fiber = .active := sound.admits phase
  have fits := sound.fits stood
  obtain ⟨node, owned⟩ := Option.isSome_iff_exists.mp fits.1
  have gone : Sound
      (state.become fiber { state.fiber fiber with mpscFifoNode := none, phase := .absent })
      contents place (update standing fiber .absent) := by
    refine sound.become phase .absent (fun _ => rfl) ?_ ⟨rfl, rfl, fits.2⟩ trivial
      (.inr ⟨by rw [stood]; rfl, rfl⟩)
    intro other holds
    rcases holds with owned | hand <;> contradiction
  have released := release_sound gone (sound.held fiber node (.inl owned)) (by
    simp [State.become, FiberRecord.Holds, Phase.hand])
  refine ⟨update place node .heap, update standing fiber .absent, ?_⟩
  rw [destroy, owned]
  exact released

omit [DecidableEq Fiber] [DecidableEq Node] in
theorem wake_sound (idle : state.waker queue = .idle) (made : state.made queue) (count : Int) :
    Sound
      { state.follow queue .popping with
        count := update state.count queue count
        wakeCount := update state.wakeCount queue 0 } contents place standing := by
  have followed : Sound (state.follow queue .popping) contents place standing :=
    sound.follow made trivial (by rw [idle]; rfl)
  exact { followed with }

theorem advance_sound (phase : state.waker queue = .advancing prevHead prevHeadNext) :
    ∃ contents place standing, Sound
      { state.follow queue (.copying prevHead prevHeadNext) with
        head := update state.head queue prevHeadNext } contents place standing := by
  have made : state.made queue := sound.making queue (by simp [phase])
  have fits := sound.wakers queue
  rw [phase] at fits
  obtain ⟨rfl, leads⟩ := fits
  have published := sound.lanes.published queue made
  obtain ⟨rest, popped⟩ := published.trypop_of_next leads
  have members := LinkedFifo.members_trypop popped
  have front : prevHeadNext ∈ (contents queue).members := by simp [members]
  have inside := sound.lanes.head_queued made
  obtain ⟨waiter, found, stood⟩ := sound.carries queue made prevHeadNext front
  -- The node is linked, so the fiber is behind its push.
  have behind : (state.fiber waiter).phase = .yielding queue prevHeadNext ∨
      (state.fiber waiter).phase = .parked queue prevHeadNext := by
    refine (sound.stands waiter).1.pushed (.inl ⟨stood, fun prevTail linking => ?_⟩)
    exact sound.lanes.popped_linked made popped (pending_of_linking linking)
  have distinct := published.represents.distinct
  rw [members] at distinct
  obtain ⟨apart, nodup⟩ := List.nodup_cons.mp distinct
  refine ⟨update contents queue rest, update place (state.head queue) (.waker queue),
    update standing waiter (.taken queue prevHeadNext), ?_⟩
  have attends : ∀ other, Attends other standing
      (update standing waiter (.taken queue prevHeadNext)) :=
    fun _ => attends_update stood (by simp)
  constructor
  case lanes => exact sound.lanes.pop queue_injective made popped
  case unused => exact fun other free => place_update inside (by simp) (sound.unused other free)
  case held =>
    exact fun other element holds =>
      place_update inside (by simp) (sound.held other element holds)
  case stands =>
    have fits := sound.fits stood
    exact (forall_update_iff standing
      (fun fiber (stood : Standing Queue Node) => (state.fiber fiber).Stands stood)).mpr
        ⟨⟨Phase.admits_of_pushed behind (.inl rfl), fits⟩, fun other _ => sound.stands other⟩
  case knows => exact sound.knows
  case carries =>
    intro other ready element member
    have older : element ∈ (contents other).members ∧
        (.queued other element : Standing Queue Node) ≠ .queued queue prevHeadNext := by
      by_cases same : other = queue
      · subst other
        rw [update_self] at member
        refine ⟨by simp [members, member], ?_⟩
        intro equal
        cases equal
        exact (List.nodup_cons.mp nodup).1 member
      · rw [update_of_ne same] at member
        exact ⟨member, by simp [same]⟩
    obtain ⟨fiber, carried, queued⟩ := sound.carries other ready element older.1
    exact ⟨fiber, carried, place_update stood older.2 queued⟩
  case wakers =>
    intro other
    by_cases same : other = queue
    · subst other
      simp only [State.follow, update_self]
      refine ⟨rfl, waiter, found, update_self _ _ _, prevHeadNext, update_self _ _ _, ?_⟩
      intro equal
      exact apart (by simp [equal])
    · simp only [State.follow, update_of_ne same]
      exact (sound.wakers other).frame (fun _ leads => leads) rfl
        (fun _ out => ⟨place_update inside (by simp) out, rfl⟩) (attends other)
  case making => exact sound.made_follow made _
  case waking =>
    intro other into element woken
    have older := woken_of_update woken (by simp)
    refine sound.wakes_follow _ older fun same => ?_
    exact sound.none_woken (by rw [same, phase]; rfl) other element older

omit [DecidableEq Fiber] in
theorem store_sound (phase : state.waker queue = .storing prevHead data) :
    Sound
      { state.follow queue (.popped prevHead) with data := update state.data prevHead data }
      contents place standing := by
  have made : state.made queue := sound.making queue (by rw [phase]; nofun)
  have fits := sound.wakers queue
  rw [phase] at fits
  obtain ⟨fiber, rfl, claims⟩ := fits
  have written : Sound { state with data := update state.data prevHead (some fiber) } contents
      place standing := by
    refine sound.write claims.1 nofun (fun other apart => ⟨rfl, update_of_ne apart _ _⟩) nofun ?_
    intro other mine
    cases mine
    rw [phase]
    exact ⟨fiber, rfl, claims⟩
  exact written.follow made ⟨fiber, update_self _ _ _, claims⟩ (by
    show none = (state.waker queue).wakes
    rw [phase]
    rfl)

theorem assign_sound (phase : state.waker queue = .assigning out toSchedule) :
    ∃ place standing, Sound
      ((state.become toSchedule
        { state.fiber toSchedule with mpscFifoNode := some out }).follow queue
          (.testing toSchedule)) contents place standing := by
  have made : state.made queue := sound.making queue (by simp [phase])
  have fits := sound.wakers queue
  rw [phase] at fits
  obtain ⟨mine, pushed, taken, apart⟩ := fits
  have behind := (sound.stands toSchedule).1.pushed (.inr (.inl taken))
  have none := (sound.fits taken).2
  refine ⟨update place out (.fiber toSchedule), update standing toSchedule (.woken queue pushed),
    ?_⟩
  constructor
  case lanes =>
    have same : ∀ queue, FiberRecord.pending queue ∘ update state.fiber toSchedule
        { state.fiber toSchedule with mpscFifoNode := some out } = state.pending queue :=
      fun queue => comp_update_of_eq rfl
    show LinkedLanes _ _ _ _ _ (fun queue => FiberRecord.pending queue ∘ update _ _ _) _ _
    simp only [same]
    exact sound.lanes.hand (by simp [mine])
  case unused => exact fun other free => place_update mine (by simp) (sound.unused other free)
  case held =>
    refine held_update sound.held ?_ fun other _ _ => place_update mine (by simp)
    intro element holds
    rcases holds with owned | hand
    · obtain rfl : out = element := Option.some.inj owned
      exact update_self _ _ _
    · exact place_update mine (by simp) (sound.held toSchedule element (.inr hand))
  case stands =>
    exact stands_update sound.stands ⟨Phase.admits_of_pushed behind (.inr (.inl rfl)), rfl,
      fun same => apart (Option.some.inj same).symm, none⟩
  case knows => exact knows_update (FiberRecord.knows_of_pushed behind) sound.knows
  case carries =>
    intro other ready element member
    obtain ⟨fiber, found, queued⟩ := sound.carries other ready element member
    exact ⟨fiber, found, place_update taken (by simp) queued⟩
  case wakers =>
    intro other
    by_cases same : other = queue
    · subst other
      simp only [State.follow, update_self]
      exact ⟨pushed, update_self _ _ _⟩
    · simp only [State.follow, update_of_ne same]
      exact (sound.wakers other).frame (fun _ leads => leads) rfl
        (fun _ outside => ⟨place_update mine (by simpa using same) outside, rfl⟩)
        (attends_update taken fun _ => ⟨by simp [same], by simp⟩)
  case making => exact sound.made_follow made _
  case waking =>
    intro other into element woken
    by_cases same : other = toSchedule
    · subst other
      rw [update_self] at woken
      cases woken
      simp only [State.follow, update_self]
      rfl
    · rw [update_of_ne same] at woken
      refine sound.wakes_follow _ woken fun equal => ?_
      exact sound.none_woken (by rw [equal, phase]; rfl) other element woken

omit [DecidableEq Node] in
theorem ready_sound (phase : state.waker queue = .readying toSchedule) :
    Sound
      ((state.become toSchedule { state.fiber toSchedule with state := .ready }).follow queue
        (.scheduling toSchedule)) contents place standing := by
  have made : state.made queue := sound.making queue (by rw [phase]; nofun)
  have fits := sound.wakers queue
  rw [phase] at fits
  obtain ⟨pushed, woken⟩ := fits
  have behind := (sound.stands toSchedule).1.pushed (.inr (.inr woken))
  have written : Sound (state.become toSchedule { state.fiber toSchedule with state := .ready })
      contents place standing :=
    sound.keep rfl (fun _ => rfl) rfl rfl rfl id (FiberRecord.knows_of_pushed behind)
  exact written.follow made ⟨pushed, woken⟩ (by
    show some toSchedule = (state.waker queue).wakes
    rw [phase]
    rfl)

omit [DecidableEq Node] in
theorem schedule_sound (phase : state.waker queue = .scheduling toSchedule) :
    ∃ standing, Sound
      { (state.become toSchedule
          { state.fiber toSchedule with
            scheduled := (state.fiber toSchedule).scheduled + 1 }).follow queue .looping with
        wakeCount := update state.wakeCount queue (state.wakeCount queue + 1) }
      contents place standing := by
  have made : state.made queue := sound.making queue (by simp [phase])
  have fits := sound.wakers queue
  rw [phase] at fits
  obtain ⟨pushed, woken⟩ := fits
  have behind := (sound.stands toSchedule).1.pushed (.inr (.inr woken))
  obtain ⟨owned, apart, none⟩ := sound.fits woken
  refine ⟨update standing toSchedule (.scheduled pushed), ?_⟩
  constructor
  case lanes =>
    have same : ∀ queue, FiberRecord.pending queue ∘ update state.fiber toSchedule
        { state.fiber toSchedule with
          scheduled := (state.fiber toSchedule).scheduled + 1 } = state.pending queue :=
      fun queue => comp_update_of_eq rfl
    show LinkedLanes _ _ _ _ _ (fun queue => FiberRecord.pending queue ∘ update _ _ _) _ _
    simp only [same]
    exact sound.lanes
  case unused => exact sound.unused
  case held => exact held_update sound.held (sound.held toSchedule) fun _ _ _ => id
  case stands =>
    exact stands_update sound.stands
      ⟨Phase.admits_of_pushed behind (.inr (.inr rfl)), owned, apart, by rw [none]⟩
  case knows => exact knows_update (sound.knows toSchedule) sound.knows
  case carries =>
    intro other ready element member
    obtain ⟨fiber, found, queued⟩ := sound.carries other ready element member
    exact ⟨fiber, found, place_update woken (by simp) queued⟩
  case wakers =>
    intro other
    by_cases same : other = queue
    · subst other
      simp only [State.follow, update_self]
      trivial
    · simp only [State.follow, update_of_ne same]
      exact (sound.wakers other).frame (fun _ leads => leads) rfl (fun _ out => ⟨out, rfl⟩)
        (attends_update woken fun _ => ⟨by simp, by simp [same]⟩)
  case making => exact sound.made_follow made _
  case waking =>
    intro other into element still
    have older := woken_of_update still (by simp)
    refine sound.wakes_follow _ older fun same => ?_
    -- The waker had this fiber only.
    have waking := sound.waking other into element older
    rw [same, phase] at waking
    obtain rfl : toSchedule = other := Option.some.inj waking
    rw [update_self] at still
    cases still

theorem moveFiber_sound (moved : moveFiber state fiber = some after) :
    ∃ contents place standing, Sound after contents place standing := by
  have knows := sound.knows fiber
  rw [moveFiber] at moved
  generalize phase : (state.fiber fiber).phase = now at moved
  cases now with
  | absent | suspended | active | parked | finished | aborted => cases moved
  | assertingState queue =>
    rw [FiberRecord.Knows, phase] at knows
    simp only [if_pos knows.2] at moved
    cases moved
    exact ⟨_, _, _, sound.keep phase (fun _ => rfl) rfl rfl rfl id knows.1⟩
  | assertingNode queue =>
    rw [FiberRecord.Knows, phase] at knows
    -- A fiber that does not wait has a node.
    have owned := (sound.fits (sound.admits phase)).1
    simp only [if_pos owned] at moved
    cases moved
    exact ⟨_, _, _, sound.keep phase (fun _ => rfl) rfl rfl rfl id knows⟩
  | saving queue =>
    rw [FiberRecord.Knows, phase] at knows
    cases moved
    exact ⟨_, _, _, sound.keep phase (fun _ => rfl) rfl rfl rfl id knows⟩
  | taking queue =>
    rw [FiberRecord.Knows, phase] at knows
    obtain ⟨node, owned, rfl⟩ : ∃ node, (state.fiber fiber).mpscFifoNode = some node ∧
        _ = after := by
      simpa only [Option.map_eq_some_iff] using moved
    exact ⟨_, _, _, sound.keep phase (fun _ => rfl) rfl rfl rfl id ⟨knows, owned⟩⟩
  | filling queue node =>
    cases moved
    exact ⟨_, _, _, fill_sound sound phase⟩
  | clearing queue node =>
    cases moved
    exact ⟨_, _, _, clear_sound sound phase⟩
  | terminating queue node =>
    cases moved
    exact ⟨_, _, _, terminate_sound sound phase⟩
  | exchanging queue node =>
    cases moved
    exact ⟨_, _, _, exchange_sound sound phase⟩
  | linking queue prevTail node =>
    cases moved
    exact ⟨_, _, _, link_sound sound phase⟩
  | yielding queue node =>
    cases moved
    exact ⟨_, _, _, sound.keep phase (fun _ => rfl) rfl rfl rfl id trivial⟩

theorem moveWaker_sound (moved : moveWaker state queue = some after) :
    ∃ contents place standing, Sound after contents place standing := by
  have fits := sound.wakers queue
  have busy : state.waker queue ≠ .idle := by
    intro idle
    simp [moveWaker, idle] at moved
  have made := sound.making queue busy
  -- The steps that write nothing and go on with the same fiber.
  have goes {now next} (at' : state.waker queue = now)
      (fits : next.Fits queue (state.head queue) state.next state.data place standing)
      (wakes : next.wakes = now.wakes) :
      ∃ contents place standing, Sound (state.follow queue next) contents place standing :=
    ⟨_, _, _, sound.follow made fits (at' ▸ wakes)⟩
  rw [moveWaker] at moved
  generalize phase : state.waker queue = now at moved
  cases now with
  | idle => exact (busy phase).elim
  | aborted => cases moved
  | popping =>
    cases moved
    exact goes phase rfl rfl
  | poppingNext prevHead =>
    rw [phase] at fits
    cases found : state.next prevHead with
    | some prevHeadNext =>
      simp only [found] at moved
      cases moved
      exact goes phase ⟨fits, fits ▸ found⟩ rfl
    | none =>
      simp only [found] at moved
      cases moved
      exact goes phase trivial rfl
  | advancing prevHead prevHeadNext =>
    cases moved
    exact advance_sound sound phase
  | copying prevHead prevHeadNext =>
    rw [phase] at fits
    obtain ⟨rfl, fiber, found, claims⟩ := fits
    cases moved
    exact goes phase ⟨fiber, found, claims⟩ rfl
  | storing prevHead data =>
    cases moved
    exact ⟨_, _, _, store_sound sound phase⟩
  | popped out =>
    rw [phase] at fits
    obtain ⟨fiber, found, claims⟩ := fits
    simp only [found] at moved
    cases moved
    exact goes phase claims rfl
  | asserting out toSchedule =>
    rw [phase] at fits
    -- A fiber that a waker has taken has no node.
    obtain ⟨_, pushed, taken, _⟩ := id fits
    simp only [if_pos (sound.fits taken).1] at moved
    cases moved
    exact goes phase fits rfl
  | assigning out toSchedule =>
    cases moved
    exact ⟨_, assign_sound sound phase⟩
  | testing toSchedule =>
    rw [phase] at fits
    cases moved
    split <;> exact goes phase fits rfl
  | readying toSchedule =>
    cases moved
    exact ⟨_, _, _, ready_sound sound phase⟩
  | scheduling toSchedule =>
    cases moved
    exact ⟨_, _, schedule_sound sound phase⟩
  | looping =>
    cases moved
    split <;> exact goes phase trivial rfl

theorem step_sound (stepped : step state action = some after)
    (switches : ∀ fiber other, action ≠ .refuse fiber other) :
    ∃ contents place standing, Sound after contents place standing := by
  cases action with
  | create fiber node =>
    obtain ⟨⟨absent, free⟩, ⟨⟩⟩ := Option.ite_none_right_eq_some.mp stepped
    exact ⟨_, create_sound sound absent free (.inl rfl)⟩
  | createFromThread fiber node =>
    obtain ⟨⟨absent, free⟩, ⟨⟩⟩ := Option.ite_none_right_eq_some.mp stepped
    exact ⟨_, create_sound sound absent free (.inr rfl)⟩
  | init queue node =>
    obtain ⟨⟨fresh, free⟩, ⟨⟩⟩ := Option.ite_none_right_eq_some.mp stepped
    obtain ⟨contents, place, kept⟩ := init_sound sound fresh free
    exact ⟨contents, place, _, kept⟩
  | wait fiber queue =>
    obtain ⟨⟨phase, made⟩, ⟨⟩⟩ := Option.ite_none_right_eq_some.mp stepped
    have running := sound.knows fiber
    rw [FiberRecord.Knows, phase] at running
    exact ⟨_, _, _, sound.keep phase (fun _ => rfl) rfl rfl rfl id ⟨made, running⟩⟩
  | yield fiber =>
    obtain ⟨phase, ⟨⟩⟩ := Option.ite_none_right_eq_some.mp stepped
    exact ⟨_, _, _, yield_sound sound phase⟩
  | refuse fiber other => exact (switches fiber other rfl).elim
  | save fiber =>
    obtain ⟨⟨swapped, _⟩, ⟨⟩⟩ := Option.ite_none_right_eq_some.mp stepped
    refine ⟨_, _, _, sound.keep rfl (fun _ => rfl) rfl rfl rfl id ?_⟩
    rw [FiberRecord.Knows]
    cases phase : (state.fiber fiber).phase with
    | suspended | parked => trivial
    | _ => simp [phase, Phase.swapped] at swapped
  | switchTo fiber =>
    obtain ⟨⟨queued, _, swapped⟩, ⟨⟩⟩ := Option.ite_none_right_eq_some.mp stepped
    exact ⟨_, _, _, switchTo_sound sound queued swapped⟩
  | finish fiber =>
    obtain ⟨phase, ⟨⟩⟩ := Option.ite_none_right_eq_some.mp stepped
    exact ⟨_, _, _, sound.keep phase (fun _ => rfl) rfl rfl rfl id trivial⟩
  | destroy fiber =>
    obtain ⟨phase, ⟨⟩⟩ := Option.ite_none_right_eq_some.mp stepped
    exact ⟨_, destroy_sound sound phase⟩
  | moveFiber fiber => exact moveFiber_sound sound stepped
  | wake queue count =>
    obtain ⟨⟨idle, made⟩, ⟨⟩⟩ := Option.ite_none_right_eq_some.mp stepped
    exact ⟨_, _, _, wake_sound sound idle made count⟩
  | moveWaker queue => exact moveWaker_sound sound stepped

end

end Steps

end LibFiber.WaitNodes
