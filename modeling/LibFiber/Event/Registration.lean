import LibFiber.Event.Machine
import Mathlib.Data.List.Nodup

namespace LibFiber.Event

open Semantics Function

/-! A fiber that waits for an event is registered with `epoll`, or its notification is on
its way, and each of its waits ends with one wake-up. -/

section Masks

def Contains (mask events : BitVec 32) : Prop := events &&& mask = events

theorem contains_or_left (mask events : BitVec 32) : Contains (mask ||| events) events := by
  ext index
  simp only [BitVec.getElem_and, BitVec.getElem_or]
  cases events[index] <;> simp

theorem Contains.or_right (contains : Contains mask events)
    (more : BitVec 32) : Contains (mask ||| more) events := by
  rw [Contains, BitVec.and_or_distrib_left, contains]
  ext index
  simp only [BitVec.getElem_and, BitVec.getElem_or]
  cases events[index] <;> simp

end Masks

section Fields

variable {Fd Fiber Poller : Type}

/-- The mask that `epoll` looks out for. -/
def State.armed (state : State Fd Fiber Poller) (fd : Fd) : BitVec 32 :=
  match state.interest fd with
  | some ⟨mask, true⟩ => mask
  | some ⟨_, false⟩ | none => 0

/-- An event of the descriptor is reported and not handled yet. -/
def State.Notified (state : State Fd Fiber Poller) (fd : Fd) : Prop :=
  ∃ poller reported, (fd, reported) ∈ state.events poller

def Phase.entries : Phase Fd → Nat
  | .woken => 1
  | .running | .parked _ _ => 0

/-- The waiters are linked through their `scratch` fields. -/
def Linked (scratch : Fiber → Scratch Fiber) : List Fiber → Prop
  | [] => True
  | first :: rest => scratch first = .ofWaiters rest ∧ Linked scratch rest

theorem Linked.congr
    (linked : Linked scratch waiters) (same : ∀ fiber ∈ waiters, other fiber = scratch fiber) :
    Linked other waiters := by
  induction waiters with
  | nil => trivial
  | cons first rest ih =>
    obtain ⟨link, behind⟩ := linked
    refine ⟨(same first List.mem_cons_self).trans link, ih behind ?_⟩
    exact fun fiber member => same fiber (List.mem_cons_of_mem _ member)

/-- What the descriptor's record and `epoll`'s interest list have in common. -/
structure Registered (state : State Fd Fiber Poller) : Prop where
  unlocked : ∀ fd, state.locked fd = false
  added : ∀ fd, (state.info fd).added = (state.interest fd).isSome
  opened : ∀ fd, (state.info fd).added → state.opened fd
  recorded : ∀ fd, (state.info fd).added = false → (state.info fd).events = 0

structure Sound (state : State Fd Fiber Poller) : Prop extends Registered state where
  listed : ∀ fiber fd, fiber ∈ (state.info fd).waiters ↔
    ∃ events, state.phase fiber = .parked fd events
  distinct : ∀ fd, (state.info fd).waiters.Nodup
  asked : ∀ fiber fd events, state.phase fiber = .parked fd events →
    Contains (state.info fd).events events
  armed : ∀ fd, (state.info fd).waiters ≠ [] →
    state.armed fd = epollOneshot ||| (state.info fd).events ∨ state.Notified fd
  linked : ∀ fd, Linked state.scratch (state.info fd).waiters
  ready : ∀ fiber, state.scheduled fiber = (state.phase fiber).entries

end Fields

section Wakes

variable {Fd Fiber Poller : Type} [DecidableEq Fd] [DecidableEq Fiber] [DecidableEq Poller]

/-- What the loop of `fiber_event_wake_waiters` does to the fibers of a list. -/
structure Wakes (result : Scratch Fiber) (waiters : List Fiber)
    (state after : State Fd Fiber Poller) : Prop where
  info : after.info = state.info
  locked : after.locked = state.locked
  opened : after.opened = state.opened
  interest : after.interest = state.interest
  events : after.events = state.events
  scratch : ∀ fiber, after.scratch fiber = if fiber ∈ waiters then result else state.scratch fiber
  phase : ∀ fiber, after.phase fiber =
    if fiber ∈ waiters then (state.phase fiber).wake else state.phase fiber
  scheduled : ∀ fiber, after.scheduled fiber = state.scheduled fiber + waiters.count fiber

omit [DecidableEq Fd] [DecidableEq Poller] in
theorem foldl_wakes (result : Scratch Fiber) (waiters : List Fiber)
    (state : State Fd Fiber Poller) :
    Wakes result waiters state (waiters.foldl (State.wake result) state) := by
  induction waiters generalizing state with
  | nil => exact ⟨rfl, rfl, rfl, rfl, rfl, fun _ => rfl, fun _ => rfl, fun _ => rfl⟩
  | cons first rest ih =>
    have later := ih (state.wake result first)
    have idem : ∀ phase : Phase Fd, phase.wake.wake = phase.wake := by
      intro phase
      cases phase <;> rfl
    refine ⟨later.info, later.locked, later.opened, later.interest, later.events, ?_, ?_, ?_⟩
    · intro fiber
      rw [List.foldl_cons, later.scratch]
      by_cases same : fiber = first
      · simp [same, State.wake]
      · simp [same, State.wake]
    · intro fiber
      rw [List.foldl_cons, later.phase]
      by_cases same : fiber = first
      · simp [same, State.wake, idem]
      · simp [same, State.wake]
    · intro fiber
      rw [List.foldl_cons, later.scheduled]
      by_cases same : fiber = first
      · simp [same, State.wake, State.schedule]
        omega
      · simp [same, State.wake, State.schedule, Ne.symm same]

variable {result : Scratch Fiber}

omit [DecidableEq Fd] [DecidableEq Fiber] in
theorem Sound.sole (sound : Sound state) {fiber : Fiber} {other : Fd}
    (here : fiber ∈ (state.info fd).waiters) (there : fiber ∈ (state.info other).waiters) :
    other = fd := by
  obtain ⟨events, parked⟩ := (sound.listed fiber fd).mp here
  obtain ⟨_, also⟩ := (sound.listed fiber other).mp there
  rw [parked] at also
  cases also
  rfl

omit [DecidableEq Poller] in
theorem Sound.settle {left : BitVec 32} {added : Bool} {opened : Fd → Bool}
    {interest : Fd → Option Registration} {events : Poller → List (Fd × BitVec 32)}
    (sound : Sound state) (agrees : added = (interest fd).isSome)
    (usable : added → opened fd) (recorded : added = false → left = 0)
    (others : ∀ other, other ≠ fd →
      opened other = state.opened other ∧ interest other = state.interest other)
    (notified : ∀ other, other ≠ fd → state.Notified other →
      ∃ poller reported, (other, reported) ∈ events poller) :
    Sound (State.wakeWaiters
      { state with
        info := update state.info fd { state.info fd with events := left, added }
        opened
        interest
        events } fd result) := by
  have wakes := foldl_wakes result (state.info fd).waiters
    { state with
      info := update state.info fd ⟨left, added, []⟩
      opened
      interest
      events }
  simp only [State.wakeWaiters, update_self, update_idem]
  generalize List.foldl _ _ _ = after at wakes ⊢
  obtain ⟨info, locked, isOpen, registered, reports, scratch, phase, scheduled⟩ := wakes
  dsimp only at info locked isOpen registered reports scratch phase scheduled
  have here : after.info fd = ⟨left, added, []⟩ := by rw [info, update_self]
  have there : ∀ other, other ≠ fd → after.info other = state.info other := by
    intro other apart
    rw [info, update_of_ne apart]
  -- Nobody is parked on the descriptor, and on the others as before.
  have parked : ∀ fiber other events, after.phase fiber = .parked other events ↔
      other ≠ fd ∧ state.phase fiber = .parked other events := by
    intro fiber other events
    rw [phase]
    by_cases member : fiber ∈ (state.info fd).waiters
    · obtain ⟨_, waits⟩ := (sound.listed fiber fd).mp member
      rw [if_pos member, waits]
      refine iff_of_false nofun fun ⟨apart, also⟩ => ?_
      cases also
      exact apart rfl
    · rw [if_neg member]
      refine ⟨fun waits => ⟨fun same => ?_, waits⟩, And.right⟩
      exact member ((sound.listed fiber fd).mpr ⟨events, same ▸ waits⟩)
  -- What holds of the descriptor and, as before, of the others.
  have both : ∀ {holds : Fd → Prop}, holds fd → (∀ other, other ≠ fd → holds other) →
      ∀ other, holds other := by
    intro holds now before other
    by_cases same : other = fd
    · exact same ▸ now
    · exact before other same
  constructor
  case toRegistered =>
    refine ⟨locked ▸ sound.unlocked, both ?_ ?_, both ?_ ?_, both ?_ ?_⟩
    · rw [here, registered]
      exact agrees
    · intro other apart
      rw [there other apart, registered, (others other apart).2]
      exact sound.added other
    · rw [here, isOpen]
      exact usable
    · intro other apart
      rw [there other apart, isOpen, (others other apart).1]
      exact sound.opened other
    · rw [here]
      exact recorded
    · intro other apart
      rw [there other apart]
      exact sound.recorded other
  case listed =>
    intro fiber
    refine both (by simp [here, parked]) fun other apart => ?_
    rw [there other apart, sound.listed]
    simp [parked, apart]
  case distinct =>
    refine both (by simp [here]) fun other apart => ?_
    rw [there other apart]
    exact sound.distinct other
  case asked =>
    intro fiber other asked waits
    obtain ⟨apart, before⟩ := (parked fiber other asked).mp waits
    rw [there other apart]
    exact sound.asked fiber other asked before
  case armed =>
    refine both (by simp [here]) fun other apart waiting => ?_
    rw [there other apart] at waiting ⊢
    refine (sound.armed other waiting).imp ?_ ?_
    · intro armed
      rwa [State.armed, registered, (others other apart).2]
    · intro before
      rw [State.Notified, reports]
      exact notified other apart before
  case linked =>
    refine both (by rw [here]; trivial) fun other apart => ?_
    rw [there other apart]
    refine (sound.linked other).congr fun fiber member => ?_
    rw [scratch, if_neg fun waits => apart (sound.sole waits member)]
  case ready =>
    intro fiber
    rw [scheduled, phase, sound.ready]
    by_cases member : fiber ∈ (state.info fd).waiters
    · obtain ⟨_, waits⟩ := (sound.listed fiber fd).mp member
      rw [if_pos member, waits, List.count_eq_one_of_mem (sound.distinct fd) member]
      rfl
    · rw [if_neg member, List.count_eq_zero_of_not_mem member, Nat.add_zero]

end Wakes

section Steps

theorem init_sound {Fd Fiber Poller : Type} (opened : Fd → Bool)
    (scratch : Fiber → Scratch Fiber) :
    Sound (init opened scratch : State Fd Fiber Poller) where
  unlocked := fun _ => rfl
  added := fun _ => rfl
  opened := fun _ added => by cases added
  recorded := fun _ _ => rfl
  listed := by simp [init]
  distinct := fun _ => List.nodup_nil
  asked := fun _ _ _ parked => by cases parked
  armed := fun _ waiters => (waiters rfl).elim
  linked := fun _ => trivial
  ready := fun _ => rfl

variable {Fd Fiber Poller : Type} [DecidableEq Fd] [DecidableEq Fiber] [DecidableEq Poller]
variable {state : State Fd Fiber Poller}

omit [DecidableEq Fiber] [DecidableEq Poller] in
theorem open_sound (sound : Sound state) (fd : Fd) :
    Sound { state with opened := update state.opened fd true } := by
  refine { sound with opened := ?_ }
  intro other added
  by_cases same : other = fd
  · rw [same]
    exact update_self _ _ _
  · exact (update_of_ne same _ _).trans (sound.opened other added)

omit [DecidableEq Fiber] [DecidableEq Poller] in
theorem Registered.register (registered : Registered state) (opened : state.opened fd)
    (events : BitVec 32) :
    state.register fd events =
      { state with
        info := update state.info fd
          { state.info fd with
            events := (state.info fd).events ||| requested events
            added := true }
        interest := update state.interest fd
          (some ⟨epollOneshot ||| ((state.info fd).events ||| requested events), true⟩) } := by
  have agree := registered.added fd
  cases added : (state.info fd).added with
  | true =>
    rw [added] at agree
    simp [State.register, added, State.epollCtlMod, opened, ← agree]
  | false =>
    rw [added] at agree
    have absent : state.interest fd = none := by simpa using agree.symm
    simp [State.register, added, State.epollCtlAdd, opened, absent]

omit [DecidableEq Poller] in
theorem wait_sound (sound : Sound state) (running : state.phase fiber = .running)
    (opened : state.opened fd) (events : BitVec 32) :
    Sound { (state.register fd events).link fd fiber with
      phase := update state.phase fiber (.parked fd (requested events)) } := by
  have fresh : ∀ other, fiber ∉ (state.info other).waiters := by
    intro other member
    obtain ⟨_, parked⟩ := (sound.listed fiber other).mp member
    exact nomatch running.symm.trans parked
  rw [sound.register opened events]
  simp only [State.link, update_self, update_idem]
  constructor
  case toRegistered =>
    constructor
    · exact sound.unlocked
    · intro other
      by_cases same : other = fd
      · subst other
        simp
      · simpa [update_of_ne same] using sound.added other
    · intro other added
      by_cases same : other = fd
      · exact same ▸ opened
      · exact sound.opened other (by simpa [update_of_ne same] using added)
    · intro other unadded
      by_cases same : other = fd
      · subst other
        simp at unadded
      · simp only [update_of_ne same] at unadded ⊢
        exact sound.recorded other unadded
  case listed =>
    intro other place
    by_cases here : place = fd <;> by_cases mine : other = fiber
    · subst here mine
      simp
    · subst place
      simp [mine, sound.listed other fd]
    · subst other
      simp [update_of_ne here, fresh place, Ne.symm here]
    · simp [update_of_ne mine, update_of_ne here, sound.listed other place]
  case distinct =>
    intro place
    by_cases here : place = fd
    · subst place
      simpa using ⟨fresh fd, sound.distinct fd⟩
    · simpa [update_of_ne here] using sound.distinct place
  case asked =>
    intro other place asked parked
    by_cases mine : other = fiber
    · subst other
      simp only [update_self, Phase.parked.injEq] at parked
      obtain ⟨rfl, rfl⟩ := parked
      simpa using contains_or_left (state.info fd).events (requested events)
    · simp only [update_of_ne mine] at parked
      have before := sound.asked other place asked parked
      by_cases here : place = fd
      · subst place
        simpa using before.or_right (requested events)
      · simpa [update_of_ne here] using before
  case armed =>
    intro place some_
    by_cases here : place = fd
    · subst place
      simp [State.armed]
    · simp only [update_of_ne here] at some_ ⊢
      simpa only [State.armed, State.Notified, update_of_ne here] using sound.armed place some_
  case linked =>
    intro place
    have others : ∀ other ∈ (state.info place).waiters,
        update state.scratch fiber (.ofWaiters (state.info fd).waiters) other =
          state.scratch other := by
      intro other member
      have apart : other ≠ fiber := fun same => fresh place (same ▸ member)
      exact update_of_ne apart _ _
    by_cases here : place = fd
    · subst place
      simpa [Linked] using (sound.linked fd).congr others
    · simpa [update_of_ne here] using (sound.linked place).congr others
  case ready =>
    intro other
    by_cases mine : other = fiber
    · subst other
      simp [sound.ready, running, Phase.entries]
    · simpa [update_of_ne mine] using sound.ready other

omit [DecidableEq Fiber] in
theorem report_sound (sound : Sound state) (empty : state.events poller = [])
    (events : List (Fd × BitVec 32)) : Sound (state.report poller events) := by
  refine { sound with added := ?_, armed := ?_ }
  · intro other
    have agree := sound.added other
    simp only [State.report]
    split
    · simpa using agree
    · exact agree
  · intro other some_
    by_cases reported : other ∈ events.map Prod.fst
    · obtain ⟨event, member, rfl⟩ := List.mem_map.mp reported
      exact .inr ⟨poller, event.2, by simpa [State.report] using member⟩
    · have same : (state.report poller events).armed other = state.armed other := by
        simp only [State.armed, State.report, if_neg reported]
      rw [same]
      refine (sound.armed other some_).imp id ?_
      intro ⟨holder, mask, member⟩
      have apart : holder ≠ poller := by
        intro equal
        simp [equal, empty] at member
      exact ⟨holder, mask, by simpa [State.report, update_of_ne apart] using member⟩

/-- The events that `fiber_poll_events_internal` leaves recorded. -/
def State.left (state : State Fd Fiber Poller) (fd : Fd) (reported : BitVec 32) : BitVec 32 :=
  (state.info fd).events &&& ~~~reported &&& (epollIn ||| epollOut)

omit [DecidableEq Poller] in
theorem handle_eq (state : State Fd Fiber Poller) (fd : Fd) (reported : BitVec 32) :
    ∃ interest, state.handle fd reported = State.wakeWaiters
        { state with
          info := update state.info fd { state.info fd with events := state.left fd reported }
          interest } fd .null ∧
      (∀ other, (interest other).isSome = (state.interest other).isSome) ∧
      ∀ other, other ≠ fd → interest other = state.interest other := by
  rw [State.handle]
  change ∃ interest, State.wakeWaiters (if state.left fd reported ≠ 0 then _ else _) _ _ = _ ∧ _
  by_cases again : state.left fd reported ≠ 0 ∧ state.opened fd ∧ (state.interest fd).isSome
  · refine ⟨update state.interest fd (some ⟨epollOneshot ||| state.left fd reported, true⟩),
      ?_, ?_, ?_⟩
    · rw [if_pos again.1, State.epollCtlMod, if_pos again.2]
      rfl
    · intro other
      by_cases same : other = fd
      · simp [same, again.2.2]
      · rw [update_of_ne same]
    · exact fun other same => update_of_ne same _ _
  · refine ⟨state.interest, ?_, fun _ => rfl, fun _ _ => rfl⟩
    split
    · rename_i some_
      rw [State.epollCtlMod, if_neg fun ready => again ⟨some_, ready⟩]
      rfl
    · rfl

theorem handle_sound (sound : Sound state) {reported : BitVec 32} {rest : List (Fd × BitVec 32)}
    (found : state.events poller = (fd, reported) :: rest) :
    Sound (State.handle { state with events := update state.events poller rest } fd reported) := by
  obtain ⟨interest, handled, registered, others⟩ :=
    handle_eq { state with events := update state.events poller rest } fd reported
  rw [handled]
  refine sound.settle ?_ (sound.opened fd) ?_ (fun other apart => ⟨rfl, others other apart⟩) ?_
  · rw [registered fd]
    exact sound.added fd
  · intro unadded
    simp [State.left, sound.recorded fd unadded]
  · intro other apart ⟨holder, mask, member⟩
    refine ⟨holder, mask, ?_⟩
    change (other, mask) ∈ update state.events poller rest holder
    by_cases mine : holder = poller
    · subst holder
      rw [update_self]
      rw [found, List.mem_cons] at member
      refine member.resolve_left fun same => apart ?_
      exact congrArg Prod.fst same
    · rwa [update_of_ne mine]

omit [DecidableEq Poller] in
theorem close_sound (sound : Sound state) (fd : Fd) : Sound (state.close fd) := by
  have cleared : (if (state.info fd).events ≠ 0 ∨ (state.info fd).added = true then
      { state.info fd with events := 0, added := false } else state.info fd) =
        { state.info fd with events := 0, added := false } := by
    split
    · rfl
    · rename_i clean
      simp only [ne_eq, not_or, not_not, Bool.not_eq_true] at clean
      rw [← clean.1, ← clean.2]
  rw [State.close]
  simp only [cleared]
  refine sound.settle (by simp) nofun (fun _ => rfl) ?_ fun _ _ => id
  exact fun other apart => ⟨update_of_ne apart _ _, update_of_ne apart _ _⟩

omit [DecidableEq Fd] [DecidableEq Poller] in
theorem resume_sound (sound : Sound state) (woken : state.phase fiber = .woken) :
    Sound { state with
      phase := update state.phase fiber .running
      scheduled := update state.scheduled fiber (state.scheduled fiber - 1) } := by
  have others : ∀ other fd events, update state.phase fiber .running other = .parked fd events ↔
      state.phase other = .parked fd events := by
    intro other fd events
    by_cases mine : other = fiber
    · subst other
      simp [woken]
    · rw [update_of_ne mine]
  refine { sound with listed := ?_, asked := ?_, ready := ?_ }
  · intro other fd
    simp only [others]
    exact sound.listed other fd
  · intro other fd events parked
    exact sound.asked other fd events ((others other fd events).mp parked)
  · intro other
    by_cases mine : other = fiber
    · subst other
      simp [sound.ready, woken, Phase.entries]
    · simpa [update_of_ne mine] using sound.ready other

end Steps

end LibFiber.Event
