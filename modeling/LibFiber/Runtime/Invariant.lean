import LibFiber.Data.Placement
import LibFiber.Runtime.Machine
import LibFiber.Runtime.Shape
import Mathlib.Data.List.Nodup

namespace LibFiber.Runtime

open Data Semantics Function

variable {Mgr : Type}
variable {pc : Pc Mgr}

/-! What holds between the steps of a run in which every gate is open and no
fiber is stolen in the middle of its maintenance. -/

/-- Where a fiber is. -/
inductive Place (Mgr : Type) where
  | absent
  | on (mgr : Mgr)
  /-- In `fiber_manager_wait_in_mpsc_queue`, before the push. -/
  | entering (mgr : Mgr)
  | slot (mgr : Mgr) (slot : Slot)
  | waiting (wait : Wait)
  /-- Taken out of a wait structure by the fiber on this manager. -/
  | claimed (mgr : Mgr)
  | queued (mgr : Mgr)
  /-- Taken out of a run queue, or chosen to be switched to. -/
  | hand (mgr : Mgr)
  /-- A maintenance fiber at rest. -/
  | idle (mgr : Mgr)
deriving DecidableEq, Repr

@[grind =] def Pc.hand : Pc Mgr → Option (Fiber Mgr)
  | .test _ _ fiber | .switch _ _ fiber | .swap _ fiber | .stash _ _ _ fiber => some fiber
  | .run | .publish _ | .yield _ | .scan _ _ | .balance _ _ _ | .steal _ _ _ | .claim _ _ => none

@[grind =] def Pc.claimed : Pc Mgr → Option (Fiber Mgr)
  | .claim _ fiber => some fiber
  | .run | .publish _ | .yield _ | .scan _ _ | .test _ _ _ | .switch _ _ _ | .swap _ _
  | .balance _ _ _ | .steal _ _ _ | .stash _ _ _ _ => none

@[grind =] def Pc.enters : Pc Mgr → Bool
  | .publish _ => true
  | .run | .yield _ | .scan _ _ | .test _ _ _ | .switch _ _ _ | .swap _ _
  | .balance _ _ _ | .steal _ _ _ | .stash _ _ _ _ | .claim _ _ => false

/-- The points at which a thread may have its fiber's maintenance before it. -/
@[grind =] def Pc.returns : Pc Mgr → Bool
  | .run | .claim _ _ => true
  | .publish _ | .yield _ | .scan _ _ | .test _ _ _ | .switch _ _ _ | .swap _ _
  | .balance _ _ _ | .steal _ _ _ | .stash _ _ _ _ => false

theorem Pc.hand_only (held : pc.hand = some fiber) :
    pc.claimed = none ∧ pc.enters = false := by
  cases pc <;> grind

theorem Pc.claimed_only (held : pc.claimed = some fiber) :
    pc.hand = none ∧ pc.enters = false := by
  cases pc <;> grind

@[grind =] def Deferred.carried (deferred : Deferred Mgr) : Option (Fiber Mgr) :=
  if deferred.carries then some deferred.fiber else none

@[grind =] def State.Holds (state : State Mgr) : Place Mgr → Fiber Mgr → Prop
  | .absent, fiber => state.live fiber = false
  | .on mgr, fiber => state.exec mgr = fiber ∧ state.fiberState fiber = .running
  | .entering mgr, fiber => state.exec mgr = fiber ∧ (state.pc mgr).enters
  | .slot mgr slot, fiber =>
    ∃ deferred, state.slots (mgr, slot) = some deferred ∧ deferred.carried = some fiber
  | .waiting wait, fiber => fiber ∈ state.waiters wait
  | .claimed mgr, fiber => (state.pc mgr).claimed = some fiber
  | .queued mgr, fiber => fiber ∈ (state.scheduler mgr).members
  | .hand mgr, fiber => (state.pc mgr).hand = some fiber
  | .idle mgr, fiber =>
    state.maintenanceFiber mgr = some fiber ∧
      (state.fiberState fiber = .saving ∨ state.fiberState fiber = .waiting) ∧
      (state.pc mgr).hand ≠ some fiber

/-- A fiber whose thread has not left it, or has not tested it since. -/
@[grind =] def State.Tied (state : State Mgr) (mgr : Mgr) (fiber : Fiber Mgr) : Prop :=
  state.exec mgr = fiber ∨
    (state.stack (state.exec mgr)).head? = some (.settle mgr) ∧ state.oldFiber mgr = fiber

@[grind =] def State.Free (state : State Mgr) (fiber : Fiber Mgr) : Prop :=
  ∀ mgr, ¬ state.Tied mgr fiber

/-- One for a fiber that waits and has not been scheduled for it yet. -/
@[grind =] def Place.owed : Place Mgr → Nat
  | .entering _ | .waiting _ | .claimed _ => 1
  | .slot _ .mpmcToPush | .slot _ .mpscToPush | .slot _ .mutexToUnlock
  | .slot _ .spinlockToUnlock | .slot _ .setWaitLocation => 1
  | .slot _ .doneFiber | .slot _ .toSchedule => 0
  | .absent | .on _ | .queued _ | .hand _ | .idle _ => 0

theorem Place.owed_le_one (place : Place Mgr) : place.owed ≤ 1 := by
  unfold Place.owed
  split <;> decide

/-- In one of the structures through which threads pass fibers on. -/
@[grind =] def Place.loose : Place Mgr → Bool
  | .entering _ | .waiting _ | .claimed _ | .queued _ | .hand _ => true
  | .absent | .on _ | .slot _ _ | .idle _ => false

/-- The places of a fiber with a frame that works on `own`'s fields. -/
@[grind =] def State.Home (state : State Mgr) (fiber : Fiber Mgr) (own : Mgr) :
    Place Mgr → Prop
  | .on mgr | .idle mgr => mgr = own
  | .hand mgr => mgr = own ∧ (∀ own caller loop, state.pc mgr ≠ .stash own caller loop fiber) ∧
      (state.fiberState fiber = .saving → ∃ old, state.pc mgr = .switch own old fiber)
  | .queued mgr => mgr = own ∧ state.fiberState fiber ≠ .saving ∧
      fiber ∈ (state.scheduler own).queue (state.scheduler own).scheduleFrom
  | .slot mgr slot => mgr = own ∧ slot = .toSchedule ∧ state.fiberState fiber ≠ .saving
  | .absent | .entering _ | .waiting _ | .claimed _ => False

structure State.FiberGood (state : State Mgr) (place : Fiber Mgr → Place Mgr)
    (fiber : Fiber Mgr) : Prop where
  shape : Calm (state.stack fiber) ∨
    ∃ mgr, state.exec mgr = fiber ∧ (state.pc mgr).returns ∧ Fresh mgr (state.stack fiber)
  anchored : ∀ frame ∈ state.stack fiber, ∀ own, frame.anchor = some own →
    state.Home fiber own (place fiber)
  owed : (place fiber).owed = 1 → .waitEnd ∈ state.stack fiber
  dead : .deadEnd ∈ state.stack fiber →
    place fiber = .absent ∨ ∃ mgr, place fiber = .slot mgr .doneFiber
  loop : ∀ own, .threadLoop own ∈ state.stack fiber → state.maintenanceFiber own = some fiber
  lone : ∀ own, state.stack fiber = [.threadLoop own] →
    place fiber = .on own ∨ place fiber = .idle own ∨ place fiber = .hand own
  idle : ∀ own, place fiber = .idle own → state.stack fiber = [.threadLoop own]
  unborn : place fiber = .absent → state.fiberState fiber ≠ .saving
  gone : place fiber = .absent ∨ (∃ mgr, place fiber = .slot mgr .doneFiber) →
    .waitEnd ∉ state.stack fiber
  yields : ∀ current, .yieldLoop current ∈ state.stack fiber → current = fiber
  hidden : ∀ wait, place fiber = .waiting wait → state.fiberState fiber = .saving →
    ∃ queue, wait = .mpsc queue

/-- The fiber on `mgr` is in `fiber_manager_yield`. -/
@[grind =] def State.Yielding (state : State Mgr) (mgr : Mgr) : Prop :=
  if state.fiberState (state.exec mgr) = .running then
    ∀ own, state.stack (state.exec mgr) ≠ [.threadLoop own]
  else state.fiberState (state.exec mgr) ≠ .ready ∧
    (state.stack (state.exec mgr) = [.waitEnd] ∨ state.stack (state.exec mgr) = [.deadEnd])

/-- The thread is in `fiber_manager_thread_func`'s loop. -/
@[grind =] def State.Looping (state : State Mgr) (place : Fiber Mgr → Place Mgr) (mgr : Mgr) :
    Prop :=
  place (state.exec mgr) = .on mgr ∧ state.stack (state.exec mgr) = [.threadLoop mgr]

@[grind =] def State.Serves (state : State Mgr) (place : Fiber Mgr → Place Mgr) (mgr : Mgr) :
    Caller Mgr → Prop
  | .yield current st =>
    current = state.exec mgr ∧ st = state.fiberState current ∧ state.Yielding mgr
  | .thread => state.Looping place mgr

/-- What a program point says about the manager and the fibers it works on. -/
@[grind =] def State.Sound (state : State Mgr) (place : Fiber Mgr → Place Mgr) (mgr : Mgr) :
    Pc Mgr → Prop
  | .run => place (state.exec mgr) = .on mgr ∧ state.currentFiber mgr = state.exec mgr
  | .claim wait fiber =>
    place (state.exec mgr) = .on mgr ∧ state.currentFiber mgr = state.exec mgr ∧
      (state.fiberState fiber = .saving → ∃ queue, wait = .mpsc queue)
  | .publish _ =>
    state.stack (state.exec mgr) = [.waitEnd] ∧ state.currentFiber mgr = state.exec mgr
  | .yield current =>
    current = state.exec mgr ∧ state.Yielding mgr ∧ state.currentFiber mgr = state.exec mgr
  | .scan own caller | .test own caller _ =>
    own = mgr ∧ state.Serves place mgr caller ∧ state.currentFiber mgr = state.exec mgr
  | .balance own caller _ | .steal own caller _ | .stash own caller _ _ =>
    own = mgr ∧ place (state.exec mgr) = .on mgr ∧ (caller = .thread → state.Looping place mgr) ∧
      state.currentFiber mgr = state.exec mgr
  | .switch own old new =>
    own = mgr ∧ old = state.exec mgr ∧ state.Free new ∧
      (state.fiberState old = .running → ∀ own, state.stack old ≠ [.threadLoop own]) ∧
      state.currentFiber mgr = state.exec mgr
  | .swap old new =>
    old = state.exec mgr ∧ state.Free new ∧
      state.fiberState old ≠ .running ∧ state.fiberState new = .running ∧
      state.oldFiber mgr = old ∧ state.currentFiber mgr = new

theorem State.Sound.congr {before after : State Mgr} {place : Fiber Mgr → Place Mgr} {mgr : Mgr}
    (sound : before.Sound place mgr pc) (exec : after.exec = before.exec)
    (stack : after.stack = before.stack) (fiberState : after.fiberState = before.fiberState)
    (current : after.currentFiber = before.currentFiber)
    (old : after.oldFiber = before.oldFiber) : after.Sound place mgr pc := by
  obtain ⟨⟩ := before
  obtain ⟨⟩ := after
  subst exec stack fiberState current old
  cases pc <;> exact sound

/-- The work in a field of `mgr` is the fiber's that is about to leave, or the
fiber `mgr` is on has yet to come to it in its maintenance. -/
@[grind =] def State.Pending (state : State Mgr) (mgr : Mgr) (slot : Slot)
    (deferred : Deferred Mgr) : Prop :=
  if deferred.swapped then
    ∃ rest, .maintenance mgr rest ∈ state.stack (state.exec mgr) ∧ slot ∈ rest
  else state.exec mgr = deferred.fiber ∧ state.fiberState deferred.fiber ≠ .running

structure State.Good (state : State Mgr) (place : Fiber Mgr → Place Mgr) (mgr : Mgr) :
    Prop where
  tied : ∀ fiber, state.Tied mgr fiber → place fiber = .on mgr ∨ state.fiberState fiber = .saving ∨
      ∃ slot, place fiber = .slot mgr slot
  home : ∀ fiber, state.Tied mgr fiber → ∀ frame ∈ state.stack fiber, ∀ own,
    frame.anchor = some own → own = mgr
  pending : ∀ slot deferred, state.slots (mgr, slot) = some deferred →
    state.Pending mgr slot deferred
  carried : ∀ slot deferred, state.slots (mgr, slot) = some deferred →
    (slot ≠ .mutexToUnlock → deferred.carries) ∧
      (deferred.carries → state.fiberState deferred.fiber ≠ .saving)
  keeper : ∀ fiber, state.maintenanceFiber mgr = some fiber → .threadLoop mgr ∈ state.stack fiber
  unkept : state.maintenanceFiber mgr = none → state.live (.maintenance mgr) = false
  sound : state.Sound place mgr (state.pc mgr)

structure Invariant (state : State Mgr) (place : Fiber Mgr → Place Mgr) : Prop where
  placed : Placed state.Holds place
  queued : ∀ mgr, (state.scheduler mgr).members.Nodup
  waiting : ∀ wait, (state.waiters wait).Nodup
  apart : ∀ left right fiber, state.Tied left fiber → state.Tied right fiber → left = right
  fibers : ∀ fiber, state.FiberGood place fiber
  managers : ∀ mgr, state.Good place mgr

theorem Invariant.sound (invariant : Invariant state place) (point : state.pc mgr = pc) :
    state.Sound place mgr pc :=
  point ▸ (invariant.managers mgr).sound

theorem Invariant.slotted
    (invariant : Invariant state place) {slot : Slot} {deferred : Deferred Mgr}
    (found : state.slots (mgr, slot) = some deferred) (carries : deferred.carries) :
    place deferred.fiber = .slot mgr slot :=
  invariant.placed.place_eq ⟨deferred, found, by grind⟩

/-- What a step of one manager may do to what the others rely on. -/
structure Step (before after : State Mgr) (place moved : Fiber Mgr → Place Mgr) (mgr : Mgr) :
    Prop where
  pcs : ∀ other ≠ mgr, after.pc other = before.pc other
  execs : ∀ other ≠ mgr, after.exec other = before.exec other
  currents : ∀ other ≠ mgr, after.currentFiber other = before.currentFiber other
  olds : ∀ other ≠ mgr, after.oldFiber other = before.oldFiber other
  slots : ∀ other ≠ mgr, ∀ slot, after.slots (other, slot) = before.slots (other, slot)
  keepers : ∀ other, after.maintenanceFiber other = before.maintenanceFiber other ∨
    other = mgr ∧ before.maintenanceFiber mgr = none
  lives : ∀ other ≠ mgr, before.live (.maintenance other) = false →
    after.live (.maintenance other) = false
  ties : ∀ fiber, after.Tied mgr fiber →
    before.Tied mgr fiber ∨ before.Free fiber ∧ place fiber = .hand mgr
  moves : ∀ fiber, moved fiber = place fiber ∨
    ∀ other ≠ mgr, place fiber ≠ .on other ∧ ∀ slot, place fiber ≠ .slot other slot
  states : ∀ fiber, after.fiberState fiber = before.fiberState fiber ∨
    (before.fiberState fiber ≠ .saving ∨ before.Free fiber) ∧
      (place fiber = .on mgr ∨ place fiber = .hand mgr ∨ place fiber = .claimed mgr ∨
        place fiber = .absent) ∨
    before.Free fiber ∧ before.fiberState fiber = .saving ∧ after.fiberState fiber = .waiting
  frames : ∀ fiber, after.stack fiber = before.stack fiber ∨ fiber = before.exec mgr ∨
    before.Free fiber ∧ (place fiber = .hand mgr ∨ place fiber = .absent)
  froms : ∀ own fiber, moved fiber = .queued own → place fiber = .queued own →
    fiber ∈ (before.scheduler own).queue (before.scheduler own).scheduleFrom →
    fiber ∈ (after.scheduler own).queue (after.scheduler own).scheduleFrom

variable {before after : State Mgr} {place moved : Fiber Mgr → Place Mgr} {mgr : Mgr}

section

variable (step : Step before after place moved mgr)
include step

theorem Step.stack_exec
    (invariant : Invariant before place) {other : Mgr} (different : other ≠ mgr) {fiber : Fiber Mgr}
    (tie : before.Tied other fiber) : after.stack fiber = before.stack fiber := by
  have frames := step.frames fiber
  have apart := invariant.apart other mgr fiber tie
  grind

theorem Step.tied_iff (invariant : Invariant before place) (fiber : Fiber Mgr) {other : Mgr}
    (different : other ≠ mgr) : after.Tied other fiber ↔ before.Tied other fiber := by
  have exec := step.execs other different
  have old := step.olds other different
  have stack := step.stack_exec invariant different (.inl rfl)
  simp only [State.Tied, exec, old, stack]

theorem Step.apart (invariant : Invariant before place) {left right : Mgr} {fiber : Fiber Mgr}
    (tiedLeft : after.Tied left fiber) (tiedRight : after.Tied right fiber) : left = right := by
  have apart := invariant.apart left right fiber
  have ties := step.ties fiber
  have same : ∀ other ≠ mgr, after.Tied other fiber ↔ before.Tied other fiber :=
    fun _ => step.tied_iff invariant fiber
  by_cases atLeft : left = mgr <;> by_cases atRight : right = mgr <;> grind

theorem Step.tied_kept
    (invariant : Invariant before place) {other : Mgr} (different : other ≠ mgr) {fiber : Fiber Mgr}
    (tie : before.Tied other fiber) : after.fiberState fiber = before.fiberState fiber ∧
      (moved fiber = place fiber ∨ before.fiberState fiber = .saving) := by
  have tied := (invariant.managers other).tied fiber tie
  have moves := step.moves fiber
  have states := step.states fiber
  grind

theorem Step.free
    (invariant : Invariant before place) {fiber : Fiber Mgr} (free : before.Free fiber)
    (elsewhere : place fiber ≠ .hand mgr) : after.Free fiber := by
  intro other tie
  by_cases same : other = mgr
  · have ties := step.ties fiber
    grind
  · exact free other ((step.tied_iff invariant fiber same).mp tie)

theorem Step.serves (invariant : Invariant before place) {other : Mgr} (different : other ≠ mgr)
    {caller : Caller Mgr} (serves : before.Serves place other caller) :
    after.Serves moved other caller := by
  have exec := step.execs other different
  have kept := step.tied_kept invariant different (.inl rfl)
  have stack := step.stack_exec invariant different (.inl rfl)
  have stays := step.moves (before.exec other)
  cases caller <;> grind

theorem Step.yielding (invariant : Invariant before place) {other : Mgr} (different : other ≠ mgr)
    (yielding : before.Yielding other) : after.Yielding other := by
  have exec := step.execs other different
  have kept := step.tied_kept invariant different (.inl rfl)
  have stack := step.stack_exec invariant different (.inl rfl)
  simpa only [State.Yielding, exec, stack, kept.1] using yielding

theorem Step.good (invariant : Invariant before place) {other : Mgr} (different : other ≠ mgr) :
    after.Good moved other := by
  obtain ⟨tied, home, pending, carried, keeper, unkept, sound⟩ := invariant.managers other
  have spots := fun fiber spot => (invariant.placed fiber spot).mp
  have exec := step.execs other different
  have pc := step.pcs other different
  have current := step.currents other different
  have old := step.olds other different
  have slots := step.slots other different
  have kept : ∀ fiber, before.Tied other fiber → _ := fun _ => step.tied_kept invariant different
  have stack : ∀ fiber, before.Tied other fiber → _ := fun _ => step.stack_exec invariant different
  constructor
  · intro fiber tie
    grind
  · intro fiber tie
    grind
  · intro slot deferred found
    grind
  · intro slot deferred found
    have := step.states deferred.fiber
    have : deferred.carries → place deferred.fiber = .slot other slot :=
      invariant.slotted (slots slot ▸ found)
    grind
  · intro fiber keeps
    have := step.keepers other
    have := step.frames fiber
    have := fun member => (invariant.fibers fiber).anchored (.threadLoop other) member other rfl
    have := fun member =>
      (invariant.managers mgr).home (before.exec mgr) (.inl rfl) (.threadLoop other) member other
        rfl
    grind
  · have := step.keepers other
    have := step.lives other different
    grind
  · rw [pc]
    have inHand : ∀ fiber, (before.pc other).hand = some fiber → place fiber = .hand other :=
      fun fiber => spots fiber (.hand other)
    have inClaim : ∀ fiber, (before.pc other).claimed = some fiber → place fiber = .claimed other :=
      fun fiber => spots fiber (.claimed other)
    have free : ∀ fiber, (before.pc other).hand = some fiber → before.Free fiber →
        after.Free fiber := by
      intro fiber held loose
      exact step.free invariant loose (by grind)
    have states := step.states
    have stays := step.moves (before.exec other)
    have yielding : before.Yielding other → after.Yielding other :=
      step.yielding invariant different
    have serves : ∀ caller, before.Serves place other caller → after.Serves moved other caller :=
      fun _ => step.serves invariant different
    cases point : before.pc other <;> simp only [point, State.Sound] at sound ⊢ <;>
      grind [- State.Free, - State.Yielding]

theorem Step.fiber (invariant : Invariant before place)
    {fiber : Fiber Mgr} (elsewhere : fiber ≠ before.exec mgr) (unheld : place fiber ≠ .hand mgr)
    (stays : moved fiber = place fiber) (stack : after.stack fiber = before.stack fiber)
    (same : after.fiberState fiber = before.fiberState fiber) : after.FiberGood moved fiber := by
  obtain ⟨shape, anchored, owed, dead, loop, lone, idle, unborn, gone, yields, hidden⟩ :=
    invariant.fibers fiber
  have pcs := step.pcs
  have execs := step.execs
  have keepers := step.keepers
  have froms := fun own => step.froms own fiber
  constructor
  · rw [stack]
    obtain calm | ⟨other, here, returns, fresh⟩ := shape
    · exact .inl calm
    · have different : other ≠ mgr := by grind
      exact .inr ⟨other, by grind, by grind, fresh⟩
  · intro frame member own anchor
    cases spot : place fiber <;> grind
  all_goals grind

end

theorem Invariant.advance (mgr : Mgr) (invariant : Invariant before place)
    (step : Step before after place moved mgr) (placed : Placed after.Holds moved)
    (queued : ∀ own, (after.scheduler own).members.Nodup)
    (waiting : ∀ wait, (after.waiters wait).Nodup) (good : after.Good moved mgr)
    (touched : ∀ fiber, fiber = before.exec mgr ∨ place fiber = .hand mgr ∨
      moved fiber ≠ place fiber ∨ after.stack fiber ≠ before.stack fiber ∨
      after.fiberState fiber ≠ before.fiberState fiber → after.FiberGood moved fiber) :
    Invariant after moved where
  placed := placed
  queued := queued
  waiting := waiting
  apart _ _ _ := step.apart invariant
  fibers fiber := by
    by_cases untouched : fiber = before.exec mgr ∨ place fiber = .hand mgr ∨
        moved fiber ≠ place fiber ∨ after.stack fiber ≠ before.stack fiber ∨
        after.fiberState fiber ≠ before.fiberState fiber
    · exact touched fiber untouched
    · simp only [not_or, ne_eq, not_not] at untouched
      obtain ⟨elsewhere, unheld, stays, stack, same⟩ := untouched
      exact step.fiber invariant elsewhere unheld stays stack same
  managers other := by
    by_cases acting : other = mgr
    · exact acting ▸ good
    · exact step.good invariant acting

end LibFiber.Runtime
