import LibFiber.Data.Placement
import LibFiber.Publish.Machine

namespace LibFiber.Publish

open Data Semantics Function

/-- Where a fiber is.  A fiber that waits can already be in a wait queue, in a
waker's hand or back in a run queue while its context is still in use. -/
inductive Place (Mgr Queue : Type) where
  | absent
  | on (mgr : Mgr)
  | entering (mgr : Mgr)
  | waiting (queue : Queue)
  | claimed (mgr : Mgr)
  | queued (mgr : Mgr)
  | hand (mgr : Mgr)
  | slot (mgr : Mgr)
deriving DecidableEq, Repr

variable {Mgr Queue α : Type}

/-- The fiber a manager holds between taking it out of one queue and passing
it on, for the scheduler's operations. -/
@[grind =] def Pc.hand : Pc Queue α → Option α
  | .test fiber | .store fiber | .stash fiber => some fiber
  | .switch target | .swap target => target
  | .run | .exchange _ | .link _ | .next | .scan | .settle | .save _ | .reschedule
  | .wakeTest _ | .wakeSet _ | .schedule _ => none

@[grind =] def Pc.claimed : Pc Queue α → Option α
  | .wakeTest fiber | .wakeSet fiber | .schedule fiber => some fiber
  | .run | .exchange _ | .link _ | .next | .scan | .test _ | .store _ | .stash _
  | .switch _ | .swap _ | .settle | .save _ | .reschedule => none

@[grind =] def Pc.enters : Pc Queue α → Bool
  | .exchange _ => true
  | .run | .link _ | .next | .scan | .test _ | .store _ | .stash _ | .switch _ | .swap _
  | .settle | .save _ | .reschedule | .wakeTest _ | .wakeSet _ | .schedule _ => false

/-- Between the context swap and the end of the test of `old_fiber`. -/
@[grind =] def Pc.settles : Pc Queue α → Bool
  | .settle | .save _ => true
  | .run | .exchange _ | .link _ | .next | .scan | .test _ | .store _ | .stash _ | .switch _
  | .swap _ | .reschedule | .wakeTest _ | .wakeSet _ | .schedule _ => false

/-- From the store of `to_schedule` to its use. -/
@[grind =] def Pc.leaves : Pc Queue α → Bool
  | .swap _ | .settle | .save _ | .reschedule => true
  | .run | .exchange _ | .link _ | .next | .scan | .test _ | .store _ | .stash _ | .switch _
  | .wakeTest _ | .wakeSet _ | .schedule _ => false

@[grind =] def State.Holds (state : State Mgr Queue α) : Place Mgr Queue → α → Prop
  | .absent, fiber => state.created fiber = false
  | .on mgr, fiber => state.exec mgr = some fiber ∧ state.fiberState fiber = .running
  | .entering mgr, fiber => state.exec mgr = some fiber ∧ (state.pc mgr).enters
  | .waiting queue, fiber => fiber ∈ (state.waiters queue).members
  | .claimed mgr, fiber => (state.pc mgr).claimed = some fiber
  | .queued mgr, fiber => fiber ∈ (state.scheduler mgr).members
  | .hand mgr, fiber => (state.pc mgr).hand = some fiber
  | .slot mgr, fiber => state.toSchedule mgr = some fiber

/-- A fiber whose last swap away from its stack is not complete, or whose
manager has yet to test it in its maintenance. -/
@[grind =] def State.Tied (state : State Mgr Queue α) (mgr : Mgr) (fiber : α) : Prop :=
  state.exec mgr = some fiber ∨ (state.pc mgr).settles ∧ state.oldFiber mgr = some fiber

/-- What a program point says about the states of the fibers it works on. -/
@[grind =] def Pc.Sound (fiberState : α → FiberState) (exec old : Option α) : Pc Queue α → Prop
  | .run | .wakeTest _ | .schedule _ | .stash _ | .settle | .reschedule =>
    ∀ fiber, exec = some fiber → fiberState fiber = .running
  | .exchange _ | .link _ => ∀ fiber, exec = some fiber → fiberState fiber = .saving
  | .next | .scan | .test _ | .store _ => True
  | .switch target => ∀ fiber, target = some fiber → fiberState fiber ≠ .saving
  | .swap target =>
    (∀ fiber, exec = some fiber → fiberState fiber ≠ .running) ∧ old = exec ∧
      ∀ fiber, target = some fiber → fiberState fiber = .running
  | .save saved =>
    (∀ fiber, exec = some fiber → fiberState fiber = .running) ∧ old = some saved ∧
      fiberState saved = .saving
  | .wakeSet woken =>
    (∀ fiber, exec = some fiber → fiberState fiber = .running) ∧ fiberState woken = .waiting

structure State.Good (state : State Mgr Queue α) (place : α → Place Mgr Queue) (mgr : Mgr) :
    Prop where
  tied : ∀ fiber, state.Tied mgr fiber →
    place fiber = .on mgr ∨ state.fiberState fiber = .saving ∨ place fiber = .slot mgr
  slotted : ∀ fiber, state.toSchedule mgr = some fiber →
    state.fiberState fiber = .ready ∧ (state.pc mgr).leaves
  sound : (state.pc mgr).Sound state.fiberState (state.exec mgr) (state.oldFiber mgr)

structure Invariant (state : State Mgr Queue α) (place : α → Place Mgr Queue) : Prop where
  placed : Placed state.Holds place
  queued : ∀ mgr, (state.scheduler mgr).members.Nodup
  waiting : ∀ queue, (state.waiters queue).members.Nodup
  apart : ∀ left right fiber, state.Tied left fiber → state.Tied right fiber → left = right
  unborn : ∀ fiber, state.created fiber = false → state.fiberState fiber = .ready
  good : ∀ mgr, state.Good place mgr

/-- Stores to other fibers' states, and the store that finishes saving a fiber
in hand, leave a program point's facts alone. -/
theorem Pc.Sound.frame {pc : Pc Queue α} {earlier later : α → FiberState} {exec old : Option α}
    (sound : pc.Sound earlier exec old)
    (tied : ∀ fiber, exec = some fiber ∨ pc.settles ∧ old = some fiber →
      later fiber = earlier fiber)
    (held : ∀ fiber, pc.hand = some fiber ∨ pc.claimed = some fiber →
      later fiber = earlier fiber ∨ earlier fiber = .saving ∧ later fiber = .waiting) :
    pc.Sound later exec old := by
  cases pc <;> simp only [Pc.Sound, Pc.hand, Pc.claimed, Pc.settles] at * <;> grind

variable {before after : State Mgr Queue α}

/-- A manager's facts survive the steps of the others, which leave its own
fields alone, do not touch the fibers tied to it and at most finish saving a
fiber it has in hand. -/
theorem State.Good.frame (good : before.Good place mgr) (pc : after.pc mgr = before.pc mgr)
    (exec : after.exec mgr = before.exec mgr) (old : after.oldFiber mgr = before.oldFiber mgr)
    (slot : after.toSchedule mgr = before.toSchedule mgr)
    (kept : ∀ fiber, before.Tied mgr fiber ∨ before.toSchedule mgr = some fiber →
      after.fiberState fiber = before.fiberState fiber ∧
        (moved fiber = place fiber ∨ before.fiberState fiber = .saving))
    (held : ∀ fiber, (before.pc mgr).hand = some fiber ∨ (before.pc mgr).claimed = some fiber →
      after.fiberState fiber = before.fiberState fiber ∨
        before.fiberState fiber = .saving ∧ after.fiberState fiber = .waiting) :
    after.Good moved mgr := by
  obtain ⟨tied, slotted, sound⟩ := good
  constructor
  · intro fiber now
    grind
  · intro fiber now
    grind
  · rw [pc, exec, old]
    exact sound.frame (fun fiber tie => (kept fiber (.inl tie)).1) held

/-- What a step of one manager may do to what the others rely on. -/
structure Step (before after : State Mgr Queue α) (place moved : α → Place Mgr Queue)
    (mgr : Mgr) : Prop where
  fields : ∀ other ≠ mgr, after.pc other = before.pc other ∧
    after.exec other = before.exec other ∧ after.oldFiber other = before.oldFiber other ∧
    after.toSchedule other = before.toSchedule other
  ties : ∀ fiber, after.Tied mgr fiber → before.Tied mgr fiber ∨ ∀ other, ¬ before.Tied other fiber
  moves : ∀ fiber, moved fiber = place fiber ∨
    ∀ other ≠ mgr, place fiber ≠ .on other ∧ place fiber ≠ .slot other
  states : ∀ fiber, after.fiberState fiber = before.fiberState fiber ∨
    before.fiberState fiber ≠ .saving ∧
      (place fiber = .on mgr ∨ place fiber = .hand mgr ∨ place fiber = .claimed mgr ∨
        place fiber = .absent) ∨
    before.Tied mgr fiber ∧ before.fiberState fiber = .saving ∧ after.fiberState fiber = .waiting

theorem Step.tied_iff (step : Step before after place moved mgr) (fiber : α) {other : Mgr}
    (different : other ≠ mgr) :
    after.Tied other fiber ↔ before.Tied other fiber := by
  obtain ⟨pc, exec, old, _⟩ := step.fields other different
  simp [State.Tied, pc, exec, old]

theorem Step.apart (step : Step before after place moved mgr) (invariant : Invariant before place)
    {left right : Mgr} {fiber : α} (tiedLeft : after.Tied left fiber)
    (tiedRight : after.Tied right fiber) : left = right := by
  have apart := invariant.apart left right fiber
  have ties := step.ties fiber
  have same : ∀ other ≠ mgr, after.Tied other fiber ↔ before.Tied other fiber :=
    fun _ => step.tied_iff fiber
  by_cases atLeft : left = mgr <;> by_cases atRight : right = mgr <;> grind

theorem Step.good (step : Step before after place moved mgr) (invariant : Invariant before place)
    {other : Mgr} (different : other ≠ mgr) : after.Good moved other := by
  obtain ⟨pc, exec, old, slot⟩ := step.fields other different
  have good := invariant.good other
  have spots := fun fiber spot => (invariant.placed fiber spot).mp
  apply good.frame pc exec old slot
  · intro fiber kept
    have tied := good.tied fiber
    have slotted := good.slotted fiber
    have inSlot : before.toSchedule other = some fiber → place fiber = .slot other :=
      spots fiber (.slot other)
    have alone := invariant.apart other mgr fiber
    have moves := step.moves fiber
    have states := step.states fiber
    grind
  · intro fiber held
    have inHand : (before.pc other).hand = some fiber → place fiber = .hand other :=
      spots fiber (.hand other)
    have inClaim : (before.pc other).claimed = some fiber → place fiber = .claimed other :=
      spots fiber (.claimed other)
    have states := step.states fiber
    grind

theorem Invariant.advance (mgr : Mgr) (invariant : Invariant before place)
    (step : Step before after place moved mgr) (placed : Placed after.Holds moved)
    (queued : ∀ mgr, (after.scheduler mgr).members.Nodup)
    (waiting : ∀ queue, (after.waiters queue).members.Nodup)
    (unborn : ∀ fiber, after.created fiber = false → after.fiberState fiber = .ready)
    (good : after.Good moved mgr) : Invariant after moved where
  placed := placed
  queued := queued
  waiting := waiting
  apart _ _ _ := step.apart invariant
  unborn := unborn
  good other := by
    by_cases same : other = mgr
    · exact same ▸ good
    · exact step.good invariant same

end LibFiber.Publish
