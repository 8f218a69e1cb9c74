import LibFiber.Runtime.Yielding

namespace LibFiber.Runtime

open Data Semantics Function

attribute [local grind =] Function.update_apply

variable {Mgr : Type} [DecidableEq Mgr] {own : Mgr} {state : State Mgr}
variable {place : Fiber Mgr → Place Mgr}

/-! `fiber_manager_switch_to` and the context swap. -/

/-- A running fiber leaves itself to be scheduled by the fiber switched to, a
parked one has made its own arrangements. -/
def departed (state : State Mgr) (place : Fiber Mgr → Place Mgr) (mgr : Mgr) :
    Fiber Mgr → Place Mgr :=
  fun fiber =>
    if fiber = state.exec mgr ∧ state.fiberState fiber = .running then .slot mgr .toSchedule
    else place fiber

section

variable (invariant : Invariant state place)
include invariant

omit [DecidableEq Mgr] in
theorem toSchedule_vacant (point : state.pc mgr = .switch own old new)
    (running : state.fiberState (state.exec mgr) = .running) :
    state.slots (mgr, .toSchedule) = none := by
  have calm : Calm (state.stack (state.exec mgr)) := invariant.calm (by simp [point, Pc.returns])
  apply invariant.slot_eq_none (invariant.placed.place_eq ⟨rfl, running⟩)
  intro rest member
  rw [calm.rest_eq_late member]
  decide

theorem switchTo_invariant (point : state.pc mgr = .switch own old new) :
    Invariant (switchTo state mgr own old new) (departed state place mgr) := by
  have good := invariant.managers mgr
  obtain ⟨rfl, rfl, free, outside, onCurrent⟩ := invariant.sound point
  have calm : Calm (state.stack (state.exec own)) := invariant.calm (by grind)
  have held : place new = .hand own := invariant.placed.place_eq (by grind)
  have apart : ∀ other, state.exec other ≠ new := fun other same => free other (.inl same)
  have tied := good.tied (state.exec own) (.inl rfl)
  have there : state.fiberState (state.exec own) = .running → place (state.exec own) = .on own :=
    fun running => invariant.placed.place_eq ⟨rfl, running⟩
  have vacant := toSchedule_vacant invariant point
  unfold switchTo departed
  apply invariant.advance own
  · constructor <;> grind
  · intro f spot
    have := invariant.placed f spot
    cases spot <;> grind
  · exact invariant.queued
  · exact invariant.waiting
  · constructor
    · grind
    · have := good.home
      grind
    · have := good.pending
      grind
    · intro slot deferred found
      have := good.carried slot deferred
      grind
    · exact good.keeper
    · exact good.unkept
    · simp only [update_self]
      refine ⟨rfl, ?_, by grind, by grind, by grind, by grind⟩
      intro other tie
      have := free other
      grind
  · intro other touched
    have unheld := invariant.placed other (.hand own)
    obtain ⟨shape, anchored, owed, dead, loop, lone, idle, unborn, gone, yields, hidden⟩ :=
      invariant.fibers other
    obtain rfl | rfl : other = state.exec own ∨ other = new := by grind
    · constructor
      · exact .inl calm
      · intro frame member home anchor
        cases spot : place (state.exec own) <;> grind
      all_goals grind
    · constructor
      · exact .inl (invariant.calm_of_free free)
      all_goals grind

theorem mark_eq_self (different : other ≠ mgr) (slot : Slot) :
    (state.slots (other, slot)).map (Deferred.mark (state.exec mgr)) =
      state.slots (other, slot) := by
  cases found : state.slots (other, slot) with
  | none => rfl
  | some deferred =>
    have pending := (invariant.managers other).pending slot deferred found
    have apart := invariant.apart other mgr (state.exec mgr)
    obtain ⟨object, fiber, carries, swapped⟩ := deferred
    cases swapped <;> grind [Deferred.mark]

theorem swap_invariant (point : state.pc mgr = .swap old new) :
    Invariant (swap state mgr old new) (update place new (.on mgr)) := by
  have good := invariant.managers mgr
  obtain ⟨rfl, free, left, running, oldFiber, onCurrent⟩ := invariant.sound point
  have calm : Calm (state.stack (state.exec mgr)) := invariant.calm (by grind)
  have held : place new = .hand mgr := invariant.placed.place_eq (by grind)
  have apart : ∀ other, state.exec other ≠ new := fun other same => free other (.inl same)
  have others : ∀ other ≠ mgr, ∀ slot, _ := fun _ => mark_eq_self invariant
  have carried : ∀ place fiber,
      (∃ deferred, (state.slots place).map (Deferred.mark (state.exec mgr)) = some deferred ∧
        deferred.carried = some fiber) ↔
      ∃ deferred, state.slots place = some deferred ∧ deferred.carried = some fiber := by
    intro place fiber
    cases state.slots place <;> simp [Deferred.mark, Deferred.carried]
  have known := invariant.fibers new
  unfold swap
  apply invariant.advance mgr
  · constructor <;> grind
  · apply invariant.placed.move
    · intro spot f other
      cases spot with
      | slot own slot => exact carried (own, slot) f
      | _ => grind
    · intro spot was
      cases spot with
      | slot own slot => exact (carried (own, slot) new).trans (was.trans (by grind))
      | _ => grind
  · exact invariant.queued
  · exact invariant.waiting
  · constructor
    · have := good.tied (state.exec mgr) (.inl rfl)
      grind
    · have := good.home (state.exec mgr) (.inl rfl)
      have := known.anchored
      grind
    · intro slot deferred found
      obtain ⟨recorded, earlier, rfl⟩ := Option.map_eq_some_iff.mp found
      have pending := good.pending slot recorded earlier
      have swapped : (recorded.mark (state.exec mgr)).swapped := by
        simp only [Deferred.mark]
        grind
      have stage := slot.mem_all
      grind
    · intro slot deferred found
      obtain ⟨recorded, earlier, rfl⟩ := Option.map_eq_some_iff.mp found
      have := good.carried slot recorded earlier
      grind [Deferred.mark]
    · have := good.keeper
      grind
    · exact good.unkept
    · grind
  · intro other touched
    have unheld := invariant.placed other (.hand mgr)
    obtain ⟨shape, anchored, owed, dead, loop, lone, idle, unborn, gone, yields, hidden⟩ :=
      invariant.fibers other
    obtain rfl | rfl : other = state.exec mgr ∨ other = new := by grind
    · constructor
      · left
        simp only [update_of_ne (apart mgr)]
        exact calm
      · intro frame member home anchor
        cases spot : place (state.exec mgr) <;> grind
      all_goals grind
    · constructor
      · right
        refine ⟨mgr, by simp, by grind, ?_⟩
        simp only [update_self]
        exact .settle (invariant.calm_of_free free)
      all_goals grind

end

end LibFiber.Runtime
