import LibFiber.Runtime.Maintenance

namespace LibFiber.Runtime

open Data Semantics Function

attribute [local grind =] Function.update_apply

variable {Mgr : Type} [DecidableEq Mgr] {state : State Mgr} {place : Fiber Mgr → Place Mgr}

/-! The calls of fibers: waits, wake-ups, creation and the end of a fiber. -/

section

variable (invariant : Invariant state place)
include invariant

theorem claim_invariant (point : state.pc mgr = .claim wait fiber) :
    Invariant (claim state mgr wait fiber) (update place fiber (.queued mgr)) := by
  obtain ⟨there, onCurrent, hidden⟩ := invariant.sound point
  have held : place fiber = .claimed mgr := invariant.placed.place_eq (by grind)
  have stored : Invariant
      (state.store fiber (wokenState wait (state.fiberState fiber))) place := by
    by_cases same : wokenState wait (state.fiberState fiber) = state.fiberState fiber
    · rw [same, State.store, update_eq_self]
      exact invariant
    · have woken : wokenState wait (state.fiberState fiber) = .ready := by
        cases wait <;> grind [wokenState]
      rw [woken]
      apply invariant.restate mgr (by grind) _ (.inl ⟨held, rfl⟩)
      apply invariant.free
      · cases wait <;> grind [wokenState]
      · grind
  apply enqueue_invariant stored
  case unanchored =>
    intro frame member
    have := (invariant.fibers fiber).anchored frame member
    cases anchor : frame.anchor <;> grind
  case held => exact .inr (by simp [State.store, point, Pc.claimed])
  case sound =>
    have : update place fiber (.queued mgr) (state.exec mgr) = .on mgr := by grind
    exact ⟨this, onCurrent⟩
  all_goals grind

theorem publish_invariant (point : state.pc mgr = .publish queue) :
    Invariant ((state.setWaiters (.mpsc queue)
        (state.waiters (.mpsc queue) ++ [state.exec mgr])).callYield mgr)
      (update place (state.exec mgr) (.waiting (.mpsc queue))) := by
  have good := invariant.managers mgr
  obtain ⟨stack, onCurrent⟩ := invariant.sound point
  have spots := fun spot => invariant.placed (state.exec mgr) spot
  have held : place (state.exec mgr) = .entering mgr := (spots (.entering mgr)).mp (by grind)
  have saving : state.fiberState (state.exec mgr) = .saving := by
    have := good.tied _ (.inl rfl)
    grind
  have fresh : state.exec mgr ∉ state.waiters (.mpsc queue) := by
    have := spots (.waiting (.mpsc queue))
    grind
  unfold State.callYield State.setWaiters State.goto
  apply invariant.carry
  case queued => exact invariant.queued
  case waiting => exact waiting_append invariant fresh
  case placed =>
    apply invariant.placed.move <;> intro spot <;> cases spot <;> grind
  case calm => exact .inr (stack ▸ .waitEnd)
  all_goals grind

omit [DecidableEq Mgr] in
theorem slots_eq_none (point : state.pc mgr = .run)
    (idle : state.stack (state.exec mgr) = []) (slot : Slot) : state.slots (mgr, slot) = none := by
  have sound := invariant.sound point
  apply invariant.slot_eq_none sound.1
  simp [idle]

theorem wait_invariant (point : state.pc mgr = .run) (idle : state.stack (state.exec mgr) = [])
    (others : ∀ other ≠ mgr, ∀ slot, slots (other, slot) = state.slots (other, slot))
    (left : ∀ slot deferred, slots (mgr, slot) = some deferred → slot = .mutexToUnlock ∧
      deferred.fiber = state.exec mgr ∧ deferred.carries = false ∧ deferred.swapped = false) :
    Invariant (waitIn { state with slots } mgr queue)
      (update place (state.exec mgr) (.entering mgr)) := by
  have good := invariant.managers mgr
  obtain ⟨there, onCurrent⟩ := invariant.sound point
  have vacant := slots_eq_none invariant point idle
  have unkept : ∀ own, state.maintenanceFiber own ≠ some (state.exec mgr) :=
    invariant.not_keeper (by simp [idle])
  have carried : ∀ own slot fiber, (∃ deferred, slots (own, slot) = some deferred ∧
      deferred.carried = some fiber) ↔ state.Holds (.slot own slot) fiber := by
    intro own slot fiber
    by_cases acting : own = mgr <;> grind
  unfold waitIn State.store State.push State.resume State.goto
  apply invariant.advance mgr
  · constructor <;> grind
  · apply invariant.placed.move
    · intro spot f other
      cases spot with
      | slot own slot => exact carried own slot f
      | _ => grind
    · intro spot was
      cases spot with
      | slot own slot => exact (carried own slot _).trans (was.trans (by grind))
      | _ => grind
  · exact invariant.queued
  · exact invariant.waiting
  · obtain ⟨tied, home, pending, carried, keeper, unkept, _⟩ := good
    constructor <;> grind
  · intro fiber touched
    have unheld := invariant.placed fiber (.hand mgr)
    obtain rfl : fiber = state.exec mgr := by grind
    constructor
    · left
      simpa [idle] using Calm.waitEnd
    all_goals grind

theorem park_invariant (point : state.pc mgr = .run) (idle : state.stack (state.exec mgr) = [])
    (kind : next = .waiting ∧ frame = .waitEnd ∧ slot ≠ .doneFiber ∧ slot ≠ .toSchedule ∨
      next = .done ∧ frame = .deadEnd ∧ slot = .doneFiber) :
    Invariant ((((state.store (state.exec mgr) next).record mgr slot object true).push mgr
        frame).callYield mgr) (update place (state.exec mgr) (.slot mgr slot)) := by
  have good := invariant.managers mgr
  obtain ⟨there, onCurrent⟩ := invariant.sound point
  have running := (invariant.running there).2
  have vacant := slots_eq_none invariant point idle
  have unkept : ∀ own, state.maintenanceFiber own ≠ some (state.exec mgr) :=
    invariant.not_keeper (by simp [idle])
  unfold State.store State.record State.push State.resume State.callYield State.goto
  apply invariant.advance mgr
  · constructor <;> grind
  · apply invariant.placed.move <;> intro spot <;> cases spot <;> grind
  · exact invariant.queued
  · exact invariant.waiting
  · obtain ⟨tied, home, pending, carried, keeper, unkept, _⟩ := good
    constructor <;> grind
  · intro fiber touched
    have unheld := invariant.placed fiber (.hand mgr)
    obtain rfl : fiber = state.exec mgr := by grind
    constructor
    · left
      obtain ⟨_, rfl, _⟩ | ⟨_, rfl, _⟩ := kind
      · simpa [idle] using Calm.waitEnd
      · simpa [idle] using Calm.deadEnd
    · grind
    · cases slot <;> grind
    all_goals grind

theorem create_invariant {id : Nat}
    (point : state.pc mgr = .run) (dead : state.live (.user id) = false) :
    let created : State Mgr := { state with
      live := update state.live (.user id) true
      fiberState := update state.fiberState (.user id) .ready
      stack := update state.stack (.user id) [] }
    Invariant (created.schedule mgr (.user id)) (update place (.user id) (.queued mgr)) := by
  intro created
  have good := invariant.managers mgr
  obtain ⟨there, onCurrent⟩ := invariant.sound point
  have spots := fun spot => invariant.placed (.user id) spot
  have absent : place (.user id) = .absent := (spots .absent).mp dead
  have known := invariant.fibers (.user id)
  have free := invariant.free (known.unborn absent) (by grind)
  have apart : ∀ other, state.exec other ≠ .user id := fun other same => free other (.inl same)
  have fresh : .user id ∉ (state.scheduler mgr).members := by
    have := spots (.queued mgr)
    grind
  have distinct := Scheduler.nodup_pushBottom (state.scheduler mgr).scheduleFrom
    (invariant.queued mgr) fresh
  have unkept : ∀ own, state.maintenanceFiber own ≠ some (.user id) := by
    apply invariant.not_keeper
    intro own member
    have := known.anchored _ member own rfl
    grind
  simp only [created, State.schedule]
  apply invariant.advance mgr
  · constructor
    case froms => exact fun own fiber _ _ => froms_pushBottom mgr _ (.user id) own fiber
    all_goals grind
  · apply invariant.placed.move <;> intro spot <;> cases spot <;> grind
  · exact queued_update invariant distinct mgr
  · exact invariant.waiting
  · obtain ⟨tied, home, pending, carried, keeper, unkept, _⟩ := good
    constructor <;> grind
  · intro fiber touched
    have unheld := invariant.placed fiber (.hand mgr)
    obtain rfl | rfl : fiber = state.exec mgr ∨ fiber = .user id := by grind
    · obtain ⟨shape, anchored, owed, dead, loop, lone, idle, unborn, gone, yields, hidden⟩ :=
        invariant.fibers (state.exec mgr)
      constructor
      · simpa only [update_of_ne (apart mgr)] using shape
      all_goals grind
    · constructor
      · exact .inl (by simpa using Calm.nil)
      all_goals grind

end

end LibFiber.Runtime
