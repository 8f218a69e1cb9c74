import LibFiber.Runtime.Preservation

namespace LibFiber.Runtime

open Data Semantics Function

attribute [local grind =] Function.update_apply

variable {Mgr : Type} [DecidableEq Mgr] {own : Mgr} {state : State Mgr}
variable {place : Fiber Mgr → Place Mgr}
variable {visits : Mgr → List (Mgr × Bool)}

/-! `fiber_manager_yield` and the scheduler it calls. -/

/-- The invariant goes on, and every fiber that waits still does. -/
def Keeps (after : State Mgr) (place : Fiber Mgr → Place Mgr) : Prop :=
  ∃ moved, Invariant after moved ∧ ∀ fiber, (moved fiber).owed = (place fiber).owed

omit [DecidableEq Mgr] in
theorem Invariant.keeps (invariant : Invariant state place) : Keeps state place :=
  ⟨place, invariant, fun _ => rfl⟩

theorem froms_exchange (mgr own : Mgr) (fiber : Fiber Mgr)
    (member : fiber ∈ (state.scheduler own).queue (state.scheduler own).scheduleFrom) :
    let scheduler := update state.scheduler mgr (state.scheduler mgr).exchange
    fiber ∈ (scheduler own).queue (scheduler own).scheduleFrom := by
  by_cases same : own = mgr
  · subst same
    simpa using Scheduler.mem_from_exchange member
  · simpa [same] using member

theorem froms_pushBottom (mgr : Mgr) (side : Bool) (fiber : Fiber Mgr) (own : Mgr)
    (other : Fiber Mgr)
    (member : other ∈ (state.scheduler own).queue (state.scheduler own).scheduleFrom) :
    let scheduler := update state.scheduler mgr ((state.scheduler mgr).pushBottom side fiber)
    other ∈ (scheduler own).queue (scheduler own).scheduleFrom := by
  by_cases same : own = mgr
  · subst same
    simpa using Scheduler.mem_from_pushBottom side fiber member
  · simpa [same] using member

section

variable (invariant : Invariant state place)
include invariant

theorem callYield_invariant (point : state.pc mgr = .run)
    (calm : Calm (state.stack (state.exec mgr)))
    (outside : ∀ own, state.stack (state.exec mgr) ≠ [.threadLoop own]) :
    Invariant (state.callYield mgr) place := by
  have sound := invariant.sound point
  have running := (invariant.running sound.1).2
  apply invariant.goto
  all_goals grind

theorem yield_invariant
    (point : state.pc mgr = .yield current) : Invariant (yield state mgr current) place := by
  have sound := invariant.sound point
  have calm : Calm (state.stack (state.exec mgr)) := invariant.calm (by grind)
  apply invariant.goto
  case froms => exact froms_exchange mgr
  all_goals grind

theorem queued_update (distinct : scheduler.members.Nodup) (victim : Mgr) :
    ∀ own, (update state.scheduler victim scheduler own).members.Nodup :=
  (forall_update_iff state.scheduler fun _ scheduler => scheduler.members.Nodup).mpr
    ⟨distinct, fun own _ => invariant.queued own⟩

omit [DecidableEq Mgr] in
theorem waiting_append (fresh : fiber ∉ state.waiters wait) (other : Wait) :
    (update state.waiters wait (state.waiters wait ++ [fiber]) other).Nodup := by
  have distinct := invariant.waiting other
  by_cases same : other = wait
  · subst same
    simpa using List.nodup_append.mpr ⟨distinct, by simp, by grind⟩
  · simpa [same] using distinct

theorem take_invariant (taken : (state.scheduler victim).Takes rest fiber)
    (empty : (state.pc mgr).hand = none ∧ (state.pc mgr).claimed = none ∧
      (state.pc mgr).enters = false)
    (holds : pc.hand = some fiber ∧ pc.claimed = none ∧ pc.enters = false)
    (calm : Calm (state.stack (state.exec mgr)))
    (sound : state.Sound (update place fiber (.hand mgr)) mgr pc)
    (anchored : ∀ frame ∈ state.stack fiber, ∀ own, frame.anchor = some own →
      own = mgr ∧ state.fiberState fiber ≠ .saving ∧
        ∀ own caller loop, pc ≠ .stash own caller loop fiber) :
    Invariant { state with
        scheduler := update state.scheduler victim rest
        pc := update state.pc mgr pc } (update place fiber (.hand mgr)) := by
  have spots := fun spot => invariant.placed fiber spot
  obtain ⟨absent, distinct⟩ := taken.nodup (invariant.queued victim)
  have members := taken.mem_iff
  have held : place fiber = .queued victim := (spots (.queued victim)).mp (by grind)
  have known := invariant.fibers fiber
  apply invariant.carry
  case sound => exact sound
  case queued => exact queued_update invariant distinct victim
  case waiting => exact invariant.waiting
  case froms =>
    intro own other different member
    have := taken.mem_from different
    grind
  case lone =>
    have := known.lone
    grind
  case placed =>
    apply invariant.placed.move <;> intro spot <;> cases spot <;> grind
  all_goals grind

theorem enqueue_invariant
    (held : (state.pc mgr).hand = some fiber ∨ (state.pc mgr).claimed = some fiber)
    (empty : pc.hand = none ∧ pc.claimed = none ∧ pc.enters = false)
    (calm : pc.returns ∨ Calm (state.stack (state.exec mgr)))
    (sound : state.Sound (update place fiber (.queued mgr)) mgr pc)
    (unanchored : ∀ frame ∈ state.stack fiber, frame.anchor = none) :
    Invariant { state with
        scheduler := update state.scheduler mgr ((state.scheduler mgr).pushBottom side fiber)
        pc := update state.pc mgr pc } (update place fiber (.queued mgr)) := by
  have spots := fun spot => invariant.placed fiber spot
  have only : ∀ other, (state.pc mgr).hand = some other → _ := fun _ => Pc.hand_only
  have claimedOnly : ∀ other, (state.pc mgr).claimed = some other → _ := fun _ => Pc.claimed_only
  have unkept : ∀ own, state.maintenanceFiber own ≠ some fiber := by
    apply invariant.not_keeper
    intro own member
    simpa [Frame.anchor] using unanchored _ member
  have source : place fiber = .hand mgr ∨ place fiber = .claimed mgr := by
    have := spots (.hand mgr)
    have := spots (.claimed mgr)
    grind
  have fresh : fiber ∉ (state.scheduler mgr).members := by
    have := spots (.queued mgr)
    grind
  have distinct := Scheduler.nodup_pushBottom side (invariant.queued mgr) fresh
  apply invariant.carry
  case sound => exact sound
  case queued => exact queued_update invariant distinct mgr
  case waiting => exact invariant.waiting
  case froms => exact fun own other _ => froms_pushBottom mgr side fiber own other
  case lone =>
    intro own lone
    have := unanchored (.threadLoop own)
    grind
  case placed =>
    apply invariant.placed.move <;> intro spot <;> cases spot <;> grind
  all_goals grind

theorem trySteal_invariant (point : state.pc mgr = .scan mgr (.yield current .running)) :
    Invariant (trySteal visits state mgr mgr (.yield current .running)) place := by
  have sound := invariant.sound point
  have calm : Calm (state.stack (state.exec mgr)) := invariant.calm (by grind)
  have there : place (state.exec mgr) = .on mgr := invariant.placed.place_eq ⟨rfl, by grind⟩
  unfold trySteal
  split
  · apply invariant.goto
    all_goals grind
  · apply invariant.goto
    all_goals grind

theorem retreat_to (empty : (state.pc mgr).hand = none ∧ (state.pc mgr).claimed = none ∧
      (state.pc mgr).enters = false)
    (parked : state.fiberState (state.exec mgr) ≠ .running)
    (ends : state.stack (state.exec mgr) = [.waitEnd] ∨ state.stack (state.exec mgr) = [.deadEnd])
    (current : state.currentFiber mgr = state.exec mgr) (source : place target = .idle mgr ∨
      place target = .absent ∧ target = .maintenance mgr ∧ state.maintenanceFiber mgr = none)
    (free : state.Free target) (lives : ∀ fiber, live fiber = (state.live fiber || fiber = target))
    (states : ∀ fiber, fiber ≠ target ∨ place target = .idle mgr →
      fiberState fiber = state.fiberState fiber)
    (ready : place target = .absent → fiberState target = .ready)
    (stack : ∀ fiber, frames fiber = if fiber = target then [.threadLoop mgr]
      else if fiber = state.exec mgr then .yieldLoop fiber :: state.stack fiber
      else state.stack fiber)
    (keepers : ∀ own, maintenanceFiber own =
      if own = mgr then some target else state.maintenanceFiber own) :
    Invariant { state with
        live, fiberState, stack := frames, maintenanceFiber
        pc := update state.pc mgr (.switch mgr (state.exec mgr) target) }
      (update place target (.hand mgr)) := by
  have good := invariant.managers mgr
  have known := invariant.fibers target
  have spots := fun spot => invariant.placed target spot
  have absent := spots .absent
  have atRest := spots (.idle mgr)
  have apart : state.exec mgr ≠ target := fun same => free mgr (.inl same)
  have tied := good.tied (state.exec mgr) (.inl rfl)
  apply invariant.advance mgr
  · have := known.idle mgr
    constructor <;> grind
  · apply invariant.placed.move <;> intro spot <;> cases spot <;> grind
  · exact invariant.queued
  · exact invariant.waiting
  · obtain ⟨tied, home, pending, carried, keeper, unkept, _⟩ := good
    constructor
    case sound =>
      have : State.Free { state with
          live, fiberState, stack := frames, maintenanceFiber
          pc := update state.pc mgr (.switch mgr (state.exec mgr) target) } target := by
        intro other tie
        have := free other
        grind
      grind
    all_goals grind
  · intro fiber touched
    have unheld := invariant.placed fiber (.hand mgr)
    obtain rfl | rfl : fiber = state.exec mgr ∨ fiber = target := by grind
    · have stacked : frames (state.exec mgr) =
          .yieldLoop (state.exec mgr) :: state.stack (state.exec mgr) := by grind
      obtain ⟨shape, anchored, owed, dead, loop, lone, idle, unborn, gone, yields, hidden⟩ :=
        invariant.fibers (state.exec mgr)
      constructor
      · left
        simp only [stacked]
        obtain ends | ends := ends
        · exact ends ▸ .waiting _
        · exact ends ▸ .dying _
      all_goals grind
    · have stacked : frames fiber = [.threadLoop mgr] := by grind
      constructor
      · left
        simp only [stacked]
        exact .threadLoop mgr
      all_goals grind

omit [DecidableEq Mgr] in
theorem maintenance_idle (empty : (state.pc mgr).hand = none)
    (parked : state.fiberState (state.exec mgr) ≠ .running)
    (ends : state.stack (state.exec mgr) = [.waitEnd] ∨ state.stack (state.exec mgr) = [.deadEnd])
    (drained : (state.scheduler mgr).queue (state.scheduler mgr).scheduleFrom = [])
    (keeps : state.maintenanceFiber mgr = some target) :
    place target = .idle mgr ∧ state.Free target := by
  have good := invariant.managers mgr
  have loop := good.keeper target keeps
  have home := (invariant.fibers target).anchored _ loop mgr rfl
  have held := invariant.placed target (place target)
  constructor
  · cases spot : place target with
    | slot own slot =>
      rw [spot] at home held
      obtain ⟨deferred, found, carried⟩ := held.mpr rfl
      have := good.pending slot deferred
      grind
    | _ => grind
  · intro other tie
    have := (invariant.managers other).home target tie _ loop mgr rfl
    grind

theorem retreat_keeps
    (point : state.pc mgr = .scan mgr (.yield current st)) (parked : st ≠ .running)
    (drained : (state.scheduler mgr).queue (state.scheduler mgr).scheduleFrom = []) :
    Keeps (retreat state mgr mgr current) place := by
  have good := invariant.managers mgr
  obtain ⟨-, ⟨rfl, rfl, yielding⟩, onCurrent⟩ := invariant.sound point
  have ends : state.stack (state.exec mgr) = [.waitEnd] ∨
      state.stack (state.exec mgr) = [.deadEnd] := by grind
  cases keeps : state.maintenanceFiber mgr with
  | some target =>
    obtain ⟨idle, free⟩ := maintenance_idle invariant (by grind) parked ends drained keeps
    have stack := (invariant.fibers target).idle mgr idle
    have alive := invariant.placed target .absent
    have apart : state.exec mgr ≠ target := fun same => free mgr (.inl same)
    simp only [retreat, keeps, State.push, State.resume, State.goto]
    refine ⟨update place target (.hand mgr), ?_, by grind⟩
    apply retreat_to invariant (by grind) parked ends onCurrent (.inl idle) free
    all_goals grind
  | none =>
    have absent : place (.maintenance mgr) = .absent :=
      invariant.placed.place_eq (good.unkept keeps)
    have unsaved := (invariant.fibers (.maintenance mgr)).unborn absent
    have free := invariant.free unsaved (by grind)
    have apart : state.exec mgr ≠ .maintenance mgr := fun same => free mgr (.inl same)
    simp only [retreat, keeps, State.push, State.resume, State.goto]
    refine ⟨update place (.maintenance mgr) (.hand mgr), ?_, by grind⟩
    apply retreat_to invariant (by grind) parked ends onCurrent (.inr ⟨absent, rfl, keeps⟩) free
    all_goals grind

theorem scan_keeps (point : state.pc mgr = .scan own caller) :
    Keeps (scan visits state mgr own caller) place := by
  obtain ⟨rfl, serves, onCurrent⟩ := invariant.sound point
  have calm : Calm (state.stack (state.exec own)) := invariant.calm (by grind)
  cases popped : (state.scheduler own).popBottom with
  | none =>
    simp only [scan, popped]
    cases caller with
    | thread =>
      apply Invariant.keeps
      apply invariant.goto
      all_goals grind
    | yield current st =>
      simp only [exhausted]
      split
      · exact retreat_keeps invariant point (by grind) (Scheduler.popBottom_eq_none popped)
      · obtain rfl : st = .running := by cases st <;> grind
        exact (trySteal_invariant invariant point).keeps
  | some taken =>
    obtain ⟨fiber, rest⟩ := taken
    have takes := Scheduler.popBottom_takes popped
    have held : place fiber = .queued own :=
      invariant.placed.place_eq ((takes.mem_iff fiber).mpr (.inl rfl))
    have anchored := (invariant.fibers fiber).anchored
    simp only [scan, popped]
    refine ⟨update place fiber (.hand own), ?_, by grind⟩
    apply take_invariant invariant takes
    case sound => cases caller <;> grind
    all_goals grind

theorem doze_invariant
    (point : state.pc mgr = .test mgr .thread fiber) (saved : state.fiberState fiber ≠ .saving) :
    Invariant { state with
        fiberState := update state.fiberState (state.exec mgr) .saving
        pc := update state.pc mgr (.switch mgr (state.exec mgr) fiber) }
      (update place (state.exec mgr) (.idle mgr)) := by
  have good := invariant.managers mgr
  obtain ⟨-, ⟨there, stack⟩, onCurrent⟩ := invariant.sound point
  have keeps := (invariant.fibers (state.exec mgr)).loop mgr (by grind)
  have only : ∀ own, state.maintenanceFiber own = some (state.exec mgr) → own = mgr := by
    intro own kept
    have := (invariant.managers own).keeper _ kept
    grind
  have held : place fiber = .hand mgr := invariant.placed.place_eq (by grind)
  have free := invariant.free saved (by grind)
  apply invariant.advance mgr
  · constructor <;> grind
  · apply invariant.placed.move <;> intro spot <;> cases spot <;> grind
  · exact invariant.queued
  · exact invariant.waiting
  · constructor
    · have := good.tied
      grind
    · exact good.home
    · have := good.pending
      grind
    · intro slot deferred found
      have := good.carried slot deferred found
      have := invariant.slotted found
      grind
    · exact good.keeper
    · exact good.unkept
    · simp only [update_self]
      exact ⟨rfl, rfl, free, by grind, onCurrent⟩
  · intro other touched
    have unheld := invariant.placed other (.hand mgr)
    obtain ⟨shape, anchored, owed, dead, loop, lone, idle, unborn, gone, yields, hidden⟩ :=
      invariant.fibers other
    obtain rfl | rfl : other = state.exec mgr ∨ other = fiber := by grind
    · constructor
      · exact .inl (stack ▸ .threadLoop mgr)
      all_goals grind
    · constructor
      · exact .inl (invariant.calm_of_free free)
      all_goals grind

theorem test_keeps (point : state.pc mgr = .test own caller fiber)
    (gate : caller ≠ .thread → state.fiberState fiber = .saving ∨ reading.opens)
    (stepped : test visits state mgr own caller fiber reading = some after) :
    Keeps after place := by
  obtain ⟨rfl, serves, onCurrent⟩ := invariant.sound point
  have calm : Calm (state.stack (state.exec own)) := invariant.calm (by grind)
  have held : place fiber = .hand own := invariant.placed.place_eq (by grind)
  by_cases saving : state.fiberState fiber = .saving
  · simp only [test, saving, if_true] at stepped
    cases stepped
    have anchored := (invariant.fibers fiber).anchored
    refine ⟨update place fiber (.queued own), ?_, by grind⟩
    apply enqueue_invariant invariant
    case unanchored =>
      intro frame member
      cases anchor : frame.anchor <;> grind
    case sound => cases caller <;> grind
    all_goals grind
  · simp only [test, saving, if_false] at stepped
    have free := invariant.free saving (by grind)
    cases caller with
    | thread =>
      have keeps := (invariant.fibers (state.exec own)).loop own (by grind)
      simp only [keeps, Option.map_some] at stepped
      cases stepped
      refine ⟨update place (state.exec own) (.idle own), ?_, by grind⟩
      exact doze_invariant invariant point saving
    | yield current st =>
      simp only [(gate (by simp)).resolve_left saving, if_true] at stepped
      cases stepped
      apply Invariant.keeps
      apply invariant.goto
      all_goals grind [- State.Free]

end

end LibFiber.Runtime
