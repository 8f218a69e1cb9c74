import LibFiber.Runtime.Yielding

namespace LibFiber.Runtime

open Data Semantics Function

attribute [local grind =] Function.update_apply

variable {Mgr : Type} [DecidableEq Mgr] {own : Mgr} {state : State Mgr}
variable {place : Fiber Mgr → Place Mgr}

/-! `fiber_manager_do_maintenance` and the calls that return to a fiber's stack. -/

/-- A store to the state of a fiber that no thread is on: a waker's, or the one
that ends the saving of its context. -/
theorem Invariant.restate (mgr : Mgr) {next : FiberState} (invariant : Invariant state place)
    (outside : (state.pc mgr).returns) (free : state.Free fiber)
    (mine : place fiber = .claimed mgr ∧ next = .ready ∨
      state.fiberState fiber = .saving ∧ next = .waiting) :
    Invariant (state.store fiber next) place := by
  have good := invariant.managers mgr
  unfold State.store
  apply invariant.advance mgr
  · constructor <;> grind
  · intro f spot
    have := invariant.placed f spot
    cases spot <;> grind
  · exact invariant.queued
  · exact invariant.waiting
  · obtain ⟨tied, home, pending, carried, keeper, unkept, sound⟩ := good
    constructor
    case sound => cases point : state.pc mgr <;> grind
    all_goals grind
  · intro other touched
    obtain ⟨shape, anchored, owed, dead, loop, lone, idle, unborn, gone, yields, hidden⟩ :=
      invariant.fibers other
    constructor
    · exact shape
    · intro frame member own anchor
      cases spot : place other <;> grind
    all_goals grind

theorem settle_invariant (invariant : Invariant state place)
    (point : state.pc mgr = .run) (top : state.stack (state.exec mgr) = .settle own :: below) :
    Invariant (settle state mgr own below) place := by
  obtain ⟨there, onCurrent⟩ := invariant.sound point
  obtain ⟨rfl, rest, rfl, calm⟩ := invariant.settling top
  have settled : Invariant (state.resume own (.maintenance own Slot.all :: rest)) place := by
    refine invariant.retop (congrArg Pc.returns point) there
      (.inr (.maintenance (List.suffix_refl _) calm)) ?_
    constructor <;> grind
  unfold settle
  split
  case isFalse => exact settled
  case isTrue saving =>
    have running := (invariant.running there).2
    refine settled.restate own (congrArg Pc.returns point) ?_ (.inr ⟨saving, rfl⟩)
    intro other tie
    have := invariant.apart other own (state.oldFiber own)
    simp only [State.resume, State.Tied] at tie
    grind

theorem Invariant.serve (invariant : Invariant state place) (point : state.pc mgr = .run)
    (settled : (state.stack (state.exec mgr)).head? ≠ some (.settle mgr))
    (found : state.slots (mgr, slot) = some deferred) (carries : deferred.carries)
    (passed : target = .absent ∧ slot = .doneFiber ∨ target = .queued mgr ∧ slot = .toSchedule ∨
      ∃ wait, target = .waiting wait ∧ slot ≠ .doneFiber ∧ slot ≠ .toSchedule)
    (lives : ∀ fiber, live fiber → state.live fiber)
    (queued : ∀ own, (scheduler own).members.Nodup)
    (waiting : ∀ wait, (waiters wait).Nodup)
    (froms : ∀ own fiber, fiber ∈ (state.scheduler own).queue (state.scheduler own).scheduleFrom →
      fiber ∈ (scheduler own).queue (scheduler own).scheduleFrom)
    (next : target = .queued mgr →
      deferred.fiber ∈ (scheduler mgr).queue (scheduler mgr).scheduleFrom)
    (placed : Placed (State.Holds { state with
      live, slots := update state.slots (mgr, slot) none, scheduler, waiters })
      (update place deferred.fiber target)) :
    Invariant { state with live, slots := update state.slots (mgr, slot) none, scheduler, waiters }
      (update place deferred.fiber target) := by
  have good := invariant.managers mgr
  have sound := invariant.sound point
  have slotted := invariant.slotted found carries
  have saved := (good.carried slot deferred found).2 carries
  apply invariant.advance mgr
  · constructor
    case lives =>
      intro other different dead
      grind
    all_goals grind
  · exact placed
  · exact queued
  · exact waiting
  · obtain ⟨tied, home, pending, carried, keeper, unkept, _⟩ := good
    constructor <;> grind
  · intro other touched
    obtain ⟨shape, anchored, owed, dead, loop, lone, idle, unborn, gone, yields, hidden⟩ :=
      invariant.fibers other
    constructor
    · exact shape
    · intro frame member own anchor
      cases spot : place other <;> grind
    · cases slot <;> grind
    all_goals grind

theorem Invariant.clear (invariant : Invariant state place) (point : state.pc mgr = .run)
    (found : state.slots (mgr, slot) = some deferred) (keeps : deferred.carries = false) :
    Invariant { state with slots := update state.slots (mgr, slot) none } place := by
  have good := invariant.managers mgr
  have sound := invariant.sound point
  apply invariant.advance mgr
  · constructor <;> grind
  · apply invariant.placed.congr
    intro fiber spot
    cases spot <;> grind
  · exact invariant.queued
  · exact invariant.waiting
  · obtain ⟨tied, home, pending, carried, keeper, unkept, _⟩ := good
    constructor <;> grind
  · intro other touched
    obtain ⟨shape, anchored, owed, dead, loop, lone, idle, unborn, gone, yields, hidden⟩ :=
      invariant.fibers other
    refine ⟨shape, ?_, owed, dead, loop, lone, idle, unborn, gone, yields, hidden⟩
    intro frame member own anchor
    cases spot : place other <;> grind

/-- What is left of a fiber's work when its field has been cleared. -/
def served (state : State Mgr) (mgr : Mgr) (slot : Slot) (deferred : Deferred Mgr) : State Mgr :=
  let cleared : State Mgr := { state with slots := update state.slots (mgr, slot) none }
  match slot with
  | .doneFiber => { cleared with live := update state.live deferred.fiber false }
  | .toSchedule => cleared.schedule mgr deferred.fiber
  | .mpmcToPush | .mpscToPush | .mutexToUnlock | .spinlockToUnlock | .setWaitLocation =>
    match slot.wait deferred.object with
    | some wait =>
      if deferred.carries then
        cleared.setWaiters wait (cleared.waiters wait ++ [deferred.fiber])
      else cleared
    | none => cleared

section Settled

variable {mgr : Mgr} (invariant : Invariant state place) (point : state.pc mgr = .run)
variable (settled : (state.stack (state.exec mgr)).head? ≠ some (.settle mgr))
include invariant point settled

theorem publish_keeps (wait : Wait) (found : state.slots (mgr, slot) = some deferred)
    (waits : slot ≠ .doneFiber ∧ slot ≠ .toSchedule) :
    let cleared : State Mgr := { state with slots := update state.slots (mgr, slot) none }
    Keeps (if deferred.carries then
      cleared.setWaiters wait (cleared.waiters wait ++ [deferred.fiber]) else cleared) place := by
  intro cleared
  have spots := fun spot => invariant.placed deferred.fiber spot
  split
  case isFalse keeps => exact (invariant.clear point found (by simpa using keeps)).keeps
  case isTrue carries =>
    have slotted := invariant.slotted found carries
    have fresh : deferred.fiber ∉ state.waiters wait := by
      have := spots (.waiting wait)
      grind
    refine ⟨update place deferred.fiber (.waiting wait), ?_, ?_⟩
    · apply invariant.serve point settled found carries (.inr (.inr ⟨wait, rfl, waits⟩))
      case queued => exact invariant.queued
      case waiting => exact waiting_append invariant fresh
      case placed =>
        apply invariant.placed.move <;> intro spot <;> cases spot <;> grind
      all_goals grind
    · intro fiber
      cases slot <;> grind

theorem done_keeps (found : state.slots (mgr, .doneFiber) = some deferred) :
    Keeps (served state mgr .doneFiber deferred) place := by
  have carried := ((invariant.managers mgr).carried _ deferred found).1 (by simp)
  have slotted := invariant.slotted found carried
  refine ⟨update place deferred.fiber .absent, ?_, by grind⟩
  apply invariant.serve point settled found carried (.inl ⟨rfl, rfl⟩)
  case queued => exact invariant.queued
  case waiting => exact invariant.waiting
  case placed =>
    apply invariant.placed.move <;> intro spot <;> cases spot <;> grind
  all_goals grind

theorem schedule_keeps (found : state.slots (mgr, .toSchedule) = some deferred) :
    Keeps (served state mgr .toSchedule deferred) place := by
  have carried := ((invariant.managers mgr).carried _ deferred found).1 (by simp)
  have slotted := invariant.slotted found carried
  have fresh : deferred.fiber ∉ (state.scheduler mgr).members := by
    have := invariant.placed deferred.fiber (.queued mgr)
    grind
  have distinct := Scheduler.nodup_pushBottom (state.scheduler mgr).scheduleFrom
    (invariant.queued mgr) fresh
  refine ⟨update place deferred.fiber (.queued mgr), ?_, by grind⟩
  apply invariant.serve point settled found carried (.inr (.inl ⟨rfl, rfl⟩))
  case queued => exact queued_update invariant distinct mgr
  case waiting => exact invariant.waiting
  case froms => exact froms_pushBottom mgr _ deferred.fiber
  case next =>
    intro
    simpa using Scheduler.mem_from_schedule (state.scheduler mgr) deferred.fiber
  case placed =>
    apply invariant.placed.move <;> intro spot <;> cases spot <;> grind
  all_goals grind

theorem served_keeps (found : state.slots (mgr, slot) = some deferred) :
    Keeps (served state mgr slot deferred) place := by
  cases slot with
  | doneFiber => exact done_keeps invariant point settled found
  | toSchedule => exact schedule_keeps invariant point settled found
  | _ => exact publish_keeps invariant point settled _ found (by simp)

theorem recount_invariant (counter : Nat → Int) : Invariant { state with counter } place := by
  have sound := invariant.sound point
  have same : update state.stack (state.exec mgr) (state.stack (state.exec mgr)) = state.stack :=
    update_eq_self ..
  rw [← same]
  refine invariant.retop (congrArg Pc.returns point) sound.1 ((invariant.shape mgr).imp_right (·.2))
    ⟨settled, ?_, ?_, ?_⟩
  all_goals grind

end Settled

theorem unlock_invariant (mutex : Nat) (invariant : Invariant state place)
    (point : state.pc mgr = .run)
    (calm : Calm (.wakeLoop mutex 1 0 :: state.stack (state.exec mgr))) :
    Invariant (unlockInternal state mgr mutex) place := by
  have sound := invariant.sound point
  unfold unlockInternal
  simp only
  split
  · apply recount_invariant invariant point
    intro head
    obtain below | ⟨own, rest, below, _⟩ := calm.wakeLoop_below <;> simp [below] at head
  · refine invariant.retop (congrArg Pc.returns point) sound.1 (.inl calm) ?_
    constructor <;> grind

theorem perform_eq (frames : List (Frame Mgr)) :
    perform { state.resume mgr frames with slots := update state.slots (mgr, slot) none } mgr mgr
        slot deferred =
      if slot = .mutexToUnlock then
        unlockInternal ((served state mgr slot deferred).resume mgr frames) mgr deferred.object
      else (served state mgr slot deferred).resume mgr frames := by
  cases carries : deferred.carries <;> cases slot <;>
    simp [perform, served, carries, Slot.wait, State.resume, State.setWaiters, State.schedule]

theorem served_frame (state : State Mgr) (mgr : Mgr) (slot : Slot) (deferred : Deferred Mgr) :
    (served state mgr slot deferred).stack = state.stack ∧
      (served state mgr slot deferred).exec = state.exec ∧
      (served state mgr slot deferred).pc = state.pc ∧
      ∀ other, (served state mgr slot deferred).slots (mgr, other) =
        if other = slot then none else state.slots (mgr, other) := by
  cases carries : deferred.carries <;> cases slot <;>
    simp [served, carries, Slot.wait, State.setWaiters, State.schedule, update_apply]

section

variable (invariant : Invariant state place)
include invariant

theorem advance_invariant (point : state.pc mgr = .run)
    (top : state.stack (state.exec mgr) = .maintenance mgr (slot :: rest) :: below)
    (vacant : state.slots (mgr, slot) = none) :
    Invariant (state.resume mgr (.maintenance mgr rest :: below)) place := by
  have sound := invariant.sound point
  obtain ⟨_, suffix, calm⟩ := invariant.maintaining top
  refine invariant.retop (congrArg Pc.returns point) sound.1
    (.inr (.maintenance ((List.suffix_cons _ _).trans suffix) calm)) ?_
  constructor <;> grind

theorem maintain_keeps (point : state.pc mgr = .run)
    (top : state.stack (state.exec mgr) = .maintenance own (slot :: rest) :: below) :
    Keeps (maintain state mgr own slot rest below) place := by
  obtain ⟨rfl, suffix, calm⟩ := invariant.maintaining top
  unfold maintain
  cases found : state.slots (own, slot) with
  | none => exact (advance_invariant invariant point top found).keeps
  | some deferred =>
    obtain ⟨moved, cleared, owed⟩ := served_keeps invariant point (by simp [top]) found
    obtain ⟨stack, exec, pc, slots⟩ := served_frame state own slot deferred
    have advanced : Invariant ((served state own slot deferred).resume own
        (.maintenance own rest :: below)) moved :=
      advance_invariant cleared (by rw [pc, point]) (by rw [stack, exec, top]) (by simp [slots])
    refine ⟨moved, ?_, owed⟩
    simp only [perform_eq]
    split
    case isFalse => exact advanced
    case isTrue mutex =>
      subst mutex
      obtain rfl := rest_of_mutexToUnlock suffix
      apply unlock_invariant _ advanced (by rw [State.resume, pc, point])
      simpa [State.resume, exec] using .unlocking _ _ _ _ calm

theorem pop_invariant (point : state.pc mgr = .run) (waiters : state.waiters wait = fiber :: rest) :
    Invariant ((state.setWaiters wait rest).goto mgr (.claim wait fiber))
      (update place fiber (.claimed mgr)) := by
  have sound := invariant.sound point
  have spots := fun spot => invariant.placed fiber spot
  have known := invariant.fibers fiber
  have held : place fiber = .waiting wait := (spots (.waiting wait)).mp (by grind)
  have distinct := invariant.waiting wait
  rw [waiters, List.nodup_cons] at distinct
  have loose : ∀ frame ∈ state.stack fiber, frame.anchor = none := by
    intro frame member
    have := known.anchored frame member
    cases anchor : frame.anchor <;> grind
  unfold State.setWaiters State.goto
  apply invariant.carry
  case sound =>
    have := known.hidden wait held
    grind
  case queued => exact invariant.queued
  case waiting =>
    intro other
    have := invariant.waiting other
    grind
  case lone =>
    intro own lone
    have := loose (.threadLoop own)
    grind
  case placed =>
    apply invariant.placed.move <;> intro spot <;> cases spot <;> grind
  all_goals grind

theorem return_invariant (returns : (state.pc mgr).returns)
    (there : place (state.exec mgr) = .on mgr) (top : state.stack (state.exec mgr) = frame :: below)
    (called : (∃ queue count wakeCount, frame = .wakeLoop queue count wakeCount) ∨
      ∃ address, frame = .clearLoop address) :
    Invariant (state.resume mgr below) place := by
  have good := invariant.managers mgr
  have calm := invariant.calling top (by grind)
  have home := good.home _ (.inl rfl)
  have shape : below = [] ∨ ∃ rest, below = .maintenance mgr Slot.late :: rest ∧ Calm rest := by
    obtain ⟨queue, count, wakeCount, rfl⟩ | ⟨address, rfl⟩ := called
    · obtain rfl | ⟨own, rest, rfl, lower⟩ := calm.wakeLoop_below
      · exact .inl rfl
      · obtain rfl := home (.maintenance own Slot.late) (by simp [top]) own rfl
        exact .inr ⟨rest, rfl, lower⟩
    · exact .inl calm.clearLoop_below
  have shaped : Calm below ∨ Fresh mgr below := by
    obtain rfl | ⟨rest, rfl, lower⟩ := shape
    · exact .inl .nil
    · exact .inr (.maintenance (by decide) lower)
  refine invariant.retop returns there shaped ?_
  constructor <;> grind

end

theorem next_invariant (next : Int) (invariant : Invariant state place)
    (returns : (state.pc mgr).returns) (there : place (state.exec mgr) = .on mgr)
    (top : state.stack (state.exec mgr) = .wakeLoop queue count wakeCount :: below) :
    Invariant (state.resume mgr (.wakeLoop queue count next :: below)) place := by
  have calm := invariant.calling top (by simp)
  refine invariant.retop returns there (.inl (calm.wakeLoop_next next)) ?_
  constructor <;> grind

theorem wakeRound_keeps (invariant : Invariant state place) (point : state.pc mgr = .run)
    (top : state.stack (state.exec mgr) = .wakeLoop queue count wakeCount :: below) :
    Keeps (wakeRound state mgr queue count wakeCount below reading) place := by
  have sound := invariant.sound point
  have calm := invariant.calling top (by simp)
  unfold wakeRound
  split
  · rename_i fiber rest waiters _
    have held : place fiber = .waiting (.mpsc queue) :=
      invariant.placed.place_eq (by simp [State.Holds, waiters])
    have popped := pop_invariant invariant point waiters
    have there : update place fiber (.claimed mgr) (state.exec mgr) = .on mgr := by grind
    refine ⟨update place fiber (.claimed mgr), ?_, by grind⟩
    split
    · exact next_invariant _ popped (by simp [State.goto]; rfl) there top
    · exact return_invariant popped (by simp [State.goto]; rfl) there top (.inl ⟨_, _, _, rfl⟩)
  · split
    · exact (callYield_invariant invariant point (top ▸ calm) (by simp [top])).keeps
    · exact (return_invariant invariant (congrArg Pc.returns point) sound.1 top
        (.inl ⟨_, _, _, rfl⟩)).keeps

theorem clearRound_keeps (invariant : Invariant state place) (point : state.pc mgr = .run)
    (top : state.stack (state.exec mgr) = .clearLoop address :: below) :
    Keeps (clearRound state mgr address below) place := by
  have sound := invariant.sound point
  have calm := invariant.calling top (by simp)
  unfold clearRound
  split
  · rename_i fiber rest waiters
    have held : place fiber = .waiting (.location address) :=
      invariant.placed.place_eq (by simp [State.Holds, waiters])
    have popped := pop_invariant invariant point waiters
    have there : update place fiber (.claimed mgr) (state.exec mgr) = .on mgr := by grind
    refine ⟨update place fiber (.claimed mgr), ?_, by grind⟩
    exact return_invariant popped (by simp [State.goto]; rfl) there top (.inr ⟨_, rfl⟩)
  · exact (callYield_invariant invariant point (top ▸ calm) (by simp [top])).keeps

theorem resumeTop_keeps {visits : Mgr → List (Mgr × Bool)} {reading : Reading} {after : State Mgr}
    (invariant : Invariant state place) (point : state.pc mgr = .run)
    (stepped : resumeTop visits state mgr reading = some after) : Keeps after place := by
  have good := invariant.managers mgr
  obtain ⟨there, onCurrent⟩ := invariant.sound point
  have known := invariant.fibers (state.exec mgr)
  have returns := congrArg Pc.returns point
  rw [resumeTop] at stepped
  generalize top : state.stack (state.exec mgr) = now at stepped
  cases now with
  | nil => cases stepped
  | cons frame below =>
    cases frame with
    | deadEnd => cases stepped
    | waitEnd =>
      cases stepped
      obtain rfl := (invariant.calling top (by simp)).waitEnd_below
      apply Invariant.keeps
      refine invariant.retop returns there (.inl .nil) ?_
      constructor <;> grind
    | yieldLoop current =>
      cases stepped
      have running := (invariant.running there).2
      obtain rfl := known.yields current (by simp [top])
      obtain rfl : below = [.waitEnd] := by
        have := known.dead
        have := (invariant.calling top (by simp)).yieldLoop_below
        grind
      apply Invariant.keeps
      apply invariant.resume
      case shape => exact .inl .waitEnd
      case reframes => constructor <;> grind
      all_goals grind [State.resume]
    | threadLoop own =>
      cases stepped
      obtain rfl := good.home _ (.inl rfl) (.threadLoop own) (by simp [top]) own rfl
      have calm := invariant.calling top (by simp)
      obtain rfl := calm.threadLoop_below
      apply Invariant.keeps
      apply invariant.goto
      all_goals grind
    | settle own =>
      cases stepped
      exact (settle_invariant invariant point top).keeps
    | maintenance own rest =>
      cases rest with
      | nil =>
        cases stepped
        obtain ⟨rfl, _, calm⟩ := invariant.maintaining top
        apply Invariant.keeps
        refine invariant.retop returns there (.inl calm) ⟨calm.head_ne_settle, ?_, ?_, ?_⟩
        all_goals grind
      | cons slot rest =>
        cases stepped
        exact maintain_keeps invariant point top
    | wakeLoop queue count wakeCount =>
      cases stepped
      exact wakeRound_keeps invariant point top
    | clearLoop address =>
      cases stepped
      exact clearRound_keeps invariant point top

end LibFiber.Runtime
