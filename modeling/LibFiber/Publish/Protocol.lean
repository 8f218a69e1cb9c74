import LibFiber.Publish.Preservation

namespace LibFiber.Publish

open Data Semantics Function

attribute [local grind =] Function.update_apply

variable {Mgr Queue α : Type} [DecidableEq Mgr] [DecidableEq Queue] [DecidableEq α]
variable {state : State Mgr Queue α} {place : α → Place Mgr Queue}

@[grind =] def Place.owed : Place Mgr Queue → Nat
  | .entering _ | .waiting _ | .claimed _ => 1
  | .absent | .on _ | .queued _ | .hand _ | .slot _ => 0

def isWait (fiber : α) (state : State Mgr Queue α) : Action Mgr Queue α → Bool
  | .wait mgr _ => state.client mgr = some fiber
  | _ => false

def isSchedule (fiber : α) (state : State Mgr Queue α) : Action Mgr Queue α → Bool
  | .tick mgr => state.pc mgr = .schedule fiber
  | _ => false

/-- A step keeps the invariant, with every wait and every schedule accounted
for by the places it moves fibers to. -/
def Accounts (state : State Mgr Queue α) (place : α → Place Mgr Queue)
    (action : Action Mgr Queue α) (after : State Mgr Queue α) : Prop :=
  ∃ moved, Invariant after moved ∧ ∀ fiber, (isWait fiber state action).toNat + (place fiber).owed =
      (isSchedule fiber state action).toNat + (moved fiber).owed

def Quiet (state : State Mgr Queue α) (action : Action Mgr Queue α) : Prop :=
  ∀ fiber, isWait fiber state action = false ∧ isSchedule fiber state action = false

omit [DecidableEq Mgr] in
theorem quiet_tick (point : ∀ fiber, state.pc mgr ≠ .schedule fiber) :
    Quiet state (.tick mgr) := by
  intro fiber
  simp [isWait, isSchedule, point fiber]

omit [DecidableEq Mgr] in
theorem Accounts.quiet (kept : Invariant after moved)
    (quiet : Quiet state action) (same : ∀ fiber, (moved fiber).owed = (place fiber).owed) :
    Accounts state place action after := by
  refine ⟨moved, kept, fun fiber => ?_⟩
  rw [(quiet fiber).1, (quiet fiber).2, same fiber]

omit [DecidableEq Mgr] [DecidableEq Queue] in
theorem owed_update (same : target.owed = (place fiber).owed)
    (other : α) : (update place fiber target other).owed = (place other).owed := by
  by_cases here : other = fiber
  · subst here
    rw [update_self, same]
  · rw [update_of_ne here]

theorem scan_accounts (invariant : Invariant state place) (point : state.pc mgr = .scan) :
    Accounts state place (.tick mgr) (scan state mgr) := by
  have quiet : Quiet state (.tick mgr) := quiet_tick (by simp [point])
  cases popped : (state.scheduler mgr).popBottom with
  | none =>
    simp only [scan, popped]
    refine Accounts.quiet ?_ quiet fun _ => rfl
    cases exec : state.exec mgr with
    | none =>
      simp only [State.goto, State.exhausted, exec]
      apply invariant.goto <;> grind
    | some fiber =>
      by_cases running : state.fiberState fiber = .running
      · simp only [State.goto, State.exhausted, exec, running, if_true]
        apply invariant.goto <;> grind
      · simp only [State.goto, State.exhausted, exec, running, if_false]
        apply invariant.goto <;> grind
  | some taken =>
    obtain ⟨fiber, rest⟩ := taken
    have taken := Scheduler.popBottom_takes popped
    have held : place fiber = .queued mgr :=
      invariant.placed.place_eq ((taken.mem_iff fiber).mpr (.inl rfl))
    simp only [scan, popped]
    exact Accounts.quiet (take_invariant invariant taken (by grind) (.inl rfl) trivial) quiet
      (owed_update (by grind))

theorem maintenance_accounts (invariant : Invariant state place)
    (point : state.pc mgr = .settle ∨ state.pc mgr = .reschedule)
    (stepped : tick state mgr = some after) : Accounts state place (.tick mgr) after := by
  have quiet : Quiet state (.tick mgr) := quiet_tick (by grind)
  have sound := (invariant.good mgr).sound
  rcases point with point | point
  · simp only [tick, point] at stepped
    cases stepped
    refine Accounts.quiet ?_ quiet fun _ => rfl
    cases old : state.oldFiber mgr with
    | none =>
      simp only [State.goto, settle, old]
      apply invariant.goto <;> grind
    | some fiber =>
      by_cases saving : state.fiberState fiber = .saving
      · simp only [State.goto, settle, old, saving, if_true]
        apply invariant.goto <;> grind
      · simp only [State.goto, settle, old, saving, if_false]
        apply invariant.goto <;> grind
  · cases slot : state.toSchedule mgr with
    | none =>
      simp only [tick, point, reschedule, slot] at stepped
      cases stepped
      refine Accounts.quiet ?_ quiet fun _ => rfl
      apply invariant.goto <;> grind
    | some fiber =>
      simp only [tick, point, reschedule, slot, Option.some.injEq] at stepped
      have held : place fiber = .slot mgr := invariant.placed.place_eq slot
      exact Accounts.quiet (stepped ▸ reschedule_invariant invariant point slot) quiet
        (owed_update (by grind))

theorem tick_accounts (invariant : Invariant state place)
    (stepped : tick state mgr = some after) : Accounts state place (.tick mgr) after := by
  have sound := (invariant.good mgr).sound
  have spots := fun fiber spot => (invariant.placed fiber spot).mp
  have ticked := stepped
  rw [tick] at stepped
  generalize point : state.pc mgr = now at stepped
  cases now with
  | run =>
    have quiet : Quiet state (.tick mgr) := quiet_tick (by simp [point])
    cases exec : state.exec mgr with
    | none =>
      simp only [exec] at stepped
      cases stepped
      refine Accounts.quiet ?_ quiet fun _ => rfl
      apply invariant.goto <;> grind
    | some fiber => simp [exec] at stepped
  | exchange queue =>
    have quiet : Quiet state (.tick mgr) := quiet_tick (by simp [point])
    cases exec : state.exec mgr with
    | none => simp [exec] at stepped
    | some fiber =>
      simp only [exec, Option.some.injEq] at stepped
      have held : place fiber = .entering mgr := spots fiber (.entering mgr) ⟨exec, by grind⟩
      exact Accounts.quiet (stepped ▸ exchange_invariant invariant point exec) quiet
        (owed_update (by grind))
  | link queue =>
    have quiet : Quiet state (.tick mgr) := quiet_tick (by simp [point])
    cases exec : state.exec mgr with
    | none => simp [exec] at stepped
    | some fiber =>
      simp only [exec] at stepped
      cases stepped
      refine Accounts.quiet ?_ quiet fun _ => rfl
      apply invariant.goto <;> grind [LinkedFifo.members_link]
  | next =>
    cases stepped
    refine Accounts.quiet ?_ (quiet_tick (by simp [point])) fun _ => rfl
    apply invariant.goto <;> grind
  | scan =>
    cases stepped
    exact scan_accounts invariant point
  | test fiber =>
    cases stepped
    refine Accounts.quiet ?_ (quiet_tick (by simp [point])) fun _ => rfl
    by_cases saving : state.fiberState fiber = .saving
    · apply invariant.goto <;> grind
    · apply invariant.goto <;> grind
  | store fiber =>
    simp only [Option.some.injEq] at stepped
    have held : place fiber = .hand mgr := spots fiber (.hand mgr) (by grind)
    exact Accounts.quiet (stepped ▸ store_invariant invariant point)
      (quiet_tick (by simp [point])) (owed_update (by grind))
  | switch target =>
    simp only [Option.some.injEq] at stepped
    have held : ∀ fiber, state.leaving mgr = some fiber → place fiber = .on mgr :=
      fun fiber left => spots fiber (.on mgr) (State.leaving_eq_some.mp left)
    exact Accounts.quiet (stepped ▸ switchTo_invariant invariant point)
      (quiet_tick (by simp [point])) (by grind)
  | swap target =>
    simp only [Option.some.injEq] at stepped
    have held : ∀ fiber, target = some fiber → place fiber = .hand mgr :=
      fun fiber chosen => spots fiber (.hand mgr) (by grind)
    exact Accounts.quiet (stepped ▸ swap_invariant invariant point)
      (quiet_tick (by simp [point])) (by grind)
  | settle => exact maintenance_accounts invariant (.inl point) ticked
  | save fiber =>
    simp only [Option.some.injEq] at stepped
    exact Accounts.quiet (stepped ▸ save_invariant invariant point)
      (quiet_tick (by simp [point])) fun _ => rfl
  | reschedule => exact maintenance_accounts invariant (.inr point) ticked
  | wakeTest fiber =>
    cases stepped
    refine Accounts.quiet ?_ (quiet_tick (by simp [point])) fun _ => rfl
    by_cases waiting : state.fiberState fiber = .waiting
    · apply invariant.goto <;> grind
    · apply invariant.goto <;> grind
  | wakeSet fiber =>
    simp only [Option.some.injEq] at stepped
    exact Accounts.quiet (stepped ▸ wakeSet_invariant invariant point)
      (quiet_tick (by simp [point])) fun _ => rfl
  | schedule fiber =>
    simp only [Option.some.injEq] at stepped
    have held : place fiber = .claimed mgr := spots fiber (.claimed mgr) (by grind)
    refine ⟨_, stepped ▸ enqueue_invariant invariant (.inl point), fun other => ?_⟩
    by_cases same : other = fiber
    · simp [isWait, isSchedule, point, same, held, Place.owed]
    · simp [isWait, isSchedule, point, same, Ne.symm same]
  | stash fiber =>
    simp only [Option.some.injEq] at stepped
    have held : place fiber = .hand mgr := spots fiber (.hand mgr) (by grind)
    exact Accounts.quiet (stepped ▸ enqueue_invariant invariant (.inr point))
      (quiet_tick (by simp [point])) (owed_update (by grind))

omit [DecidableEq Mgr] in
theorem State.client_eq_some : state.client mgr = some fiber ↔
    state.pc mgr = .run ∧ state.exec mgr = some fiber := by
  simp [State.client]

theorem step_accounts (invariant : Invariant state place)
    (stepped : step state action = some after) : Accounts state place action after := by
  cases action with
  | create mgr fiber =>
    obtain ⟨⟨client, absent⟩, ⟨⟩⟩ := Option.ite_none_right_eq_some.mp stepped
    obtain ⟨caller, running⟩ := Option.isSome_iff_exists.mp client
    obtain ⟨point, _⟩ := State.client_eq_some.mp running
    have held : place fiber = .absent := invariant.placed.place_eq absent
    exact Accounts.quiet (create_invariant invariant point absent)
      (fun _ => ⟨rfl, rfl⟩) (owed_update (by grind))
  | wait mgr queue =>
    obtain ⟨fiber, client, rfl⟩ := Option.map_eq_some_iff.mp stepped
    obtain ⟨point, exec⟩ := State.client_eq_some.mp client
    have running : state.fiberState fiber = .running := by
      have sound := (invariant.good mgr).sound
      grind
    have held : place fiber = .on mgr := invariant.placed.place_eq ⟨exec, running⟩
    refine ⟨_, wait_invariant invariant point exec, fun other => ?_⟩
    by_cases same : other = fiber
    · simp [isWait, isSchedule, client, same, held, Place.owed]
    · simp [isWait, isSchedule, client, same, Ne.symm same]
  | yield mgr =>
    obtain ⟨fiber, client, rfl⟩ := Option.map_eq_some_iff.mp stepped
    obtain ⟨point, _⟩ := State.client_eq_some.mp client
    refine Accounts.quiet ?_ (fun _ => ⟨rfl, rfl⟩) fun _ => rfl
    apply invariant.goto <;> grind
  | wake mgr queue =>
    obtain ⟨caller, client, popping⟩ := Option.bind_eq_some_iff.mp stepped
    obtain ⟨⟨fiber, rest⟩, popped, rfl⟩ := Option.map_eq_some_iff.mp popping
    obtain ⟨point, _⟩ := State.client_eq_some.mp client
    have held : place fiber = .waiting queue := by
      apply invariant.placed.place_eq
      simp [State.Holds, LinkedFifo.members_trypop popped]
    exact Accounts.quiet (wake_invariant invariant point popped)
      (fun _ => ⟨rfl, rfl⟩) (owed_update (by grind))
  | steal mgr victim side =>
    obtain ⟨⟨point, _⟩, stealing⟩ := Option.ite_none_right_eq_some.mp stepped
    obtain ⟨⟨fiber, rest⟩, stolen, rfl⟩ := Option.map_eq_some_iff.mp stealing
    have taken := Scheduler.steal_takes stolen
    have held : place fiber = .queued victim :=
      invariant.placed.place_eq ((taken.mem_iff fiber).mpr (.inl rfl))
    have sound := (invariant.good mgr).sound
    exact Accounts.quiet
      (take_invariant invariant taken (by grind) (.inr rfl) (by grind))
      (fun _ => ⟨rfl, rfl⟩) (owed_update (by grind))
  | tick mgr => exact tick_accounts invariant stepped

omit [DecidableEq Queue] in
theorem init_invariant (main : Mgr) (thread : α) :
    Invariant (init main thread : State Mgr Queue α)
      (fun fiber => if fiber = thread then .on main else .absent) := by
  unfold init
  constructor
  · intro fiber spot
    cases spot <;> grind [Scheduler.members_init, LinkedFifo.members, LinkedFifo.empty]
  · simp
  · simp [LinkedFifo.members, LinkedFifo.empty]
  · grind
  · grind
  · intro mgr
    constructor <;> grind

def waits (fiber : α) (history : List (State Mgr Queue α × Action Mgr Queue α)) : Nat :=
  history.countP fun taken => isWait fiber taken.1 taken.2

def schedules (fiber : α) (history : List (State Mgr Queue α × Action Mgr Queue α)) : Nat :=
  history.countP fun taken => isSchedule fiber taken.1 taken.2

theorem run_accounts (run : (machine Mgr Queue α).Run history state) :
    ∃ place, Invariant state place ∧
      ∀ fiber, waits fiber history = schedules fiber history + (place fiber).owed := by
  apply Machine.Run.invariant _ _ _ run
  · rintro state ⟨main, thread, rfl⟩
    refine ⟨_, init_invariant main thread, fun fiber => ?_⟩
    by_cases same : fiber = thread <;> simp [waits, schedules, same, Place.owed]
  · rintro history before action after ⟨place, invariant, balance⟩ stepped
    obtain ⟨moved, kept, accounts⟩ := step_accounts invariant stepped
    refine ⟨moved, kept, fun fiber => ?_⟩
    have earlier := balance fiber
    have now := accounts fiber
    simp only [waits, schedules, countP_snoc] at earlier ⊢
    omega

end LibFiber.Publish
