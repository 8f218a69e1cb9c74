import LibFiber.Runtime.Runs

namespace LibFiber.Runtime

open Data Semantics Function

variable {Mgr : Type} [DecidableEq Mgr] {own : Mgr} {after : State Mgr}
variable {visits : Mgr → List (Mgr × Bool)}

/-! A waiting fiber goes on only after it has been woken. -/

/-- The waits the fiber has yet to return from. -/
def waitEnds (fiber : Fiber Mgr) (state : State Mgr) : Nat :=
  (state.stack fiber).count .waitEnd

/-- The step in which `fiber` gets past its wait. -/
def isReturn (fiber : Fiber Mgr) (state : State Mgr) : Action Mgr → Bool
  | .client _ _ => false
  | .tick mgr _ =>
    state.pc mgr = .run && state.exec mgr = fiber && (state.stack fiber).head? = some .waitEnd

theorem waitEnds_congr (same : after.stack = state.stack) :
    waitEnds fiber after = waitEnds fiber state := by
  rw [waitEnds, waitEnds, same]

theorem waitEnds_resume (frames : List (Frame Mgr))
    (same : frames.count .waitEnd = (state.stack (state.exec mgr)).count .waitEnd)
    (fiber : Fiber Mgr) : waitEnds fiber (state.resume mgr frames) = waitEnds fiber state := by
  by_cases here : fiber = state.exec mgr
  · subst here
    simpa [waitEnds, State.resume] using same
  · simp [waitEnds, State.resume, here]

theorem waitEnds_push (frame : Frame Mgr) (other : frame ≠ .waitEnd) (fiber : Fiber Mgr) :
    waitEnds fiber (state.push mgr frame) = waitEnds fiber state :=
  waitEnds_resume _ (List.count_cons_of_ne other) fiber

theorem waitEnds_unlock (mutex : Nat) (fiber : Fiber Mgr) :
    waitEnds fiber (unlockInternal state mgr mutex) = waitEnds fiber state := by
  unfold unlockInternal
  simp only
  split
  · rfl
  · exact waitEnds_push _ (by simp) fiber

theorem waitEnds_perform (slot : Slot) (deferred : Deferred Mgr) (fiber : Fiber Mgr) :
    waitEnds fiber (perform state mgr own slot deferred) = waitEnds fiber state := by
  cases carries : deferred.carries <;> cases slot <;>
    simp [perform, carries, Slot.wait, waitEnds_unlock] <;> rfl

theorem waitEnds_retreat (invariant : Invariant state place) (fiber : Fiber Mgr) :
    waitEnds fiber (retreat state mgr own current) = waitEnds fiber state := by
  unfold retreat
  cases keeps : state.maintenanceFiber own with
  | some target => exact waitEnds_push _ (by simp) fiber
  | none =>
    have absent : place (.maintenance own) = .absent :=
      invariant.placed.place_eq ((invariant.managers own).unkept keeps)
    have unwaited := (invariant.fibers (.maintenance own)).gone (.inl absent)
    refine (waitEnds_push _ (by simp) fiber).trans ?_
    by_cases same : fiber = .maintenance own
    · subst same
      simp [waitEnds, List.count_eq_zero.mpr unwaited]
    · simp [waitEnds, same]

theorem waitEnds_exhausted (invariant : Invariant state place) (fiber : Fiber Mgr) :
    waitEnds fiber (exhausted visits state mgr own caller) = waitEnds fiber state := by
  cases caller with
  | thread => rfl
  | yield current st =>
    simp only [exhausted]
    split
    · exact waitEnds_retreat invariant fiber
    · exact waitEnds_congr (trySteal_frame _ _ _ _ _).1

theorem waitEnds_inner
    (top : state.stack (state.exec mgr) = frame :: below) (other : frame ≠ .waitEnd)
    (stepped : resumeTop visits state mgr reading = some after) (fiber : Fiber Mgr) :
    waitEnds fiber after = waitEnds fiber state := by
  have same : below.count .waitEnd = (state.stack (state.exec mgr)).count .waitEnd := by
    rw [top, List.count_cons_of_ne other]
  have popped : ∀ frame : Frame Mgr, frame ≠ .waitEnd →
      (frame :: below).count .waitEnd = (state.stack (state.exec mgr)).count .waitEnd :=
    fun frame other => (List.count_cons_of_ne other).trans same
  cases frame with
  | deadEnd => simp [resumeTop, top] at stepped
  | waitEnd => exact absurd rfl other
  | yieldLoop current =>
    simp only [resumeTop, top] at stepped
    cases stepped
    exact waitEnds_resume below same fiber
  | threadLoop own =>
    simp only [resumeTop, top] at stepped
    cases stepped
    rfl
  | settle own =>
    simp only [resumeTop, top, settle] at stepped
    cases stepped
    split
    all_goals exact waitEnds_resume below same fiber
  | maintenance own rest =>
    cases rest with
    | nil =>
      simp only [resumeTop, top] at stepped
      cases stepped
      exact waitEnds_resume below same fiber
    | cons slot rest =>
      simp only [resumeTop, top, maintain] at stepped
      cases stepped
      have advanced := waitEnds_resume _ (popped (.maintenance own rest) (by simp)) fiber
      split
      · exact advanced
      · exact (waitEnds_perform _ _ fiber).trans advanced
  | wakeLoop queue count wakeCount =>
    simp only [resumeTop, top, wakeRound] at stepped
    cases stepped
    split
    · split
      · exact waitEnds_resume _ (popped _ (by simp)) fiber
      · exact waitEnds_resume _ same fiber
    · split
      · rfl
      · exact waitEnds_resume _ same fiber
  | clearLoop address =>
    simp only [resumeTop, top, clearRound] at stepped
    cases stepped
    split
    · exact waitEnds_resume _ same fiber
    · rfl

theorem waitEnds_resumeTop (point : state.pc mgr = .run)
    (stepped : resumeTop visits state mgr reading = some after) (fiber : Fiber Mgr) :
    waitEnds fiber state =
      (isReturn fiber state (.tick mgr reading)).toNat + waitEnds fiber after := by
  cases top : state.stack (state.exec mgr) with
  | nil => simp [resumeTop, top] at stepped
  | cons frame below =>
    by_cases ends : frame = .waitEnd
    · subst ends
      simp only [resumeTop, top] at stepped
      cases stepped
      by_cases here : fiber = state.exec mgr
      · subst here
        simp [waitEnds, isReturn, State.resume, point, top, Nat.add_comm]
      · simp [waitEnds, isReturn, State.resume, here, Ne.symm here]
    · have goesOn : isReturn fiber state (.tick mgr reading) = false := by
        by_cases here : state.exec mgr = fiber
        · subst here
          simp [isReturn, top, ends]
        · simp [isReturn, here]
      rw [goesOn, Bool.toNat_false, Nat.zero_add, waitEnds_inner top ends stepped]

theorem waitEnds_swap (old new fiber : Fiber Mgr) :
    waitEnds fiber (swap state mgr old new) = waitEnds fiber state := by
  by_cases same : fiber = new
  · subst same
    simp [waitEnds, swap]
  · simp [waitEnds, swap, same]

theorem waitEnds_call (invariant : Invariant state place)
    (inside : state.pc mgr ≠ .run) (stepped : tick visits state mgr reading = some after)
    (fiber : Fiber Mgr) : waitEnds fiber after = waitEnds fiber state := by
  cases point : state.pc mgr with
  | run => exact absurd point inside
  | scan own caller =>
    simp only [tick, point, scan] at stepped
    cases stepped
    split
    · exact waitEnds_exhausted invariant fiber
    · rfl
  | switch own old new =>
    simp only [tick, point] at stepped
    cases stepped
    rfl
  | swap old new =>
    simp only [tick, point] at stepped
    cases stepped
    exact waitEnds_swap old new fiber
  | _ =>
    apply waitEnds_congr
    exact (tick_frame inside (by simp [point]) (by simp [point]) (by simp [point]) stepped).1

theorem waitEnds_tick (invariant : Invariant state place)
    (stepped : tick visits state mgr reading = some after) (fiber : Fiber Mgr) :
    waitEnds fiber state =
      (isReturn fiber state (.tick mgr reading)).toNat + waitEnds fiber after := by
  by_cases point : state.pc mgr = .run
  · simp only [tick, point] at stepped
    exact waitEnds_resumeTop point stepped fiber
  · have goesOn : isReturn fiber state (.tick mgr reading) = false := by simp [isReturn, point]
    rw [goesOn, Bool.toNat_false, Nat.zero_add, waitEnds_call invariant point stepped]

theorem waitEnds_park (state : State Mgr) (mgr : Mgr) (fiber : Fiber Mgr) :
    waitEnds fiber (state.push mgr .waitEnd) =
      (decide (state.exec mgr = fiber)).toNat + waitEnds fiber state := by
  by_cases here : state.exec mgr = fiber
  · subst here
    simp [waitEnds, State.push, State.resume, Nat.add_comm]
  · simp [waitEnds, State.push, State.resume, here, Ne.symm here]

theorem waitEnds_client (invariant : Invariant state place)
    (called : call state mgr op = some after) (fiber : Fiber Mgr) :
    waitEnds fiber after = (isPark fiber state (.client mgr op)).toNat + waitEnds fiber state := by
  have parked : op.waits state → isPark fiber state (.client mgr op) =
      decide (state.exec mgr = fiber) := by
    intro waits
    simp [isPark, waits]
  have quiet : op.waits state = false →
      (isPark fiber state (.client mgr op)).toNat + waitEnds fiber state =
        waitEnds fiber state := by
    intro goesOn
    simp [isPark, goesOn]
  cases op with
  | wait queue =>
    cases called
    rw [parked rfl]
    exact waitEnds_park (state.store _ .saving) mgr fiber
  | waitAndUnlock queue mutex =>
    cases called
    rw [parked rfl]
    exact waitEnds_park ((state.record mgr .mutexToUnlock mutex false).store _ .saving) mgr fiber
  | park slot object =>
    simp only [call, Option.map_eq_some_iff] at called
    obtain ⟨_, _, rfl⟩ := called
    rw [parked rfl]
    exact waitEnds_park ((state.store _ .waiting).record mgr slot object true) mgr fiber
  | lock mutex =>
    cases called
    split
    case isTrue free =>
      rw [quiet (by simp [Op.waits, free])]
      rfl
    case isFalse held =>
      rw [parked (by simpa [Op.waits] using held)]
      exact waitEnds_park (State.store { state with counter := _ } _ .saving) mgr fiber
  | create id =>
    simp only [call, Option.ite_none_left_eq_some, Option.some.injEq] at called
    obtain ⟨dead, rfl⟩ := called
    rw [quiet rfl]
    have dead : state.live (.user id) = false := by simpa using dead
    have absent : place (.user id) = .absent := invariant.placed.place_eq dead
    have unwaited := (invariant.fibers (.user id)).gone (.inl absent)
    by_cases same : fiber = .user id
    · subst same
      simp [waitEnds, State.schedule, List.count_eq_zero.mpr unwaited]
    · simp [waitEnds, State.schedule, same]
  | unlock mutex =>
    cases called
    rw [quiet rfl]
    exact waitEnds_unlock mutex fiber
  | yield =>
    cases called
    exact (quiet rfl).symm
  | wake queue count | clear address =>
    cases called
    rw [quiet rfl]
    exact waitEnds_push _ (by simp) fiber
  | take wait =>
    rw [quiet rfl]
    simp only [call, take] at called
    split at called
    · cases called
    · cases called
      rfl
  | finish =>
    rw [quiet rfl]
    simp only [call] at called
    split at called
    · cases called
      exact waitEnds_push _ (by simp) fiber
    all_goals cases called

theorem waitEnds_step (invariant : Invariant state place)
    (stepped : step visits state action = some after) (fiber : Fiber Mgr) :
    (isPark fiber state action).toNat + waitEnds fiber state =
      (isReturn fiber state action).toNat + waitEnds fiber after := by
  cases action with
  | tick mgr reading =>
    have counted := waitEnds_tick invariant stepped fiber
    simpa [isPark] using counted
  | client mgr op =>
    obtain ⟨_, called⟩ := Option.ite_none_right_eq_some.mp stepped
    have counted := waitEnds_client invariant called fiber
    simpa [isReturn] using counted.symm

def returns (fiber : Fiber Mgr) (history : List (State Mgr × Action Mgr)) : Nat :=
  history.countP fun taken => isReturn fiber taken.1 taken.2

theorem run_returns (run : (machine n).Run history final)
    (ordered : ∀ taken ∈ history, orderly taken.1 taken.2) (fiber : Fiber (Fin (n + 1))) :
    parks fiber history = returns fiber history + waitEnds fiber final := by
  induction run with
  | start initial =>
    obtain rfl := initial
    cases fiber <;> simp [parks, returns, waitEnds, init]
    split <;> simp
  | @step history before after action run stepped ih =>
    obtain ⟨earlier, _⟩ := List.forall_mem_append.mp ordered
    obtain ⟨place, invariant, _⟩ := run_accounts run earlier
    have balance := ih earlier
    have now := waitEnds_step invariant stepped fiber
    simp only [parks, returns, countP_snoc] at balance ⊢
    omega

/-- In every run whose steps are all orderly, a thread that is in a fiber's own
code or returns to it is on a running fiber, whose waits have all been followed
by a wake-up, and no fiber gets past more waits than it has been woken from. -/
theorem yield_blocks (run : (machine n).Run history final)
    (ordered : ∀ taken ∈ history, orderly taken.1 taken.2) :
    (∀ mgr, final.pc mgr = .run → final.fiberState (final.exec mgr) = .running ∧
        .deadEnd ∉ final.stack (final.exec mgr) ∧
        parks (final.exec mgr) history = wakes (final.exec mgr) history) ∧
      ∀ fiber, returns fiber history ≤ wakes fiber history ∧
        wakes fiber history ≤ parks fiber history := by
  obtain ⟨place, invariant, balance⟩ := run_accounts run ordered
  refine ⟨fun mgr point => ?_, fun fiber => ?_⟩
  · obtain ⟨there, _⟩ := invariant.sound point
    refine ⟨(invariant.running there).2, fun dead => ?_, ?_⟩
    · have := (invariant.fibers (final.exec mgr)).dead dead
      grind
    · have := balance (final.exec mgr)
      rwa [there] at this
  · have balance := balance fiber
    have counted := run_returns run ordered fiber
    have waited : (place fiber).owed ≤ waitEnds fiber final := by
      obtain none | one := Nat.le_one_iff_eq_zero_or_eq_one.mp (place fiber).owed_le_one
      · omega
      · rw [one]
        exact List.count_pos_iff.mpr ((invariant.fibers fiber).owed one)
    omega

/-- The main thread waits in a queue; fiber 1 takes it out and yields to it. -/
def woken (mgr : Fin 1) : List (Action (Fin 1)) :=
  [.client mgr (.create 1), .client mgr (.wait 7)] ++ List.replicate 15 (.tick mgr unlocked) ++
    [.client mgr (.wake 7 1), .tick mgr unlocked, .tick mgr unlocked, .client mgr .yield] ++
    List.replicate 15 (.tick mgr unlocked)

theorem yield_blocks_woken : ∃ history final,
    (machine 0).Run history final ∧ (∀ taken ∈ history, orderly taken.1 taken.2) ∧
      final.exec 0 = .thread 0 ∧ final.fiberState (.thread 0) = .running ∧
      returns (.thread 0) history = 1 ∧ wakes (.thread 0) history = 1 := by
  have checked : ((machine 0).exec (init 0) (woken 0)).any
      (fun final => decide (final.pc 0 = .run ∧ final.exec 0 = .thread 0)) := by
    decide +kernel
  obtain ⟨final, run, reached⟩ := Machine.run_of_check rfl checked
  obtain ⟨point, exec⟩ := of_decide_eq_true reached
  have ordered : ∀ taken ∈ (machine 0).trail (init 0) (woken 0), orderly taken.1 taken.2 :=
    List.all_eq_true.mp (by decide +kernel)
  have running := ((yield_blocks run ordered).1 0 point).1
  exact ⟨_, final, run, ordered, exec, exec ▸ running, by decide +kernel, by decide +kernel⟩

/-- The main thread parks, finds fiber 1 to run and is turned back at the gate
because the lock is in use. -/
def refused (mgr : Fin 1) : List (Action (Fin 1)) :=
  [.client mgr (.create 1), .client mgr (.park .mpmcToPush 7), .tick mgr unlocked,
    .tick mgr unlocked, .tick mgr lockInUse, .tick mgr unlocked]

theorem yield_blocks_refused : ∃ history final,
    (machine 0).Run history final ∧ final.pc 0 = .run ∧ final.exec 0 = .thread 0 ∧
      final.fiberState (.thread 0) = .waiting ∧ final.stack (.thread 0) = [] ∧
      returns (.thread 0) history = 1 ∧ wakes (.thread 0) history = 0 := by
  have checked : ((machine 0).exec (init 0) (refused 0)).any (fun final => decide
      (final.pc 0 = .run ∧ final.exec 0 = .thread 0 ∧ final.fiberState (.thread 0) = .waiting ∧
        final.stack (.thread 0) = [])) := by
    decide +kernel
  obtain ⟨final, run, reached⟩ := Machine.run_of_check rfl checked
  obtain ⟨point, exec, parked, back⟩ := of_decide_eq_true reached
  exact ⟨_, final, run, point, exec, parked, back, by decide +kernel, by decide +kernel⟩

end LibFiber.Runtime
