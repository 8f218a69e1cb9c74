import LibFiber.Gate.Machine

namespace LibFiber.Gate

open Semantics Function
open LibFiber.Runtime (Fiber Op Reading Caller Pc Control Steps)

/-! Who is banned is not switched to, as far as the managers look. -/

section Takings

variable {Mgr : Type} [DecidableEq Mgr]

/-- What a manager's last search of its queues has found, with the ban that the
fiber had then. -/
def record (taken : Mgr → Option (Fiber Mgr × Timeval)) (made : State Mgr × Action Mgr) :
    Mgr → Option (Fiber Mgr × Timeval) :=
  match made.2 with
  | .tick mgr _ =>
    match made.1.core.pc mgr with
    | .scan own _ =>
      update taken mgr (((made.1.core.scheduler own).popBottom).map fun popped =>
        (popped.1, (made.1.stats popped.1).bannedUntil))
    | _ => taken
  | _ => taken

def taken (history : List (State Mgr × Action Mgr)) : Mgr → Option (Fiber Mgr × Timeval) :=
  history.foldl record fun _ => none

theorem taken_snoc (history : List (State Mgr × Action Mgr)) (made : State Mgr × Action Mgr) :
    taken (history ++ [made]) = record (taken history) made := by
  simp [taken, List.foldl_append]

/-- The maintenance loop takes no fiber that is banned, and the ban of a fiber that a
yield has taken is not brought forward before the yield has tested it. -/
def careful {n : Nat} (state : State (Fin (n + 1))) : Action (Fin (n + 1)) → Bool
  | .client _ (.create id) => decide (∀ mgr, state.tested mgr ≠ some (.user id))
  | .setLockStats fiber (some bannedUntil) _ =>
    decide (∀ mgr, state.tested mgr = some fiber →
      timercmp (state.stats fiber).bannedUntil bannedUntil = false)
  | .tick mgr _ =>
    match state.core.pc mgr with
    | .scan own .thread =>
      match (state.core.scheduler own).popBottom with
      | some (fiber, _) => timercmp state.clock (state.stats fiber).bannedUntil
      | none => true
    | _ => true
  | _ => true

/-- What a manager knows of the ban that the fiber in its hand had when it was
taken. -/
def Served (clock : Timeval) (stats : Fiber Mgr → LockStats)
    (taken : Option (Fiber Mgr × Timeval)) : Pc Mgr → Prop
  | .test _ .thread fiber => ∃ ban, taken = some (fiber, ban) ∧ ban.stamp < clock.stamp
  | .test _ (.yield _ _) fiber =>
    ∃ ban, taken = some (fiber, ban) ∧ ban.stamp ≤ (stats fiber).bannedUntil.stamp
  | .switch _ _ new => ∀ fiber ban, taken = some (fiber, ban) →
      new = fiber ∧ ban.stamp < clock.stamp
  | _ => True

variable {taken : Mgr → Option (Fiber Mgr × Timeval)}

theorem Served.of_uncommitted (free : pc.committed = false) : Served clock stats found pc := by
  cases pc with
  | test | switch => simp [Pc.committed] at free
  | _ => trivial

theorem Served.weaken (served : Served clock stats found pc) (forward : clock.stamp ≤ later.stamp)
    (raised : ∀ own current st fiber, pc = .test own (.yield current st) fiber →
      (stats fiber).bannedUntil.stamp ≤ (other fiber).bannedUntil.stamp) :
    Served later other found pc := by
  cases pc with
  | test own caller fiber =>
    cases caller with
    | thread =>
      obtain ⟨ban, taken, ended⟩ := served
      exact ⟨ban, taken, ended.trans_le forward⟩
    | yield current st =>
      obtain ⟨ban, taken, lower⟩ := served
      exact ⟨ban, taken, lower.trans (raised own current st fiber rfl)⟩
  | switch own old new =>
    intro fiber ban taken
    obtain ⟨same, ended⟩ := served fiber ban taken
    exact ⟨same, ended.trans_le forward⟩
  | _ => trivial

theorem record_scan (point : state.core.pc mgr = .scan own caller) :
    record taken (state, .tick mgr contended) mgr =
      ((state.core.scheduler own).popBottom).map fun popped =>
        (popped.1, (state.stats popped.1).bannedUntil) := by
  simp [record, point]

theorem record_test (point : state.core.pc mgr = .test own caller fiber) :
    record taken (state, .tick mgr contended) = taken := by
  simp [record, point]

theorem record_of_ne {other : Mgr} (different : other ≠ mgr) :
    record taken (state, .tick mgr contended) other = taken other := by
  simp only [record]
  cases state.core.pc mgr with
  | scan own caller => exact update_of_ne different _ _
  | _ => rfl

end Takings

section Runs

def Sound (state : State (Fin (n + 1)))
    (taken : Fin (n + 1) → Option (Fiber (Fin (n + 1)) × Timeval)) : Prop :=
  ∀ mgr, Served state.clock state.stats (taken mgr) (state.core.pc mgr)

variable {state : State (Fin (n + 1))}
variable {found : Fin (n + 1) → Option (Fiber (Fin (n + 1)) × Timeval)}

theorem Served.control (served : Served state.clock state.stats (found mgr) (state.core.pc mgr))
    (allowed : careful state (.tick mgr contended))
    (control : Control state.core mgr (state.reading mgr contended) pc) :
    Served state.clock state.stats (record found (state, .tick mgr contended) mgr) pc := by
  cases control with
  | @take own caller fiber rest point popped =>
    rw [record_scan point, popped]
    cases caller with
    | thread =>
      have ended : timercmp state.clock (state.stats fiber).bannedUntil := by
        simpa only [careful, point, popped] using allowed
      exact ⟨_, rfl, timercmp_iff.mp ended⟩
    | yield current st => exact ⟨_, rfl, Nat.le_refl _⟩
  | retreat point popped =>
    rw [record_scan point, popped]
    intro fiber ban taken
    cases taken
  | @pass own current st fiber point saved opens =>
    rw [record_test point]
    rw [point] at served
    obtain ⟨ban, taken, lower⟩ := served
    intro other stamp same
    obtain ⟨rfl, rfl⟩ : fiber = other ∧ ban = stamp := by simpa [taken] using same
    refine ⟨rfl, lower.trans_lt ?_⟩
    have tested : state.tested mgr = some fiber := by simp [State.tested, point]
    rw [State.reading_opens tested saved] at opens
    simp only [State.passes, State.asks, tested, Bool.and_eq_true] at opens
    exact timercmp_iff.mp opens.1.2
  | @resume own fiber maintenance point =>
    rw [record_test point]
    rw [point] at served
    obtain ⟨ban, taken, ended⟩ := served
    intro other stamp same
    obtain ⟨rfl, rfl⟩ : fiber = other ∧ ban = stamp := by simpa [taken] using same
    exact ⟨rfl, ended⟩
  | elsewhere free => exact .of_uncommitted free

theorem Served.call
    (steps : ∀ reading, Steps before mgr reading core) (point : before.pc mgr = .run) :
    Served clock stats (found mgr) (core.pc mgr) := by
  have control := (steps ⟨0, 0, 0, false⟩).control
  generalize core.pc mgr = pc at control
  cases control with
  | take busy | retreat busy | pass busy | resume busy =>
    rw [point] at busy
    cases busy
  | elsewhere free => exact .of_uncommitted free

theorem tested_of_test (point : state.core.pc mgr = .test own (.yield current st) fiber) :
    state.tested mgr = some fiber := by
  simp [State.tested, point]

theorem Sound.step (sound : Sound state found) (allowed : careful state action)
    (moved : Move (Runtime.visits n) state action after) :
    Sound after (record found (state, action)) := by
  intro other
  cases moved with
  | @client mgr core op point steps =>
    by_cases same : other = mgr
    · subst same
      exact Served.call steps point
    · have unmoved := (steps ⟨0, 0, 0, false⟩).others other same
      rw [unmoved]
      refine (sound other).weaken (Nat.le_refl _) ?_
      intro own current st fiber busy
      cases op with
      | create id =>
        have apart : state.tested other ≠ some (.user id) := by
          simp only [careful, decide_eq_true_eq] at allowed
          exact allowed other
        rw [tested_of_test busy] at apart
        have distinct : fiber ≠ .user id := fun equal => apart (congrArg some equal)
        simp [createdStats, distinct]
      | _ => exact Nat.le_refl _
  | @tick mgr core contended idle passed steps =>
    by_cases same : other = mgr
    · subst same
      exact (sound other).control allowed steps.control
    · rw [record_of_ne same, steps.others other same]
      exact sound other
  | setLockStatus | addLock | initialise => exact sound other
  | @setLockStats fiber bannedUntil sliceSize =>
    refine (sound other).weaken (Nat.le_refl _) ?_
    intro own current st tested busy
    by_cases same : tested = fiber
    · subst same
      simp only [update_self]
      cases bannedUntil with
      | none => exact Nat.le_refl _
      | some ban =>
        simp only [careful, decide_eq_true_eq] at allowed
        have kept := allowed other (tested_of_test busy)
        refine Nat.not_lt.mp fun lowered => ?_
        rw [timercmp_iff.mpr (show ban.stamp < _ from lowered)] at kept
        cases kept
    · simp only [update_of_ne same, Nat.le_refl]
  | elapse forward => exact (sound other).weaken forward fun _ _ _ _ _ => Nat.le_refl _

theorem run_sound (run : (machine n).Run history state)
    (allowed : ∀ made ∈ history, careful made.1 made.2) : Sound state (taken history) := by
  refine run.invariant_of_allowed (fun state action => careful state action)
    (fun history state => Sound state (taken history)) ?_ ?_ allowed
  · intro state initial mgr
    obtain ⟨main, clock, _, rfl⟩ := initial
    trivial
  · intro history before action after _ sound careful stepped
    rw [taken_snoc]
    exact sound.step careful (step_moves stepped)

/-- A manager that is about to switch to a fiber it has taken out of a run queue
switches to that fiber, and at a time later than the ban that it had when it was
taken. -/
theorem bans_respected {history : List (State (Fin (n + 1)) × Action (Fin (n + 1)))}
    (run : (machine n).Run history state) (allowed : ∀ made ∈ history, careful made.1 made.2)
    {own : Fin (n + 1)} {old new fiber : Fiber (Fin (n + 1))} {ban : Timeval}
    (switching : state.core.pc mgr = .switch own old new)
    (took : taken history mgr = some (fiber, ban)) :
    new = fiber ∧ timercmp state.clock ban := by
  have served := run_sound run allowed mgr
  rw [switching] at served
  obtain ⟨same, ended⟩ := served fiber ban took
  exact ⟨same, timercmp_iff.mpr ended⟩

end Runs

/-- A ban that is over when the main thread's yield takes the fiber. -/
def served (main : Fin 2) : List (Action (Fin 2)) :=
  [.client main (.create 0), .setLockStats (.user 0) (some ⟨7, 0⟩) none, .elapse ⟨7, 1⟩,
    .client main .yield, .tick main false, .tick main false, .tick main false]

theorem bans_respected_served : ∃ history state, (machine 1).Run history state ∧
    state.core.pc 0 = .switch 0 (.thread 0) (.user 0) ∧
      taken history 0 = some (.user 0, ⟨7, 0⟩) ∧ timercmp state.clock ⟨7, 0⟩ := by
  obtain ⟨state, run, checked⟩ := Machine.run_of_check
    (show (machine 1).initial (init 0 ⟨5, 0⟩) from ⟨0, _, rfl, rfl⟩)
    (show ((machine 1).exec (init 0 ⟨5, 0⟩) (served 0)).any (fun state =>
      decide (state.core.pc 0 = .switch 0 (.thread 0) (.user 0))) by decide +kernel)
  have switching := of_decide_eq_true checked
  have took : taken ((machine 1).trail (init 0 ⟨5, 0⟩) (served 0)) 0 =
      some (.user 0, ⟨7, 0⟩) := by decide +kernel
  exact ⟨_, _, run, switching, took, (bans_respected run (by decide +kernel) switching took).2⟩

/-- The other manager's thread steals a fiber that is banned until 100 and is about to
switch to it at 5. -/
theorem bans_respected_stolen : ∃ history state, (machine 1).Run history state ∧
    state.core.pc 1 = .switch 1 (.thread 1) (.user 0) ∧
      ((machine 1).step state (.tick 1 false)).isSome ∧
      taken history 1 = some (.user 0, ⟨100, 0⟩) ∧ timercmp state.clock ⟨100, 0⟩ = false := by
  have run := Machine.run_of_isSome (show (machine 1).initial (init 0 ⟨5, 0⟩) from ⟨0, _, rfl, rfl⟩)
    (show ((machine 1).exec (init 0 ⟨5, 0⟩)
      ([.client 0 (.create 0), .setLockStats (.user 0) (some ⟨100, 0⟩) none] ++
        List.replicate 10 (.tick 1 false))).isSome by decide +kernel)
  exact ⟨_, _, run, by decide +kernel⟩

end LibFiber.Gate
