import LibFiber.Runtime.Balancing
import LibFiber.Runtime.Calls
import LibFiber.Runtime.Switching

namespace LibFiber.Runtime

open Data Semantics Function

attribute [local grind =] Function.update_apply

variable {Mgr : Type} [DecidableEq Mgr] {state : State Mgr}
variable {place : Fiber Mgr → Place Mgr} {mgr : Mgr}
variable {visits : Mgr → List (Mgr × Bool)}

/-! Runs in which every step is orderly. -/

/-- Whether a call makes its caller wait. -/
def Op.waits (state : State Mgr) : Op → Bool
  | .wait _ | .waitAndUnlock _ _ | .park _ _ => true
  | .lock mutex => state.counter mutex - 1 ≠ 0
  | .yield | .wake _ _ | .take _ | .clear _ | .unlock _ | .create _ | .finish => false

def isPark (fiber : Fiber Mgr) (state : State Mgr) : Action Mgr → Bool
  | .client mgr op => state.exec mgr = fiber && op.waits state
  | .tick _ _ => false

/-- The step in which a waker schedules `fiber`, which it took out of its wait
structure. -/
def isWake (fiber : Fiber Mgr) (state : State Mgr) : Action Mgr → Bool
  | .client _ _ => false
  | .tick mgr _ => (state.pc mgr).claimed = some fiber

/-- A step keeps the invariant, with every wait and every wake-up accounted for
by the places it moves fibers to. -/
def Accounts (state : State Mgr) (place : Fiber Mgr → Place Mgr) (action : Action Mgr)
    (after : State Mgr) : Prop :=
  ∃ moved, Invariant after moved ∧ ∀ fiber, (isPark fiber state action).toNat + (place fiber).owed =
      (isWake fiber state action).toNat + (moved fiber).owed

theorem Keeps.accounts (keeps : Keeps after place)
    (quiet : ∀ fiber, isPark fiber state action = false ∧ isWake fiber state action = false) :
    Accounts state place action after := by
  obtain ⟨moved, invariant, owed⟩ := keeps
  refine ⟨moved, invariant, fun fiber => ?_⟩
  rw [(quiet fiber).1, (quiet fiber).2, owed fiber]

theorem parked_accounts (invariant : Invariant after (update place (state.exec mgr) target))
    (there : place (state.exec mgr) = .on mgr) (waits : op.waits state)
    (owed : target.owed = 1) : Accounts state place (.client mgr op) after := by
  have unowed : (place (state.exec mgr)).owed = 0 := by
    rw [there]
    rfl
  refine ⟨_, invariant, fun fiber => ?_⟩
  by_cases same : fiber = state.exec mgr
  · subst same
    simp [isPark, isWake, waits, unowed, owed]
  · simp [isPark, isWake, Ne.symm same, same]

section

variable (invariant : Invariant state place)
include invariant

theorem own_accounts (point : state.pc mgr = .run) (idle : state.stack (state.exec mgr) = [])
    (own : ∀ wait, op ≠ .take wait) (called : call state mgr op = some after) :
    Accounts state place (.client mgr op) after := by
  obtain ⟨there, onCurrent⟩ := invariant.sound point
  have returns := congrArg Pc.returns point
  have vacant := slots_eq_none invariant point idle
  have quiet : op.waits state = false → ∀ fiber, isPark fiber state (.client mgr op) = false ∧
      isWake fiber state (.client mgr op) = false := by
    intro goesOn fiber
    simp [isPark, isWake, goesOn]
  cases op with
  | take wait => exact absurd rfl (own wait)
  | yield =>
    cases called
    exact (callYield_invariant invariant point (idle ▸ .nil) (by simp [idle])).keeps.accounts
      (quiet rfl)
  | wait queue =>
    cases called
    exact parked_accounts
      (wait_invariant invariant point idle (fun _ _ _ => rfl) (by simp [vacant])) there rfl rfl
  | waitAndUnlock queue mutex =>
    cases called
    exact parked_accounts
      (wait_invariant invariant point idle (by grind) (by grind)) there rfl rfl
  | park slot object =>
    simp only [call, Option.map_eq_some_iff] at called
    obtain ⟨wait, published, rfl⟩ := called
    refine parked_accounts (park_invariant invariant point idle (.inl ⟨rfl, rfl, ?_⟩)) there rfl ?_
    all_goals cases slot <;> simp_all [Slot.wait, Place.owed]
  | wake queue count =>
    cases called
    refine Keeps.accounts (Invariant.keeps ?_) (quiet rfl)
    refine invariant.retop returns there (.inl (idle ▸ .wakeLoop queue count 0)) ?_
    constructor <;> grind
  | clear address =>
    cases called
    refine Keeps.accounts (Invariant.keeps ?_) (quiet rfl)
    refine invariant.retop returns there (.inl (idle ▸ .clearLoop address)) ?_
    constructor <;> grind
  | lock mutex =>
    cases called
    have locked := recount_invariant invariant point (by simp [idle])
      (update state.counter mutex (state.counter mutex - 1))
    split
    case isTrue free => exact locked.keeps.accounts (quiet (by simp [Op.waits, free]))
    case isFalse held =>
      exact parked_accounts
        (wait_invariant locked point idle (fun _ _ _ => rfl) (by simp [vacant])) there
        (by simpa [Op.waits] using held) rfl
  | unlock mutex =>
    cases called
    exact (unlock_invariant mutex invariant point (idle ▸ .wakeLoop mutex 1 0)).keeps.accounts
      (quiet rfl)
  | create id =>
    simp only [call, Option.ite_none_left_eq_some, Option.some.injEq] at called
    obtain ⟨dead, rfl⟩ := called
    have dead : state.live (.user id) = false := by simpa using dead
    have absent : place (.user id) = .absent := invariant.placed.place_eq dead
    exact Keeps.accounts ⟨_, create_invariant invariant point dead, by grind⟩ (quiet rfl)
  | finish =>
    cases user : state.exec mgr with
    | user id =>
      simp only [call, user, Option.some.injEq] at called
      rw [← user] at called
      subst called
      exact Keeps.accounts ⟨_, park_invariant invariant point idle (.inr ⟨rfl, rfl, rfl⟩), by grind⟩
        (quiet rfl)
    | _ => simp [call, user] at called

theorem take_accounts
    (point : state.pc mgr = .run) (called : call state mgr (.take wait) = some after) :
    Accounts state place (.client mgr (.take wait)) after := by
  cases waiters : state.waiters wait with
  | nil => simp [call, take, waiters] at called
  | cons fiber rest =>
    simp only [call, take, waiters] at called
    cases called
    have held : place fiber = .waiting wait :=
      invariant.placed.place_eq (by simp [State.Holds, waiters])
    exact Keeps.accounts ⟨_, pop_invariant invariant point waiters, by grind⟩
      (by simp [isPark, isWake, Op.waits])

theorem tick_accounts (allowed : orderly state (.tick mgr reading))
    (stepped : tick visits state mgr reading = some after) :
    Accounts state place (.tick mgr reading) after := by
  have quiet {now : Pc Mgr} (at' : state.pc mgr = now) (unclaimed : now.claimed = none) :
      ∀ fiber, isPark fiber state (.tick mgr reading) = false ∧
        isWake fiber state (.tick mgr reading) = false := by
    simp [isPark, isWake, at', unclaimed]
  rw [tick] at stepped
  generalize point : state.pc mgr = now at stepped
  cases now with
  | run =>
    dsimp only at stepped
    exact (resumeTop_keeps invariant point stepped).accounts (quiet point rfl)
  | publish queue =>
    cases stepped
    have entering : place (state.exec mgr) = .entering mgr :=
      invariant.placed.place_eq ⟨rfl, by simp [point, Pc.enters]⟩
    exact Keeps.accounts ⟨_, publish_invariant invariant point, by grind⟩
      (quiet point rfl)
  | yield current =>
    cases stepped
    exact (yield_invariant invariant point).keeps.accounts (quiet point rfl)
  | scan own caller =>
    cases stepped
    exact (scan_keeps invariant point).accounts (quiet point rfl)
  | test own caller fiber =>
    dsimp only at stepped
    refine (test_keeps invariant point ?_ stepped).accounts (quiet point rfl)
    cases caller with
    | thread => simp
    | yield current st => simpa [orderly, point] using allowed
  | switch own old new =>
    cases stepped
    refine Keeps.accounts ⟨_, switchTo_invariant invariant point, fun fiber => ?_⟩
      (quiet point rfl)
    have there := invariant.placed fiber (.on mgr)
    grind [departed]
  | swap old new =>
    cases stepped
    have held : place new = .hand mgr :=
      invariant.placed.place_eq (by simp [State.Holds, point, Pc.hand])
    exact Keeps.accounts ⟨_, swap_invariant invariant point, by grind⟩
      (quiet point rfl)
  | balance own caller loop =>
    cases stepped
    exact (visit_invariant invariant point).keeps.accounts (quiet point rfl)
  | steal own caller loop =>
    cases stepped
    refine (steal_keeps invariant point ?_).accounts (quiet point rfl)
    intro fiber stolen
    simpa [orderly, point, stolen] using allowed
  | stash own caller loop fiber =>
    cases stepped
    exact (stash_keeps invariant point).accounts (quiet point rfl)
  | claim wait fiber =>
    cases stepped
    have claimed : (state.pc mgr).claimed = some fiber := by simp [point, Pc.claimed]
    have held : place fiber = .claimed mgr := invariant.placed.place_eq claimed
    refine ⟨_, claim_invariant invariant point, fun other => ?_⟩
    by_cases same : other = fiber <;> grind [isPark, isWake]

theorem step_accounts (allowed : orderly state action)
    (stepped : step visits state action = some after) : Accounts state place action after := by
  cases action with
  | tick mgr reading => exact tick_accounts invariant allowed stepped
  | client mgr op =>
    obtain ⟨⟨point, enabled⟩, called⟩ := Option.ite_none_right_eq_some.mp stepped
    cases op with
    | take wait => exact take_accounts invariant point called
    | _ => exact own_accounts invariant point (by simpa [Op.enabled] using enabled) (by simp) called

end

theorem trySteal_frame (visits : Mgr → List (Mgr × Bool)) (state : State Mgr) (mgr own : Mgr)
    (caller : Caller Mgr) : (trySteal visits state mgr own caller).stack = state.stack ∧
      (trySteal visits state mgr own caller).slots = state.slots := by
  unfold trySteal
  split <;> exact ⟨rfl, rfl⟩

/-- Inside a call, up to the switch, the stacks and fields are left as they
are, but for the retreat to a maintenance fiber. -/
theorem tick_frame (inside : state.pc mgr ≠ .run)
    (unretreated : ∀ own caller, state.pc mgr ≠ .scan own caller)
    (unswitched : ∀ own old new, state.pc mgr ≠ .switch own old new)
    (unswapped : ∀ old new, state.pc mgr ≠ .swap old new)
    (stepped : tick visits state mgr reading = some after) :
    after.stack = state.stack ∧ after.slots = state.slots := by
  rw [tick] at stepped
  generalize point : state.pc mgr = now at stepped
  cases now with
  | run => exact absurd point inside
  | scan own caller => exact absurd point (unretreated own caller)
  | switch own old new => exact absurd point (unswitched own old new)
  | swap old new => exact absurd point (unswapped old new)
  | test own caller found =>
    simp only [test] at stepped
    split at stepped
    · cases stepped
      exact ⟨rfl, rfl⟩
    · cases caller with
      | thread =>
        obtain ⟨maintenance, _, rfl⟩ := Option.map_eq_some_iff.mp stepped
        exact ⟨rfl, rfl⟩
      | yield current st =>
        simp only at stepped
        split at stepped
        · cases stepped
          exact ⟨rfl, rfl⟩
        · cases stepped
          exact trySteal_frame _ _ _ _ _
  | balance own caller loop =>
    simp only [visit] at stepped
    cases stepped
    split
    · exact ⟨rfl, rfl⟩
    · split <;> exact ⟨rfl, rfl⟩
  | steal own caller loop =>
    simp only [steal] at stepped
    cases stepped
    split
    · exact ⟨rfl, rfl⟩
    · split
      · split <;> exact ⟨rfl, rfl⟩
      · exact ⟨rfl, rfl⟩
  | _ =>
    cases stepped
    exact ⟨rfl, rfl⟩

/-- The places after `fiber_manager_init`: every thread is on its own fiber. -/
def Fiber.home : Fiber Mgr → Place Mgr
  | .thread mgr => .on mgr
  | .maintenance _ | .user _ => .absent

theorem init_tied (tie : (init main).Tied mgr fiber) :
    fiber = .thread mgr := by
  obtain same | ⟨head, _⟩ := tie
  · exact same.symm
  · simp only [init] at head
    split at head <;> simp at head

theorem init_invariant (main : Mgr) : Invariant (init main) Fiber.home := by
  constructor
  · intro fiber spot
    cases spot <;> cases fiber <;>
      simp [State.Holds, init, Fiber.home, Pc.hand, Pc.claimed, Pc.enters, eq_comm]
  · intro mgr
    simp [init]
  · intro wait
    simp [init]
  · intro left right fiber tiedLeft tiedRight
    simpa [init_tied tiedLeft] using init_tied tiedRight
  · intro fiber
    cases fiber with
    | thread own =>
      have stack : (init main).stack (.thread own) =
          if own = main then [] else [.threadLoop own] := rfl
      constructor
      · left
        rw [stack]
        split
        · exact .nil
        · exact .threadLoop own
      all_goals grind [init, Fiber.home]
    | _ =>
      constructor
      · exact .inl .nil
      all_goals simp [init, Fiber.home, Place.owed]
  · intro own
    constructor
    · intro fiber tie
      simp [init_tied tie, Fiber.home]
    · intro fiber tie
      obtain rfl := init_tied tie
      grind [init]
    · simp [init]
    · simp [init]
    · grind [init]
    · simp [init]
    · simp [init, State.Sound, Fiber.home]

def parks (fiber : Fiber Mgr) (history : List (State Mgr × Action Mgr)) : Nat :=
  history.countP fun taken => isPark fiber taken.1 taken.2

def wakes (fiber : Fiber Mgr) (history : List (State Mgr × Action Mgr)) : Nat :=
  history.countP fun taken => isWake fiber taken.1 taken.2

theorem run_accounts {n : Nat} {history : List (State (Fin (n + 1)) × Action (Fin (n + 1)))}
    {state : State (Fin (n + 1))} (run : (machine n).Run history state)
    (ordered : ∀ taken ∈ history, orderly taken.1 taken.2) :
    ∃ place, Invariant state place ∧
      ∀ fiber, parks fiber history = wakes fiber history + (place fiber).owed := by
  apply Machine.Run.invariant_of_allowed (fun state action => orderly state action)
    _ _ _ run ordered
  · rintro state rfl
    refine ⟨_, init_invariant 0, fun fiber => ?_⟩
    cases fiber <;> rfl
  · rintro history before action after _ ⟨place, invariant, balance⟩ allowed stepped
    obtain ⟨moved, kept, accounts⟩ := step_accounts invariant allowed stepped
    refine ⟨moved, kept, fun fiber => ?_⟩
    have earlier := balance fiber
    have now := accounts fiber
    simp only [parks, wakes, countP_snoc] at earlier ⊢
    omega

end LibFiber.Runtime
