import LibFiber.Runtime.Control
import Mathlib.Data.BitVec

namespace LibFiber.Gate

open Semantics Function
open LibFiber.Runtime (Fiber Op Reading Caller Pc Control Steps)

/-! The gate of `fiber_manager_yield` with what it reads: the clock, the lock
statistics of the fiber taken, and `lock_using`.

The scheduling core takes these as readings from outside.  Here they are part
of the state, and `set_lock_status` is a step of its own between the test and
the switch.
-/

/-- `struct timeval`, with the kernel's 64-bit signed fields. -/
structure Timeval where
  sec : BitVec 64
  usec : BitVec 64
deriving DecidableEq, Repr

/-- `timercmp(a, b, >)` -/
def timercmp (a b : Timeval) : Bool :=
  if a.sec = b.sec then b.usec.slt a.usec else b.sec.slt a.sec

/-- The position of a time in the order of `timercmp`. -/
def Timeval.stamp (time : Timeval) : Nat :=
  (time.sec.toInt + 0x8000000000000000).toNat * 0x10000000000000000 +
    (time.usec.toInt + 0x8000000000000000).toNat

theorem toInt_bounds (word : BitVec 64) :
    -0x8000000000000000 ≤ word.toInt ∧ word.toInt < 0x8000000000000000 :=
  ⟨by simpa using word.le_toInt, by simpa using word.toInt_lt⟩

theorem timercmp_iff : timercmp a b ↔ b.stamp < a.stamp := by
  have sec := toInt_bounds a.sec
  have sec' := toInt_bounds b.sec
  have usec := toInt_bounds a.usec
  have usec' := toInt_bounds b.usec
  unfold timercmp Timeval.stamp
  split
  · rename_i same
    rw [BitVec.slt_iff_toInt_lt, same]
    omega
  · rename_i different
    have apart : a.sec.toInt ≠ b.sec.toInt := fun same => different (BitVec.eq_of_toInt_eq same)
    rw [BitVec.slt_iff_toInt_lt]
    omega

structure LockStats where
  bannedUntil : Timeval
  sliceSize : Timeval
deriving DecidableEq, Repr

/-- As `fiber_create` and `fiber_create_from_thread` leave them. -/
def LockStats.fresh : LockStats := ⟨⟨0, 0⟩, ⟨0, 2⟩⟩

structure State (Mgr : Type) where
  core : Runtime.State Mgr
  clock : Timeval
  stats : Fiber Mgr → LockStats
  lockUsing : Int
  /-- `add_lock` ends with a second `fiber_rwlock_wrlock` in place of the unlock, so
  that the lock is never free again. -/
  held : Bool
  /-- In `add_lock`, behind its reading of a negative `lock_using`. -/
  adding : Mgr → Bool
  /-- Behind a test that succeeded, before `set_lock_status`. -/
  setting : Mgr → Bool
  /-- The fiber for which `set_lock_status` was called last.  Nothing reads this
  field. -/
  lockedFor : Option (Fiber Mgr)

inductive Action (Mgr : Type) where
  | client (mgr : Mgr) (op : Op)
  | tick (mgr : Mgr) (contended : Bool)
  | setLockStatus (mgr : Mgr)
  /-- `add_lock` up to its test. -/
  | addLock (mgr : Mgr)
  /-- The rest of `add_lock`. -/
  | initialise (mgr : Mgr)
  | setLockStats (fiber : Fiber Mgr) (bannedUntil sliceSize : Option Timeval)
  /-- The clock advances. -/
  | elapse (now : Timeval)
deriving DecidableEq, Repr

variable {Mgr : Type} [DecidableEq Mgr]
variable {state : State Mgr}

/-- The fiber that a yield has taken and not tested yet. -/
def State.tested (state : State Mgr) (mgr : Mgr) : Option (Fiber Mgr) :=
  match state.core.pc mgr with
  | .test _ (.yield _ _) fiber => some fiber
  | _ => none

/-- What `fiber_manager_yield` finds when it tests the fiber it has taken. -/
def State.reading (state : State Mgr) (mgr : Mgr) (contended : Bool) : Reading where
  now := state.clock.stamp
  bannedUntil :=
    match state.tested mgr with
    | some fiber => (state.stats fiber).bannedUntil.stamp
    | none => 0
  lockUsing := state.lockUsing
  contended := contended

/-- The next step of the manager calls `is_lock_using`. -/
def State.asks (state : State Mgr) (mgr : Mgr) : Bool :=
  match state.tested mgr with
  | some fiber =>
    decide (state.core.fiberState fiber ≠ .saving) &&
      timercmp state.clock (state.stats fiber).bannedUntil
  | none => false

/-- The test of the gate succeeds. -/
def State.passes (state : State Mgr) (mgr : Mgr) : Bool :=
  state.asks mgr && decide (state.lockUsing ≠ 1)

/-- The fiber that the manager is about to switch to. -/
def State.target (state : State Mgr) (mgr : Mgr) : Option (Fiber Mgr) :=
  match state.core.pc mgr with
  | .switch _ _ new => some new
  | _ => none

/-- A new fiber has fresh statistics. -/
def createdStats (stats : Fiber Mgr → LockStats) : Op → Fiber Mgr → LockStats
  | .create id => update stats (.user id) .fresh
  | _ => stats

def LockStats.set (stats : LockStats) (bannedUntil sliceSize : Option Timeval) : LockStats where
  bannedUntil := bannedUntil.getD stats.bannedUntil
  sliceSize := sliceSize.getD stats.sliceSize

/-- A manager that has passed the gate calls `set_lock_status` before it
switches.  Who needs the lock that `add_lock` has kept waits for ever. -/
def step (visits : Mgr → List (Mgr × Bool)) (state : State Mgr) :
    Action Mgr → Option (State Mgr)
  | .client mgr op =>
    if state.adding mgr = true then none
    else
      (Runtime.step visits state.core (.client mgr op)).map fun core =>
        { state with core, stats := createdStats state.stats op }
  | .tick mgr contended =>
    if state.setting mgr ∨ (state.asks mgr ∧ state.held) then none
    else
      (Runtime.step visits state.core (.tick mgr (state.reading mgr contended))).map fun core =>
        { state with core, setting := update state.setting mgr (state.passes mgr) }
  | .setLockStatus mgr =>
    if state.setting mgr ∧ state.held = false then
      some { state with
        lockUsing := 1
        setting := update state.setting mgr false
        lockedFor := state.target mgr }
    else none
  | .addLock mgr =>
    if state.core.pc mgr = .run ∧ state.core.stack (state.core.exec mgr) = [] ∧
        state.adding mgr = false ∧ state.held = false then
      some { state with adding := update state.adding mgr (decide (state.lockUsing < 0)) }
    else none
  | .initialise mgr =>
    if state.adding mgr ∧ state.held = false then
      some { state with lockUsing := 0, held := true, adding := update state.adding mgr false }
    else none
  | .setLockStats fiber bannedUntil sliceSize =>
    if state.core.live fiber = true then
      some { state with
        stats := update state.stats fiber ((state.stats fiber).set bannedUntil sliceSize) }
    else none
  | .elapse now =>
    if timercmp state.clock now = true then none else some { state with clock := now }

/-- After `fiber_manager_init`, with `init_scheduler_lock_data`; at any time. -/
def init (main : Mgr) (clock : Timeval) : State Mgr where
  core := Runtime.init main
  clock := clock
  stats := fun _ => .fresh
  lockUsing := -1
  held := false
  adding := fun _ => false
  setting := fun _ => false
  lockedFor := none

def machine (n : Nat) : Machine (State (Fin (n + 1))) (Action (Fin (n + 1))) where
  initial state := ∃ main clock, main.val = 0 ∧ state = init main clock
  step := step (Runtime.visits n)

omit [DecidableEq Mgr] in
theorem State.reading_opens
    (tested : state.tested mgr = some fiber) (saved : state.core.fiberState fiber ≠ .saving) :
    (state.reading mgr contended).opens = state.passes mgr := by
  rw [Bool.eq_iff_iff]
  simp [Reading.opens, State.reading, State.passes, State.asks, tested, saved, timercmp_iff]

theorem State.target_of_passes {visits : Mgr → List (Mgr × Bool)} {mgr : Mgr}
    {contended : Bool} {core : Runtime.State Mgr} (passes : state.passes mgr)
    (ticked : Runtime.tick visits state.core mgr (state.reading mgr contended) = some core) :
    ∃ own old new, core.pc mgr = .switch own old new := by
  cases point : state.core.pc mgr with
  | test own caller fiber =>
    cases caller with
    | thread => simp [State.passes, State.asks, State.tested, point] at passes
    | yield current st =>
      have tested : state.tested mgr = some fiber := by simp [State.tested, point]
      have saved : state.core.fiberState fiber ≠ .saving := by
        intro saving
        simp [State.passes, State.asks, tested, saving] at passes
      rw [← State.reading_opens tested saved] at passes
      exact ⟨own, current, fiber, Runtime.tick_pass point saved passes ticked⟩
  | _ => simp [State.passes, State.asks, State.tested, point] at passes

inductive Move (visits : Mgr → List (Mgr × Bool)) (state : State Mgr) :
    Action Mgr → State Mgr → Prop where
  | client : state.core.pc mgr = .run →
      (∀ reading, Steps state.core mgr reading core) →
      Move visits state (.client mgr op) { state with core, stats := createdStats state.stats op }
  | tick : state.setting mgr = false →
      (state.passes mgr → ∃ own old new, core.pc mgr = .switch own old new) →
      Steps state.core mgr (state.reading mgr contended) core →
      Move visits state (.tick mgr contended)
        { state with core, setting := update state.setting mgr (state.passes mgr) }
  | setLockStatus : state.setting mgr →
      Move visits state (.setLockStatus mgr)
        { state with
          lockUsing := 1
          setting := update state.setting mgr false
          lockedFor := state.target mgr }
  | addLock : Move visits state (.addLock mgr)
        { state with adding := update state.adding mgr (decide (state.lockUsing < 0)) }
  | initialise : Move visits state (.initialise mgr)
        { state with lockUsing := 0, held := true, adding := update state.adding mgr false }
  | setLockStats : Move visits state (.setLockStats fiber bannedUntil sliceSize)
        { state with
          stats := update state.stats fiber ((state.stats fiber).set bannedUntil sliceSize) }
  | elapse : state.clock.stamp ≤ now.stamp →
      Move visits state (.elapse now) { state with clock := now }

theorem step_moves {visits : Mgr → List (Mgr × Bool)} {after : State Mgr}
    {action : Action Mgr} (stepped : step visits state action = some after) :
    Move visits state action after := by
  cases action with
  | client mgr op =>
    obtain ⟨_, stepped⟩ := Option.ite_none_left_eq_some.mp stepped
    obtain ⟨core, called, rfl⟩ := Option.map_eq_some_iff.mp stepped
    obtain ⟨⟨point, _⟩, called⟩ := Option.ite_none_right_eq_some.mp called
    exact .client point fun reading => Runtime.call_steps point called
  | tick mgr contended =>
    obtain ⟨enabled, stepped⟩ := Option.ite_none_left_eq_some.mp stepped
    obtain ⟨core, ticked, rfl⟩ := Option.map_eq_some_iff.mp stepped
    have idle : state.setting mgr = false := Bool.not_eq_true _ ▸ fun set => enabled (.inl set)
    exact .tick idle (fun passes => State.target_of_passes passes ticked)
      (Runtime.tick_steps ticked)
  | setLockStatus | addLock | initialise | setLockStats =>
    obtain ⟨enabled, ⟨⟩⟩ := Option.ite_none_right_eq_some.mp stepped
    grind [Move]
  | elapse now =>
    obtain ⟨forward, ⟨⟩⟩ := Option.ite_none_left_eq_some.mp stepped
    exact .elapse (Nat.not_lt.mp fun backward => forward (timercmp_iff.mpr backward))

end LibFiber.Gate
