import LibFiber.Data.LinkedFifo
import LibFiber.Data.MachineInt
import LibFiber.Data.Total
import LibFiber.Semantics.Machine

namespace LibFiber.Mutex

open Data Semantics Function

/-! The fiber mutex: one `int` counter and an mpsc queue of waiters.

A fiber that decrements the counter below zero has entered before it is in the
queue: it pushes itself (exchange, then link) and takes no further step until
an unlocker pops it.
-/

inductive Phase where
  | outside
  | pushing
  | linking
  | parked
  | owning
deriving DecidableEq, Repr

/-- `waking agent` counts the wake loops that `agent` is running on behalf of
an unlock.  The agent is not always the fiber that owned the mutex: a deferred
unlock runs inside the maintenance of the fiber switched to. -/
structure State (Fiber : Type) where
  counter : Int
  waiters : LinkedFifo Fiber
  phase : Fiber → Phase
  waking : Fiber → Nat

inductive Action (Fiber : Type) where
  | lock (fiber : Fiber)
  | trylock (fiber : Fiber) (spurious : Bool)
  | exchange (fiber : Fiber)
  | link (fiber : Fiber)
  | unlockInternal (owner agent : Fiber)
  | trypop (agent : Fiber)
deriving DecidableEq, Repr

variable {Fiber : Type} [DecidableEq Fiber]

def init : State Fiber where
  counter := 1
  waiters := .empty
  phase := fun _ => .outside
  waking := fun _ => 0

def lock (state : State Fiber) (fiber : Fiber) : State Fiber :=
  let val := int32 (state.counter - 1)
  { state with
    counter := val
    phase := update state.phase fiber (if val = 0 then .owning else .pushing) }

def trylock (state : State Fiber) (fiber : Fiber) (spurious : Bool) : State Fiber :=
  if state.counter = 1 ∧ spurious = false then
    { state with counter := 0, phase := update state.phase fiber .owning }
  else state

def unlockInternal (state : State Fiber) (owner agent : Fiber) : State Fiber :=
  let newVal := int32 (state.counter + 1)
  { state with
    counter := newVal
    phase := update state.phase owner .outside
    waking := if newVal ≠ 1 then update state.waking agent (state.waking agent + 1)
      else state.waking }

/-- One round of the wake loop with count one.  The popped fiber owns the mutex
from here on; an unlinked front makes the agent yield and try again. -/
def trypop (state : State Fiber) (agent : Fiber) : State Fiber :=
  match state.waiters.trypop with
  | some (fiber, rest) =>
    { state with
      waiters := rest
      phase := update state.phase fiber .owning
      waking := update state.waking agent (state.waking agent - 1) }
  | none => state

def step (state : State Fiber) : Action Fiber → Option (State Fiber)
  | .lock fiber => if state.phase fiber = .outside then some (lock state fiber) else none
  | .trylock fiber spurious =>
    if state.phase fiber = .outside then some (trylock state fiber spurious) else none
  | .exchange fiber =>
    if state.phase fiber = .pushing then
      some { state with
        waiters := state.waiters.exchange fiber
        phase := update state.phase fiber .linking }
    else none
  | .link fiber =>
    if state.phase fiber = .linking then
      some { state with
        waiters := state.waiters.link fiber
        phase := update state.phase fiber .parked }
    else none
  | .unlockInternal owner agent =>
    if state.phase owner = .owning then some (unlockInternal state owner agent) else none
  | .trypop agent => if 0 < state.waking agent then some (trypop state agent) else none

def machine (Fiber : Type) [DecidableEq Fiber] : Machine (State Fiber) (Action Fiber) where
  initial state := state = init
  step := step

/-- One for a fiber that entered and whose own unlock has not happened yet. -/
def Phase.entered : Phase → Nat
  | .outside => 0
  | _ => 1

def Phase.owns : Phase → Nat
  | .owning => 1
  | _ => 0

section Invariant

variable {Fiber : Type} [Fintype Fiber]

def entered (state : State Fiber) : Nat :=
  total Phase.entered state.phase

def owners (state : State Fiber) : Nat :=
  total Phase.owns state.phase

/-- Hand-offs in progress: unlocks that still have to pop the next owner. -/
def handoffs (state : State Fiber) : Nat :=
  total id state.waking

structure Invariant (state : State Fiber) : Prop where
  counter : state.counter = 1 - entered state
  served : owners state + handoffs state = min 1 (entered state)
  queue : state.waiters.Tracks state.phase (· = .linking) (· = .parked)

theorem entered_le_card (state : State Fiber) : entered state ≤ Fintype.card Fiber :=
  total_le_card fun fiber => by cases state.phase fiber <;> simp [Phase.entered]

theorem Invariant.counter_range {state : State Fiber} (invariant : Invariant state)
    (bound : Fintype.card Fiber < 2 ^ 31) :
    int32 (state.counter - 1) = state.counter - 1 ∧
      int32 (state.counter + 1) = state.counter + 1 := by
  have few := entered_le_card state
  have counter := invariant.counter
  exact ⟨int32_of_range (by omega) (by omega), int32_of_range (by omega) (by omega)⟩

theorem init_invariant : Invariant (init : State Fiber) := by
  have none : entered (init : State Fiber) = 0 := total_const _ _ rfl
  have unowned : owners (init : State Fiber) = 0 := total_const _ _ rfl
  have quiet : handoffs (init : State Fiber) = 0 := total_const _ _ rfl
  refine ⟨?_, ?_, .empty (fun _ => by simp [init]) (fun _ => by simp [init])⟩
  · rw [none]; rfl
  · rw [none, unowned, quiet]; rfl

end Invariant

section Preservation

variable [Fintype Fiber] {fiber agent : Fiber}

theorem counts_update (phase : Fiber → Phase) (fiber : Fiber) (next : Phase) :
    total Phase.entered (update phase fiber next) + (phase fiber).entered =
      total Phase.entered phase + next.entered ∧
    total Phase.owns (update phase fiber next) + (phase fiber).owns =
      total Phase.owns phase + next.owns :=
  ⟨total_update _ _ _ _, total_update _ _ _ _⟩

/-- A step of a fiber by what it adds to each of the counts. -/
theorem Invariant.goto {state : State Fiber} {counter : Int} (invariant : Invariant state)
    (counted : counter + next.entered = state.counter + (state.phase fiber).entered)
    (served : next.owns + min 1 (1 - state.counter) =
      (state.phase fiber).owns + min 1 (1 - counter))
    (queue : waiters.Tracks (update state.phase fiber next) (· = .linking) (· = .parked)) :
    Invariant { state with counter, waiters, phase := update state.phase fiber next } := by
  obtain ⟨before, owned, _⟩ := invariant
  obtain ⟨enters, owns⟩ := counts_update state.phase fiber next
  simp only [entered, owners, handoffs] at before owned
  refine ⟨?_, ?_, queue⟩
  · simp only [entered]; omega
  · simp only [entered, owners, handoffs]; omega

theorem lock_invariant (bound : Fintype.card Fiber < 2 ^ 31) (invariant : Invariant state)
    (outside : state.phase fiber = .outside) : Invariant (lock state fiber) := by
  obtain ⟨exact, _⟩ := invariant.counter_range bound
  have counter := invariant.counter
  simp only [lock, exact]
  split
  · apply invariant.goto
    · simp [outside, Phase.entered]
    · simp only [outside, Phase.owns]; omega
    · exact invariant.queue.update_of_iff (by simp [outside]) (by simp [outside])
  · apply invariant.goto
    · simp [outside, Phase.entered]
    · simp only [outside, Phase.owns]; omega
    · exact invariant.queue.update_of_iff (by simp [outside]) (by simp [outside])

theorem trylock_invariant (invariant : Invariant state)
    (outside : state.phase fiber = .outside) (spurious : Bool) :
    Invariant (trylock state fiber spurious) := by
  unfold trylock
  split
  case isTrue free =>
    apply invariant.goto
    · simp [outside, Phase.entered, free.1]
    · simp [outside, Phase.owns, free.1]
    · exact invariant.queue.update_of_iff (by simp [outside]) (by simp [outside])
  case isFalse => exact invariant

theorem unlockInternal_invariant (bound : Fintype.card Fiber < 2 ^ 31)
    (invariant : Invariant state) (owning : state.phase owner = .owning) :
    Invariant (unlockInternal state owner agent) := by
  obtain ⟨_, exact⟩ := invariant.counter_range bound
  obtain ⟨counter, served, queue⟩ := invariant
  obtain ⟨leaves, yields⟩ := counts_update state.phase owner .outside
  simp only [owning, Phase.entered, Phase.owns] at leaves yields
  simp only [entered, owners, handoffs] at counter served
  have kept : state.waiters.Tracks (update state.phase owner .outside)
      (· = .linking) (· = .parked) :=
    queue.update_of_iff (by simp [owning]) (by simp [owning])
  by_cases contended : state.counter + 1 ≠ 1
  · have woken := total_update id state.waking agent (state.waking agent + 1)
    simp only [id_eq] at woken
    simp only [unlockInternal, exact, if_pos contended]
    refine ⟨?_, ?_, kept⟩
    · simp only [entered]; omega
    · simp only [entered, owners, handoffs]; omega
  · simp only [unlockInternal, exact, if_neg contended]
    refine ⟨?_, ?_, kept⟩
    · simp only [entered]; omega
    · simp only [entered, owners, handoffs]; omega

theorem trypop_invariant (invariant : Invariant state) (waking : 0 < state.waking agent) :
    Invariant (trypop state agent) := by
  obtain ⟨counter, served, queue⟩ := invariant
  cases popped : state.waiters.trypop with
  | none =>
    simp only [trypop, popped]
    exact ⟨counter, served, queue⟩
  | some taken =>
    obtain ⟨fiber, rest⟩ := taken
    have parked := queue.parked_of_trypop popped
    obtain ⟨enters, owns⟩ := counts_update state.phase fiber .owning
    have woken := total_update id state.waking agent (state.waking agent - 1)
    simp only [parked, Phase.entered, Phase.owns] at enters owns
    simp only [id_eq] at woken
    simp only [entered, owners, handoffs] at counter served
    simp only [trypop, popped]
    refine ⟨?_, ?_, queue.trypop popped (by simp) (by simp)⟩
    · simp only [entered]; omega
    · simp only [entered, owners, handoffs]; omega

theorem exchange_invariant (invariant : Invariant state) (pushing : state.phase fiber = .pushing) :
    Invariant { state with
      waiters := state.waiters.exchange fiber
      phase := update state.phase fiber .linking } :=
  invariant.goto (by simp [pushing, Phase.entered]) (by simp [pushing, Phase.owns])
    (invariant.queue.exchange (by simp [pushing]) (by simp [pushing]) rfl (by simp))

theorem link_invariant (invariant : Invariant state) (linking : state.phase fiber = .linking) :
    Invariant { state with
      waiters := state.waiters.link fiber
      phase := update state.phase fiber .parked } :=
  invariant.goto (by simp [linking, Phase.entered]) (by simp [linking, Phase.owns])
    (invariant.queue.link linking rfl (by simp))

theorem step_invariant (bound : Fintype.card Fiber < 2 ^ 31) {action : Action Fiber}
    {after : State Fiber} (invariant : Invariant state)
    (stepped : step state action = some after) : Invariant after := by
  cases action with
  | lock fiber =>
    obtain ⟨outside, ⟨⟩⟩ := Option.ite_none_right_eq_some.mp stepped
    exact lock_invariant bound invariant outside
  | trylock fiber spurious =>
    obtain ⟨outside, ⟨⟩⟩ := Option.ite_none_right_eq_some.mp stepped
    exact trylock_invariant invariant outside spurious
  | exchange fiber =>
    obtain ⟨pushing, ⟨⟩⟩ := Option.ite_none_right_eq_some.mp stepped
    exact exchange_invariant invariant pushing
  | link fiber =>
    obtain ⟨linking, ⟨⟩⟩ := Option.ite_none_right_eq_some.mp stepped
    exact link_invariant invariant linking
  | unlockInternal owner agent =>
    obtain ⟨owning, ⟨⟩⟩ := Option.ite_none_right_eq_some.mp stepped
    exact unlockInternal_invariant bound invariant owning
  | trypop agent =>
    obtain ⟨waking, ⟨⟩⟩ := Option.ite_none_right_eq_some.mp stepped
    exact trypop_invariant invariant waking

theorem reachable_invariant (bound : Fintype.card Fiber < 2 ^ 31)
    (reachable : (machine Fiber).Reachable state) : Invariant state :=
  Machine.Reachable.invariant Invariant
    (fun _ initial => initial ▸ init_invariant)
    (fun _ _ _ invariant stepped => step_invariant bound invariant stepped) reachable

/-- Exclusion, accounting and hand-off of the mutex in every reachable state. -/
theorem mutex_exclusion (bound : Fintype.card Fiber < 2 ^ 31)
    (reachable : (machine Fiber).Reachable state) :
    owners state + handoffs state ≤ 1 ∧
    state.counter = 1 - entered state ∧
    (state.counter < 1 → owners state + handoffs state = 1) ∧
    (∀ agent, state.waking agent ≤ 1) ∧
    ∀ left right, 0 < state.waking left → 0 < state.waking right → left = right := by
  obtain ⟨counter, served, _⟩ := reachable_invariant bound reachable
  refine ⟨by omega, counter, fun held => by omega, fun agent => ?_, ?_⟩
  · have share : state.waking agent ≤ handoffs state := le_total id state.waking agent
    omega
  · intro left right leftWakes rightWakes
    have single : total id state.waking ≤ 1 := by
      simp only [handoffs] at served
      omega
    exact unique_of_total_le_one single leftWakes rightWakes

/-- Three fibers meet the bound; the second one is parked while the first
unlocks, so the third, standing in for a maintenance, is the one that pops. -/
theorem mutex_exclusion_contended :
    ∃ state : State (Fin 3), (machine (Fin 3)).Reachable state ∧
      state.counter = 0 ∧ owners state = 0 ∧ handoffs state = 1 := by
  have executed : (machine (Fin 3)).exec init
      [.lock 0, .lock 1, .exchange 1, .unlockInternal 0 2] = some _ := rfl
  have reachable := Machine.reachable_of_exec rfl executed
  obtain ⟨_, counter, served, _⟩ := mutex_exclusion (by decide) reachable
  refine ⟨_, reachable, rfl, rfl, ?_⟩
  have served := served (by decide)
  exact served

end Preservation

end LibFiber.Mutex
