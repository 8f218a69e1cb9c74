import LibFiber.Cond.Machine
import Mathlib.Data.List.Flatten

namespace LibFiber.Cond

open Data Semantics Function

variable {Fiber : Type}

/-- The phases in which a fiber owns the caller's mutex. -/
def Phase.Owns : Phase → Prop
  | .holding | .pushing | .linking => True
  | _ => False

/-- The waiter that is counted but has no place in the queue yet. -/
def incoming (phase : Fiber → Phase) : Option Fiber → List Fiber
  | some owner => if phase owner = .pushing then [owner] else []
  | none => []

def Account.Settled (calls : List (Record Fiber)) : Prop :=
  ∀ record ∈ calls, record.woken = record.claim

/-- How the counter and the newest claim stand at each stage of the internal
mutex's owner; `due` are the claimed waiters that are still to be popped. -/
def Account.Stands (ledger : Account Fiber) (due : List Fiber) (waiterCount : Int) :
    Option (Fiber × Stage) → Prop
  | some (caller, .waking count wakeCount) =>
    waiterCount = ledger.line.length ∧ count = wakeCount + due.length ∧ due ≠ [] ∧
      ∃ record older, ledger.calls = record :: older ∧ record.caller = caller ∧
        record.claim = record.woken ++ due ∧ Settled older
  | some (_, .adding) => waiterCount + 1 = ledger.line.length ∧ due = [] ∧ Settled ledger.calls
  | _ => waiterCount = ledger.line.length ∧ due = [] ∧ Settled ledger.calls

/-- The account describes the state.  Waiters are counted and queued in one
order because both happen under the caller's mutex. -/
structure Agrees (ledger : Account Fiber) (due : List Fiber) (state : State Fiber) : Prop where
  order : due ++ ledger.line = state.waiters.members ++ incoming state.phase state.mutex
  owned : ∀ fiber, (state.phase fiber).Owns → state.mutex = some fiber
  queue : state.waiters.Tracks state.phase (· = .linking) (· = .parked)
  stands : ledger.Stands due state.waiterCount state.internal

variable [DecidableEq Fiber] {ledger : Account Fiber} {due : List Fiber} {state : State Fiber}

theorem owned_update
    (others : ∀ other, other ≠ fiber → (state.phase other).Owns → mutex = some other)
    (own : next.Owns → mutex = some fiber) (other : Fiber)
    (owns : (update state.phase fiber next other).Owns) : mutex = some other := by
  by_cases same : other = fiber
  · subst same
    rw [update_self] at owns
    exact own owns
  · rw [update_of_ne same] at owns
    exact others other same owns

section

variable (agrees : Agrees ledger due state)
include agrees

theorem Agrees.acquire (free : state.mutex = none)
    (aside : state.phase fiber = .outside ∨ state.phase fiber = .woken) :
    Agrees ledger due
      { state with mutex := some fiber, phase := update state.phase fiber .holding } := by
  obtain ⟨order, owned, queue, stands⟩ := agrees
  refine ⟨?_, owned_update (fun other _ owns => ?_) (fun _ => rfl), ?_, stands⟩
  · rw [order]
    simp [incoming, free]
  · have held := owned other owns
    rw [free] at held
    contradiction
  · rcases aside with aside | aside <;>
      exact queue.update_of_iff (by simp [aside]) (by simp [aside])

end

theorem book_head (caller woken : Fiber) {record : Record Fiber} (older : List (Record Fiber))
    (newest : record.caller = caller) :
    book caller woken (record :: older) =
      { record with woken := record.woken ++ [woken] } :: older := by
  rw [book, if_pos newest]

omit [DecidableEq Fiber] in
theorem Account.Settled.cons {record : Record Fiber} {calls : List (Record Fiber)}
    (settled : Account.Settled calls) (done : record.woken = record.claim) :
    Account.Settled (record :: calls) := by
  intro other member
  rcases List.mem_cons.mp member with rfl | earlier
  · exact done
  · exact settled other earlier

section

variable (agrees : Agrees ledger due state)
include agrees

end

/-- Every wake-up has been used by a return or is about to be. -/
def Balanced (history : History Fiber) (state : State Fiber) : Prop :=
  ∀ fiber, (account history).woken.count fiber =
    returns history fiber + if state.phase fiber = .woken then 1 else 0

theorem returns_append (history : History Fiber) (state : State Fiber) (action : Action Fiber)
    (fiber : Fiber) :
    returns (history ++ [(state, action)]) fiber =
      returns history fiber + if action = .relock fiber then 1 else 0 := by
  simp [returns, List.countP_append, List.countP_cons]

section Balanced

theorem Balanced.quiet (balanced : Balanced history state)
    (sameWoken : ((account history).step state action).woken = (account history).woken)
    (noReturn : ∀ fiber, action ≠ .relock fiber)
    (samePhase : ∀ fiber, after.phase fiber = .woken ↔ state.phase fiber = .woken) :
    Balanced (history ++ [(state, action)]) after := by
  intro fiber
  rw [account_append, sameWoken, returns_append, if_neg (noReturn fiber), balanced fiber]
  simp only [samePhase, Nat.add_zero]

theorem woken_update {phase : Fiber → Phase} {next : Phase} (before : phase fiber ≠ .woken)
    (asleep : next ≠ .woken) (other : Fiber) :
    update phase fiber next other = .woken ↔ phase other = .woken := by
  by_cases same : other = fiber
  · subst same
    simp [before, asleep]
  · simp [same]

theorem relock_balanced (balanced : Balanced history state) (woken : state.phase fiber = .woken) :
    Balanced (history ++ [(state, .relock fiber)])
      { state with mutex := some fiber, phase := update state.phase fiber .holding } := by
  intro other
  have counted := balanced other
  rw [account_append, returns_append]
  simp only [Account.step, counted, Action.relock.injEq]
  by_cases same : fiber = other
  · subst same
    simp [woken]
  · simp [same, Ne.symm same]

theorem trypop_balanced
    (agrees : Agrees (account history) due state) (balanced : Balanced history state)
    (waking : state.internal = some (fiber, .waking count wakeCount)) :
    Balanced (history ++ [(state, .trypop fiber)]) (trypop state fiber count wakeCount) := by
  have stands := agrees.stands
  rw [waking] at stands
  obtain ⟨_, _, _, record, older, newest, caller, _, _⟩ := stands
  cases popped : state.waiters.trypop with
  | none =>
    refine balanced.quiet (by simp [Account.step, popped]) (by simp) fun other => ?_
    simp [trypop, popped]
  | some taken =>
    obtain ⟨woken, rest⟩ := taken
    have parked := agrees.queue.parked_of_trypop popped
    intro other
    have counted := balanced other
    rw [account_append, returns_append, if_neg (by simp)]
    simp only [Account.step, popped, Account.woken, newest, book_head fiber woken older caller,
      trypop, List.flatMap_cons, List.count_append] at counted ⊢
    by_cases same : woken = other
    · subst same
      simp [parked] at counted ⊢
      omega
    · simp [same, Ne.symm same] at counted ⊢
      omega

theorem step_balanced (agrees : Agrees (account history) due state)
    (balanced : Balanced history state) (stepped : step state action = some after) :
    Balanced (history ++ [(state, action)]) after := by
  cases action with
  | lock fiber =>
    obtain ⟨⟨outside, _⟩, ⟨⟩⟩ := Option.ite_none_right_eq_some.mp stepped
    exact balanced.quiet rfl (by simp) (woken_update (by simp [outside]) (by simp))
  | unlock fiber | wait fiber =>
    obtain ⟨⟨holding, _⟩, ⟨⟩⟩ := Option.ite_none_right_eq_some.mp stepped
    exact balanced.quiet rfl (by simp) (woken_update (by simp [holding]) (by simp))
  | exchange fiber | link fiber =>
    obtain ⟨phase, ⟨⟩⟩ := Option.ite_none_right_eq_some.mp stepped
    exact balanced.quiet rfl (by simp) (woken_update (by simp [phase]) (by simp))
  | relock fiber =>
    obtain ⟨⟨woken, _⟩, ⟨⟩⟩ := Option.ite_none_right_eq_some.mp stepped
    exact relock_balanced balanced woken
  | release fiber | call fiber kind | addBack fiber | leave fiber =>
    obtain ⟨_, ⟨⟩⟩ := Option.ite_none_right_eq_some.mp stepped
    exact balanced.quiet rfl (by simp) fun _ => Iff.rfl
  | enter fiber =>
    simp only [step] at stepped
    split at stepped
    · cases stepped
      exact balanced.quiet rfl (by simp) fun _ => Iff.rfl
    · contradiction
  | count fiber =>
    have sameWoken : ((account history).step state (.count fiber)).woken =
        (account history).woken := by
      simp only [Account.step]
      split
      · rfl
      · split <;> rfl
    simp only [step] at stepped
    split at stepped
    · exact Option.some.inj stepped ▸ balanced.quiet sameWoken (by simp) fun _ => Iff.rfl
    · split at stepped
      · exact Option.some.inj stepped ▸ balanced.quiet sameWoken (by simp) fun _ => Iff.rfl
      · contradiction
  | trypop fiber =>
    simp only [step] at stepped
    split at stepped
    · rename_i owner count wakeCount waking
      obtain ⟨rfl, ⟨⟩⟩ := Option.ite_none_right_eq_some.mp stepped
      exact trypop_balanced agrees balanced waking
    · contradiction

end Balanced

omit [DecidableEq Fiber] in
/-- Outside the wake loop every claim is settled; inside it the newest one is
the caller's and is settled up to the waiters that are due. -/
theorem Agrees.records (agrees : Agrees ledger due state) :
    Account.Settled ledger.calls ∨ ∃ record older count wakeCount, ledger.calls = record :: older ∧
        state.internal = some (record.caller, .waking count wakeCount) ∧
        record.claim = record.woken ++ due ∧ Account.Settled older := by
  have stands := agrees.stands
  unfold Account.Stands at stands
  split at stands
  · rename_i caller count wakeCount waking
    obtain ⟨_, _, _, record, older, newest, rfl, split, settled⟩ := stands
    exact .inr ⟨record, older, count, wakeCount, newest, waking, split, settled⟩
  · exact .inl stands.2.2
  · exact .inl stands.2.2

/-- The fibers below `count` are parked and nothing else is going on. -/
def crowd (count : Nat) : State Nat where
  waiterCount := count
  waiters := ⟨(List.range count).map fun fiber => (fiber, true)⟩
  mutex := none
  internal := none
  phase := fun fiber => if fiber < count then .parked else .outside
  call := fun _ => .idle

end LibFiber.Cond
