import LibFiber.Runtime.Machine

namespace LibFiber.Runtime

variable {Mgr : Type} [DecidableEq Mgr]

/-! The steps after which the runtime still works as intended. -/

/-- The fiber that a round of `fiber_scheduler_load_balance` steals. -/
def State.stolen (state : State Mgr) (loop : Balance Mgr) (reading : Reading) :
    Option (Fiber Mgr) :=
  match loop.visits with
  | [] => none
  | (victim, side) :: _ =>
    if loop.localCount < loop.remoteCount ∧ 0 < loop.maxSteal ∧ reading.contended = false then
      ((state.scheduler victim).steal side).map Prod.fst
    else none

def Frame.maintains : Frame Mgr → Bool
  | .maintenance _ _ => true
  | .waitEnd | .deadEnd | .yieldLoop _ | .threadLoop _ | .settle _ | .wakeLoop _ _ _
  | .clearLoop _ => false

/-- Every fiber that `fiber_manager_yield` takes out of its queues passes the
gate, and no fiber is stolen that has yielded in its maintenance. -/
def orderly (state : State Mgr) : Action Mgr → Bool
  | .client _ _ => true
  | .tick mgr reading =>
    match state.pc mgr with
    | .test _ (.yield _ _) fiber => state.fiberState fiber == .saving || reading.opens
    | .steal _ _ loop =>
      match state.stolen loop reading with
      | some fiber => !(state.stack fiber).any Frame.maintains
      | none => true
    | _ => true

def unlocked : Reading := ⟨1, 0, 0, false⟩

def lockInUse : Reading := ⟨1, 0, 1, false⟩

end LibFiber.Runtime
