import LibFiber.Join.Machine

namespace LibFiber.Join

open Semantics Function

variable {Fiber Value : Type}

/-! What the two words `detach_state` and `join_info` say about the finishing
fiber and about the one other fiber that has to do with it. -/

namespace TargetPhase

/-- Before its exchange of `detach_state`. -/
def early : TargetPhase Fiber → Bool
  | .running | .testing | .exchanging => true
  | .parking | .parked | .clearing | .handing _ | .scheduling _ | .finishing | .done => false

def waits : TargetPhase Fiber → Bool
  | .parking | .parked => true
  | .running | .testing | .exchanging | .clearing | .handing _ | .scheduling _ | .finishing
  | .done => false

def late : TargetPhase Fiber → Bool
  | .finishing | .done => true
  | .running | .testing | .exchanging | .parking | .parked | .clearing | .handing _
  | .scheduling _ => false

end TargetPhase

/-- Neither parked nor about to use `join_info`. -/
def Phase.free : Phase Fiber Value → Bool
  | .idle | .testing _ | .retesting | .exchanging _ | .returned _ _ _ => true
  | .parking | .parked | .woken | .unloading _ | .reading _ | .clearing _ _
  | .scheduling _ _ _ => false

/-- The exchange finds in `detach_state` what its writer meant: a fiber that
waits for a joiner does wait, nobody detaches a fiber that has been joined, and
nobody joins a detached fiber that has still to look at `detach_state`. -/
def State.allows (state : State Fiber Value) (op : Op) : Bool :=
  match state.detachState with
  | .none => true
  | .waitForJoiner => state.target.waits
  | .waitToJoin => op != .detach
  | .detached => op == .detach || !state.target.early

def clean (state : State Fiber Value) : Action Fiber → Bool
  | .call _ _ | .moveTarget => true
  | .move fiber =>
    match state.phase fiber with
    | .exchanging op => state.allows op
    | _ => true

/-- The entry of the finishing fiber is there or on its way. -/
def State.TargetOffered (state : State Fiber Value) : Prop :=
  (state.target = .parking ∧ state.joinInfo = none) ∨
    (state.target = .parked ∧ state.joinInfo = some .target)

def State.Offered (state : State Fiber Value) (fiber : Fiber) : Prop :=
  (state.phase fiber = .parking ∧ state.joinInfo = none) ∨
    (state.phase fiber = .parked ∧ state.joinInfo = some (.other fiber))

/-- How far the handshake is.  The first index is the fiber that has a part in
it, the second one the number of joins that have succeeded. -/
inductive Stage (value : Option Value) (state : State Fiber Value) : Option Fiber → Nat → Prop where
  | untouched : state.detachState = .none → state.target.early → state.joinInfo = none →
      Stage value state none 0
  | abandoned : state.detachState = .detached → state.target.early →
      state.joinInfo = none → Stage value state none 0
  | waiting : state.detachState = .waitForJoiner → state.TargetOffered → Stage value state none 0
  /-- A joiner waits for the fiber to finish. -/
  | awaited (joiner : Fiber) : state.detachState = .waitToJoin → state.target.early →
      state.Offered joiner → Stage value state (some joiner) 0
  | met (joiner : Fiber) : state.detachState = .waitForJoiner → state.target = .clearing →
      state.Offered joiner → Stage value state (some joiner) 0
  | handing (joiner : Fiber) : state.detachState = .waitForJoiner →
      state.target = .handing (.other joiner) → state.joinInfo = none →
      state.phase joiner = .parked → Stage value state (some joiner) 0
  | handed (joiner : Fiber) : state.detachState = .waitForJoiner →
      state.target = .scheduling (.other joiner) → state.joinInfo = none →
      state.phase joiner = .parked → state.result joiner = value → Stage value state (some joiner) 0
  | awarded (joiner : Fiber) : state.detachState = .waitForJoiner → state.target.late →
      state.joinInfo = none →
      (state.phase joiner = .woken ∧ state.result joiner = value) ∨
        state.phase joiner = .unloading value →
      Stage value state (some joiner) 0
  /-- A joiner or detacher has found the fiber waiting. -/
  | claimed (fiber : Fiber) (op : Op) :
      state.detachState = .waitToJoin ∨ state.detachState = .detached → state.TargetOffered →
      (state.phase fiber = .reading op ∧ op ≠ .detach) ∨
        (∃ out, state.phase fiber = .clearing op out ∧ (op ≠ .detach → out = value)) →
      Stage value state (some fiber) 0
  | taken (fiber : Fiber) (op : Op) (out : Option Value) :
      state.detachState = .waitToJoin ∨ state.detachState = .detached → state.target = .parked →
      state.joinInfo = none → state.phase fiber = .scheduling op out .target →
      (op ≠ .detach → out = value) → Stage value state (some fiber) 0
  | closed (count : Nat) : state.detachState ≠ .none → state.target.late →
      state.joinInfo = none → count ≤ 1 → Stage value state none count

variable {value : Option Value} {state : State Fiber Value}

theorem Stage.frame (stage : Stage value state actor count)
    (sameDetach : after.detachState = state.detachState)
    (sameInfo : after.joinInfo = state.joinInfo) (sameTarget : after.target = state.target)
    (sameActor : ∀ fiber, actor = some fiber →
      after.phase fiber = state.phase fiber ∧ after.result fiber = state.result fiber) :
    Stage value after actor count := by
  cases stage <;> grind -linarith [Stage, State.Offered, State.TargetOffered]

theorem Stage.phase_not_free (stage : Stage value state (some fiber) count) :
    (state.phase fiber).free = false := by
  cases stage with
  | awaited _ _ _ offered | met _ _ _ offered =>
    rcases offered with ⟨phase, _⟩ | ⟨phase, _⟩ <;> rw [phase] <;> rfl
  | handing _ _ _ _ phase | handed _ _ _ _ phase | taken _ _ _ _ _ _ phase => rw [phase]; rfl
  | awarded _ _ _ _ out =>
    rcases out with ⟨phase, _⟩ | phase <;> rw [phase] <;> rfl
  | claimed _ _ _ _ out =>
    rcases out with ⟨phase, _⟩ | ⟨_, phase, _⟩ <;> rw [phase] <;> rfl

theorem Stage.early_of_none (stage : Stage value state actor count)
    (untouched : state.detachState = .none) : state.target.early := by
  cases stage <;> simp_all

theorem Stage.not_early (stage : Stage value state actor count)
    (waits : state.detachState = .waitForJoiner) : state.target.early = false := by
  cases stage with
  | waiting _ offered => rcases offered with ⟨target, _⟩ | ⟨target, _⟩ <;> rw [target] <;> rfl
  | met _ _ target | handing _ _ target | handed _ _ target => rw [target]; rfl
  | awarded _ _ late | closed _ _ late =>
    cases target : state.target <;> simp_all [TargetPhase.early, TargetPhase.late]
  | untouched | abandoned | awaited | claimed | taken => simp_all

structure Handshake (value : Option Value) (count : Nat) (state : State Fiber Value) : Prop where
  stored : state.target ≠ .running → state.targetResult = value
  /-- A tryjoin comes to its exchange when it has seen the fiber wait. -/
  tried : ∀ fiber, state.phase fiber = .exchanging .tryjoin → state.target.early = false
  staged : ∃ actor, Stage value state actor count ∧
    ∀ fiber, actor ≠ some fiber → (state.phase fiber).free

theorem init_handshake : Handshake value 0 (init : State Fiber Value) where
  stored later := absurd rfl later
  tried fiber exchanging := by cases exchanging
  staged := ⟨none, .untouched rfl rfl rfl, fun _ _ => rfl⟩

theorem Handshake.retarget (handshake : Handshake value count state)
    (frees : ∀ fiber, actor ≠ some fiber → (state.phase fiber).free)
    (samePhase : after.phase = state.phase) (stored : after.targetResult = value)
    (onward : state.target.early = false → after.target.early = false)
    (stage : Stage value after actor count) : Handshake value count after where
  stored _ := stored
  tried fiber exchanging := onward (handshake.tried fiber (samePhase ▸ exchanging))
  staged := ⟨actor, stage, samePhase ▸ frees⟩

theorem TargetPhase.early_cases {target : TargetPhase Fiber} (early : target.early) :
    target = .running ∨ target = .testing ∨ target = .exchanging := by
  cases target <;> simp_all [TargetPhase.early]

variable [DecidableEq Fiber]

theorem step_call (stepped : step value state (.call fiber op) = some after) :
    after = state.goto fiber op.entry ∧ (state.phase fiber).free := by
  simp only [step] at stepped
  split at stepped
  · cases stepped
  · split at stepped <;> simp_all [Phase.free]

theorem early_handshake (handshake : Handshake value count state)
    (early : state.target.early) (moved : moveTarget value state = some after) :
    Handshake value count after := by
  obtain ⟨actor, stage, frees⟩ := handshake.staged
  have stored := handshake.stored
  rcases TargetPhase.early_cases early with target | target | target
  · simp only [moveTarget, target] at moved
    cases moved
    refine handshake.retarget frees rfl rfl (by simp [early]) ?_
    cases stage with
    | untouched detach _ info => exact .untouched detach rfl info
    | abandoned detach _ info => exact .abandoned detach rfl info
    | awaited joiner detach _ offered => exact .awaited joiner detach rfl offered
    | _ => simp_all [State.TargetOffered, TargetPhase.late]
  · simp only [moveTarget, target] at moved
    cases moved
    refine handshake.retarget frees rfl (stored (by simp [target])) (by simp [early]) ?_
    cases stage with
    | untouched detach _ info => exact .untouched detach (by simp [detach, TargetPhase.early]) info
    | abandoned detach _ info =>
      exact .closed 0 (by simp [detach]) (by simp [detach, TargetPhase.late]) info (by simp)
    | awaited joiner detach _ offered =>
      exact .awaited joiner detach (by simp [detach, TargetPhase.early]) offered
    | _ => simp_all [State.TargetOffered, TargetPhase.late]
  · simp only [moveTarget, target] at moved
    cases moved
    refine handshake.retarget frees rfl (stored (by simp [target])) (by simp [early]) ?_
    cases stage with
    | untouched detach _ info => exact .waiting rfl (.inl ⟨by simp [detach], info⟩)
    | abandoned detach _ info =>
      exact .closed 0 (by simp) (by simp [detach, TargetPhase.late]) info (by simp)
    | awaited joiner detach _ offered => exact .met joiner rfl (by simp [detach]) offered
    | _ => simp_all [State.TargetOffered, TargetPhase.late]

theorem offer_handshake (handshake : Handshake value count state)
    (offered : state.TargetOffered) (moved : moveTarget value state = some after) :
    Handshake value count after := by
  obtain ⟨actor, stage, frees⟩ := handshake.staged
  rcases offered with ⟨target, info⟩ | ⟨target, info⟩
  · have stored := handshake.stored (by simp [target])
    simp only [moveTarget, target] at moved
    cases moved
    refine handshake.retarget frees rfl stored (fun _ => rfl) ?_
    cases stage with
    | waiting detach _ => exact .waiting detach (.inr ⟨rfl, rfl⟩)
    | claimed fiber op detach _ out => exact .claimed fiber op detach (.inr ⟨rfl, rfl⟩) out
    | _ => simp_all [TargetPhase.early, TargetPhase.late]
  · simp [moveTarget, target] at moved

theorem moveTarget_handshake (handshake : Handshake value count state)
    (moved : moveTarget value state = some after) : Handshake value count after := by
  obtain ⟨actor, stage, frees⟩ := handshake.staged
  cases stage with
  | untouched _ early | abandoned _ early | awaited _ _ early =>
    exact early_handshake handshake early moved
  | waiting _ offered | claimed _ _ _ offered => exact offer_handshake handshake offered moved
  | met joiner detach target offered =>
    have stored := handshake.stored (by simp [target])
    rcases offered with ⟨parking, info⟩ | ⟨parked, info⟩
    · simp only [moveTarget, target, info] at moved
      cases moved
      exact handshake
    · simp only [moveTarget, target, info] at moved
      cases moved
      exact handshake.retarget frees rfl stored (fun _ => rfl)
        (.handing joiner detach rfl rfl parked)
  | handing joiner detach target info parked =>
    have stored := handshake.stored (by simp [target])
    simp only [moveTarget, target] at moved
    cases moved
    exact handshake.retarget frees rfl stored (fun _ => rfl)
      (.handed joiner detach rfl info parked (by simp [stored]))
  | handed joiner detach target info parked result =>
    have stored := handshake.stored (by simp [target])
    simp only [moveTarget, target, State.schedule, parked, State.goto] at moved
    cases moved
    refine ⟨fun _ => stored, fun fiber _ => rfl, some joiner,
      .awarded joiner detach rfl info (.inl ⟨by simp, result⟩), fun fiber different => ?_⟩
    have apart : fiber ≠ joiner := fun same => different (congrArg some same.symm)
    simpa only [update_of_ne apart] using frees fiber different
  | awarded joiner detach late info out =>
    have stored := handshake.stored (by intro running; simp [running, TargetPhase.late] at late)
    cases target : state.target <;> simp [target, TargetPhase.late] at late
    · simp only [moveTarget, target] at moved
      cases moved
      exact handshake.retarget frees rfl stored (fun _ => rfl) (.awarded joiner detach rfl info out)
    · simp [moveTarget, target] at moved
  | taken _ _ _ _ target => simp [moveTarget, target] at moved
  | closed _ detach late info bound =>
    have stored := handshake.stored (by intro running; simp [running, TargetPhase.late] at late)
    cases target : state.target <;> simp [target, TargetPhase.late] at late
    · simp only [moveTarget, target] at moved
      cases moved
      exact handshake.retarget frees rfl stored (fun _ => rfl) (.closed _ detach rfl info bound)
    · simp [moveTarget, target] at moved

omit [DecidableEq Fiber] in
theorem Stage.not_actor (stage : Stage value state actor count)
    (free : (state.phase fiber).free) : actor ≠ some fiber := by
  rintro rfl
  simp [stage.phase_not_free] at free

theorem frees_update (stays : next.free)
    (frees : ∀ fiber, actor ≠ some fiber → (state.phase fiber).free) :
    ∀ other, actor ≠ some other → (update state.phase fiber next other).free := by
  intro other different
  by_cases same : other = fiber
  · subst same
    simpa using stays
  · simpa [same] using frees other different

section

variable (handshake : Handshake value count state)
include handshake

theorem tried_update (tried : next = .exchanging .tryjoin → state.target.early = false) :
    ∀ other, update state.phase fiber next other = .exchanging .tryjoin →
      state.target.early = false := by
  intro other exchanging
  by_cases same : other = fiber
  · subst same
    exact tried (by simpa using exchanging)
  · rw [update_of_ne same] at exchanging
    exact handshake.tried other exchanging

theorem Handshake.stroll (free : (state.phase fiber).free) (stays : next.free)
    (tried : next = .exchanging .tryjoin → state.target.early = false) :
    Handshake value count (state.goto fiber next) := by
  obtain ⟨actor, stage, frees⟩ := handshake.staged
  have apart := stage.not_actor free
  refine ⟨handshake.stored, tried_update handshake tried, actor, ?_, frees_update stays frees⟩
  refine stage.frame rfl rfl rfl fun other own => ?_
  have different : other ≠ fiber := fun same => apart (own.trans (congrArg some same))
  exact ⟨update_of_ne different .., rfl⟩

theorem late_exchange (free : (state.phase fiber).free) (stays : next.free)
    (told : next ≠ .exchanging .tryjoin) (allowed : state.allows op)
    (found : state.detachState = .waitToJoin ∨ state.detachState = .detached) :
    Handshake value count { state with
      detachState := op.stores
      phase := update state.phase fiber next } := by
  obtain ⟨actor, stage, frees⟩ := handshake.staged
  have apart := stage.not_actor free
  have others : ∀ other, actor = some other → update state.phase fiber next other =
      state.phase other := by
    intro other own
    exact update_of_ne (fun same => apart (own.trans (congrArg some same))) ..
  refine ⟨handshake.stored, tried_update handshake (fun same => absurd same told), actor, ?_,
    frees_update stays frees⟩
  have stores : op.stores = .waitToJoin ∨ op.stores = .detached := by
    cases op <;> simp [Op.stores]
  cases stage with
  | untouched detach | waiting detach | met _ detach | handing _ detach | handed _ detach
  | awarded _ detach => simp [detach] at found
  | abandoned detach early info =>
    have same : op.stores = .detached := by
      cases op <;> simp_all [State.allows, Op.stores]
    exact .abandoned same early info
  | awaited joiner detach early offered =>
    have same : op.stores = .waitToJoin := by
      cases op <;> simp_all [State.allows, Op.stores]
    refine .awaited joiner same early ?_
    simpa [State.Offered, others joiner rfl] using offered
  | claimed actor claim detach offered out =>
    exact .claimed actor claim stores offered (by simpa [others actor rfl] using out)
  | taken actor claim out detach target info scheduling handed =>
    exact .taken actor claim out stores target info (by simpa [others actor rfl] using scheduling)
      handed
  | closed _ detach late info bound =>
    exact .closed _ (by rcases stores with same | same <;> simp [same]) late info bound

theorem exchange_handshake
    (exchanging : state.phase fiber = .exchanging op) (allowed : state.allows op) :
    Handshake value count { state with
      detachState := op.stores
      phase := update state.phase fiber (exchanged op state.detachState) } := by
  have free : (state.phase fiber).free := by rw [exchanging]; rfl
  cases found : state.detachState with
  | waitToJoin | detached =>
    cases op <;> first
      | exact late_exchange handshake free rfl (by simp [exchanged]) allowed (by simp [found])
      | simp [State.allows, found] at allowed
  | none =>
    obtain ⟨actor, stage, frees⟩ := handshake.staged
    have early := stage.early_of_none found
    have alone : actor = none ∧ state.joinInfo = none ∧ count = 0 := by
      cases stage <;> simp_all
    obtain ⟨rfl, info, rfl⟩ := alone
    cases op with
    | join =>
      refine ⟨handshake.stored, tried_update handshake (by simp [exchanged]), some fiber,
        .awaited fiber rfl early (.inl ⟨by simp [exchanged], info⟩), ?_⟩
      intro other different
      have apart : other ≠ fiber := fun same => different (congrArg some same.symm)
      simpa [apart] using frees other (by simp)
    | tryjoin =>
      have past := handshake.tried fiber exchanging
      simp [early] at past
    | detach =>
      exact ⟨handshake.stored, tried_update handshake (by simp [exchanged]), none,
        .abandoned rfl early info, frees_update rfl frees⟩
  | waitForJoiner =>
    obtain ⟨actor, stage, frees⟩ := handshake.staged
    have waits : state.target.waits := by simpa [State.allows, found] using allowed
    have alone : actor = none ∧ state.TargetOffered ∧ count = 0 := by
      cases stage with
      | waiting _ offered => exact ⟨rfl, offered, rfl⟩
      | met _ _ target | handing _ _ target | handed _ _ target =>
        simp [target, TargetPhase.waits] at waits
      | awarded _ _ late | closed _ _ late =>
        cases target : state.target <;> simp_all [TargetPhase.waits, TargetPhase.late]
      | untouched detach | abandoned detach | awaited _ detach
      | claimed _ _ detach | taken _ _ _ detach => simp [found] at detach
    obtain ⟨rfl, offered, rfl⟩ := alone
    have others : ∀ other, some fiber ≠ some other →
        (update state.phase fiber (exchanged op .waitForJoiner) other).free := by
      intro other different
      have apart : other ≠ fiber := fun same => different (congrArg some same.symm)
      simpa [apart] using frees other (by simp)
    cases op with
    | join | tryjoin =>
      exact ⟨handshake.stored, tried_update handshake (by simp [exchanged]), some fiber,
        .claimed fiber _ (.inl rfl) offered (.inl ⟨by simp [exchanged]; rfl, by simp⟩), others⟩
    | detach =>
      exact ⟨handshake.stored, tried_update handshake (by simp [exchanged]), some fiber,
        .claimed fiber .detach (.inr rfl) offered (.inr ⟨none, by simp [exchanged], by simp⟩),
        others⟩

omit [DecidableEq Fiber] in
theorem Handshake.busy (busy : (state.phase fiber).free = false) :
    Stage value state (some fiber) count ∧
      ∀ other, some fiber ≠ some other → (state.phase other).free := by
  obtain ⟨actor, stage, frees⟩ := handshake.staged
  have own : actor = some fiber := by
    by_contra different
    simp [frees fiber different] at busy
  exact own ▸ ⟨stage, frees⟩

theorem Handshake.act (frees : ∀ other, some fiber ≠ some other → (state.phase other).free)
    (phase : after.phase = update state.phase fiber next) (told : next ≠ .exchanging .tryjoin)
    (stored : after.target ≠ .running → after.targetResult = value)
    (onward : state.target.early = false → after.target.early = false)
    (stage : Stage value after (some fiber) later ∨
      Stage value after none later ∧ next.free) : Handshake value later after := by
  refine ⟨stored, fun other exchanging => onward ?_, ?_⟩
  · rw [phase] at exchanging
    exact tried_update handshake (fun same => absurd same told) other exchanging
  · rcases stage with stage | ⟨stage, free⟩
    · refine ⟨some fiber, stage, fun other different => ?_⟩
      have apart : other ≠ fiber := fun same => different (congrArg some same.symm)
      rw [phase, update_of_ne apart]
      exact frees other different
    · refine ⟨none, stage, fun other _ => ?_⟩
      rw [phase]
      by_cases same : other = fiber
      · subst same
        simpa using free
      · rw [update_of_ne same]
        exact frees other (fun equal => same (Option.some.inj equal).symm)

theorem offering_handshake (parking : state.phase fiber = .parking) :
    Handshake value count { state with
      joinInfo := some (.other fiber)
      phase := update state.phase fiber .parked } := by
  obtain ⟨stage, frees⟩ := handshake.busy (by rw [parking]; rfl)
  refine handshake.act frees rfl (by simp) handshake.stored id (.inl ?_)
  cases stage with
  | awaited _ detach early _ => exact .awaited fiber detach early (.inr ⟨by simp, rfl⟩)
  | met _ detach target _ => exact .met fiber detach target (.inr ⟨by simp, rfl⟩)
  | _ => simp_all

theorem unload_handshake (woken : state.phase fiber = .woken) :
    Handshake value count (state.goto fiber (.unloading (state.result fiber))) := by
  obtain ⟨stage, frees⟩ := handshake.busy (by rw [woken]; rfl)
  refine handshake.act frees rfl (by simp) handshake.stored id (.inl ?_)
  cases stage with
  | awarded _ detach late info out =>
    have result : state.result fiber = value := by simpa [woken] using out
    exact .awarded fiber detach late info (.inr (by simp [State.goto, result]))
  | _ => simp_all [State.Offered]

theorem joined_handshake (unloading : state.phase fiber = .unloading out) :
    out = value ∧ Handshake value (count + 1) { state with
      result := update state.result fiber none
      phase := update state.phase fiber (.returned .join .success out) } := by
  obtain ⟨stage, frees⟩ := handshake.busy (by rw [unloading]; rfl)
  cases stage with
  | awarded _ detach late info handed =>
    refine ⟨by simpa [unloading] using handed, ?_⟩
    exact handshake.act frees rfl (by simp) handshake.stored id
      (.inr ⟨.closed 1 (by simp [detach]) late info (Nat.le_refl 1), rfl⟩)
  | _ => simp_all [State.Offered]

theorem read_handshake (reading : state.phase fiber = .reading op) :
    Handshake value count (state.goto fiber (.clearing op state.targetResult)) := by
  obtain ⟨stage, frees⟩ := handshake.busy (by rw [reading]; rfl)
  refine handshake.act frees rfl (by simp) handshake.stored id (.inl ?_)
  cases stage with
  | claimed _ claim detach offered out =>
    have stored := handshake.stored (by
      rcases offered with ⟨target, _⟩ | ⟨target, _⟩ <;> simp [target])
    exact .claimed fiber op detach offered (.inr ⟨_, by simp [State.goto], fun _ => stored⟩)
  | _ => simp_all [State.Offered]

theorem clear_handshake
    (clearing : state.phase fiber = .clearing op out) (moved : move state fiber = some after) :
    Handshake value count after := by
  obtain ⟨stage, frees⟩ := handshake.busy (by rw [clearing]; rfl)
  cases stage with
  | claimed _ claim detach offered handed =>
    obtain ⟨rfl, exact⟩ : op = claim ∧ (claim ≠ .detach → out = value) := by
      simpa [clearing, and_assoc] using handed
    rcases offered with ⟨target, info⟩ | ⟨target, info⟩
    · simp only [move, clearing, info] at moved
      cases moved
      exact handshake
    · simp only [move, clearing, info] at moved
      cases moved
      exact handshake.act frees rfl (by simp) handshake.stored id
        (.inl (.taken fiber _ out detach target rfl (by simp) exact))
  | _ => simp_all [State.Offered]

theorem claimed_handshake (scheduling : state.phase fiber = .scheduling op out party) :
    party = .target ∧ state.target = .parked ∧ (op ≠ .detach → out = value) ∧
      Handshake value (count + if op = .detach then 0 else 1)
        ((state.schedule party).goto fiber (.returned op .success out)) := by
  obtain ⟨stage, frees⟩ := handshake.busy (by rw [scheduling]; rfl)
  cases stage with
  | taken _ claim given detach target info phase handed =>
    obtain ⟨rfl, rfl, rfl⟩ : op = claim ∧ out = given ∧ party = .target := by
      simpa [scheduling] using phase
    refine ⟨rfl, target, handed, ?_⟩
    have stored := handshake.stored (by simp [target])
    have unparked : state.schedule .target = { state with target := .finishing } := by
      simp [State.schedule, target]
    rw [unparked]
    refine handshake.act frees rfl (by simp) (fun _ => stored) (fun _ => rfl) (.inr ⟨?_, rfl⟩)
    refine .closed _ ?_ rfl info ?_
    · rcases detach with found | found <;> simp [State.goto, found]
    · split <;> simp
  | _ => simp_all [State.Offered]

end

theorem succeeds_move (moved : move state fiber = some after) :
    succeeds state (.move fiber) = (after.phase fiber).outcome.any joined := by
  simp [succeeds, returns, moved]

theorem move_handshake (handshake : Handshake value count state)
    (allowed : clean state (.move fiber)) (moved : move state fiber = some after) :
    Handshake value (count + (succeeds state (.move fiber)).toNat) after := by
  rw [succeeds_move moved]
  have stepped := moved
  rw [move] at moved
  generalize phase : state.phase fiber = now at moved
  cases now with
  | idle | parked | returned => cases moved
  | testing op =>
    have free : (state.phase fiber).free := by rw [phase]; rfl
    cases moved
    split
    · simpa [State.goto, Phase.outcome, joined] using handshake.stroll free rfl (by simp)
    · split
      · simpa [State.goto, Phase.outcome] using handshake.stroll free rfl (by simp)
      · rename_i other
        simpa [State.goto, Phase.outcome] using handshake.stroll free rfl (by simp [other])
  | retesting =>
    have free : (state.phase fiber).free := by rw [phase]; rfl
    cases moved
    split
    · rename_i waits
      obtain ⟨actor, stage, _⟩ := handshake.staged
      simpa [State.goto, Phase.outcome] using
        handshake.stroll free rfl (fun _ => stage.not_early waits)
    · simpa [State.goto, Phase.outcome, joined] using handshake.stroll free rfl (by simp)
  | exchanging op =>
    simp only [clean, phase] at allowed
    cases moved
    have silent : ((exchanged op state.detachState : Phase Fiber Value).outcome.any joined) =
        false := by
      cases op <;> cases state.detachState <;> rfl
    simpa [silent] using exchange_handshake handshake phase allowed
  | parking =>
    cases moved
    simpa [Phase.outcome] using offering_handshake handshake phase
  | woken =>
    cases moved
    simpa [State.goto, Phase.outcome] using unload_handshake handshake phase
  | unloading out =>
    cases moved
    simpa [Phase.outcome, joined] using (joined_handshake handshake phase).2
  | reading op =>
    cases moved
    simpa [State.goto, Phase.outcome] using read_handshake handshake phase
  | clearing op out =>
    have kept := clear_handshake handshake phase stepped
    have silent : (after.phase fiber).outcome = none := by
      dsimp only at moved
      split at moved <;> cases moved <;> simp [phase, Phase.outcome]
    simpa [silent] using kept
  | scheduling op out party =>
    obtain ⟨rfl, target, _, kept⟩ := claimed_handshake handshake phase
    cases moved
    cases op <;> simpa [State.goto, Phase.outcome, joined] using kept

theorem successes_append (history : History Fiber Value) (action : Action Fiber) :
    successes (history ++ [(state, action)]) = successes history + (succeeds state action).toNat :=
  countP_snoc _ _ _

theorem step_handshake (handshake : Handshake value count state)
    (allowed : clean state action) (stepped : step value state action = some after) :
    Handshake value (count + (succeeds state action).toNat) after := by
  cases action with
  | call fiber op =>
    obtain ⟨rfl, free⟩ := step_call stepped
    cases op <;> exact handshake.stroll free rfl (by simp [Op.entry])
  | move fiber => exact move_handshake handshake allowed stepped
  | moveTarget => exact moveTarget_handshake handshake stepped

theorem run_handshake (run : (machine Fiber value).Run history state)
    (allowed : ∀ taken ∈ history, clean taken.1 taken.2) :
    Handshake value (successes history) state := by
  refine Machine.Run.invariant_of_allowed (fun state action => clean state action)
    (fun history state => Handshake value (successes history) state)
    (fun _ initial => initial ▸ init_handshake) ?_ run allowed
  intro history before action after _ handshake allowed stepped
  rw [successes_append]
  exact step_handshake handshake allowed stepped

end LibFiber.Join
