import LibFiber.Join.Competition

namespace LibFiber.Join

open Semantics Function

/-! One fiber that finishes and one that joins or detaches it. -/

section Naps

variable {Fiber Value : Type} {value : Option Value} {state after : State Fiber Value}
  {party : Party Fiber}

def Phase.asleep : Phase Fiber Value → Bool
  | .parking | .parked => true
  | .idle | .testing _ | .retesting | .exchanging _ | .woken | .unloading _ | .reading _
  | .clearing _ _ | .scheduling _ _ _ | .returned _ _ _ => false

/-- From its call of `fiber_manager_set_and_wait` until it is scheduled. -/
def State.asleep (state : State Fiber Value) : Party Fiber → Bool
  | .target => state.target.waits
  | .other fiber => (state.phase fiber).asleep

/-- The party that goes to sleep in the step: one whose exchange comes first. -/
def naps (state : State Fiber Value) : Action Fiber → Option (Party Fiber)
  | .call _ _ => none
  | .move fiber =>
    match state.phase fiber, state.detachState with
    | .exchanging .join, .none => some (.other fiber)
    | _, _ => none
  | .moveTarget =>
    match state.target, state.detachState with
    | .exchanging, .none => some .target
    | _, _ => none

theorem asleep_retarget (samePhase : after.phase = state.phase)
    (sameWaits : after.target.waits = state.target.waits) (party : Party Fiber) :
    after.asleep party = state.asleep party := by
  cases party with
  | target => exact sameWaits
  | other fiber => simp only [State.asleep, samePhase]

variable [DecidableEq Fiber]
variable {history : History Fiber Value} {given : Prop}

def napCount (party : Party Fiber) (history : History Fiber Value) : Nat :=
  history.countP fun taken => naps taken.1 taken.2 = some party

def wakeCount (party : Party Fiber) (history : History Fiber Value) : Nat :=
  history.countP fun taken => schedules taken.1 taken.2 = some party

/-- What a step does to the sleepers. -/
inductive Sleeps (state : State Fiber Value) (action : Action Fiber) (after : State Fiber Value) :
    Prop where
  | quiet : naps state action = none → schedules state action = none →
      (∀ party, after.asleep party = state.asleep party) → Sleeps state action after
  | nap (party : Party Fiber) : naps state action = some party → schedules state action = none →
      state.asleep party = false → after.asleep party →
      (∀ other, other ≠ party → after.asleep other = state.asleep other) → Sleeps state action after
  | wake (party : Party Fiber) : naps state action = none → schedules state action = some party →
      state.asleep party → after.asleep party = false →
      (∀ other, other ≠ party → after.asleep other = state.asleep other) → Sleeps state action after

theorem asleep_update (phase : after.phase = update state.phase fiber next)
    (sameWaits : after.target.waits = state.target.waits)
    (same : next.asleep = (state.phase fiber).asleep) (party : Party Fiber) :
    after.asleep party = state.asleep party := by
  cases party with
  | target => exact sameWaits
  | other other =>
    simp only [State.asleep, phase]
    by_cases moved : other = fiber
    · subst moved
      simpa using same
    · rw [update_of_ne moved]

theorem asleep_others (phase : after.phase = update state.phase fiber next)
    (sameWaits : after.target.waits = state.target.waits) (party : Party Fiber)
    (different : party ≠ .other fiber) : after.asleep party = state.asleep party := by
  cases party with
  | target => exact sameWaits
  | other other =>
    have apart : other ≠ fiber := fun same => different (congrArg Party.other same)
    simp only [State.asleep, phase, update_of_ne apart]

theorem moveTarget_sleeps (handshake : Handshake value count state)
    (moved : moveTarget value state = some after) : Sleeps state .moveTarget after := by
  rw [moveTarget] at moved
  generalize target : state.target = now at moved
  cases now with
  | running | handing | finishing | parking =>
    cases moved
    exact .quiet (by simp [naps, target]) (by simp [schedules, target])
      (asleep_retarget rfl (by rw [target]; rfl))
  | testing =>
    cases moved
    refine .quiet (by simp [naps, target]) (by simp [schedules, target])
      (asleep_retarget rfl ?_)
    rw [target]
    split <;> rfl
  | exchanging =>
    cases moved
    cases found : state.detachState with
    | none =>
      refine .nap .target (by simp [naps, target, found]) (by simp [schedules, target])
        (by simp [State.asleep, target, TargetPhase.waits])
        (by simp [State.asleep, TargetPhase.waits]) ?_
      intro other different
      cases other with
      | target => exact absurd rfl different
      | other fiber => rfl
    | waitForJoiner | waitToJoin | detached =>
      exact .quiet (by simp [naps, target, found]) (by simp [schedules, target])
        (asleep_retarget rfl (by rw [target]; rfl))
  | clearing =>
    dsimp only at moved
    split at moved <;> cases moved <;>
      exact .quiet (by simp [naps, target]) (by simp [schedules, target])
        (asleep_retarget rfl (by simp [target, TargetPhase.waits]))
  | scheduling party =>
    have scheduled : schedules state .moveTarget = some party := by simp [schedules, target]
    obtain ⟨parked, handed⟩ := handshake.scheduled scheduled
    cases party with
    | target => simp [State.Parked, target] at parked
    | other joiner =>
      have phase : state.phase joiner = .parked := parked
      simp only [State.schedule, phase, State.goto] at moved
      cases moved
      exact .wake (.other joiner) (by simp [naps, target]) scheduled
        (by simp [State.asleep, phase, Phase.asleep]) (by simp [State.asleep, Phase.asleep])
        (asleep_others rfl (by rw [target]; rfl))
  | parked | done => cases moved

theorem move_sleeps (handshake : Handshake value count state)
    (moved : move state fiber = some after) : Sleeps state (.move fiber) after := by
  rw [move] at moved
  generalize phase : state.phase fiber = now at moved
  cases now with
  | idle | parked | returned => cases moved
  | testing | retesting =>
    cases moved
    refine .quiet (by simp [naps, phase]) (by simp [schedules, phase])
      (asleep_update rfl rfl ?_)
    rw [phase]
    (repeat' split) <;> rfl
  | exchanging op =>
    cases moved
    cases found : state.detachState with
    | none =>
      cases op with
      | join =>
        exact .nap (.other fiber) (by simp [naps, phase, found]) (by simp [schedules, phase])
          (by simp [State.asleep, phase, Phase.asleep])
          (by simp [State.asleep, exchanged, Phase.asleep])
          (asleep_others rfl rfl)
      | tryjoin | detach =>
        exact .quiet (by simp [naps, phase]) (by simp [schedules, phase])
          (asleep_update rfl rfl (by rw [phase]; rfl))
    | waitForJoiner | waitToJoin | detached =>
      refine .quiet (by simp [naps, phase, found]) (by simp [schedules, phase])
        (asleep_update rfl rfl ?_)
      rw [phase]
      cases op <;> rfl
  | parking | woken | unloading | reading =>
    cases moved
    exact .quiet (by simp [naps, phase]) (by simp [schedules, phase])
      (asleep_update rfl rfl (by rw [phase]; rfl))
  | clearing op out =>
    have quiet : naps state (.move fiber) = none ∧ schedules state (.move fiber) = none := by
      simp [naps, schedules, phase]
    dsimp only at moved
    split at moved <;> cases moved
    · exact .quiet quiet.1 quiet.2 (asleep_update rfl rfl (by rw [phase]; rfl))
    · exact .quiet quiet.1 quiet.2 (fun _ => rfl)
  | scheduling op out party =>
    obtain ⟨rfl, target, _⟩ := claimed_handshake handshake phase
    simp only [State.schedule, target] at moved
    cases moved
    refine .wake .target (by simp [naps, phase]) (by simp [schedules, phase])
      (by simp [State.asleep, target, TargetPhase.waits])
      (by simp [State.asleep, State.goto, TargetPhase.waits]) ?_
    intro other different
    cases other with
    | target => exact absurd rfl different
    | other other =>
      simp only [State.asleep, State.goto]
      by_cases same : other = fiber
      · subst same
        simp [phase, Phase.asleep]
      · rw [update_of_ne same]

theorem step_sleeps (handshake : Handshake value count state)
    (stepped : step value state action = some after) : Sleeps state action after := by
  cases action with
  | call fiber op =>
    obtain ⟨rfl, free⟩ := step_call stepped
    refine .quiet rfl rfl (asleep_update rfl rfl ?_)
    cases phase : state.phase fiber <;> cases op <;> simp_all [Phase.free, Phase.asleep, Op.entry]
  | move fiber => exact move_sleeps handshake stepped
  | moveTarget => exact moveTarget_sleeps handshake stepped

theorem counts_append (history : History Fiber Value) (state : State Fiber Value)
    (action : Action Fiber) (party : Party Fiber) :
    napCount party (history ++ [(state, action)]) =
        napCount party history + (decide (naps state action = some party)).toNat ∧
      wakeCount party (history ++ [(state, action)]) =
        wakeCount party history + (decide (schedules state action = some party)).toNat :=
  ⟨countP_snoc _ history _, countP_snoc _ history _⟩

theorem run_sleeps (run : (machine Fiber value).Run history state)
    (allowed : ∀ taken ∈ history, clean taken.1 taken.2) (party : Party Fiber) :
    napCount party history = wakeCount party history + (state.asleep party).toNat := by
  induction run with
  | start initial =>
    subst initial
    cases party <;> rfl
  | @step history before after action run stepped ih =>
    obtain ⟨earlier, _⟩ := List.forall_mem_append.mp allowed
    obtain ⟨slept, woke⟩ := counts_append history before action party
    rw [slept, woke, ih earlier]
    cases step_sleeps (run_handshake run earlier) stepped with
    | quiet nap wake same => simp [nap, wake, same]
    | nap sleeper nap wake before after others | wake sleeper nap wake before after others =>
      by_cases own : party = sleeper
      · subst own
        simp [nap, wake, before, after]
      · simp [nap, wake, others party own, Ne.symm own]

theorem schedule_detachState (state : State Fiber Value) (party : Party Fiber) :
    (state.schedule party).detachState = state.detachState := by
  cases party with
  | target => cases target : state.target <;> simp only [State.schedule, target]
  | other fiber => cases phase : state.phase fiber <;> simp only [State.schedule, phase, State.goto]

theorem step_touched (stepped : step value state action = some after)
    (touched : state.detachState ≠ .none ∨ naps state action ≠ none) :
    after.detachState ≠ .none := by
  cases action with
  | call fiber op =>
    have written : state.detachState ≠ .none := by simpa [naps] using touched
    exact (step_call stepped).1 ▸ written
  | move fiber =>
    simp only [step] at stepped
    rw [move] at stepped
    generalize phase : state.phase fiber = now at stepped
    cases now with
    | exchanging op =>
      cases stepped
      cases op <;> simp [Op.stores]
    | idle | parked | returned => cases stepped
    | testing | retesting | parking | woken | unloading | reading | scheduling =>
      have written : state.detachState ≠ .none := by simpa [naps, phase] using touched
      cases stepped
      simpa [State.goto, schedule_detachState] using written
    | clearing =>
      have written : state.detachState ≠ .none := by simpa [naps, phase] using touched
      dsimp only at stepped
      split at stepped <;> cases stepped <;> exact written
  | moveTarget =>
    simp only [step] at stepped
    cases target : state.target with
    | exchanging =>
      simp only [moveTarget, target] at stepped
      cases stepped
      simp
    | parked | done => simp [moveTarget, target] at stepped
    | running | testing | parking | handing | scheduling | finishing =>
      have written : state.detachState ≠ .none := by simpa [naps, target] using touched
      simp only [moveTarget, target] at stepped
      cases stepped
      simpa [schedule_detachState] using written
    | clearing =>
      have written : state.detachState ≠ .none := by simpa [naps, target] using touched
      simp only [moveTarget, target] at stepped
      split at stepped <;> cases stepped <;> exact written

theorem run_naps (run : (machine Fiber value).Run history state) (party : Party Fiber) :
    napCount party history ≤ 1 ∧ (state.detachState = .none → napCount party history = 0) := by
  induction run with
  | start => exact ⟨Nat.zero_le _, fun _ => rfl⟩
  | @step history before after action run stepped ih =>
    rw [(counts_append history before action party).1]
    by_cases nap : naps before action = some party
    · have first : before.detachState = .none := by
        cases action with
        | call => cases nap
        | move fiber | moveTarget =>
          simp only [naps] at nap
          split at nap
          · assumption
          · cases nap
      have written := step_touched stepped (.inr (by simp [nap]))
      simp [ih.2 first, nap, written]
    · refine ⟨by simpa [nap] using ih.1, fun untouched => ?_⟩
      have before : before.detachState = .none := by
        by_contra touched
        exact step_touched stepped (.inl touched) untouched
      simpa [nap] using ih.2 before

/-- The result passes on in the step: from field to field, or to the reader. -/
def handsOver (state : State Fiber Value) : Action Fiber → Bool
  | .call _ _ => false
  | .move fiber =>
    match state.phase fiber with
    | .reading _ => true
    | _ => false
  | .moveTarget =>
    match state.target with
    | .handing _ => true
    | _ => false

def detaches (state : State Fiber Value) : Action Fiber → Bool
  | .call _ _ | .moveTarget => false
  | .move fiber =>
    match state.phase fiber with
    | .exchanging .detach => true
    | _ => false

def provides (state : State Fiber Value) (action : Action Fiber) : Bool :=
  handsOver state action || detaches state action

def Phase.informed : Phase Fiber Value → Bool
  | .clearing _ _ | .scheduling _ _ _ => true
  | .idle | .testing _ | .retesting | .exchanging _ | .parking | .parked | .woken | .unloading _
  | .reading _ | .returned _ _ _ => false

def TargetPhase.informed : TargetPhase Fiber → Bool
  | .scheduling _ | .finishing | .done => true
  | .running | .testing | .exchanging | .parking | .parked | .clearing | .handing _ => false

/-- Where it follows that the result has been handed over or is not wanted. -/
structure Provided (given : Prop) (state : State Fiber Value) : Prop where
  target : state.target.informed → given
  phase : ∀ fiber, (state.phase fiber).informed → given
  detached : state.detachState = .detached → given

omit [DecidableEq Fiber] in
theorem Provided.retarget {later : Prop} (provided : Provided given state)
    (samePhase : after.phase = state.phase) (target : after.target.informed → given ∨ later)
    (detached : after.detachState = .detached → state.detachState = .detached) :
    Provided (given ∨ later) after where
  target := target
  phase fiber informed := .inl (provided.phase fiber (samePhase ▸ informed))
  detached found := .inl (provided.detached (detached found))

theorem moveTarget_provided (handshake : Handshake value count state)
    (provided : Provided given state) (moved : moveTarget value state = some after) :
    Provided (given ∨ provides state .moveTarget) after := by
  rw [moveTarget] at moved
  generalize target : state.target = current at moved
  cases current with
  | running | parking =>
    cases moved
    exact provided.retarget rfl (by simp [TargetPhase.informed]) id
  | testing =>
    cases moved
    refine provided.retarget rfl (fun informed => .inl ?_) id
    by_cases found : state.detachState = .detached
    · exact provided.detached found
    · simp [found, TargetPhase.informed] at informed
  | exchanging =>
    obtain ⟨actor, stage, _⟩ := handshake.staged
    cases moved
    refine provided.retarget rfl (fun informed => .inl ?_) (by simp)
    cases found : state.detachState with
    | none | waitToJoin => simp [found, TargetPhase.informed] at informed
    | detached => exact provided.detached found
    | waitForJoiner =>
      have past := stage.not_early found
      simp [target, TargetPhase.early] at past
  | clearing =>
    dsimp only at moved
    split at moved <;> cases moved
    · exact provided.retarget rfl (by simp [TargetPhase.informed]) id
    · exact provided.retarget rfl (by simp [target, TargetPhase.informed]) id
  | handing party =>
    have now : provides state .moveTarget := by simp [provides, handsOver, target]
    cases moved
    exact provided.retarget rfl (fun _ => .inr now) id
  | scheduling party | finishing =>
    have given := provided.target (by rw [target]; rfl)
    exact ⟨fun _ => .inl given, fun _ _ => .inl given, fun _ => .inl given⟩
  | parked | done => cases moved

theorem Provided.update {later : Prop}
    (provided : Provided given state) (phase : after.phase = update state.phase fiber next)
    (sameTarget : after.target = state.target) (informed : next.informed → given ∨ later)
    (detached : after.detachState = .detached → given ∨ later) :
    Provided (given ∨ later) after where
  target found := .inl (provided.target (sameTarget ▸ found))
  phase other found := by
    rw [phase] at found
    by_cases same : other = fiber
    · subst same
      exact informed (by simpa using found)
    · rw [update_of_ne same] at found
      exact .inl (provided.phase other found)
  detached := detached

theorem move_provided (provided : Provided given state) (moved : move state fiber = some after) :
    Provided (given ∨ provides state (.move fiber)) after := by
  have detached : state.detachState = .detached → given ∨ provides state (.move fiber) :=
    fun found => .inl (provided.detached found)
  rw [move] at moved
  generalize phase : state.phase fiber = current at moved
  cases current with
  | idle | parked | returned => cases moved
  | testing | retesting =>
    cases moved
    refine provided.update rfl rfl (fun informed => ?_) detached
    (repeat' split at informed) <;> cases informed
  | exchanging op =>
    cases moved
    cases op with
    | detach =>
      have now : provides state (.move fiber) := by
        simp [provides, detaches, phase]
      exact provided.update rfl rfl (fun _ => .inr now) (fun _ => .inr now)
    | join | tryjoin =>
      refine provided.update rfl rfl (fun informed => ?_) (by simp [Op.stores])
      cases found : state.detachState <;> simp [found, exchanged, Phase.informed] at informed
  | parking | woken | unloading =>
    cases moved
    exact provided.update rfl rfl (by simp [Phase.informed]) detached
  | reading op =>
    have now : provides state (.move fiber) := by simp [provides, handsOver, phase]
    cases moved
    exact provided.update rfl rfl (fun _ => .inr now) detached
  | clearing | scheduling =>
    have given := provided.phase fiber (by rw [phase]; rfl)
    exact ⟨fun _ => .inl given, fun _ _ => .inl given, fun _ => .inl given⟩

theorem run_provided (run : (machine Fiber value).Run history state)
    (allowed : ∀ taken ∈ history, clean taken.1 taken.2) :
    Provided (∃ taken ∈ history, provides taken.1 taken.2) state := by
  induction run with
  | start initial =>
    subst initial
    exact ⟨by simp [init, TargetPhase.informed], by simp [init, Phase.informed], by simp [init]⟩
  | @step history before after action run stepped ih =>
    obtain ⟨earlier, _⟩ := List.forall_mem_append.mp allowed
    have provided := ih earlier
    have extend : Provided ((∃ taken ∈ history, provides taken.1 taken.2) ∨
        provides before action) after := by
      cases action with
      | call fiber op =>
        obtain ⟨rfl, _⟩ :=
          step_call (show step value before (.call fiber op) = some after from stepped)
        refine provided.update rfl rfl ?_ (fun found => .inl (provided.detached found))
        cases op <;> simp [Op.entry, Phase.informed]
      | move fiber => exact move_provided provided stepped
      | moveTarget => exact moveTarget_provided (run_handshake run earlier) provided stepped
    simpa [or_and_right, exists_or] using extend

/-- The other fiber makes one call, or calls `fiber_tryjoin` until it succeeds. -/
def single (state : State Fiber Value) : Action Fiber → Bool
  | .call fiber op =>
    match state.phase fiber with
    | .idle => true
    | .returned .tryjoin .error _ => op == .tryjoin
    | _ => false
  | .move _ | .moveTarget => true

/-- The fiber has not exchanged `detach_state` yet. -/
def Phase.before : Phase Fiber Value → Bool
  | .idle | .testing _ | .retesting | .exchanging _ | .returned .tryjoin .error _ => true
  | .parking | .parked | .woken | .unloading _ | .reading _ | .clearing _ _ | .scheduling _ _ _
  | .returned .tryjoin .success _ | .returned .join _ _ | .returned .detach _ _ => false

section Pair

variable {state after : State Unit Value}

/-- `detach_state` tells whether the other fiber has exchanged it. -/
def Told (state : State Unit Value) : Prop :=
  (state.phase ()).before ↔
    state.detachState = .none ∨ (state.detachState = .waitForJoiner ∧ state.target.waits)

theorem Told.clean (told : Told state) (action : Action Unit) : clean state action := by
  cases action with
  | call | moveTarget => rfl
  | move fiber =>
    cases phase : state.phase fiber with
    | exchanging op =>
      have found := told.mp (by rw [phase]; rfl)
      rcases found with found | ⟨found, waits⟩ <;>
        simp_all [Join.clean, State.allows]
    | _ => simp [Join.clean, phase]

theorem moveTarget_told (handshake : Handshake value count state) (told : Told state)
    (moved : moveTarget value state = some after) : Told after := by
  unfold Told at told ⊢
  rw [moveTarget] at moved
  generalize target : state.target = now at moved
  cases now with
  | running | handing | finishing | parking =>
    cases moved
    simpa [target, TargetPhase.waits] using told
  | testing =>
    cases moved
    rw [told, target]
    by_cases found : state.detachState = .detached <;> simp [found, TargetPhase.waits]
  | exchanging =>
    cases moved
    rw [told, target]
    cases state.detachState <;> simp [TargetPhase.waits]
  | clearing =>
    dsimp only at moved
    split at moved <;> cases moved <;> simpa [target, TargetPhase.waits] using told
  | scheduling party =>
    obtain ⟨parked, handed⟩ := handshake.scheduled
      (show schedules state .moveTarget = some party by simp [schedules, target])
    cases party with
    | target => simp [State.Parked, target] at parked
    | other joiner =>
      have phase : state.phase () = .parked := parked
      simp only [State.schedule, phase, State.goto] at moved
      cases moved
      simpa [phase, Phase.before, target, TargetPhase.waits] using told
  | parked | done => cases moved

theorem Told.goto {next : Phase Unit Value} (told : Told state)
    (same : next.before = (state.phase ()).before) : Told (state.goto () next) := by
  unfold Told at told ⊢
  simpa [State.goto, same] using told

theorem move_told (handshake : Handshake value count state) (told : Told state)
    (moved : move state () = some after) : Told after := by
  rw [move] at moved
  generalize phase : state.phase () = now at moved
  cases now with
  | idle | parked | returned => cases moved
  | testing op =>
    have found := told.mp (by rw [phase]; rfl)
    have attached : state.detachState ≠ .detached := by
      rcases found with found | ⟨found, _⟩ <;> simp [found]
    simp only [if_neg attached] at moved
    cases moved
    split <;> exact told.goto (by rw [phase]; rfl)
  | retesting =>
    cases moved
    split <;> exact told.goto (by rw [phase]; rfl)
  | exchanging op =>
    have found := told.mp (by rw [phase]; rfl)
    cases moved
    unfold Told
    rcases found with found | ⟨found, _⟩
    · cases op with
      | join | detach => simp [found, exchanged, Phase.before, Op.stores]
      | tryjoin =>
        obtain ⟨actor, stage, _⟩ := handshake.staged
        have past := handshake.tried () phase
        simp [stage.early_of_none found] at past
    · cases op <;> simp [found, exchanged, Phase.before, Op.stores]
  | parking | unloading out =>
    cases moved
    unfold Told at told ⊢
    simpa [phase, Phase.before] using told
  | woken | reading =>
    cases moved
    exact told.goto (by rw [phase]; rfl)
  | clearing op out =>
    dsimp only at moved
    split at moved <;> cases moved
    · unfold Told at told ⊢
      simpa [phase, Phase.before] using told
    · exact told
  | scheduling op out party =>
    obtain ⟨rfl, target, _⟩ := claimed_handshake handshake phase
    simp only [State.schedule, target] at moved
    cases moved
    unfold Told at told ⊢
    have closed : ¬ (state.detachState = .none ∨
        (state.detachState = .waitForJoiner ∧ state.target.waits)) :=
      told.not.mp (by simp [phase, Phase.before])
    have written : state.detachState ≠ .none := fun untouched => closed (.inl untouched)
    cases op <;> simp [State.goto, Phase.before, TargetPhase.waits, written]

theorem step_told {action : Action Unit} (handshake : Handshake value count state)
    (told : Told state) (calls : single state action)
    (stepped : step value state action = some after) : Told after := by
  cases action with
  | call fiber op =>
    obtain ⟨rfl, _⟩ := step_call stepped
    have before : (state.phase ()).before := by
      simp only [single] at calls
      split at calls <;> simp_all [Phase.before]
    refine told.goto ?_
    rw [before]
    cases op <;> rfl
  | move fiber => exact move_told handshake told stepped
  | moveTarget => exact moveTarget_told handshake told stepped

theorem run_told {history : History Unit Value} (run : (machine Unit value).Run history state)
    (calls : ∀ taken ∈ history, single taken.1 taken.2) :
    Told state ∧ ∀ taken ∈ history, clean taken.1 taken.2 := by
  induction run with
  | start initial =>
    subst initial
    exact ⟨by simp [Told, init, Phase.before], by simp⟩
  | @step history before after action run stepped ih =>
    obtain ⟨told, allowed⟩ := ih (fun taken member => calls taken (List.mem_append_left _ member))
    refine ⟨step_told (run_handshake run allowed) told (calls (before, action) (by simp)) stepped,
      ?_⟩
    intro taken member
    rcases List.mem_append.mp member with old | last
    · exact allowed taken old
    · obtain rfl := List.mem_singleton.mp last
      exact told.clean action

/-- Nothing is left to do but to make another call. -/
def Still (value : Option Value) (state : State Unit Value) : Prop :=
  (∀ after, move state () = some after → after = state) ∧
    ∀ after, moveTarget value state = some after → after = state

theorem Still.target_cases (still : Still value state) :
    state.target = .parked ∨ state.target = .done ∨
      (state.target = .clearing ∧ state.joinInfo = none) := by
  have stays := still.2
  cases target : state.target with
  | parked => exact .inl rfl
  | done => exact .inr (.inl rfl)
  | clearing =>
    cases info : state.joinInfo with
    | none => exact .inr (.inr ⟨rfl, rfl⟩)
    | some party =>
      have same := congrArg State.target (stays _ (by simp only [moveTarget, target, info]; rfl))
      simp [target] at same
  | testing =>
    have same := congrArg State.target (stays _ (by simp only [moveTarget, target]; rfl))
    by_cases found : state.detachState = .detached <;> simp [target, found] at same
  | exchanging =>
    have same := congrArg State.target (stays _ (by simp only [moveTarget, target]; rfl))
    cases found : state.detachState <;> simp [target, found] at same
  | running | parking | handing | scheduling | finishing =>
    have same := congrArg State.target (stays _ (by simp only [moveTarget, target]; rfl))
    simp [target] at same

theorem Still.phase_cases (still : Still value state) :
    (state.phase ()).free ∨ state.phase () = .parked ∨
      (∃ op out, state.phase () = .clearing op out) ∧ state.joinInfo = none := by
  have stays := still.1
  cases phase : state.phase () with
  | idle | testing | retesting | exchanging | returned => exact .inl rfl
  | parked => exact .inr (.inl rfl)
  | clearing op out =>
    cases info : state.joinInfo with
    | none => exact .inr (.inr ⟨⟨op, out, rfl⟩, rfl⟩)
    | some party =>
      have same := congrArg (fun after => State.phase after ())
        (stays _ (by simp only [move, phase, info]; rfl))
      simp [phase] at same
  | parking | woken | unloading | reading | scheduling =>
    have same := congrArg (fun after => State.phase after ())
      (stays _ (by simp only [move, phase]; rfl))
    simp [phase, State.goto] at same

theorem still_done (handshake : Handshake value count state) (told : Told state)
    (still : Still value state) (exchanged : (state.phase ()).before = false) :
    state.target = .done ∧ ∀ party, state.asleep party = false := by
  have closed : ¬ (state.detachState = .none ∨
      (state.detachState = .waitForJoiner ∧ state.target.waits)) :=
    told.not.mp (by simp [exchanged])
  have targets := still.target_cases
  have phases := still.phase_cases
  obtain ⟨actor, stage, frees⟩ := handshake.staged
  cases stage with
  | untouched found => exact absurd (.inl found) closed
  | waiting found offered =>
    have waits : state.target.waits := by
      rcases offered with ⟨target, _⟩ | ⟨target, _⟩ <;> rw [target] <;> rfl
    exact absurd (.inr ⟨found, waits⟩) closed
  | abandoned _ early | awaited _ _ early =>
    rcases targets with target | target | ⟨target, _⟩ <;> simp [target, TargetPhase.early] at early
  | met joiner _ target offered =>
    rcases offered with ⟨phase, _⟩ | ⟨phase, info⟩
    · simp [show state.phase () = .parking from phase, Phase.free] at phases
    · simp [target, info] at targets
  | handing _ _ target | handed _ _ target => simp [target] at targets
  | awarded joiner _ _ _ out =>
    rcases out with ⟨phase, _⟩ | phase
    · simp [show state.phase () = .woken from phase, Phase.free] at phases
    · simp [show state.phase () = .unloading value from phase, Phase.free] at phases
  | claimed fiber op _ offered out =>
    rcases out with ⟨phase, _⟩ | ⟨given, phase, _⟩
    · simp [show state.phase () = .reading op from phase, Phase.free] at phases
    · rcases offered with ⟨target, info⟩ | ⟨target, info⟩
      · simp [target] at targets
      · simp [show state.phase () = .clearing op given from phase, Phase.free, info] at phases
  | taken fiber op out _ _ _ phase =>
    simp [show state.phase () = .scheduling op out .target from phase, Phase.free] at phases
  | closed _ _ late =>
    have target : state.target = .done := by
      rcases targets with target | target | ⟨target, _⟩ <;> simp_all [TargetPhase.late]
    refine ⟨target, fun party => ?_⟩
    cases party with
    | target => simp [State.asleep, target, TargetPhase.waits]
    | other fiber =>
      have free := frees fiber (by simp)
      cases phase : state.phase fiber <;> simp_all [State.asleep, Phase.free, Phase.asleep]

end Pair

end Naps

section Refusals

variable {Value : Type} {value : Option Value}

/-- One fiber that finishes and one that joins it, tries to until it succeeds,
or detaches it, while no yield is refused.  A successful join gets the value the
fiber finished with; a party is scheduled only when its entry has been stored, and
once for the one time it can go to sleep; the fiber is done only after its result was
handed over or it was detached; and when nothing is left to do after the exchange of
the other fiber, nobody sleeps any more. -/
theorem join_handshake (run : (refusing Unit value).Run history state)
    (granted : ∀ taken ∈ history, taken.2.isLeft)
    (calls : ∀ taken ∈ ordinary history, single taken.1 taken.2) :
    (∀ taken ∈ ordinary history, ∀ outcome, returns taken.1 taken.2 = some outcome →
        joined outcome → outcome.2.2 = value) ∧
      (∀ taken ∈ ordinary history, ∀ party, schedules taken.1 taken.2 = some party →
        taken.1.Parked party) ∧
      (∀ party, napCount party (ordinary history) =
          wakeCount party (ordinary history) + (state.1.asleep party).toNat ∧
        napCount party (ordinary history) ≤ 1) ∧
      (Still value state.1 → (state.1.phase ()).before = false →
        state.1.target = .done ∧
          ∀ party, napCount party (ordinary history) = wakeCount party (ordinary history)) ∧
      (state.1.target = .done → ∃ taken ∈ ordinary history, handsOver taken.1 taken.2 ∨
        detaches taken.1 taken.2) := by
  obtain ⟨run, _⟩ := run.of_faultless granted
  obtain ⟨told, allowed⟩ := run_told run calls
  refine ⟨?_, ?_, ?_, ?_, ?_⟩
  · intro taken member outcome ends success
    obtain ⟨count, before⟩ := run_taken run allowed member
    exact before.returned ends success
  · intro taken member party scheduled
    obtain ⟨count, before⟩ := run_taken run allowed member
    exact (before.scheduled scheduled).1
  · exact fun party => ⟨run_sleeps run allowed party, (run_naps run party).1⟩
  · intro still exchanged
    obtain ⟨target, awake⟩ := still_done (run_handshake run allowed) told still exchanged
    refine ⟨target, fun party => ?_⟩
    simpa [awake party] using run_sleeps run allowed party
  · intro target
    have provided := (run_provided run allowed).target (by rw [target]; rfl)
    simpa [provides] using provided

/-- The other fiber tries too early, then finds the fiber waiting for it. -/
def retried : List (Action Unit ⊕ Refusal (Party Unit)) :=
  [.call () .tryjoin, .move (), .move (), .moveTarget, .moveTarget, .moveTarget,
    .call () .tryjoin, .move (), .move (), .move (), .move (), .moveTarget, .move (), .move (),
    .moveTarget].map .inl

theorem join_handshake_retried : ∃ history state,
    (refusing Unit (some true)).Run history state ∧ (∀ taken ∈ history, taken.2.isLeft) ∧
      (∀ taken ∈ ordinary history, single taken.1 taken.2) ∧
      state.1.phase () = .returned .tryjoin .success (some true) ∧ state.1.target = .done ∧
      ∃ taken ∈ ordinary history, handsOver taken.1 taken.2 ∨ detaches taken.1 taken.2 := by
  have run := Machine.run_of_isSome
    (show (refusing Unit (some true)).initial (init, fun _ => ⟨false, false⟩) from ⟨rfl, rfl⟩)
    (show ((refusing Unit (some true)).exec _ retried).isSome by decide)
  have calls : ∀ taken ∈ ordinary ((refusing Unit (some true)).trail
      (init, fun _ => ⟨false, false⟩) retried), single taken.1 taken.2 := by
    decide
  have done : (((refusing Unit (some true)).exec (init, fun _ => ⟨false, false⟩) retried).get
      (by decide)).1.target = .done := by
    decide
  exact ⟨_, _, run, by decide, calls, by decide, done,
    (join_handshake run (by decide) calls).2.2.2.2 done⟩

/-- The yield of a join is refused, which then returns. -/
def refused : List (Action Unit ⊕ Refusal (Party Unit)) :=
  [.inl (.call () .join), .inl (.move ()), .inl (.move ()), .inr (.refuse (.other ())),
    .inl (.move ()), .inl (.move ())]

theorem join_handshake_refused : ∃ history state,
    (refusing Unit (some true)).Run history state ∧
      (∀ taken ∈ ordinary history, single taken.1 taken.2) ∧
      state.1.phase () = .returned .join .success none ∧ state.1.target = .running := by
  have run := Machine.run_of_isSome
    (show (refusing Unit (some true)).initial (init, fun _ => ⟨false, false⟩) from ⟨rfl, rfl⟩)
    (show ((refusing Unit (some true)).exec _ refused).isSome by decide)
  exact ⟨_, _, run, by decide, by decide, by decide⟩

end Refusals

end LibFiber.Join
