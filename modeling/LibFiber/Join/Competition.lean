import LibFiber.Join.Handshake

namespace LibFiber.Join

open Semantics Function

/-! Any number of fibers that join or detach one fiber. -/

section Exchanges

variable {Fiber Value : Type} {value : Option Value} {state : State Fiber Value} {fiber : Fiber}

/-- The party sleeps and its entry has been stored. -/
def State.Parked (state : State Fiber Value) : Party Fiber → Prop
  | .target => state.target = .parked
  | .other fiber => state.phase fiber = .parked

/-- The finishing fiber is going to look for the waiting joiner, or has it. -/
def State.Heads (state : State Fiber Value) (fiber : Fiber) : Prop :=
  (state.target.early ∧ state.detachState = .waitToJoin) ∨ state.target = .clearing ∨
    state.target = .handing (.other fiber) ∨ state.target = .scheduling (.other fiber)

theorem Handshake.offered (handshake : Handshake value count state)
    (clearing : state.target = .clearing) : ∃ joiner, state.Offered joiner := by
  obtain ⟨actor, stage, _⟩ := handshake.staged
  cases stage with
  | met joiner _ _ offered => exact ⟨joiner, offered⟩
  | _ => simp_all [State.TargetOffered, TargetPhase.early, TargetPhase.late]

theorem Handshake.targetOffered
    (handshake : Handshake value count state) (clearing : state.phase fiber = .clearing op out) :
    state.TargetOffered := by
  obtain ⟨stage, _⟩ := handshake.busy (by rw [clearing]; rfl)
  cases stage with
  | claimed _ _ _ offered => exact offered
  | _ => simp_all [State.Offered]

theorem Handshake.heads (handshake : Handshake value count state)
    (parked : state.phase fiber = .parked) : state.Heads fiber := by
  obtain ⟨stage, _⟩ := handshake.busy (by rw [parked]; rfl)
  cases stage with
  | awaited _ detach early _ => exact .inl ⟨early, detach⟩
  | met _ _ target _ => exact .inr (.inl target)
  | handing _ _ target _ _ => exact .inr (.inr (.inl target))
  | handed _ _ target _ _ _ => exact .inr (.inr (.inr target))
  | _ => simp_all

variable [DecidableEq Fiber]

theorem Handshake.scheduled
    (handshake : Handshake value count state) (scheduled : schedules state action = some party) :
    state.Parked party ∧ ∀ joiner, party = .other joiner → state.result joiner = value := by
  cases action with
  | call => cases scheduled
  | move fiber =>
    cases phase : state.phase fiber <;> simp only [schedules, phase, reduceCtorEq] at scheduled
    cases scheduled
    obtain ⟨rfl, parked, _⟩ := claimed_handshake handshake phase
    exact ⟨parked, by simp⟩
  | moveTarget =>
    cases target : state.target <;> simp only [schedules, target, reduceCtorEq] at scheduled
    cases scheduled
    obtain ⟨actor, stage, _⟩ := handshake.staged
    cases stage with
    | handed joiner _ at' _ parked result =>
      obtain rfl : party = .other joiner := by simpa [target] using at'
      exact ⟨parked, fun other same => by cases same; exact result⟩
    | _ => simp_all [State.TargetOffered, TargetPhase.early, TargetPhase.late]

theorem Handshake.returned
    (handshake : Handshake value count state) (returned : returns state action = some outcome)
    (success : joined outcome) : outcome.2.2 = value := by
  cases action with
  | call | moveTarget => cases returned
  | move fiber =>
    obtain ⟨after, moved, ends⟩ := Option.bind_eq_some_iff.mp returned
    rw [move] at moved
    generalize phase : state.phase fiber = now at moved
    cases now with
    | unloading out =>
      obtain ⟨exact, _⟩ := joined_handshake handshake phase
      cases moved
      simp only [update_self, Phase.outcome] at ends
      cases ends
      exact exact
    | scheduling op out party =>
      obtain ⟨rfl, _, exact, _⟩ := claimed_handshake handshake phase
      cases moved
      simp only [State.goto, update_self, Phase.outcome] at ends
      cases ends
      refine exact ?_
      rintro rfl
      cases success
    | idle | parked | returned => cases moved
    | testing op =>
      cases moved
      simp only [State.goto, update_self] at ends
      split at ends
      · cases ends
        cases op <;> cases success
      · split at ends <;> cases ends
    | retesting =>
      cases moved
      simp only [State.goto, update_self] at ends
      split at ends
      · cases ends
      · cases ends
        cases success
    | exchanging op =>
      cases moved
      simp only [update_self] at ends
      cases op <;> cases found : state.detachState <;>
        simp only [exchanged, found, Phase.outcome, reduceCtorEq, Option.some.injEq] at ends <;>
        subst ends <;> simp [joined] at success
    | parking | woken | reading =>
      cases moved
      simp [State.goto, Phase.outcome] at ends
    | clearing =>
      dsimp only at moved
      split at moved <;> cases moved <;> simp [phase, Phase.outcome] at ends

variable {history : History Fiber Value}

theorem run_taken (run : (machine Fiber value).Run history state)
    (allowed : ∀ taken ∈ history, clean taken.1 taken.2) {taken : State Fiber Value × Action Fiber}
    (member : taken ∈ history) : ∃ count, Handshake value count taken.1 := by
  obtain ⟨earlier, within, run⟩ := run.run_of_mem member
  exact ⟨_, run_handshake run fun taken member => allowed taken (within member)⟩

end Exchanges

section Refusals

variable {Fiber Value : Type} [DecidableEq Fiber] {value : Option Value}

/-- In every run whose exchanges are all clean and whose yields are all granted: at
most one join or tryjoin succeeds, it gets the result of the fiber, no joiner is
woken without that result, and nobody waits for an entry that does not come. -/
theorem joiners_compete (run : (refusing Fiber value).Run history state)
    (granted : ∀ taken ∈ history, taken.2.isLeft)
    (allowed : ∀ taken ∈ ordinary history, clean taken.1 taken.2) :
    successes (ordinary history) ≤ 1 ∧
      (∀ taken ∈ ordinary history, ∀ outcome, returns taken.1 taken.2 = some outcome →
        joined outcome → outcome.2.2 = value) ∧
      (∀ taken ∈ ordinary history, ∀ joiner,
        schedules taken.1 taken.2 = some (.other joiner) → taken.1.result joiner = value) ∧
      (∀ fiber op out, state.1.phase fiber = .clearing op out → state.1.TargetOffered) ∧
      (∀ fiber, state.1.phase fiber = .parked → state.1.Heads fiber) ∧
      (state.1.target = .clearing → ∃ joiner, state.1.Offered joiner) := by
  obtain ⟨run, _⟩ := run.of_faultless granted
  have handshake := run_handshake run allowed
  refine ⟨?_, ?_, ?_, ?_, ?_, handshake.offered⟩
  · obtain ⟨actor, stage, _⟩ := handshake.staged
    generalize successes (ordinary history) = count at stage
    cases stage with
    | closed _ _ _ _ bound => exact bound
    | _ => exact Nat.zero_le _
  · intro taken member outcome ends success
    obtain ⟨count, before⟩ := run_taken run allowed member
    exact before.returned ends success
  · intro taken member joiner scheduled
    obtain ⟨count, before⟩ := run_taken run allowed member
    exact (before.scheduled scheduled).2 joiner rfl
  · exact fun fiber op out clearing => handshake.targetOffered clearing
  · exact fun fiber parked => handshake.heads parked

/-- The first fiber waits for the fiber to finish, the second comes too late. -/
def contended {Fiber : Type} (first second : Fiber) :
    List (Action Fiber ⊕ Refusal (Party Fiber)) :=
  [.call first .join, .move first, .call second .join, .move second, .move first, .move second,
    .move first, .moveTarget, .moveTarget, .moveTarget, .moveTarget, .moveTarget, .moveTarget,
    .move first, .move first].map .inl

theorem joiners_compete_contended : ∃ history state,
    (refusing (Fin 2) (some true)).Run history state ∧ (∀ taken ∈ history, taken.2.isLeft) ∧
      (∀ taken ∈ ordinary history, clean taken.1 taken.2) ∧
      state.1.phase 0 = .returned .join .success (some true) ∧
      state.1.phase 1 = .returned .join .error none ∧ successes (ordinary history) = 1 ∧
      successes (ordinary history) ≤ 1 := by
  have run := Machine.run_of_isSome
    (show (refusing (Fin 2) (some true)).initial (init, fun _ => ⟨false, false⟩) from ⟨rfl, rfl⟩)
    (show ((refusing (Fin 2) (some true)).exec _ (contended 0 1)).isSome by decide)
  have granted : ∀ taken ∈ (refusing (Fin 2) (some true)).trail (init, fun _ => ⟨false, false⟩)
      (contended 0 1), taken.2.isLeft := by
    decide
  have allowed : ∀ taken ∈ ordinary ((refusing (Fin 2) (some true)).trail
      (init, fun _ => ⟨false, false⟩) (contended 0 1)), clean taken.1 taken.2 := by
    decide
  exact ⟨_, _, run, granted, allowed, by decide, by decide, by decide,
    (joiners_compete run granted allowed).1⟩

/-- A first fiber waits for the fiber to finish.  The fiber says that it has found
the joiner with the same word as if it were waiting itself: a second one takes the
entry of the first and wakes it, and the fiber goes on looking for it. -/
def stolen {Fiber : Type} (first second : Fiber) : List (Action Fiber ⊕ Refusal (Party Fiber)) :=
  [.moveTarget, .moveTarget, .call first .join, .move first, .move first, .moveTarget,
    .move first, .call second .join, .move second, .move second, .move second, .move second,
    .move second, .move first, .move first].map .inl

theorem joiners_compete_stolen : ∃ history state,
    (refusing (Fin 2) (some true)).Run history state ∧
      (∀ taken ∈ history, taken.2.isLeft) ∧ successes (ordinary history) = 2 ∧
      state.1.phase 0 = .returned .join .success none ∧
      state.1.phase 1 = .returned .join .success (some true) ∧
      state.1.target = .clearing ∧ state.1.joinInfo = none ∧
      ∀ fiber, state.1.phase fiber ≠ .parking := by
  have run := Machine.run_of_isSome
    (show (refusing (Fin 2) (some true)).initial (init, fun _ => ⟨false, false⟩) from ⟨rfl, rfl⟩)
    (show ((refusing (Fin 2) (some true)).exec _ (stolen 0 1)).isSome by decide)
  exact ⟨_, _, run, by decide, by decide, by decide, by decide, by decide, by decide, by decide⟩

end Refusals

end LibFiber.Join
