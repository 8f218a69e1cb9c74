import LibFiber.Semantics.Machine

namespace LibFiber.Semantics

/-! A machine whose surroundings may let it down.

The machine is kept as it is.  Beside its state there is what earlier faults
have left behind, which may forbid a step of the machine or be cleared up by it.
-/

structure Faults (σ α δ φ : Type) where
  nothing : δ
  /-- What is left after a step of the machine, if that may be taken now. -/
  ordinary : σ → δ → α → Option δ
  fault : σ → δ → φ → Option (σ × δ)
  quiet : ∀ state action left, ordinary state nothing action = some left → left = nothing

variable {σ α δ φ : Type}

/-- The steps of the machine itself. -/
def ordinary (history : List ((σ × δ) × (α ⊕ φ))) : List (σ × α) :=
  history.filterMap fun taken => taken.2.getLeft?.map (taken.1.1, ·)

namespace Machine

def withFaults (machine : Machine σ α) (faults : Faults σ α δ φ) :
    Machine (σ × δ) (α ⊕ φ) where
  initial state := machine.initial state.1 ∧ state.2 = faults.nothing
  step state
    | .inl action =>
      (faults.ordinary state.1 state.2 action).bind fun left =>
        (machine.step state.1 action).map (·, left)
    | .inr fault => faults.fault state.1 state.2 fault

variable {machine : Machine σ α} {faults : Faults σ α δ φ} {history : List ((σ × δ) × (α ⊕ φ))}
  {state : σ × δ}

/-- Without a fault the machine runs as if there were none. -/
theorem Run.of_faultless (run : (machine.withFaults faults).Run history state)
    (faultless : ∀ taken ∈ history, taken.2.isLeft) :
    machine.Run (ordinary history) state.1 ∧ state.2 = faults.nothing := by
  refine Run.invariant_of_allowed (fun _ action => action.isLeft)
    (fun history state => machine.Run (ordinary history) state.1 ∧ state.2 = faults.nothing)
    ?_ ?_ run faultless
  · intro state initial
    exact ⟨.start initial.1, initial.2⟩
  · intro history before action after _ earlier left stepped
    obtain ⟨earlier, nothing⟩ := earlier
    cases action with
    | inr fault => cases left
    | inl action =>
      obtain ⟨left, permitted, taken⟩ := Option.bind_eq_some_iff.mp stepped
      obtain ⟨next, moved, rfl⟩ := Option.map_eq_some_iff.mp taken
      rw [nothing] at permitted
      refine ⟨?_, faults.quiet _ _ _ permitted⟩
      rw [ordinary, List.filterMap_append]
      exact earlier.step moved

end Machine

end LibFiber.Semantics
