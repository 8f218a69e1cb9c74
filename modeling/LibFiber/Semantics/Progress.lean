import LibFiber.Semantics.Machine

namespace LibFiber.Semantics

open Function

/-! Loops around a compare-and-swap.

An agent that reads a shared word, and swaps it if it has not changed, starts again only
when somebody has changed the word.  So its steps are paid for by the calls that it begins
and by the changes of the word.
-/

namespace Machine

variable {σ : Type u} {α : Type v} {β : Type w} [DecidableEq β] {machine : Machine σ α}

def changes (machine : Machine σ α) (view : σ → β) (taken : σ × α) : Bool :=
  (machine.step taken.1 taken.2).any fun after => view after ≠ view taken.1

/-- `ahead` bounds the steps that an agent takes before the word changes: each of them
lowers it, and only a step that is excused or changes the word raises it. -/
structure Retries (machine : Machine σ α) (view : σ → β) (ahead : σ → Nat) (bound : Nat)
    (acts excused : σ × α → Bool) : Prop where
  bounded : ∀ state, ahead state ≤ bound
  lowers : ∀ before action after, machine.step before action = some after →
    excused (before, action) = false → view after = view before →
    (if acts (before, action) then 1 else 0) + ahead after ≤ ahead before

variable {view : σ → β} {acts excused : σ × α → Bool}

theorem Retries.balanced (retries : machine.Retries view ahead bound acts excused)
    (stepped : machine.step before action = some after) :
    (if acts (before, action) then 1 else 0) + ahead after ≤ ahead before + (bound + 1) *
      if excused (before, action) || machine.changes view (before, action) then 1 else 0 := by
  have most := retries.bounded after
  have cost : (if acts (before, action) then 1 else 0) ≤ 1 := by split <;> decide
  cases free : excused (before, action) || machine.changes view (before, action) with
  | true =>
    rw [if_pos rfl]
    omega
  | false =>
    obtain ⟨unexcused, still⟩ := Bool.or_eq_false_iff.mp free
    have same : view after = view before := by simpa [changes, stepped] using still
    exact retries.lowers before action after stepped unexcused same

/-- In any stretch of steps an agent takes so many, at most, for each step that is excused
and each that changes the word, and those that it has left from before. -/
theorem Retries.countP_le (retries : machine.Retries view ahead bound acts excused)
    (state : σ) (schedule : List α) :
    (machine.trail state schedule).countP acts ≤ bound + (bound + 1) *
      (machine.trail state schedule).countP fun taken =>
        excused taken || machine.changes view taken := by
  suffices (machine.trail state schedule).countP acts ≤ ahead state + (bound + 1) *
      (machine.trail state schedule).countP fun taken =>
        excused taken || machine.changes view taken from
    Nat.le_trans this (Nat.add_le_add_right (retries.bounded state) _)
  induction schedule generalizing state with
  | nil => simp [trail]
  | cons action rest ih =>
    cases stepped : machine.step state action with
    | none => simp [trail, stepped]
    | some after =>
      have later := ih after
      have now := retries.balanced stepped
      simp only [trail, stepped, List.countP_cons, Nat.mul_add]
      omega

end Machine

/-- The step of one agent in a family lowers what that agent has ahead, and nobody else's. -/
theorem lowers_update {ι : Type u} {Phase : Type v} [DecidableEq ι] {family : ι → Phase}
    {mover agent : ι} {next : Phase} {ahead : Phase → Nat}
    (lowers : mover = agent → ahead next < ahead (family mover)) :
    (if decide (mover = agent) then 1 else 0) + ahead (update family mover next agent) ≤
      ahead (family agent) := by
  by_cases own : mover = agent
  · subst own
    simpa [Nat.add_comm, Nat.succ_le_iff] using lowers rfl
  · simp [own, update_of_ne (Ne.symm own)]

end LibFiber.Semantics
