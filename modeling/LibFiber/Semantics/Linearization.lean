import LibFiber.Semantics.Machine

namespace LibFiber.Semantics

/-! Concurrent calls that take effect at one of their steps.

The abstract machine has the operations as its actions, one step each.  A step of
the concurrent machine is the point at which one operation takes effect, or none.
-/

namespace Machine

variable {σ : Type u} {α : Type v} {τ : Type w} {β : Type x}

theorem exec_append {machine : Machine σ α} (state : σ) (first second : List α) :
    machine.exec state (first ++ second) =
      (machine.exec state first).bind (machine.exec · second) := by
  induction first generalizing state with
  | nil => rfl
  | cons action rest ih =>
    simp only [List.cons_append, exec, Option.bind_assoc]
    congr
    funext next
    exact ih next

/-- The operations, in the order in which they take effect, are an execution of the
abstract machine, when each step is what `point` says it is. -/
theorem Run.linearizes {machine : Machine σ α} (abstract : Machine τ β) (point : σ × α → Option β)
    (related : σ → τ → Prop)
    (initially : ∀ state, machine.initial state → ∃ contents, abstract.initial contents ∧
      related state contents)
    (matched : ∀ before action after contents, related before contents →
      machine.step before action = some after → ∃ contents',
        abstract.exec contents (point (before, action)).toList = some contents' ∧
          related after contents')
    {history : List (σ × α)} {state : σ} (run : machine.Run history state) :
    ∃ first contents, abstract.initial first ∧
      abstract.exec first (history.filterMap point) = some contents ∧ related state contents := by
  induction run with
  | start initial =>
    obtain ⟨contents, empty, holds⟩ := initially _ initial
    exact ⟨contents, contents, empty, rfl, holds⟩
  | @step history before after action run stepped ih =>
    obtain ⟨first, contents, empty, executed, holds⟩ := ih
    obtain ⟨contents', taken, holds'⟩ := matched before action after contents holds stepped
    refine ⟨first, contents', empty, ?_, holds'⟩
    rw [filterMap_snoc, exec_append, executed]
    exact taken

end Machine

end LibFiber.Semantics
