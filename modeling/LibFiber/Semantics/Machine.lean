import Mathlib.Data.List.Basic
import Mathlib.Logic.Function.Basic

namespace LibFiber.Semantics

/-! Interleaved machines with an executable step.

An action names the agent that moves together with every choice the program
leaves open: a clock reading, a spurious failure of a weak compare-and-swap, a
client's next call.  The step itself is then a function, and a run is one
arbitrary interleaving.
-/

structure Machine (σ : Type u) (α : Type v) where
  initial : σ → Prop
  step : σ → α → Option σ

namespace Machine

variable {σ : Type u} {α : Type v} {machine : Machine σ α}

/-- A finite run.  The history lists every action taken together with the
state it was taken in, oldest first. -/
inductive Run (machine : Machine σ α) : List (σ × α) → σ → Prop where
  | start {state : σ} : machine.initial state → Run machine [] state
  | step {history : List (σ × α)} {before after : σ} {action : α} :
      Run machine history before → machine.step before action = some after →
      Run machine (history ++ [(before, action)]) after

def Reachable (machine : Machine σ α) (state : σ) : Prop :=
  ∃ history, machine.Run history state

theorem Run.reachable (run : machine.Run history state) : machine.Reachable state :=
  ⟨history, run⟩

/-- A property of history and state holds along every run whose steps all meet
`allowed` when it holds initially and each allowed step preserves it. -/
theorem Run.invariant_of_allowed (allowed : σ → α → Prop) (property : List (σ × α) → σ → Prop)
    (initially : ∀ state, machine.initial state → property [] state)
    (preserved : ∀ history before action after, machine.Run history before →
      property history before → allowed before action →
      machine.step before action = some after →
      property (history ++ [(before, action)]) after)
    {history : List (σ × α)} {state : σ} (run : machine.Run history state)
    (steps : ∀ taken ∈ history, allowed taken.1 taken.2) :
    property history state := by
  induction run with
  | start initial => exact initially _ initial
  | @step history before after action run stepped ih =>
    obtain ⟨earlier, last⟩ := List.forall_mem_append.mp steps
    exact preserved history before action after run (ih earlier)
      (last (before, action) (by simp)) stepped

theorem Run.invariant (property : List (σ × α) → σ → Prop)
    (initially : ∀ state, machine.initial state → property [] state)
    (preserved : ∀ history before action after, property history before →
      machine.step before action = some after →
      property (history ++ [(before, action)]) after)
    {history : List (σ × α)} {state : σ} (run : machine.Run history state) :
    property history state :=
  Run.invariant_of_allowed (fun _ _ => True) property initially
    (fun history before action after _ holds _ stepped =>
      preserved history before action after holds stepped)
    run (fun _ _ => trivial)

theorem Reachable.invariant (property : σ → Prop)
    (initially : ∀ state, machine.initial state → property state)
    (preserved : ∀ before action after, property before →
      machine.step before action = some after → property after)
    {state : σ} (reachable : machine.Reachable state) : property state := by
  obtain ⟨history, run⟩ := reachable
  exact Run.invariant (fun _ state => property state) initially
    (fun _ before action after holds stepped => preserved before action after holds stepped) run

theorem Run.run_of_mem (run : machine.Run history state) {taken : σ × α}
    (member : taken ∈ history) : ∃ earlier ⊆ history, machine.Run earlier taken.1 := by
  induction run with
  | start initial => simp at member
  | @step history before after action run stepped ih =>
    rcases List.mem_append.mp member with old | last
    · obtain ⟨earlier, within, run⟩ := ih old
      exact ⟨earlier, List.subset_append_of_subset_left _ within, run⟩
    · rw [List.mem_singleton.mp last]
      exact ⟨history, List.subset_append_left _ _, run⟩

theorem Run.reachable_of_mem (run : machine.Run history state) {taken : σ × α}
    (member : taken ∈ history) : machine.Reachable taken.1 := by
  obtain ⟨earlier, _, run⟩ := run.run_of_mem member
  exact run.reachable

/-- Execute a schedule, failing at its first action that is not enabled. -/
def exec (machine : Machine σ α) : σ → List α → Option σ
  | state, [] => some state
  | state, action :: rest => (machine.step state action).bind (machine.exec · rest)

/-- The history recorded by `exec`. -/
def trail (machine : Machine σ α) : σ → List α → List (σ × α)
  | _, [] => []
  | state, action :: rest =>
    match machine.step state action with
    | none => []
    | some next => (state, action) :: machine.trail next rest

theorem Run.exec
    (run : machine.Run history before) (executed : machine.exec before schedule = some after) :
    machine.Run (history ++ machine.trail before schedule) after := by
  induction schedule generalizing history before with
  | nil =>
    cases executed
    simpa [trail] using run
  | cons action rest ih =>
    obtain ⟨next, stepped, remaining⟩ := Option.bind_eq_some_iff.mp executed
    have extended := ih (run.step stepped) remaining
    simpa [trail, stepped] using extended

theorem run_of_exec
    (initial : machine.initial state) (executed : machine.exec state schedule = some after) :
    machine.Run (machine.trail state schedule) after := by
  simpa using (Run.start initial).exec executed

theorem run_of_isSome (initial : machine.initial state)
    (executes : (machine.exec state schedule).isSome) :
    machine.Run (machine.trail state schedule) ((machine.exec state schedule).get executes) :=
  run_of_exec initial (Option.some_get executes).symm

theorem run_of_check (initial : machine.initial state)
    (checked : (machine.exec state schedule).any check) :
    ∃ after, machine.Run (machine.trail state schedule) after ∧ check after := by
  cases executed : machine.exec state schedule with
  | none => simp [executed] at checked
  | some after =>
    exact ⟨after, run_of_exec initial executed, by simpa [executed] using checked⟩

theorem reachable_of_exec
    (initial : machine.initial state) (executed : machine.exec state schedule = some after) :
    machine.Reachable after :=
  (run_of_exec initial executed).reachable

end Machine

theorem countP_snoc {β : Type u} (test : β → Bool) (history : List β) (last : β) :
    (history ++ [last]).countP test = history.countP test + (test last).toNat := by
  cases holds : test last <;> simp [List.countP_append, holds]

theorem filterMap_snoc {β : Type u} {γ : Type v} (pick : β → Option γ) (history : List β)
    (last : β) :
    (history ++ [last]).filterMap pick = history.filterMap pick ++ (pick last).toList := by
  cases picked : pick last <;> simp [picked]

theorem count_filterMap_snoc {β : Type u} {γ : Type v} [DecidableEq γ] (pick : β → Option γ)
    (history : List β) (last : β) (element : γ) :
    ((history ++ [last]).filterMap pick).count element =
      (history.filterMap pick).count element + (decide (pick last = some element)).toNat := by
  rw [filterMap_snoc, List.count_append]
  cases picked : pick last with
  | none => rfl
  | some found => by_cases same : found = element <;> simp [same]

theorem comp_update_of_eq {P : Type u} {α : Type v} {β : Type w} [DecidableEq P] {view : α → β}
    {phases : P → α} {agent : P} {next : α} (same : view next = view (phases agent)) :
    view ∘ Function.update phases agent next = view ∘ phases := by
  rw [Function.comp_update, same]
  exact Function.update_eq_self agent (view ∘ phases)

theorem sole_update {P : Type u} {α : Type v} {β : Type w} [DecidableEq P] {view : α → Option β}
    {phases : P → α} {agent : P} {next : α}
    (sole : ∀ agent other thing, view (phases agent) = some thing →
      view (phases other) = some thing → agent = other)
    (fresh : ∀ thing, view next = some thing → ∀ other, other ≠ agent →
      view (phases other) ≠ some thing)
    (first second : P) (thing : β)
    (left : view (Function.update phases agent next first) = some thing)
    (right : view (Function.update phases agent next second) = some thing) : first = second := by
  by_cases mine : first = agent
  · subst first
    by_cases also : second = agent
    · exact also.symm
    · rw [Function.update_self] at left
      rw [Function.update_of_ne also] at right
      exact (fresh thing left second also right).elim
  · rw [Function.update_of_ne mine] at left
    by_cases also : second = agent
    · subst second
      rw [Function.update_self] at right
      exact (fresh thing right first mine left).elim
    · rw [Function.update_of_ne also] at right
      exact sole first second thing left right

end LibFiber.Semantics
