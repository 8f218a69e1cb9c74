import Mathlib.Logic.Function.Basic

namespace LibFiber.Data

open Function

/-! Elements that are in exactly one place each.

`holds place element` reads off the containers of a state whether one of them
holds an element.  An assignment of a place to every element that agrees with
all containers at once says that no element is lost and none is held twice.
-/

variable {α : Type u} {P : Type v} {place : α → P}

def Placed (holds : P → α → Prop) (place : α → P) : Prop :=
  ∀ element spot, holds spot element ↔ place element = spot

theorem Placed.held (placed : Placed before place) {element : α}
    (there : place element = spot) : before spot element :=
  (placed element spot).mpr there

theorem Placed.place_eq (placed : Placed before place) {element : α}
    (held : before spot element) : place element = spot :=
  (placed element spot).mp held

theorem Placed.congr (placed : Placed before place)
    (same : ∀ element spot, after spot element ↔ before spot element) : Placed after place :=
  fun element spot => (same element spot).trans (placed element spot)

theorem Placed.move [DecidableEq α] (placed : Placed before place) {moved : α} {target : P}
    (others : ∀ spot element, element ≠ moved → (after spot element ↔ before spot element))
    (arrived : ∀ spot, (before spot moved ↔ place moved = spot) →
      (after spot moved ↔ target = spot)) :
    Placed after (update place moved target) := by
  intro element spot
  by_cases same : element = moved
  · subst same
    rw [update_self]
    exact arrived spot (placed element spot)
  · rw [update_of_ne same]
    exact (others spot element same).trans (placed element spot)

theorem place_update [DecidableEq α] {was now : P} {moved other : α}
    (before : place moved = was) (different : spot ≠ was) (there : place other = spot) :
    update place moved now other = spot := by
  have apart : other ≠ moved := by
    rintro rfl
    exact different (there.symm.trans before)
  exact (update_of_ne apart _ _).trans there

theorem place_block [DecidableEq α] {was now : P} {moved : List α} {other : α}
    (before : ∀ element ∈ moved, place element = was) (different : spot ≠ was)
    (there : place other = spot) : (if other ∈ moved then now else place other) = spot := by
  have outside : other ∉ moved := fun member => different (there.symm.trans (before other member))
  rw [if_neg outside]
  exact there

section Handing

variable {A : Type w} {S : Type x} [DecidableEq A] {holds : α → S → Prop}
variable {mine : A → P} {later : α → P}

/-- A step of one agent, when the elements that the agents hold are in their places: it
is enough to look at what the agent holds then and at the places of the others. -/
theorem held_update
    (held : ∀ agent element, holds element (phases agent) → place element = mine agent)
    (own : ∀ element, holds element next → later element = mine actor)
    (others : ∀ agent, agent ≠ actor → ∀ element, place element = mine agent →
      later element = mine agent)
    (agent : A) (element : α) (holding : holds element (update phases actor next agent)) :
    later element = mine agent := by
  by_cases same : agent = actor
  · subst same
    rw [update_self] at holding
    exact own element holding
  · rw [update_of_ne same] at holding
    exact others agent same element (held agent element holding)

variable [DecidableEq α]

theorem free_taken (clients : ∀ element, free element → place element = spot)
    (element : α) (unused : update free moved false element) :
    update place moved now element = spot := by
  by_cases same : element = moved
  · rw [same, update_self] at unused
    cases unused
  · rw [update_of_ne same] at unused ⊢
    exact clients element unused

theorem free_returned (clients : ∀ element, free element → place element = spot)
    (element : α) (unused : update free moved true element) :
    update place moved spot element = spot := by
  by_cases same : element = moved
  · rw [same, update_self]
  · rw [update_of_ne same] at unused ⊢
    exact clients element unused

end Handing

end LibFiber.Data
