import Mathlib.Data.List.Nodup
import Mathlib.Logic.Function.Basic

namespace LibFiber.Data

open Function

/-! A queue whose producers publish in two steps.

One atomic exchange (or a successful compare-and-swap) of the tail fixes the
producer's place; a later store links the element to its predecessor.  Only a
linked element can be taken, and only from the front, so an empty answer may
mean that the front element has its place but no link yet.
-/

structure LinkedFifo (α : Type u) where
  entries : List (α × Bool)
deriving DecidableEq, Repr

namespace LinkedFifo

variable {α : Type u} {P : Type v}

def empty : LinkedFifo α := ⟨[]⟩

def exchange (queue : LinkedFifo α) (element : α) : LinkedFifo α :=
  ⟨queue.entries ++ [(element, false)]⟩

def link [DecidableEq α] (queue : LinkedFifo α) (element : α) : LinkedFifo α :=
  ⟨queue.entries.map fun entry => if entry.1 = element then (element, true) else entry⟩

def trypop (queue : LinkedFifo α) : Option (α × LinkedFifo α) :=
  match queue.entries with
  | (element, true) :: rest => some (element, ⟨rest⟩)
  | _ => none

/-- The elements in the order of their exchanges. -/
def members (queue : LinkedFifo α) : List α :=
  queue.entries.map Prod.fst

theorem trypop_eq_some {queue rest : LinkedFifo α} {element : α}
    (popped : queue.trypop = some (element, rest)) :
    queue.entries = (element, true) :: rest.entries := by
  unfold trypop at popped
  split at popped
  · rename_i front tail shape
    cases popped
    exact shape
  · contradiction

@[simp] theorem isSome_trypop_exchange (queue : LinkedFifo α) (element : α) :
    (queue.exchange element).trypop.isSome = queue.trypop.isSome := by
  rcases queue with ⟨entries⟩
  rcases entries with _ | ⟨⟨front, linked⟩, rest⟩
  · rfl
  · cases linked <;> rfl

@[simp] theorem members_exchange (queue : LinkedFifo α) (element : α) :
    (queue.exchange element).members = queue.members ++ [element] := by
  simp [members, exchange]

@[simp] theorem members_link [DecidableEq α] (queue : LinkedFifo α) (element : α) :
    (queue.link element).members = queue.members := by
  simp only [members, link, List.map_map]
  refine List.map_congr_left fun entry _ => ?_
  by_cases same : entry.1 = element <;> simp [same]

theorem members_trypop {queue rest : LinkedFifo α} {element : α}
    (popped : queue.trypop = some (element, rest)) :
    queue.members = element :: rest.members := by
  simp [members, trypop_eq_some popped]

/-- Every agent's phase agrees with the queue: the agents that hold a place
without a link are the `linking` ones, those that are linked are `parked`, and
nobody is queued twice. -/
structure Tracks (queue : LinkedFifo α) (phase : α → P) (linking parked : P → Prop) : Prop where
  distinct : queue.members.Nodup
  unlinked : ∀ agent, (agent, false) ∈ queue.entries ↔ linking (phase agent)
  linked : ∀ agent, (agent, true) ∈ queue.entries ↔ parked (phase agent)

namespace Tracks

variable {queue : LinkedFifo α} {phase : α → P} {linking parked : P → Prop}

theorem empty (notLinking : ∀ agent, ¬ linking (phase agent))
    (notParked : ∀ agent, ¬ parked (phase agent)) :
    Tracks LinkedFifo.empty phase linking parked where
  distinct := by simp [LinkedFifo.empty, members]
  unlinked agent := by simp [LinkedFifo.empty, notLinking agent]
  linked agent := by simp [LinkedFifo.empty, notParked agent]

section

variable (tracks : Tracks queue phase linking parked)
include tracks

theorem mem_members :
    agent ∈ queue.members ↔ linking (phase agent) ∨ parked (phase agent) := by
  rw [← tracks.unlinked, ← tracks.linked]
  constructor
  · intro member
    obtain ⟨⟨found, flag⟩, entry, rfl⟩ := List.mem_map.mp member
    cases flag
    · exact .inl entry
    · exact .inr entry
  · rintro (entry | entry)
    · exact List.mem_map.mpr ⟨_, entry, rfl⟩
    · exact List.mem_map.mpr ⟨_, entry, rfl⟩

theorem update_of_iff [DecidableEq α] (sameLinking : linking next ↔ linking (phase agent))
    (sameParked : parked next ↔ parked (phase agent)) :
    Tracks queue (update phase agent next) linking parked where
  distinct := tracks.distinct
  unlinked other := by
    rw [tracks.unlinked]
    by_cases same : other = agent
    · subst same; simp [sameLinking]
    · simp [same]
  linked other := by
    rw [tracks.linked]
    by_cases same : other = agent
    · subst same; simp [sameParked]
    · simp [same]

theorem exchange [DecidableEq α] (fresh : ¬ linking (phase agent)) (absent : ¬ parked (phase agent))
    (nowLinking : linking next) (notParked : ¬ parked next) :
    Tracks (queue.exchange agent) (update phase agent next) linking parked where
  distinct := by
    have outside : agent ∉ queue.members := by
      rw [tracks.mem_members]
      exact not_or.mpr ⟨fresh, absent⟩
    rw [members_exchange, List.nodup_append]
    refine ⟨tracks.distinct, List.nodup_singleton _, ?_⟩
    intro left leftMember right rightMember same
    rw [List.mem_singleton] at rightMember
    exact outside (rightMember ▸ same ▸ leftMember)
  unlinked other := by
    simp only [LinkedFifo.exchange, List.mem_append, List.mem_singleton, tracks.unlinked]
    by_cases same : other = agent
    · subst same; simp [nowLinking]
    · simp [same]
  linked other := by
    simp only [LinkedFifo.exchange, List.mem_append, List.mem_singleton, tracks.linked]
    by_cases same : other = agent
    · subst same; simp [absent, notParked]
    · simp [same]

theorem link [DecidableEq α]
    (pending : linking (phase agent)) (nowParked : parked next) (notLinking : ¬ linking next) :
    Tracks (queue.link agent) (update phase agent next) linking parked where
  distinct := by rw [members_link]; exact tracks.distinct
  unlinked other := by
    simp only [LinkedFifo.link, List.mem_map]
    by_cases same : other = agent
    · subst same
      simp only [update_self, notLinking, iff_false]
      rintro ⟨⟨found, flag⟩, entry, equal⟩
      by_cases hit : found = other <;> simp_all
    · rw [update_of_ne same, ← tracks.unlinked]
      constructor
      · rintro ⟨⟨found, flag⟩, entry, equal⟩
        by_cases hit : found = agent <;> simp_all
      · intro entry
        exact ⟨(other, false), entry, by simp [same]⟩
  linked other := by
    simp only [LinkedFifo.link, List.mem_map]
    by_cases same : other = agent
    · subst same
      simp only [update_self, nowParked, iff_true]
      exact ⟨(other, false), (tracks.unlinked other).mpr pending, by simp⟩
    · rw [update_of_ne same, ← tracks.linked]
      constructor
      · rintro ⟨⟨found, flag⟩, entry, equal⟩
        by_cases hit : found = agent <;> simp_all
      · intro entry
        exact ⟨(other, true), entry, by simp [same]⟩

theorem parked_of_trypop (popped : queue.trypop = some (agent, rest)) : parked (phase agent) := by
  rw [← tracks.linked, trypop_eq_some popped]
  exact List.mem_cons_self

theorem trypop [DecidableEq α] (popped : queue.trypop = some (agent, rest))
    (notLinking : ¬ linking next) (notParked : ¬ parked next) :
    Tracks rest (update phase agent next) linking parked := by
  have shape := trypop_eq_some popped
  have distinct := tracks.distinct
  rw [members_trypop popped, List.nodup_cons] at distinct
  have absent : ∀ flag, (agent, flag) ∉ rest.entries := fun flag entry =>
    distinct.1 (List.mem_map.mpr ⟨_, entry, rfl⟩)
  refine ⟨distinct.2, fun other => ?_, fun other => ?_⟩
  · by_cases same : other = agent
    · subst same; simp [absent, notLinking]
    · rw [update_of_ne same, ← tracks.unlinked, shape]
      simp [same]
  · by_cases same : other = agent
    · subst same; simp [absent, notParked]
    · rw [update_of_ne same, ← tracks.linked, shape]
      simp [same]

end

end Tracks

end LinkedFifo

end LibFiber.Data
