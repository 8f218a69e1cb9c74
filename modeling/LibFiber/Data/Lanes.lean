import LibFiber.Data.LinkedNodes
import LibFiber.Data.Placement

namespace LibFiber.Data

open Function LinkedFifo

/-! Several linked queues with all their nodes linked, and nodes that go from one to
another: each node has one place, and those of a queue have that queue's. -/

structure Lanes {N : Type u} {L : Type v} {O : Type w} (spot : L → O) (next : N → Option N)
    (head last : L → N) (nodes : L → List N) (place : N → O) : Prop where
  represents : ∀ lane, Represents next (head lane) (last lane) (ofNodes (nodes lane))
  queued : ∀ lane, ∀ node ∈ head lane :: nodes lane, place node = spot lane

namespace Lanes

variable {N : Type u} {L : Type v} {O : Type w}
variable {lane : L} {node : N}

theorem start (distinct : Injective first) (ends : ∀ lane, next (first lane) = none)
    (spot : L → O) (outside : O) :
    ∃ place, Lanes spot next first first (fun _ => []) place ∧
      ∀ node, (∀ lane, first lane ≠ node) → place node = outside := by
  classical
  refine ⟨fun node => if found : ∃ lane, first lane = node then spot found.choose else outside,
    ⟨fun lane => .empty (ends lane), ?_⟩, ?_⟩
  · intro lane node member
    obtain rfl : node = first lane := by simpa using member
    have found : ∃ other, first other = first lane := ⟨lane, rfl⟩
    rw [dif_pos found, distinct found.choose_spec]
  · intro node apart
    exact dif_neg fun found => apart found.choose found.choose_spec

theorem last_queued (lanes : Lanes spot next head last nodes place) (lane : L) :
    place (last lane) = spot lane := by
  have member : last lane ∈ _ :: (ofNodes (nodes lane)).members :=
    (lanes.represents lane).links.tail_mem
  exact lanes.queued lane _ (by simpa using member)

theorem next_queued (lanes : Lanes spot next head last nodes place)
    (leads : next (head lane) = some node) : place node = spot lane := by
  obtain ⟨rest, shape, _⟩ := (lanes.represents lane).pop leads
  have member : node ∈ nodes lane := by simp [shape]
  exact lanes.queued lane node (List.mem_cons_of_mem _ member)

theorem write (lanes : Lanes spot next head last nodes place)
    (outside : ∀ lane, place node ≠ spot lane)
    (same : ∀ element, element ≠ node → other element = next element) :
    Lanes spot other head last nodes place where
  represents lane := by
    refine (lanes.represents lane).congr fun element member => same element ?_
    intro equal
    exact outside lane (equal ▸ lanes.queued lane element (by simpa using member))
  queued := lanes.queued

variable [DecidableEq N]

theorem hand (lanes : Lanes spot next head last nodes place)
    (outside : ∀ lane, place node ≠ spot lane) :
    Lanes spot next head last nodes (update place node now) where
  represents := lanes.represents
  queued lane element member :=
    place_update rfl (outside lane).symm (lanes.queued lane element member)

variable [DecidableEq L]

theorem push (lanes : Lanes spot next head last nodes place) (distinct : Injective spot)
    (outside : ∀ lane, place node ≠ spot lane) (ends : next node = none) (lane : L) :
    Lanes spot (update next (last lane) (some node)) head (update last lane node)
      (update nodes lane (nodes lane ++ [node])) (update place node (spot lane)) where
  represents other := by
    by_cases same : other = lane
    · subst other
      rw [update_self, update_self]
      have absent : node ∉ head lane :: nodes lane := fun member =>
        outside lane (lanes.queued lane node member)
      exact (lanes.represents lane).push absent ends
    · rw [update_of_ne same, update_of_ne same]
      refine (lanes.represents other).congr fun element member => update_of_ne ?_ _ _
      intro equal
      have queued := lanes.queued other element (by simpa using member)
      rw [equal, lanes.last_queued lane] at queued
      exact same (distinct queued).symm
  queued other element member := by
    by_cases same : other = lane
    · subst other
      rw [update_self, ← List.cons_append, List.mem_append, List.mem_singleton] at member
      rcases member with earlier | rfl
      · exact place_update rfl (outside lane).symm (lanes.queued lane element earlier)
      · exact update_self _ _ _
    · rw [update_of_ne same] at member
      exact place_update rfl (outside other).symm (lanes.queued other element member)

theorem pop (lanes : Lanes spot next head last nodes place) (distinct : Injective spot)
    (leads : next (head lane) = some node) :
    ∃ rest, nodes lane = node :: rest ∧ Lanes spot next (update head lane node) last
      (update nodes lane rest) (update place (head lane) now) := by
  obtain ⟨rest, shape, shorter⟩ := (lanes.represents lane).pop leads
  have front := lanes.queued lane (head lane) List.mem_cons_self
  have nodup : (head lane :: nodes lane).Nodup := by simpa using (lanes.represents lane).distinct
  obtain ⟨absent, _⟩ := List.nodup_cons.mp nodup
  refine ⟨rest, shape, fun other => ?_, fun other element member => ?_⟩
  · by_cases same : other = lane
    · subst other
      simpa only [update_self] using shorter
    · simpa only [update_of_ne same] using lanes.represents other
  · by_cases same : other = lane
    · subst other
      have member : element ∈ nodes lane := by simpa [shape] using member
      have apart : element ≠ head lane := fun equal => absent (equal ▸ member)
      exact (update_of_ne apart _ _).trans
        (lanes.queued lane element (List.mem_cons_of_mem _ member))
    · simp only [update_of_ne same] at member
      exact place_update front (distinct.ne same) (lanes.queued other element member)

end Lanes

end LibFiber.Data
