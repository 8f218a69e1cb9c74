import LibFiber.Data.LinkedNodes
import LibFiber.Data.Placement

namespace LibFiber.Data

open Function LinkedFifo

/-! Several queues whose producers publish in two steps, and nodes that go from one
queue to another.  A queue counts from the moment it is made; each node has one place,
and those of a queue have that queue's. -/

structure LinkedLanes {N : Type u} {L : Type v} {O : Type w} {P : Type x} (spot : L → O)
    (made : L → Bool) (next : N → Option N) (head tail : L → N)
    (pending : L → P → Option (N × N)) (queue : L → LinkedFifo N) (place : N → O) : Prop where
  published : ∀ lane, made lane → Published next (head lane) (tail lane) (pending lane) (queue lane)
  queued : ∀ lane, made lane → ∀ node ∈ head lane :: (queue lane).members, place node = spot lane

namespace LinkedLanes

variable {N : Type u} {L : Type v} {O : Type w} {P : Type x} {spot : L → O} {made : L → Bool}
variable {next : N → Option N} {head tail : L → N} {pending : L → P → Option (N × N)}
variable {queue : L → LinkedFifo N} {place : N → O}

section

variable (lanes : LinkedLanes spot made next head tail pending queue place)
include lanes

theorem head_queued (ready : made lane) : place (head lane) = spot lane :=
  lanes.queued lane ready (head lane) List.mem_cons_self

theorem disjoint (distinct : Injective spot) {first second : L} (here : made first)
    (there : made second) (apart : first ≠ second) :
    List.Disjoint (head first :: (queue first).members)
      (head second :: (queue second).members) := by
  intro node left right
  have same := (lanes.queued first here node left).symm.trans (lanes.queued second there node right)
  exact apart (distinct same)

theorem write (outside : ∀ lane, place node ≠ spot lane)
    (same : ∀ element, element ≠ node → other element = next element) :
    LinkedLanes spot made other head tail pending queue place where
  published lane ready := by
    refine (lanes.published lane ready).congr fun element member => same element ?_
    intro equal
    exact outside lane (equal ▸ lanes.queued lane ready element member)
  queued := lanes.queued

theorem popped_linked (ready : made lane) {rest : LinkedFifo N}
    (popped : (queue lane).trypop = some (node, rest)) :
    pending lane producer ≠ some (previous, node) := by
  intro pends
  have published := lanes.published lane ready
  have unlinked := (published.waits pends).unlinked
  rw [trypop_eq_some popped, List.mem_cons] at unlinked
  have distinct := published.represents.distinct
  rw [members_trypop popped] at distinct
  obtain ⟨absent, _⟩ := List.nodup_cons.mp (List.nodup_cons.mp distinct).2
  rcases unlinked with impossible | behind
  · cases impossible
  · exact absent (List.mem_map_of_mem behind)

end

variable [DecidableEq N]

theorem hand (lanes : LinkedLanes spot made next head tail pending queue place)
    (outside : ∀ lane, place node ≠ spot lane) :
    LinkedLanes spot made next head tail pending queue (update place node now) where
  published := lanes.published
  queued lane ready element member :=
    place_update rfl (outside lane).symm (lanes.queued lane ready element member)

variable [DecidableEq L]

theorem make (lanes : LinkedLanes spot made next head tail pending queue place)
    (outside : ∀ lane, place node ≠ spot lane)
    (ends : next node = none) (idle : ∀ producer, pending lane producer = none) :
    LinkedLanes spot (update made lane true) next (update head lane node) (update tail lane node)
      pending (update queue lane .empty) (update place node (spot lane)) where
  published other ready := by
    by_cases same : other = lane
    · subst other
      simpa only [update_self] using Published.empty ends idle
    · rw [update_of_ne same] at ready
      simpa only [update_of_ne same] using lanes.published other ready
  queued other ready element member := by
    by_cases same : other = lane
    · subst other
      obtain rfl : element = node := by
        simpa [LinkedFifo.empty, LinkedFifo.members] using member
      exact update_self _ _ _
    · rw [update_of_ne same] at ready
      simp only [update_of_ne same] at member
      exact place_update rfl (outside other).symm (lanes.queued other ready element member)

variable [DecidableEq P]

theorem exchange (lanes : LinkedLanes spot made next head tail pending queue place)
    (ready : made lane) (outside : ∀ lane, place node ≠ spot lane)
    (ends : next node = none) (idle : pending lane producer = none)
    (mine : later lane = update (pending lane) producer (some (tail lane, node)))
    (others : ∀ other, other ≠ lane → later other = pending other) :
    LinkedLanes spot made next head (update tail lane node) later
      (update queue lane ((queue lane).exchange node)) (update place node (spot lane)) where
  published other made := by
    by_cases same : other = lane
    · subst other
      have absent : node ∉ head lane :: (queue lane).members := fun member =>
        outside lane (lanes.queued lane ready node member)
      simpa only [update_self, mine] using (lanes.published lane ready).exchange idle absent ends
    · simpa only [update_of_ne same, others other same] using lanes.published other made
  queued other made element member := by
    by_cases same : other = lane
    · subst other
      rw [update_self, members_exchange, ← List.cons_append, List.mem_append,
        List.mem_singleton] at member
      rcases member with earlier | rfl
      · exact place_update rfl (outside lane).symm (lanes.queued lane ready element earlier)
      · exact update_self _ _ _
    · rw [update_of_ne same] at member
      exact place_update rfl (outside other).symm (lanes.queued other made element member)

theorem link (lanes : LinkedLanes spot made next head tail pending queue place)
    (distinct : Injective spot) (ready : made lane)
    (pends : pending lane producer = some (previous, node))
    (mine : later lane = update (pending lane) producer none)
    (others : ∀ other, other ≠ lane → later other = pending other) :
    LinkedLanes spot made (update next previous (some node)) head tail later
      (update queue lane ((queue lane).link node)) place where
  published other made := by
    by_cases same : other = lane
    · subst other
      simpa only [update_self, mine] using (lanes.published lane ready).link pends
    · simp only [update_of_ne same, others other same]
      refine (lanes.published other made).congr fun element member => update_of_ne ?_ _ _
      intro equal
      have before := ((lanes.published lane ready).waits pends).mem.1
      have queued := lanes.queued lane ready previous before
      rw [← equal, lanes.queued other made element member] at queued
      exact same (distinct queued)
  queued other made element member := by
    refine lanes.queued other made element ?_
    by_cases same : other = lane
    · subst other
      simpa only [update_self, members_link] using member
    · simpa only [update_of_ne same] using member

omit [DecidableEq P] in
theorem pop (lanes : LinkedLanes spot made next head tail pending queue place)
    (distinct : Injective spot) (ready : made lane) {rest : LinkedFifo N}
    (popped : (queue lane).trypop = some (node, rest)) :
    LinkedLanes spot made next (update head lane node) tail pending (update queue lane rest)
      (update place (head lane) now) where
  published other made := by
    by_cases same : other = lane
    · subst other
      simpa only [update_self] using (lanes.published lane ready).trypop popped
    · simpa only [update_of_ne same] using lanes.published other made
  queued other made element member := by
    have front := lanes.head_queued ready
    by_cases same : other = lane
    · subst other
      simp only [update_self, ← members_trypop popped] at member
      have nodup := (lanes.published lane ready).represents.distinct
      have apart : element ≠ head lane := fun equal =>
        (List.nodup_cons.mp nodup).1 (equal ▸ member)
      exact (update_of_ne apart _ _).trans
        (lanes.queued lane ready element (List.mem_cons_of_mem _ member))
    · simp only [update_of_ne same] at member
      exact place_update front (distinct.ne same) (lanes.queued other made element member)

end LinkedLanes

end LibFiber.Data
