import LibFiber.Data.LinkedNodes

namespace LibFiber.Data

open Function

/-! The record of what was published in a `LinkedFifo`, oldest exchange first.

An element may come back, so a publication is known by its place in the record
and not by its element.  What was taken so far is a first part of the record,
and the queue is the rest.
-/

structure Place (P : Type u) (N : Type v) (V : Type w) where
  producer : P
  node : N
  value : V
  linked : Bool
deriving DecidableEq, Repr

variable {P : Type u} {N : Type v} {V : Type w}

def Place.entry (place : Place P N V) : N × Bool := (place.node, place.linked)

/-- The producer links its last publication; the earlier ones are linked. -/
def settle [DecidableEq P] (producer : P) (places : List (Place P N V)) : List (Place P N V) :=
  places.map fun place =>
    if place.producer = producer then { place with linked := true } else place

/-- The record in two parts: what was taken, and what the queue holds. -/
structure Parted (pending : P → Option (N × N)) (data : N → V) (queue : LinkedFifo N)
    (taken : List V)
    (done waiting : List (Place P N V)) : Prop where
  taken : done.map Place.value = taken
  finished : ∀ place ∈ done, place.linked
  entries : waiting.map Place.entry = queue.entries
  stored : ∀ place ∈ waiting, data place.node = place.value
  pending : ∀ place ∈ waiting, place.linked = false →
    (pending place.producer).map Prod.snd = some place.node

def Ledger (pending : P → Option (N × N)) (data : N → V) (queue : LinkedFifo N) (taken : List V)
    (places : List (Place P N V)) : Prop :=
  ∃ done waiting, places = done ++ waiting ∧ Parted pending data queue taken done waiting

section Parts

variable {pending : P → Option (N × N)} {data : N → V} {queue : LinkedFifo N}
variable {taken : List V} {done waiting : List (Place P N V)}

section

variable (parted : Parted pending data queue taken done waiting)
include parted

theorem Parted.members :
    waiting.map Place.node = queue.members := by
  rw [LinkedFifo.members, ← parted.entries, List.map_map]
  rfl

theorem Parted.mem_members (member : place ∈ waiting) : place.node ∈ queue.members :=
  parted.members ▸ List.mem_map_of_mem member

theorem Parted.queued :
    waiting.map Place.value = queue.members.map data := by
  rw [← parted.members, List.map_map]
  exact List.map_congr_left fun place member => (parted.stored place member).symm

theorem Parted.length :
    taken.length = done.length := by
  rw [← parted.taken, List.length_map]

theorem Parted.getElem? :
    (done ++ waiting)[taken.length]? = waiting.head? := by
  rw [parted.length, List.getElem?_append_right (Nat.le_refl _), Nat.sub_self,
    List.head?_eq_getElem?]

theorem Parted.settle_done [DecidableEq P] (producer : P) : settle producer done = done := by
  refine (List.map_congr_left ?_).trans (List.map_id done)
  intro place member
  have linked := parted.finished place member
  split
  · rw [id_eq, ← linked]
  · rfl

theorem Parted.front (popped : queue.trypop = some (node, rest)) :
    ∃ place behind, waiting = place :: behind ∧ place.node = node ∧ place.linked ∧
      behind.map Place.entry = rest.entries := by
  have entries := parted.entries
  rw [LinkedFifo.trypop_eq_some popped] at entries
  rcases waiting with _ | ⟨place, behind⟩
  · cases entries
  · simp only [List.map_cons, List.cons.injEq, Place.entry, Prod.mk.injEq] at entries
    exact ⟨place, behind, rfl, entries.1.1, entries.1.2, entries.2⟩

end

end Parts

namespace Ledger

variable {pending : P → Option (N × N)} {data : N → V} {queue : LinkedFifo N}
variable {taken : List V} {places : List (Place P N V)}

theorem empty (pending : P → Option (N × N)) (data : N → V) :
    Ledger pending data LinkedFifo.empty [] [] :=
  ⟨[], [], rfl, rfl, by simp, rfl, by simp, by simp⟩

section

variable (ledger : Ledger pending data queue taken places)
include ledger

theorem congr (same : ∀ node ∈ queue.members, other node = data node) :
    Ledger pending other queue taken places := by
  obtain ⟨done, waiting, rfl, parted⟩ := ledger
  refine ⟨done, waiting, rfl, { parted with stored := ?_ }⟩
  intro place member
  exact (same _ (parted.mem_members member)).trans (parted.stored place member)

theorem exchange [DecidableEq P] (idle : pending producer = none) (previous : N) :
    Ledger (update pending producer (some (previous, node))) data (queue.exchange node) taken
      (places ++ [⟨producer, node, data node, false⟩]) := by
  obtain ⟨done, waiting, rfl, parted⟩ := ledger
  refine ⟨done, waiting ++ [⟨producer, node, data node, false⟩], by simp, parted.taken,
    parted.finished, ?_, ?_, ?_⟩
  · simp [LinkedFifo.exchange, parted.entries, Place.entry]
  · intro place member
    rcases List.mem_append.mp member with earlier | last
    · exact parted.stored place earlier
    · rw [List.mem_singleton.mp last]
  · intro place member unset
    rcases List.mem_append.mp member with earlier | last
    · have pends := parted.pending place earlier unset
      have apart : place.producer ≠ producer := by
        intro same
        simp [same, idle] at pends
      rwa [update_of_ne apart]
    · simp [List.mem_singleton.mp last]

theorem link [DecidableEq P] [DecidableEq N] {next : N → Option N} {head tail previous : N}
    (published : LinkedFifo.Published next head tail pending queue)
    (pends : pending producer = some (previous, node)) :
    Ledger (update pending producer none) data (queue.link node) taken
      (settle producer places) := by
  obtain ⟨done, waiting, rfl, parted⟩ := ledger
  -- In the queue the producer and the node single out the same place.
  have matched : ∀ place ∈ waiting, place.linked = false →
      (place.producer = producer ↔ place.node = node) := by
    intro place member unset
    have waits := parted.pending place member unset
    constructor
    · intro same
      rw [same, pends] at waits
      exact (Option.some.inj waits).symm
    · intro same
      obtain ⟨⟨former, element⟩, pending, equal⟩ := Option.map_eq_some_iff.mp waits
      obtain rfl : element = node := equal.trans same
      exact published.sole producer place.producer previous former element pends pending
  have closed : ∀ place ∈ waiting, place.linked → place.node ≠ node := by
    intro place member linked same
    have entry : (node, true) ∈ queue.entries := by
      rw [← parted.entries, ← same, ← linked]
      exact List.mem_map_of_mem member
    have distinct := (List.nodup_cons.mp published.represents.distinct).2
    have equal := List.inj_on_of_nodup_map distinct entry (published.waits pends).unlinked rfl
    cases equal
  refine ⟨done, settle producer waiting, ?_, parted.taken, parted.finished, ?_, ?_, ?_⟩
  · rw [settle, List.map_append]
    exact congrArg (· ++ _) (parted.settle_done producer)
  · rw [LinkedFifo.link, ← parted.entries, settle, List.map_map, List.map_map]
    refine List.map_congr_left fun place member => ?_
    cases linked : place.linked with
    | true =>
      have apart := closed place member linked
      by_cases same : place.producer = producer <;> simp [Place.entry, same, apart, linked]
    | false =>
      by_cases same : place.producer = producer
      · have equal := (matched place member linked).mp same
        simp [Place.entry, same, equal]
      · have apart := mt (matched place member linked).mpr same
        simp [Place.entry, same, apart, linked]
  · intro place member
    obtain ⟨former, earlier, rfl⟩ := List.mem_map.mp member
    have stored := parted.stored former earlier
    split
    · exact stored
    · exact stored
  · intro place member unset
    obtain ⟨former, earlier, rfl⟩ := List.mem_map.mp member
    split at unset
    · cases unset
    · rw [if_neg ‹_›, update_of_ne ‹_›]
      exact parted.pending former earlier unset

theorem trypop (popped : queue.trypop = some (node, rest)) :
    Ledger pending data rest (taken ++ [data node]) places := by
  obtain ⟨done, waiting, rfl, parted⟩ := ledger
  obtain ⟨place, behind, rfl, rfl, linked, entries⟩ := parted.front popped
  refine ⟨done ++ [place], behind, by simp, ?_, ?_, entries, ?_, ?_⟩
  · simp [parted.taken, parted.stored place List.mem_cons_self]
  · intro other member
    rcases List.mem_append.mp member with earlier | last
    · exact parted.finished other earlier
    · rw [List.mem_singleton.mp last]
      exact linked
  · intro other member
    exact parted.stored other (List.mem_cons_of_mem _ member)
  · intro other member
    exact parted.pending other (List.mem_cons_of_mem _ member)

theorem values :
    places.map Place.value = taken ++ queue.members.map data := by
  obtain ⟨done, waiting, rfl, parted⟩ := ledger
  rw [List.map_append, parted.taken, parted.queued]

theorem taken_isPrefix :
    taken <+: places.map Place.value :=
  ⟨_, ledger.values.symm⟩

theorem trypop_eq_none :
    queue.trypop = none ↔ ∀ place, places[taken.length]? = some place → place.linked = false := by
  obtain ⟨done, waiting, rfl, parted⟩ := ledger
  have entries := parted.entries
  rw [parted.getElem?]
  rcases queue with ⟨queued⟩
  rcases waiting with _ | ⟨place, waiting⟩
  · cases entries
    simp [LinkedFifo.trypop]
  · obtain rfl : _ = queued := entries
    cases linked : place.linked <;> simp [LinkedFifo.trypop, Place.entry, linked]

theorem front (popped : queue.trypop = some (node, rest)) :
    ∃ place, places[taken.length]? = some place ∧ place.linked ∧ place.value = data node := by
  obtain ⟨done, waiting, rfl, parted⟩ := ledger
  obtain ⟨place, behind, rfl, rfl, linked, _⟩ := parted.front popped
  exact ⟨place, parted.getElem?, linked, (parted.stored place List.mem_cons_self).symm⟩

end

end Ledger

end LibFiber.Data
