import LibFiber.Data.LinkedFifo

namespace LibFiber.Data

open Function

/-! Nodes in memory that make up a `LinkedFifo`.

The node at `head` is a sentinel; the elements of the queue are the nodes behind
it.  A node that has its place but no link yet is found by no `next` field: its
predecessor's is null, until the producer that put the node there links it.
-/

namespace LinkedFifo

variable {N : Type u} {P : Type v} {next : N → Option N} {start tail : N}
variable {entries : List (N × Bool)}

/-- The `next` fields from a node on, up to the last node. -/
def Links (next : N → Option N) (tail : N) : N → List (N × Bool) → Prop
  | previous, [] => previous = tail ∧ next previous = none
  | previous, (node, linked) :: rest =>
    next previous = (if linked = true then some node else none) ∧ Links next tail node rest

/-- `node` has its place behind `previous` and waits to be linked. -/
def Awaits (previous node : N) : N → List (N × Bool) → Prop
  | _, [] => False
  | before, (element, linked) :: rest =>
    (before = previous ∧ element = node ∧ linked = false) ∨ Awaits previous node element rest

/-- A walk along the `next` fields. -/
def Path (next : N → Option N) (stop : N) : N → List N → Prop
  | start, [] => start = stop
  | start, node :: rest => next start = some node ∧ Path next stop node rest

theorem Links.congr (links : Links next tail start entries) (first : other start = next start)
    (same : ∀ entry ∈ entries, other entry.1 = next entry.1) : Links other tail start entries := by
  induction entries generalizing start with
  | nil => exact ⟨links.1, first.trans links.2⟩
  | cons entry rest ih =>
    obtain ⟨here, behind⟩ := links
    refine ⟨first.trans here, ih behind (same entry List.mem_cons_self) ?_⟩
    intro later member
    exact same later (List.mem_cons_of_mem _ member)

theorem Links.snoc (links : Links next tail start entries) (ends : next node = none) :
    Links next node start (entries ++ [(node, false)]) := by
  induction entries generalizing start with
  | nil => exact ⟨links.2, rfl, ends⟩
  | cons entry rest ih => exact ⟨links.1, ih links.2⟩

theorem Links.awaits_snoc (links : Links next tail start entries) :
    Awaits previous node start (entries ++ [(element, false)]) ↔
      Awaits previous node start entries ∨ (previous = tail ∧ node = element) := by
  induction entries generalizing start with
  | nil =>
    obtain ⟨rfl, _⟩ := links
    simp [Awaits, eq_comm]
  | cons entry rest ih => simp only [List.cons_append, Awaits, ih links.2, or_assoc]

theorem Awaits.mem (awaits : Awaits previous node start entries) :
    previous ∈ start :: entries.map Prod.fst ∧ node ∈ entries.map Prod.fst := by
  induction entries generalizing start with
  | nil => exact awaits.elim
  | cons entry rest ih =>
    rcases awaits with ⟨rfl, rfl, _⟩ | behind
    · simp
    · obtain ⟨before, later⟩ := ih behind
      refine ⟨List.mem_cons_of_mem _ ?_, List.mem_cons_of_mem _ later⟩
      simpa using before

theorem Awaits.unlinked (awaits : Awaits previous node start entries) :
    (node, false) ∈ entries := by
  induction entries generalizing start with
  | nil => exact awaits.elim
  | cons entry rest ih =>
    obtain ⟨element, linked⟩ := entry
    rcases awaits with ⟨_, rfl, rfl⟩ | behind
    · exact List.mem_cons_self
    · exact List.mem_cons_of_mem _ (ih behind)

theorem exists_awaits (unlinked : (node, false) ∈ entries) (start : N) :
    ∃ previous, Awaits previous node start entries := by
  induction entries generalizing start with
  | nil => cases unlinked
  | cons entry rest ih =>
    rcases List.mem_cons.mp unlinked with rfl | later
    · exact ⟨start, .inl ⟨rfl, rfl, rfl⟩⟩
    · obtain ⟨previous, awaits⟩ := ih later entry.1
      exact ⟨previous, .inr awaits⟩

section

variable (links : Links next tail start entries)
include links

theorem Links.path (linked : ∀ entry ∈ entries, entry.2) :
    Path next tail start (entries.map Prod.fst) ∧ next tail = none := by
  induction entries generalizing start with
  | nil =>
    obtain ⟨rfl, ends⟩ := links
    exact ⟨rfl, ends⟩
  | cons entry rest ih =>
    obtain ⟨element, flag⟩ := entry
    obtain ⟨here, behind⟩ := links
    obtain rfl : flag := linked (element, flag) List.mem_cons_self
    obtain ⟨path, ends⟩ := ih behind fun later member =>
      linked later (List.mem_cons_of_mem _ member)
    exact ⟨⟨here, path⟩, ends⟩

theorem Links.next_awaits (awaits : Awaits previous node start entries) : next previous = none := by
  induction entries generalizing start with
  | nil => exact awaits.elim
  | cons entry rest ih =>
    obtain ⟨element, linked⟩ := entry
    obtain ⟨here, behind⟩ := links
    rcases awaits with ⟨rfl, rfl, rfl⟩ | later
    · exact here
    · exact ih behind later

theorem Links.tail_mem :
    tail ∈ start :: entries.map Prod.fst := by
  induction entries generalizing start with
  | nil => simp [← links.1]
  | cons entry rest ih => exact List.mem_cons_of_mem _ (by simpa using ih links.2)

theorem Links.next_mem
    (member : node ∈ start :: entries.map Prod.fst) (leads : next node = some successor) :
    successor ∈ entries.map Prod.fst := by
  induction entries generalizing start with
  | nil =>
    obtain rfl : node = start := by simpa using member
    simp [links.2] at leads
  | cons entry rest ih =>
    obtain ⟨here, behind⟩ := links
    rcases List.mem_cons.mp member with rfl | later
    · rw [here] at leads
      split at leads
      · cases leads
        simp
      · cases leads
    · exact List.mem_cons_of_mem _ (ih behind (by simpa using later))

end

/-- The nodes in memory make up the queue. -/
structure Represents (next : N → Option N) (head tail : N) (queue : LinkedFifo N) : Prop where
  links : Links next tail head queue.entries
  distinct : (head :: queue.members).Nodup

namespace Represents

variable {head : N} {queue : LinkedFifo N}

theorem empty (ends : next head = none) : Represents next head head LinkedFifo.empty where
  links := ⟨rfl, ends⟩
  distinct := List.nodup_singleton head

section

variable (represents : Represents next head tail queue)
include represents

theorem next_head :
    next head = queue.trypop.map Prod.fst := by
  have links := represents.links
  rcases queue with ⟨entries⟩
  rcases entries with _ | ⟨⟨element, linked⟩, behind⟩
  · exact links.2
  · rw [links.1]
    cases linked <;> rfl

theorem exchange (outside : node ∉ head :: queue.members) (ends : next node = none) :
    Represents next head node (queue.exchange node) where
  links := represents.links.snoc ends
  distinct := by
    rw [members_exchange, ← List.cons_append, List.nodup_append]
    refine ⟨represents.distinct, List.nodup_singleton _, ?_⟩
    intro left member right single same
    obtain rfl : right = node := by simpa using single
    exact outside (same ▸ member)

theorem trypop (popped : queue.trypop = some (node, rest)) : Represents next node tail rest where
  links := by
    have links := represents.links
    rw [trypop_eq_some popped] at links
    exact links.2
  distinct := by
    have distinct := represents.distinct
    rw [members_trypop popped] at distinct
    exact (List.nodup_cons.mp distinct).2

theorem congr (same : ∀ node ∈ head :: queue.members, other node = next node) :
    Represents other head tail queue where
  links := by
    refine represents.links.congr (same head List.mem_cons_self) ?_
    intro entry member
    exact same entry.1 (List.mem_cons_of_mem _ (List.mem_map_of_mem member))
  distinct := represents.distinct

end

end Represents

theorem awaits_trypop {queue rest : LinkedFifo N} {head : N}
    (popped : queue.trypop = some (element, rest)) :
    Awaits previous node element rest.entries ↔ Awaits previous node head queue.entries := by
  rw [trypop_eq_some popped]
  simp [Awaits]

variable [DecidableEq N]

theorem Links.link (links : Links next tail start entries)
    (distinct : (start :: entries.map Prod.fst).Nodup)
    (awaits : Awaits previous node start entries) :
    Links (update next previous (some node)) tail start
      (entries.map fun entry => if entry.1 = node then (node, true) else entry) := by
  induction entries generalizing start with
  | nil => exact awaits.elim
  | cons entry rest ih =>
    obtain ⟨element, linked⟩ := entry
    obtain ⟨here, behind⟩ := links
    obtain ⟨outside, distinct⟩ := List.nodup_cons.mp distinct
    have outside : start ∉ element :: rest.map Prod.fst := by simpa using outside
    have apart : ∀ other ∈ element :: rest.map Prod.fst, other ≠ start := by
      rintro other member rfl
      exact outside member
    obtain ⟨absent, _⟩ := List.nodup_cons.mp distinct
    rcases awaits with ⟨rfl, rfl, _⟩ | later
    · -- The node is the first, and nothing behind it changes.
      have kept : ∀ entry ∈ rest,
          (if entry.1 = element then (element, true) else entry) = entry := by
        intro entry member
        rw [if_neg]
        intro same
        exact absent (List.mem_map.mpr ⟨entry, member, same⟩)
      rw [List.map_cons, List.map_congr_left kept, List.map_id', if_pos rfl]
      refine ⟨update_self _ _ _, behind.congr ?_ ?_⟩
      · exact update_of_ne (apart element List.mem_cons_self) _ _
      · intro entry member
        exact update_of_ne
          (apart entry.1 (List.mem_cons_of_mem _ (List.mem_map_of_mem member))) _ _
    · obtain ⟨before, after⟩ := later.mem
      have passed : element ≠ node := by
        rintro rfl
        exact absent after
      rw [List.map_cons, if_neg passed]
      refine ⟨?_, ih behind distinct later⟩
      rw [update_of_ne (apart previous before).symm]
      exact here

theorem awaits_link :
    Awaits previous node start
        (entries.map fun entry => if entry.1 = element then (element, true) else entry) ↔
      Awaits previous node start entries ∧ node ≠ element := by
  induction entries generalizing start with
  | nil => simp [Awaits]
  | cons entry rest ih =>
    obtain ⟨own, linked⟩ := entry
    by_cases same : own = element
    · subst same
      simp only [List.map_cons, if_pos, Awaits, ih]
      constructor
      · rintro (⟨_, _, impossible⟩ | later)
        · cases impossible
        · exact ⟨.inr later.1, later.2⟩
      · rintro ⟨⟨_, rfl, _⟩ | later, different⟩
        · exact absurd rfl different
        · exact .inr ⟨later, different⟩
    · simp only [List.map_cons, if_neg same, Awaits, ih]
      constructor
      · rintro (⟨before, rfl, unlinked⟩ | later)
        · exact ⟨.inl ⟨before, rfl, unlinked⟩, same⟩
        · exact ⟨.inr later.1, later.2⟩
      · rintro ⟨here | later, different⟩
        · exact .inl here
        · exact .inr ⟨later, different⟩

theorem Represents.link (represents : Represents next head tail queue)
    (awaits : Awaits previous node head queue.entries) :
    Represents (update next previous (some node)) head tail (queue.link node) where
  links := represents.links.link represents.distinct awaits
  distinct := by
    rw [members_link]
    exact represents.distinct

section Nodes

/-- A queue in which every node is linked. -/
def ofNodes (nodes : List N) : LinkedFifo N := ⟨nodes.map fun node => (node, true)⟩

omit [DecidableEq N] in
@[simp] theorem members_ofNodes (nodes : List N) : (ofNodes nodes).members = nodes := by
  rw [members, ofNodes, List.map_map]
  exact List.map_id nodes

theorem Represents.push (represents : Represents next head tail (ofNodes nodes))
    (outside : node ∉ head :: nodes) (ends : next node = none) :
    Represents (update next tail (some node)) head node (ofNodes (nodes ++ [node])) := by
  have exchanged := represents.exchange (by simpa using outside) ends
  have awaits : Awaits tail node head ((ofNodes nodes).exchange node).entries :=
    represents.links.awaits_snoc.mpr (.inr ⟨rfl, rfl⟩)
  have same : ((ofNodes nodes).exchange node).link node = ofNodes (nodes ++ [node]) := by
    simp only [LinkedFifo.link, LinkedFifo.exchange, ofNodes, List.map_append, List.map_map]
    refine congrArg LinkedFifo.mk (congrArg₂ (· ++ ·) ?_ (by simp))
    refine List.map_congr_left fun element _ => ?_
    by_cases equal : element = node <;> simp [equal]
  exact same ▸ exchanged.link awaits

omit [DecidableEq N] in
theorem Represents.pop (represents : Represents next head tail (ofNodes nodes))
    (leads : next head = some node) :
    ∃ rest, nodes = node :: rest ∧ Represents next node tail (ofNodes rest) := by
  cases nodes with
  | nil =>
    have ends : next head = none := represents.links.2
    rw [leads] at ends
    cases ends
  | cons first rest =>
    obtain rfl : first = node := Option.some.inj (represents.links.1.symm.trans leads)
    exact ⟨rest, rfl, represents.trypop rfl⟩

omit [DecidableEq N] in
theorem Represents.path (represents : Represents next head tail (ofNodes nodes)) :
    Path next tail head nodes ∧ next tail = none := by
  have path := represents.links.path (by simp [ofNodes])
  rwa [show (ofNodes nodes).entries.map Prod.fst = nodes from members_ofNodes nodes] at path

end Nodes

/-- The nodes make up the queue, and the nodes that wait to be linked are those of
the producers between their two steps: `pending` has the node to store to and
the node to store. -/
structure Published (next : N → Option N) (head tail : N) (pending : P → Option (N × N))
    (queue : LinkedFifo N) : Prop where
  represents : Represents next head tail queue
  awaits : ∀ previous node, Awaits previous node head queue.entries ↔
    ∃ producer, pending producer = some (previous, node)
  sole : ∀ producer rival previous former node, pending producer = some (previous, node) →
    pending rival = some (former, node) → rival = producer

namespace Published

variable {head : N} {queue : LinkedFifo N} {pending : P → Option (N × N)}

omit [DecidableEq N] in
theorem empty (ends : next head = none) (idle : ∀ producer, pending producer = none) :
    Published next head head pending LinkedFifo.empty where
  represents := .empty ends
  awaits previous node := by simp [LinkedFifo.empty, Awaits, idle]
  sole producer rival previous former node pends := by simp [idle] at pends

section

variable (published : Published next head tail pending queue)
include published

omit [DecidableEq N] in
theorem waits (pends : pending producer = some (previous, node)) :
    Awaits previous node head queue.entries :=
  (published.awaits previous node).mpr ⟨producer, pends⟩

omit [DecidableEq N] in
theorem congr (same : ∀ node ∈ head :: queue.members, other node = next node) :
    Published other head tail pending queue :=
  { published with represents := published.represents.congr same }

omit [DecidableEq N] in
theorem exchange [DecidableEq P] (idle : pending producer = none)
    (outside : node ∉ head :: queue.members) (ends : next node = none) :
    Published next head node (update pending producer (some (tail, node)))
      (queue.exchange node) where
  represents := published.represents.exchange outside ends
  awaits previous element := by
    rw [LinkedFifo.exchange, published.represents.links.awaits_snoc, published.awaits]
    constructor
    · rintro (⟨other, pends⟩ | ⟨rfl, rfl⟩)
      · have apart : other ≠ producer := by
          rintro rfl
          simp [idle] at pends
        exact ⟨other, (update_of_ne apart _ _).trans pends⟩
      · exact ⟨producer, update_self _ _ _⟩
    · rintro ⟨other, pends⟩
      by_cases same : other = producer
      · subst other
        obtain ⟨rfl, rfl⟩ : tail = previous ∧ node = element := by simpa using pends
        exact .inr ⟨rfl, rfl⟩
      · exact .inl ⟨other, by simpa [update_of_ne same] using pends⟩
  sole first second previous former element left right := by
    -- The node was outside of the queue, so nobody else links it.
    have fresh : ∀ other before, pending other ≠ some (before, node) := by
      intro other before pends
      exact outside (List.mem_cons_of_mem _ (published.waits pends).mem.2)
    have moved : ∀ other before, update pending producer (some (tail, node)) other =
        some (before, element) →
        other = producer ∧ element = node ∨ pending other = some (before, element) := by
      intro other before pends
      by_cases same : other = producer
      · subst other
        obtain ⟨_, rfl⟩ : tail = before ∧ node = element := by simpa using pends
        exact .inl ⟨rfl, rfl⟩
      · exact .inr (by simpa [update_of_ne same] using pends)
    rcases moved first previous left with ⟨own, rfl⟩ | earlier
    · rcases moved second former right with ⟨same, _⟩ | later
      · exact same.trans own.symm
      · exact (fresh second former later).elim
    · rcases moved second former right with ⟨_, rfl⟩ | later
      · exact (fresh first previous earlier).elim
      · exact published.sole first second previous former element earlier later

theorem link [DecidableEq P] (pends : pending producer = some (previous, node)) :
    Published (update next previous (some node)) head tail (update pending producer none)
      (queue.link node) where
  represents := published.represents.link (published.waits pends)
  awaits before element := by
    rw [LinkedFifo.link, awaits_link, published.awaits]
    constructor
    · rintro ⟨⟨other, still⟩, different⟩
      have apart : other ≠ producer := by
        rintro rfl
        rw [pends] at still
        cases still
        exact different rfl
      exact ⟨other, (update_of_ne apart _ _).trans still⟩
    · rintro ⟨other, still⟩
      have apart : other ≠ producer := by
        rintro rfl
        simp at still
      rw [update_of_ne apart] at still
      refine ⟨⟨other, still⟩, ?_⟩
      rintro rfl
      exact apart (published.sole producer other previous before element pends still)
  sole first second before former element left right := by
    have kept : ∀ other before, update pending producer none other = some (before, element) →
        pending other = some (before, element) := by
      intro other before still
      by_cases same : other = producer
      · subst other
        simp at still
      · simpa [update_of_ne same] using still
    exact published.sole first second before former element (kept first before left)
      (kept second former right)

omit [DecidableEq N] in
theorem trypop
    (popped : queue.trypop = some (node, rest)) : Published next node tail pending rest where
  represents := published.represents.trypop popped
  awaits previous element := (awaits_trypop popped).trans (published.awaits previous element)
  sole := published.sole

omit [DecidableEq N] in
theorem trypop_of_next
    (leads : next head = some node) : ∃ rest, queue.trypop = some (node, rest) := by
  rw [published.represents.next_head] at leads
  obtain ⟨⟨_, rest⟩, popped, rfl⟩ := Option.map_eq_some_iff.mp leads
  exact ⟨rest, popped⟩

omit [DecidableEq N] in
theorem path (idle : ∀ producer, pending producer = none) :
    Path next tail head queue.members ∧ next tail = none := by
  refine published.represents.links.path fun entry member => ?_
  obtain ⟨node, linked⟩ := entry
  cases linked with
  | true => rfl
  | false =>
    obtain ⟨previous, awaits⟩ := exists_awaits member head
    obtain ⟨producer, pends⟩ := (published.awaits previous node).mp awaits
    simp [idle] at pends

end

end Published

end LinkedFifo

end LibFiber.Data
