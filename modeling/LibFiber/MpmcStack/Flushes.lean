import LibFiber.Data.Handover
import LibFiber.Data.Placement
import LibFiber.Data.VersionedList
import LibFiber.MpmcStack.Machine
import Mathlib.Data.List.Induction
import Mathlib.Data.List.Nodup

namespace LibFiber.MpmcStack

open Data Semantics Function

/-! Every push is returned by one flush, in the order of the compare-and-swaps. -/

section Accounts

variable {Thread Node : Type}

/-- The order in which a flush returns what was pushed. -/
def Kind.order : Kind → List Node → List Node
  | .lifo, nodes => nodes.reverse
  | .fifo, nodes => nodes

/-- The pushes, cut at the flushes: what was pushed since the last flush, and the
nodes pushed between each flush and the one before, oldest first. -/
structure Segments (Thread Node : Type) where
  since : List Node
  flushes : List (Thread × Kind × List Node)

def Segments.record (segments : Segments Thread Node) : Event Thread Node → Segments Thread Node
  | .pushed node => { segments with since := segments.since ++ [node] }
  | .flushed thread kind =>
    { since := [], flushes := segments.flushes ++ [(thread, kind, segments.since)] }
  | .returned _ _ => segments

def Segments.due (segments : Segments Thread Node) : List (Thread × List Node) :=
  segments.flushes.map fun flush => (flush.1, flush.2.1.order flush.2.2)

def segments (events : List (Event Thread Node)) : Segments Thread Node :=
  events.foldl Segments.record ⟨[], []⟩

/-- The nodes pushed, in the order of their compare-and-swaps. -/
def pushes (events : List (Event Thread Node)) : List Node :=
  events.filterMap fun
    | .pushed node => some node
    | _ => none

/-- The lists that the clients found. -/
def returns (events : List (Event Thread Node)) : List (Thread × List Node) :=
  events.filterMap fun
    | .returned thread nodes => some (thread, nodes)
    | _ => none

theorem segments_snoc (events : List (Event Thread Node)) (event : Event Thread Node) :
    segments (events ++ [event]) = (segments events).record event := by
  simp [segments, List.foldl_append]

theorem pushes_eq_segments (events : List (Event Thread Node)) :
    pushes events = ((segments events).flushes.map fun flush => flush.2.2).flatten ++
        (segments events).since := by
  induction events using List.reverseRecOn with
  | nil => rfl
  | append_singleton events event ih =>
    rw [segments_snoc, pushes, List.filterMap_append, ← pushes, ih]
    cases event with
    | pushed node | flushed thread kind | returned thread nodes => simp [Segments.record]

end Accounts

section Lists

variable {Node : Type}
variable {nodes : List Node}

theorem leads_iff_chain [DecidableEq Node] {pointer : Option Node} :
    leads next pointer nodes ↔ Chain some next pointer nodes none := by
  induction nodes generalizing pointer with
  | nil =>
    constructor
    · intro ends
      obtain rfl : pointer = none := by simpa [leads] using ends
      exact .nil none
    · intro chain
      simp [leads, chain.nil_inv]
  | cons node rest ih =>
    constructor
    · intro found
      obtain ⟨rfl, behind⟩ : pointer = some node ∧ leads next (next node) rest := by
        simpa [leads] using found
      exact .cons (ih.mp behind)
    · intro chain
      obtain ⟨rfl, behind⟩ := chain.cons_inv
      simp [leads, ih.mpr behind]

theorem eq_nil_of_chain (chain : Chain some next none nodes none) :
    nodes = [] := by
  generalize start : (none : Option Node) = pointer at chain
  cases chain with
  | nil => rfl
  | cons behind => cases start

theorem cons_of_chain (chain : Chain some next (some node) nodes none) :
    ∃ rest, nodes = node :: rest ∧ Chain some next (next node) rest none := by
  cases nodes with
  | nil => cases chain.nil_inv
  | cons first rest =>
    obtain ⟨same, behind⟩ := chain.cons_inv
    cases same
    exact ⟨rest, rfl, behind⟩

theorem chain_unique
    (chain : Chain some next pointer nodes none) (other : Chain some next pointer others none) :
    nodes = others := by
  induction nodes generalizing pointer others with
  | nil =>
    rw [chain.nil_inv] at other
    exact (eq_nil_of_chain other).symm
  | cons node rest ih =>
    obtain ⟨rfl, behind⟩ := chain.cons_inv
    obtain ⟨tail, rfl, follows⟩ := cons_of_chain other
    rw [ih behind follows]

end Lists

inductive Owner (Thread : Type) where
  | client
  | stack
  /-- A thread pushes it, or has it from a flush. -/
  | thread (thread : Thread)

section Invariant

variable {Thread Node : Type}

/-- A thread's nodes, and where its pointers lead to.  A reversal has the nodes
left to visit behind `head` and those it has visited behind `fifo`. -/
def Phase.Fits (next : Node → Option Node) (kept : List Node) : Phase Node → Prop
  | .idle | .flushing _ | .returned (.pushed _) => kept = []
  | .loading node _ | .linking node _ _ | .returned (.retry node) => kept = [node]
  | .swapping node _ head => kept = [node] ∧ next node = head
  | .reversing head fifo => ∃ rest visited, Chain some next head rest none ∧
      Chain some next fifo visited none ∧ kept = rest.reverse ++ visited
  | .storing node follower fifo => ∃ rest visited, Chain some next follower rest none ∧
      Chain some next fifo visited none ∧ kept = rest.reverse ++ node :: visited
  | .returned (.flushed _ result) => Chain some next result kept none

structure Sound (state : State Thread Node) (since : List Node) (kept : Thread → List Node)
    (place : Node → Owner Thread) : Prop where
  chain : Chain some state.next state.head since.reverse none
  distinct : since.Nodup
  apart : ∀ thread, (kept thread).Nodup
  clients : ∀ node, state.free node → place node = .client
  stacked : ∀ node ∈ since, place node = .stack
  held : ∀ thread, ∀ node ∈ kept thread, place node = .thread thread
  fits : ∀ thread, (state.phase thread).Fits state.next (kept thread)

variable {state : State Thread Node} {since : List Node} {kept : Thread → List Node}
variable {place : Node → Owner Thread}

theorem initial_sound (initial : Initial state) :
    Sound state [] (fun _ => []) fun _ => .client where
  chain := by
    rw [initial.1]
    exact .nil none
  distinct := List.nodup_nil
  apart := fun _ => List.nodup_nil
  clients := fun _ _ => rfl
  stacked := by simp
  held := by simp
  fits := by
    intro thread
    rw [initial.2.2]
    rfl

theorem Reads.fits (reads : Reads state before next)
    (fits : before.Fits state.next nodes) : next.Fits state.next nodes := by
  cases reads with
  | load | pushed | flush => exact fits
  | fail | retry => exact fits.1
  | reversed =>
    obtain ⟨rest, visited, unvisited, chain, rfl⟩ := fits
    rw [eq_nil_of_chain unvisited]
    exact chain
  | follow =>
    obtain ⟨nodes, visited, unvisited, chain, rfl⟩ := fits
    obtain ⟨rest, rfl, behind⟩ := cons_of_chain unvisited
    exact ⟨rest, visited, behind, chain, by simp⟩

variable [DecidableEq Node]

theorem Phase.Fits.write {next : Node → Option Node}
    {phase : Phase Node} (fits : phase.Fits next nodes) (outside : node ∉ nodes) :
    phase.Fits (update next node pointer) nodes := by
  cases phase with
  | idle | loading | linking | flushing => exact fits
  | swapping own tries head =>
    obtain ⟨rfl, leads⟩ := fits
    have other : own ≠ node := fun same => outside (by simp [same])
    exact ⟨rfl, (update_of_ne other _ _).trans leads⟩
  | reversing head fifo =>
    obtain ⟨rest, visited, unvisited, chain, rfl⟩ := fits
    simp only [List.mem_append, List.mem_reverse, not_or] at outside
    exact ⟨rest, visited, unvisited.update_of_notMem outside.1,
      chain.update_of_notMem outside.2, rfl⟩
  | storing own follower fifo =>
    obtain ⟨rest, visited, unvisited, chain, rfl⟩ := fits
    simp only [List.mem_append, List.mem_reverse, List.mem_cons, not_or] at outside
    exact ⟨rest, visited, unvisited.update_of_notMem outside.1,
      chain.update_of_notMem outside.2.2, rfl⟩
  | returned response =>
    cases response with
    | pushed | retry => exact fits
    | flushed kind result =>
      have chain : Chain some next result nodes none := fits
      exact chain.update_of_notMem outside

theorem Sound.write (sound : Sound state since kept place) (pointer : Option Node)
    (outside : place node ≠ .stack) :
    Chain some (update state.next node pointer) state.head since.reverse none ∧
      ∀ thread, place node ≠ .thread thread →
        (state.phase thread).Fits (update state.next node pointer) (kept thread) := by
  constructor
  · refine sound.chain.update_of_notMem fun member => outside ?_
    exact sound.stacked node (List.mem_reverse.mp member)
  · intro thread other
    exact (sound.fits thread).write fun member => other (sound.held thread node member)

theorem Sound.fill (sound : Sound state since kept place) (free : state.free node) :
    Sound { state with next := update state.next node pointer } since kept place := by
  have client := sound.clients node free
  obtain ⟨chain, fits⟩ := sound.write pointer (show place node ≠ .stack by simp [client])
  exact { sound with chain, fits := fun thread => fits thread (by simp [client]) }

variable [DecidableEq Thread]

section

variable (sound : Sound state since kept place)
include sound

omit [DecidableEq Node] in
theorem Sound.goto (fits : next.Fits state.next (kept thread)) :
    Sound (state.goto thread next) since kept place where
  chain := sound.chain
  distinct := sound.distinct
  apart := sound.apart
  clients := sound.clients
  stacked := sound.stacked
  held := sound.held
  fits := (forall_update_iff state.phase
    (fun other phase => phase.Fits state.next (kept other))).mpr
      ⟨fits, fun other _ => sound.fits other⟩

theorem Sound.store (own : node ∈ kept thread)
    (fits : next.Fits (update state.next node pointer) (kept thread)) :
    Sound { state with
      next := update state.next node pointer
      phase := update state.phase thread next } since kept place := by
  have held := sound.held thread node own
  obtain ⟨chain, others⟩ := sound.write pointer (show place node ≠ .stack by simp [held])
  refine { sound with chain, fits := ?_ }
  refine (forall_update_iff state.phase
    (fun other phase => phase.Fits (update state.next node pointer) (kept other))).mpr ⟨fits, ?_⟩
  intro other different
  exact others other (by simpa [held] using Ne.symm different)

omit [DecidableEq Node] in
theorem Sound.held_update {later : Node → Owner Thread}
    (own : ∀ node ∈ nodes, later node = .thread thread)
    (others : ∀ other, other ≠ thread → ∀ node, place node = .thread other →
      later node = .thread other) :
    ∀ other, ∀ node ∈ update kept thread nodes other, later node = .thread other :=
  Data.held_update sound.held own others

omit [DecidableEq Node] in
theorem Sound.fits_update (fits : next.Fits state.next nodes) (other : Thread) :
    (update state.phase thread next other).Fits state.next (update kept thread nodes other) := by
  by_cases same : other = thread
  · subst same
    rw [update_self, update_self]
    exact fits
  · rw [update_of_ne same, update_of_ne same]
    exact sound.fits other

omit [DecidableEq Node] in
theorem Sound.apart_update
    (apart : nodes.Nodup) : ∀ other, (update kept thread nodes other).Nodup :=
  (forall_update_iff kept (fun _ nodes => nodes.Nodup)).mpr
    ⟨apart, fun other _ => sound.apart other⟩

theorem Sound.begin {tries : Option (BitVec 64)} (free : state.free node) :
    Sound { state with
      free := update state.free node false
      phase := update state.phase thread (.loading node tries) }
      since (update kept thread [node]) (update place node (.thread thread)) := by
  have client := sound.clients node free
  exact {
    chain := sound.chain
    distinct := sound.distinct
    apart := sound.apart_update (List.nodup_singleton node)
    clients := free_taken sound.clients
    stacked := fun other member => place_update client (by simp) (sound.stacked other member)
    held := sound.held_update (by simp) fun _ _ _ => place_update client (by simp)
    fits := sound.fits_update rfl }

theorem Sound.swap {tries : Option (BitVec 64)}
    (phase : state.phase thread = .swapping node tries state.head) :
    Sound { state with
      head := some node
      phase := update state.phase thread (.returned (.pushed node)) }
      (since ++ [node]) (update kept thread []) (update place node .stack) := by
  have fits := sound.fits thread
  rw [phase] at fits
  obtain ⟨mine, leads⟩ := fits
  have held := sound.held thread node (by simp [mine])
  have outside : node ∉ since := by
    intro member
    have stacked := sound.stacked node member
    rw [held] at stacked
    cases stacked
  exact {
    chain := by
      rw [List.reverse_append, List.reverse_singleton, List.singleton_append]
      exact .cons (leads ▸ sound.chain)
    distinct := by
      rw [← List.concat_eq_append]
      exact sound.distinct.concat outside
    apart := sound.apart_update List.nodup_nil
    clients := fun other free => place_update held (by simp) (sound.clients other free)
    stacked := by
      intro other member
      rcases List.mem_append.mp member with earlier | last
      · exact place_update held (by simp) (sound.stacked other earlier)
      · rw [List.mem_singleton.mp last, update_self]
    held := sound.held_update (by simp)
      fun _ different _ => place_update held (by simpa using different)
    fits := sound.fits_update rfl }

theorem Sound.exchange {kind : Kind} (phase : state.phase thread = .flushing kind) :
    Sound { state with head := none, phase := update state.phase thread (kind.taken state.head) }
      [] (update kept thread (kind.order since))
      (fun node => if node ∈ since then .thread thread else place node) := by
  have same : ∀ node, node ∈ kind.order since ↔ node ∈ since := by
    intro node
    cases kind <;> simp [Kind.order]
  exact {
    chain := .nil none
    distinct := List.nodup_nil
    apart := sound.apart_update (by
      cases kind with
      | lifo => exact List.nodup_reverse.mpr sound.distinct
      | fifo => exact sound.distinct)
    clients := fun other free => place_block sound.stacked (by simp) (sound.clients other free)
    stacked := by simp
    held := sound.held_update
      (fun other member => if_pos ((same other).mp member))
      fun _ _ _ => place_block sound.stacked (by simp)
    fits := sound.fits_update (by
      cases kind with
      | lifo => exact sound.chain
      | fifo => exact ⟨since.reverse, [], sound.chain, .nil none, by simp [Kind.order]⟩) }

theorem Sound.retried (phase : state.phase thread = .returned (.retry node)) :
    Sound { state with
      free := update state.free node true
      phase := update state.phase thread .idle }
      since (update kept thread []) (update place node .client) := by
  have mine := sound.fits thread
  rw [phase] at mine
  have held := sound.held thread node (by rw [mine]; simp)
  exact {
    chain := sound.chain
    distinct := sound.distinct
    apart := sound.apart_update List.nodup_nil
    clients := free_returned sound.clients
    stacked := fun other member => place_update held (by simp) (sound.stacked other member)
    held := sound.held_update (by simp)
      fun _ different _ => place_update held (by simpa using different)
    fits := sound.fits_update rfl }

theorem Sound.returned {kind : Kind} {result : Option Node}
    (phase : state.phase thread = .returned (.flushed kind result))
    (found : leads state.next result nodes) :
    kept thread = nodes ∧
    Sound { state with
      free := fun node => decide (node ∈ nodes) || state.free node
      phase := update state.phase thread .idle }
      since (update kept thread []) (fun node => if node ∈ nodes then .client else place node) := by
  have fits := sound.fits thread
  rw [phase] at fits
  have mine : kept thread = nodes := chain_unique fits (leads_iff_chain.mp found)
  have held : ∀ node ∈ nodes, place node = .thread thread := by
    intro node member
    exact sound.held thread node (mine ▸ member)
  refine ⟨mine, ?_⟩
  exact {
    chain := sound.chain
    distinct := sound.distinct
    apart := sound.apart_update List.nodup_nil
    clients := by
      intro other free
      by_cases member : other ∈ nodes
      · rw [if_pos member]
      · rw [if_neg member]
        exact sound.clients other (by simpa [member] using free)
    stacked := fun other member => place_block held (by simp) (sound.stacked other member)
    held := sound.held_update (by simp)
      fun _ different _ => place_block held (by simpa using different)
    fits := sound.fits_update rfl }

end

theorem Phase.Fits.reverse {next : Node → Option Node} {follower fifo : Option Node}
    (fits : (Phase.storing node follower fifo).Fits next nodes) (apart : nodes.Nodup) :
    (Phase.reversing follower (some node)).Fits (update next node fifo) nodes := by
  obtain ⟨rest, visited, unvisited, chain, rfl⟩ := fits
  obtain ⟨_, behind, disjoint⟩ := List.nodup_append.mp apart
  have outside : node ∉ rest := by
    intro member
    exact disjoint node (List.mem_reverse.mpr member) node List.mem_cons_self rfl
  refine ⟨rest, node :: visited, unvisited.update_of_notMem outside, .cons ?_, rfl⟩
  rw [update_self]
  exact chain.update_of_notMem (List.nodup_cons.mp behind).1

end Invariant

section Runs

variable {Thread Node : Type}

/-- A flush is on its way between its exchange and the client that picks up the
list. -/
def Phase.outstanding : Phase Node → Bool
  | .reversing _ _ | .storing _ _ _ | .returned (.flushed _ _) => true
  | _ => false

/-- The list that a flush on its way has in hand. -/
def hand (phase : Thread → Phase Node) (kept : Thread → List Node) (thread : Thread) :
    List (List Node) :=
  if (phase thread).outstanding = true then [kept thread] else []

theorem due_flushed {segments : Segments Thread Node} {kind : Kind} :
    (segments.record (.flushed thread kind)).due =
      segments.due ++ [(thread, kind.order segments.since)] := by
  simp [Segments.record, Segments.due]

variable [DecidableEq Thread]
variable {thread : Thread}

theorem hand_update :
    hand (update phase thread next) (update kept thread nodes) =
      update (hand phase kept) thread (if next.outstanding = true then [nodes] else []) := by
  funext other
  by_cases same : other = thread
  · subst same
    simp [hand]
  · simp [hand, same]

theorem hand_eq (same : next.outstanding = (phase thread).outstanding) :
    hand (update phase thread next) kept = hand phase kept := by
  funext other
  by_cases equal : other = thread
  · subst equal
    simp [hand, same]
  · simp [hand, equal]

theorem hand_resting (before : (phase thread).outstanding = false)
    (after : next.outstanding = false) :
    hand (update phase thread next) (update kept thread nodes) = hand phase kept := by
  rw [hand_update, after, if_neg (by decide)]
  refine update_eq_self_iff.mpr ?_
  rw [hand, before, if_neg (by decide)]

/-- The nodes and the lists at some point of a run. -/
def Accounted (state : State Thread Node) (events : List (Event Thread Node)) : Prop :=
  ∃ kept place, Sound state (segments events).since kept place ∧
    Handed (segments events).due (returns events) (hand state.phase kept)

theorem Reads.outstanding
    (reads : Reads state before next) : next.outstanding = before.outstanding := by
  cases reads <;> rfl

variable [DecidableEq Node] {state : State Thread Node}

theorem Move.quiet (moved : Move state none after) {events : List (Event Thread Node)}
    (accounted : Accounted state events) : Accounted after events := by
  obtain ⟨kept, place, sound, handed⟩ := accounted
  cases moved with
  | fill free => exact ⟨kept, place, sound.fill free, handed⟩
  | begin idle free =>
    refine ⟨_, _, sound.begin free, ?_⟩
    rw [hand_resting (by rw [idle]; rfl) rfl]
    exact handed
  | @read thread next reads =>
    refine ⟨kept, place, sound.goto (reads.fits (sound.fits thread)), ?_⟩
    rw [State.goto, hand_eq reads.outstanding]
    exact handed
  | @link thread node tries head phase =>
    have mine := sound.fits thread
    rw [phase] at mine
    have own : kept thread = [node] := mine
    refine ⟨kept, place, sound.store (by simp [own]) ⟨own, update_self _ _ _⟩, ?_⟩
    rw [hand_eq (by rw [phase]; rfl)]
    exact handed
  | @store thread head next fifo phase =>
    have fits := sound.fits thread
    rw [phase] at fits
    obtain ⟨rest, visited, -, -, own⟩ := id fits
    refine ⟨kept, place, sound.store (by simp [own]) (fits.reverse (sound.apart thread)), ?_⟩
    rw [hand_eq (by rw [phase]; rfl)]
    exact handed
  | retried phase =>
    refine ⟨_, _, sound.retried phase, ?_⟩
    rw [hand_resting (by rw [phase]; rfl) rfl]
    exact handed

theorem Move.told {event : Event Thread Node} (moved : Move state (some event) after)
    {events : List (Event Thread Node)} (accounted : Accounted state events) :
    Accounted after (events ++ [event]) := by
  obtain ⟨kept, place, sound, handed⟩ := accounted
  rw [Accounted, segments_snoc]
  cases moved with
  | @swap thread node tries phase =>
    refine ⟨_, _, sound.swap phase, ?_⟩
    rw [hand_resting (by rw [phase]; rfl) rfl]
    simpa [returns, Segments.record, Segments.due] using handed
  | @exchange thread kind phase =>
    refine ⟨_, _, sound.exchange phase, ?_⟩
    have free : hand state.phase kept thread = [] := by simp [hand, phase, Phase.outstanding]
    have taken : (kind.taken state.head).outstanding := by cases kind <;> rfl
    rw [hand_update, taken, if_pos rfl, due_flushed]
    simpa [returns] using handed.take free
  | @returned thread kind result nodes phase found =>
    obtain ⟨own, later⟩ := sound.returned phase found
    refine ⟨_, _, later, ?_⟩
    have held : hand state.phase kept thread = [nodes] := by
      simp [hand, phase, Phase.outstanding, own]
    rw [hand_update]
    simpa [returns, Segments.record, Phase.outstanding] using handed.give held

def events (history : History Thread Node) : List (Event Thread Node) :=
  history.filterMap event

theorem run_accounted {history : History Thread Node}
    (run : (machine Thread Node).Run history state) : Accounted state (events history) := by
  refine run.invariant (fun history state => Accounted state (events history)) ?_ ?_
  · intro state initial
    refine ⟨_, _, initial_sound initial, ?_⟩
    have empty : hand state.phase (fun _ => []) = fun _ => [] := by
      funext thread
      simp [hand, initial.2.2, Phase.outstanding]
    rw [empty]
    exact Handed.start
  · intro history before action after accounted stepped
    have moved := step_moves stepped
    rw [events, filterMap_snoc]
    cases told : event (before, action) with
    | none =>
      rw [told] at moved
      rw [Option.toList_none, List.append_nil]
      exact moved.quiet accounted
    | some event =>
      rw [told] at moved
      exact moved.told accounted

/-- The moves of one thread on its own. -/
def alone (state : State Thread Node) (thread : Thread) (steps : Nat) :
    Option (State Thread Node) :=
  (machine Thread Node).exec state (List.replicate steps (.move thread false))

theorem alone_succ (stepped : move state thread false = some after) :
    alone state thread (steps + 1) = alone after thread steps := by
  simp [alone, List.replicate_succ, Machine.exec, machine, step, stepped]

theorem reversal_ends (phase : state.phase thread = .reversing head fifo)
    (chain : Chain some state.next head rest none) (apart : rest.Nodup) :
    ∃ steps after result, alone state thread steps = some after ∧
      after.phase thread = .returned (.flushed .fifo result) := by
  induction rest generalizing state head fifo with
  | nil =>
    obtain rfl := chain.nil_inv
    refine ⟨1, state.goto thread (.returned (.flushed .fifo fifo)), fifo, ?_, update_self _ _ _⟩
    rw [alone_succ (by simp only [move, phase]; rfl)]
    rfl
  | cons node rest ih =>
    obtain ⟨rfl, behind⟩ := chain.cons_inv
    obtain ⟨outside, distinct⟩ := List.nodup_cons.mp apart
    let followed := state.goto thread (.storing node (state.next node) fifo)
    have storing : followed.phase thread = .storing node (state.next node) fifo := update_self _ _ _
    let stored : State Thread Node := { followed with
      next := update followed.next node fifo
      phase := update followed.phase thread (.reversing (state.next node) (some node)) }
    have reversing : stored.phase thread = .reversing (state.next node) (some node) :=
      update_self _ _ _
    obtain ⟨steps, after, result, ran, returned⟩ :=
      ih reversing (behind.update_of_notMem outside) distinct
    refine ⟨steps + 2, after, result, ?_, returned⟩
    have follows : move state thread false = some followed := by simp only [move, phase, followed]
    have stores : move followed thread false = some stored := by
      simp only [move, storing, stored]
    rw [alone_succ follows, alone_succ stores, ran]

theorem Sound.flush_ends {since : List Node} {place : Node → Owner Thread}
    (sound : Sound state since kept place) (flush : (state.phase thread).outstanding) :
    ∃ steps after kind result, alone state thread steps = some after ∧
      after.phase thread = .returned (.flushed kind result) := by
  have fits := sound.fits thread
  have apart := sound.apart thread
  cases phase : state.phase thread with
  | idle | loading | linking | swapping | flushing => simp [phase, Phase.outstanding] at flush
  | returned response =>
    cases response with
    | pushed | retry => simp [phase, Phase.outstanding] at flush
    | flushed kind result => exact ⟨0, state, kind, result, rfl, phase⟩
  | reversing head fifo =>
    rw [phase] at fits
    obtain ⟨rest, visited, chain, -, own⟩ := fits
    rw [own] at apart
    obtain ⟨steps, after, result, ran, returned⟩ := reversal_ends phase chain
      (List.nodup_reverse.mp apart.of_append_left)
    exact ⟨steps, after, .fifo, result, ran, returned⟩
  | storing head next fifo =>
    rw [phase] at fits
    obtain ⟨rest, visited, chain, -, own⟩ := fits.reverse apart
    rw [own] at apart
    let stored : State Thread Node := { state with
      next := update state.next head fifo
      phase := update state.phase thread (.reversing next (some head)) }
    have reversing : stored.phase thread = .reversing next (some head) := update_self _ _ _
    obtain ⟨steps, after, result, ran, returned⟩ := reversal_ends reversing chain
      (List.nodup_reverse.mp apart.of_append_left)
    refine ⟨steps + 1, after, .fifo, result, ?_, returned⟩
    rw [alone_succ (by simp only [move, phase]; rfl), ran]

omit [DecidableEq Thread] [DecidableEq Node] in
theorem Sound.retry_apart
    (sound : Sound state since kept place) (phase : state.phase thread = .returned (.retry node)) :
    state.free node = false ∧ node ∉ since ∧ ∀ other, other ≠ thread → node ∉ kept other := by
  have own := sound.fits thread
  rw [phase] at own
  have held := sound.held thread node (by rw [own]; simp)
  refine ⟨?_, ?_, ?_⟩
  · cases free : state.free node with
    | false => rfl
    | true =>
      have client := sound.clients node free
      rw [held] at client
      cases client
  · intro member
    have stacked := sound.stacked node member
    rw [held] at stacked
    cases stacked
  · intro other different member
    have theirs := sound.held other node member
    rw [held] at theirs
    exact different (Owner.thread.inj theirs).symm

/-- The stack holds what was pushed since the last flush; the flushes divide the
other pushes among them, in their order; what a thread's flushes have returned, and
the list that the one on its way leads to, are what they had to return; and a push
that gave up has its node on none of these lists. -/
theorem flushes_return_pushes {history : History Thread Node}
    (run : (machine Thread Node).Run history state) :
    (leads state.next state.head (segments (events history)).since.reverse ∧
      pushes (events history) =
        ((segments (events history)).flushes.map fun flush => flush.2.2).flatten ++
          (segments (events history)).since) ∧
    (∀ thread, (state.phase thread).outstanding = false →
      own thread (segments (events history)).due = own thread (returns (events history))) ∧
    (∀ thread kind result, state.phase thread = .returned (.flushed kind result) →
      ∃ nodes, leads state.next result nodes ∧ own thread (segments (events history)).due =
          own thread (returns (events history)) ++ [nodes]) ∧
    (∀ thread, (state.phase thread).outstanding →
      ∃ steps after kind result, alone state thread steps = some after ∧
        after.phase thread = .returned (.flushed kind result)) ∧
    ∀ thread node, state.phase thread = .returned (.retry node) →
      state.free node = false ∧ node ∉ (segments (events history)).since ∧
      ∀ other nodes, own other (segments (events history)).due =
        own other (returns (events history)) ++ [nodes] → node ∉ nodes := by
  obtain ⟨kept, place, sound, handed⟩ := run_accounted run
  refine ⟨⟨leads_iff_chain.mpr sound.chain, pushes_eq_segments _⟩, ?_, ?_, ?_, ?_⟩
  · intro thread resting
    simpa [hand, resting] using handed thread
  · intro thread kind result phase
    have fits := sound.fits thread
    rw [phase] at fits
    refine ⟨kept thread, leads_iff_chain.mpr fits, ?_⟩
    simpa [hand, phase, Phase.outstanding] using handed thread
  · intro thread flush
    exact sound.flush_ends flush
  · intro thread node phase
    obtain ⟨taken, outside, others⟩ := sound.retry_apart phase
    refine ⟨taken, outside, ?_⟩
    intro other nodes due
    rw [handed other, List.append_cancel_left_eq] at due
    cases flush : (state.phase other).outstanding with
    | false => simp [hand, flush] at due
    | true =>
      obtain rfl : kept other = nodes := by simpa [hand, flush] using due
      refine others other ?_
      rintro rfl
      simp [phase, Phase.outstanding] at flush

end Runs

/-- While one thread is in its push of node 2, the other one flushes node 1 and
pushes it again; the first one's compare-and-swap succeeds all the same.  Then it
flushes in the order of the pushes, beside a push that gives up. -/
def recurring : List (Action Bool Nat) :=
  [.push false 1, .move false false, .move false false, .move false false, .finish false [],
    .push true 2, .move true false, .move true false,
    .flush false .lifo, .move false false, .finish false [1],
    .push false 1, .move false false, .move false false, .move false false, .finish false [],
    .move true false, .finish true [], .flush true .fifo, .move true false,
    .pushTimeout false 3 1, .move false false, .move false false, .move false true,
    .move true false, .move true false, .move true false, .move true false, .move true false]

theorem flushes_return_pushes_recurring : ∃ history state,
    (machine Bool Nat).Run history state ∧ pushes (events history) = [1, 1, 2] ∧
      state.phase true = .returned (.flushed .fifo (some 1)) ∧
      leads state.next (some 1) [1, 2] ∧
      (own false (segments (events history)).due = own false (returns (events history)) ∧
        own false (returns (events history)) = [[1]]) ∧
      state.phase false = .returned (.retry 3) ∧ state.free 3 = false := by
  have run := Machine.run_of_isSome
    (show (machine Bool Nat).initial ⟨none, fun _ => none, fun _ => true, fun _ => .idle⟩ from
      ⟨rfl, rfl, rfl⟩)
    (show ((machine Bool Nat).exec ⟨none, fun _ => none, fun _ => true, fun _ => .idle⟩
      recurring).isSome by decide)
  obtain ⟨_, resting, _, _, retry⟩ := flushes_return_pushes run
  exact ⟨_, _, run, by decide, by decide, by decide,
    ⟨resting false (by decide), by decide⟩, by decide, (retry false 3 (by decide)).1⟩

end LibFiber.MpmcStack
