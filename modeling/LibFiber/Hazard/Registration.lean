import LibFiber.Hazard.Scan
import Mathlib.Algebra.Order.BigOperators.Group.List
import Mathlib.Algebra.Order.Group.Nat

namespace LibFiber.Hazard

open Semantics Data Function

/-! The thresholds of the records while threads register and scan.

A new record counts itself in before it becomes the head, and raises the records behind it
one after another afterwards.  What a record lacks is owed by the registrations that have
not come to it yet.
-/

section Owed

variable {Thread : Type} [DecidableEq Thread] {records rest : List Thread}
variable {thread record : Thread}

/-- The number of registrations that have not raised the record yet. -/
def owed (records : List Thread) (ahead : Thread → List Thread) (record : Thread) : Nat :=
  (records.flatMap ahead).count record

theorem flatMap_update_of_notMem {list : List Thread} (absent : thread ∉ list)
    (value : List Thread) :
    list.flatMap (update ahead thread value) = list.flatMap ahead := by
  refine List.flatMap_congr fun other member => update_of_ne ?_ _ _
  rintro rfl
  exact absent member

theorem owed_raise (distinct : records.Nodup) (member : thread ∈ records)
    (shape : ahead thread = record :: rest) (other : Thread) :
    owed records ahead other =
      owed records (update ahead thread rest) other + if record = other then 1 else 0 := by
  obtain ⟨before, behind, rfl⟩ := List.append_of_mem member
  rw [List.nodup_middle, List.nodup_cons, List.mem_append] at distinct
  have earlier : before.flatMap (update ahead thread rest) = before.flatMap ahead :=
    flatMap_update_of_notMem (fun found => distinct.1 (.inl found)) rest
  have later : behind.flatMap (update ahead thread rest) = behind.flatMap ahead :=
    flatMap_update_of_notMem (fun found => distinct.1 (.inr found)) rest
  simp only [owed, List.flatMap_append, List.flatMap_cons, List.count_append, earlier, later,
    update_self, shape, List.count_cons, beq_iff_eq]
  omega

theorem owed_insert (fresh : thread ∉ records) (other : Thread) :
    owed (thread :: records) (update ahead thread records) other =
      owed records ahead other + records.count other := by
  simp only [owed, List.flatMap_cons, update_self, List.count_append,
    flatMap_update_of_notMem fresh]
  omega

omit [DecidableEq Thread] in
theorem notMem_ahead (distinct : records.Nodup) (shape : records = front ++ record :: rest)
    {before tail : List Thread} (behind : records = before ++ tail) (own : thread ∈ before)
    (member : thread ∈ record :: rest) : record ∉ tail := by
  intro found
  have apart : thread ∉ tail := by
    rw [behind] at distinct
    exact List.disjoint_of_nodup_append distinct own
  have suffix : record :: rest <:+ records := ⟨front, shape.symm⟩
  rcases List.suffix_or_suffix_of_suffix suffix ⟨before, behind.symm⟩ with inside | outside
  · exact apart (inside.subset member)
  · rcases List.suffix_cons_iff.mp outside with same | deeper
    · exact apart (same ▸ member)
    · rw [shape, List.nodup_append] at distinct
      exact (List.nodup_cons.mp distinct.2.1).1 (deeper.subset found)

theorem owed_le (distinct : records.Nodup) (shape : records = front ++ record :: rest)
    (behind : ∀ thread, ahead thread ≠ [] → ∃ before, records = before ++ ahead thread ∧
      thread ∈ before) : owed records ahead record ≤ front.length := by
  have once : ∀ thread, (ahead thread).count record ≤ 1 := by
    intro thread
    by_cases empty : ahead thread = []
    · simp [empty]
    · obtain ⟨before, split, _⟩ := behind thread empty
      rw [split, List.nodup_append] at distinct
      exact List.nodup_iff_count_le_one.mp distinct.2.1 record
  have none : ((record :: rest).flatMap ahead).count record = 0 := by
    rw [List.count_eq_zero, List.mem_flatMap]
    rintro ⟨thread, member, found⟩
    obtain ⟨before, split, own⟩ := behind thread (List.ne_nil_of_mem found)
    exact notMem_ahead distinct shape split own member found
  rw [owed, shape, List.flatMap_append, List.count_append, none, List.count_flatMap]
  have bound := List.sum_le_card_nsmul (front.map (List.count record ∘ ahead)) 1 (by
    intro count member
    obtain ⟨thread, _, rfl⟩ := List.mem_map.mp member
    exact once thread)
  simpa using bound

end Owed

section Registry

variable {Thread Node : Type}

/-- The records that a registration still has to raise. -/
def Phase.ahead : Phase Thread Node → List Thread
  | .raising cur => cur
  | _ => []

def Phase.registering : Phase Thread Node → Bool
  | .counting _ _ _ | .inserting _ | .raising _ => true
  | _ => false

/-- Outside the walks over the records and the slots. -/
def Phase.still : Phase Thread Node → Bool
  | .outside | .testing | .entering | .sweeping _ _ => true
  | _ => false

/-- What registrations and scans go by; `limit` is the `max_pointers` of a thread's last
scan. -/
structure Registry (Thread Node : Type) where
  records : List Thread
  threshold : Thread → Nat
  plistSize : Thread → Nat
  limit : Thread → Nat
  phase : Thread → Phase Thread Node

def Phase.Walks (pointersPerThread : Nat) (records : List Thread)
    (threshold plistSize limit : Nat) (thread : Thread) : Phase Thread Node → Prop
  | .counting curHead cur threads => thread ∉ records ∧ threads + cur.length = curHead.length + 1
  | .inserting curHead =>
    thread ∉ records ∧ threshold = 2 * (curHead.length + 1) * pointersPerThread
  | .raising cur => ∃ before, records = before ++ cur ∧ thread ∈ before
  | .sizing head => head <:+ records
  | .collecting plist slots => plist.length + slots.length ≤ limit ∧ limit ≤ plistSize
  | _ => True

theorem Phase.Walks.grow {records : List Thread} {threshold plistSize limit : Nat}
    {phase : Phase Thread Node} {new : Thread} (apart : thread ≠ new)
    (walks : phase.Walks pointersPerThread records threshold plistSize limit thread) :
    phase.Walks pointersPerThread (new :: records) threshold plistSize limit thread := by
  have absent : thread ∉ records → thread ∉ new :: records := by
    intro outside member
    exact (List.mem_cons.mp member).elim apart outside
  cases phase with
  | counting curHead cur threads | inserting curHead => exact ⟨absent walks.1, walks.2⟩
  | raising cur =>
    obtain ⟨before, shape, own⟩ := walks
    exact ⟨new :: before, by rw [shape, List.cons_append], List.mem_cons_of_mem _ own⟩
  | sizing head => exact List.suffix_cons_iff.mpr (.inr walks)
  | collecting plist slots => exact walks
  | outside | testing | entering | sweeping => trivial

variable [DecidableEq Thread]

structure Registered (pointersPerThread : Nat) (registry : Registry Thread Node) : Prop where
  distinct : registry.records.Nodup
  walks : ∀ thread, (registry.phase thread).Walks pointersPerThread registry.records
    (registry.threshold thread) (registry.plistSize thread) (registry.limit thread) thread
  account : ∀ record ∈ registry.records, registry.threshold record +
    2 * owed registry.records (Phase.ahead ∘ registry.phase) record * pointersPerThread =
      2 * registry.records.length * pointersPerThread

variable {pointersPerThread : Nat} {registry : Registry Thread Node} {thread : Thread}
variable {next : Phase Thread Node}
variable {rest : List Thread}

theorem walks_update {threshold plistSize limit : Thread → Nat}
    (own : next.Walks pointersPerThread records (threshold thread) (plistSize thread)
      (limit thread) thread)
    (others : ∀ other, other ≠ thread → (registry.phase other).Walks pointersPerThread records
      (threshold other) (plistSize other) (limit other) other) (other : Thread) :
    (update registry.phase thread next other).Walks pointersPerThread records (threshold other)
      (plistSize other) (limit other) other :=
  (forall_update_iff registry.phase fun other phase => phase.Walks pointersPerThread records
    (threshold other) (plistSize other) (limit other) other).mpr ⟨own, others⟩ other

omit [DecidableEq Thread] in
theorem Phase.Walks.of_still (still : next.still) :
    next.Walks pointersPerThread records threshold plistSize limit thread := by
  cases next with
  | outside | testing | entering | sweeping => trivial
  | counting | inserting | raising | sizing | collecting => cases still

section

variable (registered : Registered pointersPerThread registry)
include registered

theorem Registered.behind (thread : Thread) (busy : (Phase.ahead ∘ registry.phase) thread ≠ []) :
    ∃ before, registry.records = before ++ (Phase.ahead ∘ registry.phase) thread ∧
      thread ∈ before := by
  have walks := registered.walks thread
  simp only [comp_apply] at busy ⊢
  cases phase : registry.phase thread with
  | raising cur =>
    rw [phase] at walks
    exact walks
  | _ => simp [phase, Phase.ahead] at busy

theorem Registered.goto (same : next.ahead = (registry.phase thread).ahead)
    (walks : next.Walks pointersPerThread registry.records (registry.threshold thread)
      (registry.plistSize thread) (registry.limit thread) thread) :
    Registered pointersPerThread
      { registry with phase := update registry.phase thread next } where
  distinct := registered.distinct
  walks := walks_update walks fun other _ => registered.walks other
  account := by
    rw [comp_update_of_eq same]
    exact registered.account

theorem Registered.covers (shape : registry.records = front ++ first :: rest) :
    2 * (rest.length + 1) * pointersPerThread ≤ registry.threshold first := by
  have account := registered.account first (by simp [shape])
  have few := owed_le registered.distinct shape registered.behind
  have longer : registry.records.length = front.length + (rest.length + 1) := by
    simp [shape]
  have enough : 2 * (rest.length + 1) * pointersPerThread +
      2 * owed registry.records (Phase.ahead ∘ registry.phase) first * pointersPerThread ≤
        2 * registry.records.length * pointersPerThread := by
    rw [← Nat.add_mul]
    exact Nat.mul_le_mul_right _ (by omega)
  omega

theorem Registered.fix (phase : registry.phase thread = .counting curHead [] threads) :
    Registered pointersPerThread
      { registry with
        threshold := update registry.threshold thread (2 * threads * pointersPerThread)
        phase := update registry.phase thread (.inserting curHead) } := by
  have walks := registered.walks thread
  rw [phase] at walks
  obtain ⟨absent, counted⟩ := walks
  refine ⟨registered.distinct, ?_, ?_⟩
  · dsimp only
    refine walks_update ⟨absent, ?_⟩ ?_
    · rw [update_self, ← counted, List.length_nil, Nat.add_zero]
    · intro other apart
      rw [update_of_ne apart]
      exact registered.walks other
  · intro record member
    have apart : record ≠ thread := fun equal => absent (equal ▸ member)
    have same : (Phase.inserting curHead : Phase Thread Node).ahead =
        (registry.phase thread).ahead := by
      rw [phase]
      rfl
    rw [comp_update_of_eq same]
    simp only [update_of_ne apart]
    exact registered.account record member

theorem Registered.insert (phase : registry.phase thread = .inserting registry.records) :
    Registered pointersPerThread
      { registry with
        records := thread :: registry.records
        phase := update registry.phase thread (.raising registry.records) } := by
  have walks := registered.walks thread
  rw [phase] at walks
  obtain ⟨absent, counted⟩ := walks
  refine ⟨List.nodup_cons.mpr ⟨absent, registered.distinct⟩, ?_, ?_⟩
  · exact walks_update ⟨[thread], rfl, List.mem_singleton_self _⟩
      fun other apart => (registered.walks other).grow apart
  · intro record member
    have owing : owed (thread :: registry.records)
        (Phase.ahead ∘ update registry.phase thread (.raising registry.records)) record =
        owed registry.records (Phase.ahead ∘ registry.phase) record +
          registry.records.count record := by
      rw [comp_update]
      exact owed_insert absent record
    show registry.threshold record + _ = 2 * (registry.records.length + 1) * pointersPerThread
    rw [owing]
    rcases List.mem_cons.mp member with rfl | old
    · -- Nobody owes anything to a record that was not in the list.
      have nothing : owed registry.records (Phase.ahead ∘ registry.phase) record = 0 := by
        rw [owed, List.count_eq_zero, List.mem_flatMap]
        rintro ⟨other, _, found⟩
        obtain ⟨before, shape, _⟩ := registered.behind other (List.ne_nil_of_mem found)
        exact absent (shape ▸ List.mem_append_right _ found)
      rw [nothing, List.count_eq_zero.mpr absent, counted]
      simp
    · have account := registered.account record old
      rw [registered.distinct.count, if_pos old]
      have more : 2 * (owed registry.records (Phase.ahead ∘ registry.phase) record + 1) *
          pointersPerThread =
          2 * owed registry.records (Phase.ahead ∘ registry.phase) record * pointersPerThread +
            2 * pointersPerThread := by
        rw [Nat.mul_add, Nat.add_mul]
      have longer : 2 * (registry.records.length + 1) * pointersPerThread =
          2 * registry.records.length * pointersPerThread + 2 * pointersPerThread := by
        rw [Nat.mul_add, Nat.add_mul]
      omega

theorem Registered.raise (phase : registry.phase thread = .raising (cur :: rest)) :
    Registered pointersPerThread
      { registry with
        threshold := update registry.threshold cur
          (registry.threshold cur + 2 * pointersPerThread)
        phase := update registry.phase thread (.raising rest) } := by
  have walks := registered.walks thread
  rw [phase] at walks
  obtain ⟨before, shape, own⟩ := walks
  have listed : cur ∈ registry.records := by simp [shape]
  refine ⟨registered.distinct, ?_, ?_⟩
  · dsimp only
    refine walks_update ?_ ?_
    · exact ⟨before ++ [cur], by simpa using shape, List.mem_append_left _ own⟩
    · intro other _
      have theirs := registered.walks other
      cases standing : registry.phase other with
      | inserting curHead =>
        rw [standing] at theirs
        have apart : other ≠ cur := fun equal => theirs.1 (equal ▸ listed)
        refine ⟨theirs.1, ?_⟩
        rw [update_of_ne apart]
        exact theirs.2
      | outside | counting | raising | testing | entering | sizing | collecting | sweeping =>
        rw [standing] at theirs
        exact theirs
  · intro record member
    have account := registered.account record member
    have paid : owed registry.records (Phase.ahead ∘ registry.phase) record =
        owed registry.records (Phase.ahead ∘ update registry.phase thread (.raising rest)) record +
          if cur = record then 1 else 0 := by
      rw [comp_update]
      exact owed_raise registered.distinct (shape ▸ List.mem_append_left _ own)
        (by simp [phase, Phase.ahead]) record
    rw [paid] at account
    by_cases same : cur = record
    · subst record
      rw [if_pos rfl, Nat.mul_add, Nat.add_mul] at account
      simp only [update_self]
      omega
    · rw [if_neg same, Nat.add_zero] at account
      simp only [update_of_ne (Ne.symm same)]
      exact account

theorem Registered.size (phase : registry.phase thread = .sizing (first :: rest)) :
    Registered pointersPerThread
      { registry with
        plistSize := update registry.plistSize thread
          (max (registry.plistSize thread) (registry.threshold first / 2))
        limit := update registry.limit thread (registry.threshold first / 2)
        phase := update registry.phase thread
          (.collecting [] (slotsOf pointersPerThread (first :: rest))) } := by
  have walks := registered.walks thread
  rw [phase] at walks
  obtain ⟨front, shape⟩ := walks
  have covers := registered.covers shape.symm
  refine ⟨registered.distinct, ?_, ?_⟩
  · dsimp only
    refine walks_update ?_ ?_
    · rw [update_self, update_self]
      refine ⟨?_, Nat.le_max_right _ _⟩
      rw [List.length_nil, length_slotsOf, List.length_cons, Nat.zero_add,
        Nat.le_div_iff_mul_le (by decide)]
      rw [Nat.mul_assoc, Nat.mul_comm] at covers
      exact covers
    · intro other apart
      rw [update_of_ne apart, update_of_ne apart]
      exact registered.walks other
  · have same : (Phase.collecting [] (slotsOf pointersPerThread (first :: rest)) :
        Phase Thread Node).ahead = (registry.phase thread).ahead := by
      rw [phase]
      rfl
    rw [comp_update_of_eq same]
    exact registered.account

theorem Registered.still (empty : (registry.phase thread).ahead = []) (still : next.still) :
    Registered pointersPerThread
      { registry with phase := update registry.phase thread next } := by
  refine registered.goto ?_ (.of_still still)
  rw [empty]
  cases next <;> first | rfl | cases still

theorem Registered.start (standing : registry.phase thread = .outside ∧ thread ∉ registry.records ∨
      ∃ curHead, registry.phase thread = .inserting curHead) :
    Registered pointersPerThread
      { registry with
        phase :=
          update registry.phase thread (.counting registry.records registry.records 1) } := by
  have absent : thread ∉ registry.records ∧ (registry.phase thread).ahead = [] := by
    rcases standing with ⟨outside, absent⟩ | ⟨curHead, inserting⟩
    · exact ⟨absent, by rw [outside]; rfl⟩
    · have walks := registered.walks thread
      rw [inserting] at walks
      exact ⟨walks.1, by rw [inserting]; rfl⟩
  exact registered.goto absent.2.symm ⟨absent.1, Nat.add_comm _ _⟩

theorem Registered.count
    (phase : registry.phase thread = .counting curHead (first :: rest) threads) :
    Registered pointersPerThread
      { registry with
        phase := update registry.phase thread (.counting curHead rest (threads + 1)) } := by
  have walks := registered.walks thread
  rw [phase] at walks
  obtain ⟨absent, counted⟩ := walks
  refine registered.goto (by rw [phase]; rfl) ⟨absent, ?_⟩
  rw [← counted, List.length_cons]
  omega

theorem Registered.collect {plist : List Node} {slot : Thread × Nat} {rest : List (Thread × Nat)}
    (phase : registry.phase thread = .collecting plist (slot :: rest)) (found : Option Node) :
    Registered pointersPerThread
      { registry with
        phase := update registry.phase thread (.collecting (plist ++ found.toList) rest) } := by
  have walks := registered.walks thread
  rw [phase] at walks
  obtain ⟨room, size⟩ := walks
  refine registered.goto (by rw [phase]; rfl) ⟨?_, size⟩
  have one : found.toList.length ≤ 1 := by cases found <;> simp
  rw [List.length_cons] at room
  rw [List.length_append]
  omega

end

end Registry

section Runs

variable {Thread Node Value : Type} [DecidableEq Thread]

/-- Besides the calls that `mpmc_fifo` makes, any use of the slots. -/
inductive OpenAction (Thread Node Value : Type) where
  | call (action : Action Thread Node Value)
  /-- `hazard_pointer_using` or `hazard_pointer_done_using` -/
  | store (slot : Thread × Nat) (node : Option Node)
deriving DecidableEq, Repr

/-- The records of any clients, with at least one slot each. -/
def openMachine (Thread Node Value : Type) [DecidableEq Thread] [LinearOrder Node]
    (pointersPerThread : Nat) :
    Machine (State Thread Node Value) (OpenAction Thread Node Value) where
  initial state := 0 < pointersPerThread ∧ ∃ queue, state = init queue
  step state
    | .call action => step pointersPerThread state action
    | .store slot node =>
      some { state with
        queue := { state.queue with slot := update state.queue.slot slot node } }

abbrev OpenHistory (Thread Node Value : Type) :=
  List (State Thread Node Value × OpenAction Thread Node Value)

def recordLimit (limit : Thread → Nat)
    (taken : State Thread Node Value × OpenAction Thread Node Value) : Thread → Nat :=
  match taken.2 with
  | .call (.move thread _) =>
    match taken.1.phase thread with
    | .sizing (first :: _) =>
      update limit thread ((taken.1.record first).retireThreshold / 2)
    | _ => limit
  | _ => limit

/-- The `max_pointers` of each thread's last scan. -/
def maxPointers (history : OpenHistory Thread Node Value) : Thread → Nat :=
  history.foldl recordLimit fun _ => 0

def State.registry (limit : Thread → Nat) (state : State Thread Node Value) :
    Registry Thread Node where
  records := state.records
  threshold := Record.retireThreshold ∘ state.record
  plistSize := Record.plistSize ∘ state.record
  limit
  phase := state.phase

variable {pointersPerThread : Nat} {state : State Thread Node Value} {thread : Thread}
variable {limit : Thread → Nat}

theorem still_registered (registered : Registered pointersPerThread (state.registry limit))
    (threshold : Record.retireThreshold ∘ record = Record.retireThreshold ∘ state.record)
    (size : Record.plistSize ∘ record = Record.plistSize ∘ state.record)
    (empty : (state.phase thread).ahead = []) (still : next.still) :
    Registered pointersPerThread
      (({ state with queue, record, phase := update state.phase thread next } :
        State Thread Node Value).registry limit) := by
  simp only [State.registry, threshold, size]
  exact registered.still empty still

theorem plistSize_update (record : Thread → Record Node) (thread : Thread) (threshold : Nat) :
    Record.plistSize ∘ update record thread { record thread with retireThreshold := threshold } =
      Record.plistSize ∘ record :=
  comp_update_of_eq rfl

theorem retireThreshold_update (record : Thread → Record Node) (thread : Thread) (size : Nat) :
    Record.retireThreshold ∘ update record thread { record thread with plistSize := size } =
      Record.retireThreshold ∘ record :=
  comp_update_of_eq rfl

theorem moveRegister_registered (registered : Registered pointersPerThread (state.registry limit))
    (stepped : moveRegister pointersPerThread state thread spurious = some after) :
    Registered pointersPerThread (after.registry limit) := by
  rw [moveRegister] at stepped
  generalize phase : state.phase thread = now at stepped
  cases now with
  | counting curHead cur threads =>
    cases cur with
    | nil =>
      cases stepped
      simp only [State.registry]
      rw [plistSize_update, comp_update]
      exact registered.fix phase
    | cons first rest =>
      cases stepped
      exact registered.count phase
  | inserting curHead =>
    dsimp only at stepped
    split at stepped
    · obtain ⟨rfl, rfl⟩ := ‹_ ∧ _›
      cases stepped
      exact registered.insert phase
    · cases stepped
      exact registered.start (.inr ⟨curHead, phase⟩)
  | raising cur =>
    cases cur with
    | nil =>
      cases stepped
      exact still_registered registered rfl rfl (by rw [phase]; rfl) rfl
    | cons first rest =>
      cases stepped
      simp only [State.registry]
      rw [plistSize_update, comp_update]
      exact registered.raise phase
  | outside | testing | entering | sizing | collecting | sweeping => cases stepped

variable [LinearOrder Node]

section

variable (registered : Registered pointersPerThread (state.registry limit))
include registered

theorem moveScan_registered (stepped : moveScan pointersPerThread state thread = some after) :
    Registered pointersPerThread
      (after.registry (recordLimit limit (state, .call (.move thread spurious)))) := by
  rw [moveScan] at stepped
  generalize phase : state.phase thread = now at stepped
  cases now with
  | testing =>
    simp only [recordLimit, phase]
    dsimp only at stepped
    split at stepped <;> cases stepped <;>
      exact still_registered registered rfl rfl (by rw [phase]; rfl) rfl
  | entering =>
    cases stepped
    simp only [recordLimit, phase]
    exact registered.goto (congrArg Phase.ahead phase).symm (List.suffix_refl _)
  | sizing head =>
    cases head with
    | nil => cases stepped
    | cons first rest =>
      cases stepped
      simp only [recordLimit, phase, State.registry]
      rw [retireThreshold_update, comp_update]
      exact registered.size phase
  | collecting plist slots =>
    simp only [recordLimit, phase]
    cases slots with
    | nil =>
      cases stepped
      exact still_registered registered (comp_update_of_eq rfl) (comp_update_of_eq rfl)
        (by rw [phase]; rfl) rfl
    | cons slot rest =>
      cases stepped
      exact registered.collect phase _
  | sweeping plist nodes =>
    simp only [recordLimit, phase]
    cases nodes with
    | nil =>
      cases stepped
      exact still_registered registered rfl rfl (by rw [phase]; rfl) rfl
    | cons node rest =>
      dsimp only at stepped
      split at stepped
      · cases stepped
        exact still_registered registered (comp_update_of_eq rfl) (comp_update_of_eq rfl)
          (by rw [phase]; rfl) rfl
      · cases stepped
        exact still_registered registered rfl rfl (by rw [phase]; rfl) rfl
  | outside | counting | inserting | raising => cases stepped

omit [LinearOrder Node] in
theorem retire_registered (outside : state.phase thread = .outside) :
    Registered pointersPerThread (({ state with queue }.retire thread node).registry limit) :=
  still_registered registered (comp_update_of_eq rfl) (comp_update_of_eq rfl)
    (by rw [outside]; rfl) rfl

theorem move_registered (stepped : move pointersPerThread state thread spurious = some after) :
    Registered pointersPerThread
      (after.registry (recordLimit limit (state, .call (.move thread spurious)))) := by
  cases phase : state.phase thread with
  | outside =>
    obtain ⟨_, moved⟩ : thread ∈ state.records ∧ moveQueue state thread spurious = some after := by
      simpa [move, phase] using stepped
    simp only [recordLimit, phase]
    unfold moveQueue at moved
    split at moved
    · obtain ⟨queue, _, rfl⟩ := Option.map_eq_some_iff.mp moved
      exact retire_registered registered phase
    · obtain ⟨queue, _, rfl⟩ := Option.map_eq_some_iff.mp moved
      exact registered
  | counting | inserting | raising =>
    simp only [recordLimit, phase]
    exact moveRegister_registered registered (by simpa only [move, phase] using stepped)
  | testing | entering | sizing | collecting | sweeping =>
    exact moveScan_registered registered (by simpa only [move, phase] using stepped)

theorem step_registered
    (stepped : (openMachine Thread Node Value pointersPerThread).step state action = some after) :
    Registered pointersPerThread (after.registry (recordLimit limit (state, action))) := by
  cases action with
  | store slot node =>
    cases stepped
    exact registered
  | call action =>
    have stepped : step pointersPerThread state action = some after := stepped
    cases action with
    | register thread =>
      obtain ⟨⟨absent, outside⟩, rfl⟩ :
          (thread ∉ state.records ∧ state.phase thread = .outside) ∧ _ = after := by
        simpa [step] using stepped
      exact registered.start (.inl ⟨outside, absent⟩)
    | fill node value prev =>
      obtain ⟨queue, _, rfl⟩ := Option.map_eq_some_iff.mp stepped
      exact registered
    | push thread node | trypop thread =>
      simp only [step, Option.ite_none_right_eq_some, Option.map_eq_some_iff] at stepped
      obtain ⟨_, queue, _, rfl⟩ := stepped
      exact registered
    | free thread node =>
      simp only [step, Option.ite_none_right_eq_some, Option.map_eq_some_iff, ready_iff] at stepped
      obtain ⟨⟨⟨_, outside⟩, _⟩, queue, _, rfl⟩ := stepped
      exact retire_registered registered outside
    | scan thread =>
      simp only [step, Option.ite_none_right_eq_some, Option.some.injEq, ready_iff] at stepped
      obtain ⟨⟨⟨_, outside⟩, _⟩, rfl⟩ := stepped
      exact still_registered registered rfl rfl (by rw [outside]; rfl) rfl
    | move thread spurious => exact move_registered registered stepped

end

variable {history : OpenHistory Thread Node Value}

theorem run_registered (run : (openMachine Thread Node Value pointersPerThread).Run history state) :
    Registered pointersPerThread (state.registry (maxPointers history)) := by
  refine run.invariant (fun history (state : State Thread Node Value) =>
    Registered pointersPerThread (state.registry (maxPointers history))) ?_ ?_
  · intro state initial
    obtain ⟨_, queue, rfl⟩ := initial
    exact ⟨List.nodup_nil, fun thread => trivial, nofun⟩
  · intro history before action after registered stepped
    rw [maxPointers, List.foldl_append]
    exact step_registered registered stepped

/-- With `n` records in the list the head's threshold is `2 * n` times the slots of a record,
no threshold is more, and all are the same while nobody registers.  A scan that comes to a
slot has room for it: the index is less than the `max_pointers` that the scan has begun with,
and that is at most the size of its buffer. -/
theorem registration_thresholds
    (run : (openMachine Thread Node Value pointersPerThread).Run history state) :
    (∀ head rest, state.records = head :: rest → (state.record head).retireThreshold =
      2 * state.records.length * pointersPerThread) ∧
    (∀ thread ∈ state.records, (state.record thread).retireThreshold ≤
      2 * state.records.length * pointersPerThread) ∧
    ((∀ thread, (state.phase thread).registering = false) → ∀ thread ∈ state.records,
      (state.record thread).retireThreshold = 2 * state.records.length * pointersPerThread) ∧
    ∀ thread plist slot rest, state.phase thread = .collecting plist (slot :: rest) →
      plist.length < maxPointers history thread ∧
        maxPointers history thread ≤ (state.record thread).plistSize := by
  have registered := run_registered run
  have account := registered.account
  refine ⟨?_, ?_, ?_, ?_⟩
  · intro head rest shape
    have upper := account head (by simp [State.registry, shape])
    have lower := registered.covers
      (show (state.registry (maxPointers history)).records = [] ++ head :: rest from shape)
    have longer : state.records.length = rest.length + 1 := by simp [shape]
    simp only [State.registry, comp_apply] at upper lower
    rw [longer] at upper ⊢
    omega
  · intro thread member
    have upper := account thread member
    simp only [State.registry, comp_apply] at upper
    omega
  · intro quiet thread member
    have nothing : owed state.records (Phase.ahead ∘ state.phase) thread = 0 := by
      rw [owed, List.count_eq_zero, List.mem_flatMap]
      intro found
      obtain ⟨other, _, ahead⟩ := found
      have calm := quiet other
      rw [comp_apply] at ahead
      cases phase : state.phase other with
      | raising => simp [phase, Phase.registering] at calm
      | _ => simp [phase, Phase.ahead] at ahead
    have exact := account thread member
    simp only [State.registry, comp_apply, nothing] at exact
    omega
  · intro thread plist slot rest phase
    have walks := registered.walks thread
    simp only [State.registry, phase] at walks
    obtain ⟨room, size⟩ := walks
    rw [List.length_cons] at room
    exact ⟨by omega, size⟩

end Runs

/-- Two threads register at the same time.  The second has to count again, and has not
raised the first one's threshold yet when that one comes to its slot. -/
def overlapping : List (OpenAction Bool Nat Nat) :=
  [.call (.register true), .call (.move true false), .call (.register false),
    .call (.move false false), .call (.move true false), .call (.move false false),
    .call (.move false false), .call (.move false false), .call (.move true false),
    .store (true, 0) (some 7), .call (.scan true), .call (.move true false),
    .call (.move false false), .call (.move true false)]

theorem registration_thresholds_overlapping : ∃ history state,
    (openMachine Bool Nat Nat 1).Run history state ∧ state.records = [false, true] ∧
      (state.record false).retireThreshold = 2 * 2 * 1 ∧
      (state.record true).retireThreshold = 2 ∧
      state.phase true = .collecting [] [(true, 0)] ∧ 0 < maxPointers history true := by
  have run := Machine.run_of_isSome
    (show (openMachine Bool Nat Nat 1).initial (init (Mpmc.init 0 (fun _ => none) fun _ => 0)) from
      ⟨by decide, _, rfl⟩)
    (show ((openMachine Bool Nat Nat 1).exec (init (Mpmc.init 0 (fun _ => none) fun _ => 0))
      overlapping).isSome by decide +kernel)
  obtain ⟨head, _, _, room⟩ := registration_thresholds run
  exact ⟨_, _, run, by decide +kernel, head false [true] (by decide +kernel), by decide +kernel,
    by decide +kernel, (room true [] (true, 0) [] (by decide +kernel)).1⟩

end LibFiber.Hazard
