import LibFiber.Data.LinkedFifo
import LibFiber.Data.MachineInt
import LibFiber.Data.Total
import LibFiber.Semantics.Machine
import Mathlib.Algebra.Module.Defs
import Mathlib.GroupTheory.GroupAction.Ring
import Mathlib.Algebra.Order.Floor.Div

namespace LibFiber.Barrier

open Data Semantics Function

/-! The reusable barrier: one counter of arrivals and one mpsc queue that the
waiters of all generations share.

A fiber is counted first.  The last arrival of a generation then pops as many
waiters as the generation has; every other arrival pushes itself and takes no
further step until it is popped.
-/

/-- What a fiber in `fiber_barrier_wait` does next.  `arrival` is the number of
the call among all arrivals; the program only knows it modulo the counter. -/
inductive Phase where
  | outside
  | pushing (arrival : Nat)
  | linking (arrival : Nat)
  | parked (arrival : Nat)
  | released (arrival : Nat)
  /-- In the loop of `fiber_manager_wake_from_mpsc_queue`. -/
  | waking (arrival wakeCount : Nat)
  | leaving (arrival : Nat)
deriving DecidableEq, Repr

namespace Phase

def arrival : Phase → Nat
  | .outside => 0
  | .pushing arrival | .linking arrival | .parked arrival | .released arrival
  | .waking arrival _ | .leaving arrival => arrival

def pushes : Phase → Bool
  | .pushing _ => true
  | .outside | .linking _ | .parked _ | .released _ | .waking _ _ | .leaving _ => false

def Linking : Phase → Prop
  | .linking _ => True
  | _ => False

def Parked : Phase → Prop
  | .parked _ => True
  | _ => False

/-- Counted, bound for the queue or in it, and not popped yet. -/
def waits : Phase → Bool
  | .pushing _ | .linking _ | .parked _ => true
  | .outside | .released _ | .waking _ _ | .leaving _ => false

/-- Past the point where the call can still be held up by its generation. -/
def passed : Phase → Bool
  | .released _ | .waking _ _ | .leaving _ => true
  | .outside | .pushing _ | .linking _ | .parked _ => false

end Phase

structure State (Fiber : Type) where
  counter : Nat
  /-- All arrivals so far.  Nothing reads this field. -/
  arrivals : Nat
  waiters : LinkedFifo Fiber
  phase : Fiber → Phase

inductive Action (Fiber : Type) where
  | wait (fiber : Fiber)
  | exchange (fiber : Fiber)
  | link (fiber : Fiber)
  | trypop (fiber : Fiber)
  | leave (fiber : Fiber)
deriving DecidableEq, Repr

def init {Fiber : Type} : State Fiber where
  counter := 0
  arrivals := 0
  waiters := .empty
  phase := fun _ => .outside

variable {Fiber : Type} [DecidableEq Fiber]

def wait (count : Nat) (state : State Fiber) (fiber : Fiber) : State Fiber :=
  let newValue := (state.counter + 1) % 2 ^ 64
  let arrival := state.arrivals + 1
  { state with
    counter := newValue
    arrivals := arrival
    phase := update state.phase fiber
      (if newValue % count = 0 then .waking arrival 0 else .pushing arrival) }

/-- The test at the end of the wake loop, whose bound is passed as an `int`. -/
def wakeLoop (count arrival wakeCount : Nat) : Phase :=
  if (wakeCount : Int) < int32 (count - 1) then .waking arrival wakeCount else .leaving arrival

def trypop (count : Nat) (state : State Fiber) (fiber : Fiber) (arrival wakeCount : Nat) :
    State Fiber :=
  match state.waiters.trypop with
  | some (woken, rest) =>
    { state with
      waiters := rest
      phase := update (update state.phase woken (.released (state.phase woken).arrival)) fiber
        (wakeLoop count arrival (wakeCount + 1)) }
  | none => { state with phase := update state.phase fiber (wakeLoop count arrival wakeCount) }

def step (count : Nat) (state : State Fiber) : Action Fiber → Option (State Fiber)
  | .wait fiber => if state.phase fiber = .outside then some (wait count state fiber) else none
  | .exchange fiber =>
    match state.phase fiber with
    | .pushing arrival =>
      some { state with
        waiters := state.waiters.exchange fiber
        phase := update state.phase fiber (.linking arrival) }
    | _ => none
  | .link fiber =>
    match state.phase fiber with
    | .linking arrival =>
      some { state with
        waiters := state.waiters.link fiber
        phase := update state.phase fiber (.parked arrival) }
    | _ => none
  | .trypop fiber =>
    match state.phase fiber with
    | .waking arrival wakeCount => some (trypop count state fiber arrival wakeCount)
    | _ => none
  | .leave fiber =>
    match state.phase fiber with
    | .released _ | .leaving _ => some { state with phase := update state.phase fiber .outside }
    | _ => none

def machine (Fiber : Type) [DecidableEq Fiber] (count : Nat) :
    Machine (State Fiber) (Action Fiber) where
  initial state := state = init
  step := step count

def Phase.round (count : Nat) (phase : Phase) : Nat :=
  phase.arrival ⌈/⌉ count

/-- No waiter takes its place in the queue ahead of one of an earlier
generation, and the counter does not wrap. -/
def InTurn (count : Nat) (state : State Fiber) : Action Fiber → Prop
  | .wait _ => state.counter + 1 < 2 ^ 64
  | .exchange fiber => ∀ other, (state.phase other).pushes →
      (state.phase fiber).round count ≤ (state.phase other).round count
  | .link _ | .trypop _ | .leave _ => True

instance [Fintype Fiber] (count : Nat) (state : State Fiber) :
    (action : Action Fiber) → Decidable (InTurn count state action)
  | .wait _ => inferInstanceAs (Decidable (state.counter + 1 < 2 ^ 64))
  | .exchange fiber => inferInstanceAs (Decidable (∀ other, (state.phase other).pushes →
      (state.phase fiber).round count ≤ (state.phase other).round count))
  | .link _ | .trypop _ | .leave _ => inferInstanceAs (Decidable True)

section Rounds

variable [Fintype Fiber] {count : Nat} {state : State Fiber} {fiber : Fiber}
variable {arrivals arrival : Nat}

/-- Whether the last arrival of the generation has come. -/
def Phase.Complete (count arrivals : Nat) (phase : Phase) : Prop :=
  count * phase.round count ≤ arrivals

instance (count arrivals : Nat) (phase : Phase) : Decidable (phase.Complete count arrivals) :=
  inferInstanceAs (Decidable (count * phase.round count ≤ arrivals))

def Phase.overdue (count arrivals : Nat) (phase : Phase) : Nat :=
  if phase.waits ∧ phase.Complete count arrivals then 1 else 0

def Phase.early (count arrivals : Nat) (phase : Phase) : Nat :=
  if phase.waits ∧ ¬ phase.Complete count arrivals then 1 else 0

/-- The waiters that a wake loop has still to pop. -/
def Phase.owes (count : Nat) : Phase → Nat
  | .waking _ wakeCount => count - 1 - wakeCount
  | .outside | .pushing _ | .linking _ | .parked _ | .released _ | .leaving _ => 0

structure Rounds (count : Nat) (state : State Fiber) : Prop where
  counted : state.counter = state.arrivals
  queue : state.waiters.Tracks state.phase Phase.Linking Phase.Parked
  bounded : ∀ fiber, (state.phase fiber).waits →
    (state.phase fiber).arrival ≤ state.arrivals ∧ ¬ count ∣ (state.phase fiber).arrival
  complete : ∀ fiber, (state.phase fiber).passed → (state.phase fiber).Complete count state.arrivals
  sorted : state.waiters.members.Pairwise fun first second =>
    (state.phase first).round count ≤ (state.phase second).round count
  ahead : ∀ queued ∈ state.waiters.members, ∀ fiber arrival,
    state.phase fiber = .pushing arrival →
      (state.phase queued).round count ≤ (state.phase fiber).round count
  loops : ∀ fiber arrival wakeCount, state.phase fiber = .waking arrival wakeCount →
    wakeCount + 1 < count ∨ count = 1
  /-- Every pop that is still to come has a waiter of a complete generation. -/
  supplied : total (Phase.owes count) state.phase ≤
    total (Phase.overdue count state.arrivals) state.phase
  /-- No waiter of the incomplete generation is gone. -/
  present : state.arrivals ≤ count * (state.arrivals / count) +
    total (Phase.early count state.arrivals) state.phase

omit [DecidableEq Fiber] in
theorem init_rounds : Rounds count (init : State Fiber) where
  counted := rfl
  queue := .empty (fun _ => id) (fun _ => id)
  bounded fiber waits := by simp [init, Phase.waits] at waits
  complete fiber passed := by simp [init, Phase.passed] at passed
  sorted := .nil
  ahead queued member := by simp [init, LinkedFifo.empty, LinkedFifo.members] at member
  loops fiber arrival wakeCount waking := by simp [init] at waking
  supplied := (total_const (Phase.owes count) .outside rfl).trans_le (Nat.zero_le _)
  present := by simp [init]

theorem complete_mono {later : Nat} {phase : Phase} (le : arrivals ≤ later)
    (complete : phase.Complete count arrivals) : phase.Complete count later :=
  Nat.le_trans complete le

theorem complete_of_dvd {phase : Phase} (positive : 0 < count)
    (last : count ∣ arrivals) (reached : phase.arrival ≤ arrivals) :
    phase.Complete count arrivals := by
  obtain ⟨quotient, rfl⟩ := last
  have bound : phase.round count ≤ quotient := (ceilDiv_le_iff_le_mul positive).mpr reached
  exact Nat.mul_le_mul_left _ bound

theorem complete_succ_iff (phase : Phase) (inner : ¬ count ∣ arrivals + 1) :
    phase.Complete count (arrivals + 1) ↔ phase.Complete count arrivals := by
  refine ⟨fun complete => ?_, complete_mono (Nat.le_succ _)⟩
  have different : count * phase.round count ≠ arrivals + 1 := fun same => inner ⟨_, same.symm⟩
  have bound : count * phase.round count ≤ arrivals + 1 := complete
  exact Nat.le_of_lt_succ (Nat.lt_of_le_of_ne bound different)

omit [Fintype Fiber] in
theorem round_update {members : List Fiber}
    (kept : fiber ∉ members ∨ next.arrival = (state.phase fiber).arrival) :
    ∀ other ∈ members, (update state.phase fiber next other).round count =
      (state.phase other).round count := by
  intro other member
  by_cases moved : other = fiber
  · subst moved
    have same : next.arrival = (state.phase other).arrival := kept.resolve_left (· member)
    simp [Phase.round, same]
  · rw [update_of_ne moved]

section

variable (rounds : Rounds count state)
include rounds

theorem Rounds.supplied_update
    (covered : next.owes count + (state.phase fiber).overdue count state.arrivals ≤
      (state.phase fiber).owes count + next.overdue count state.arrivals) :
    total (Phase.owes count) (update state.phase fiber next) ≤
      total (Phase.overdue count state.arrivals) (update state.phase fiber next) := by
  have owes := total_update (Phase.owes count) state.phase fiber next
  have overdue := total_update (Phase.overdue count state.arrivals) state.phase fiber next
  have supplied := rounds.supplied
  omega

theorem Rounds.loops_update (loops : ∀ arrival wakeCount, next = .waking arrival wakeCount →
      wakeCount + 1 < count ∨ count = 1) :
    ∀ other arrival wakeCount, update state.phase fiber next other = .waking arrival wakeCount →
      wakeCount + 1 < count ∨ count = 1 :=
  (forall_update_iff state.phase (fun _ phase => ∀ arrival wakeCount,
    phase = .waking arrival wakeCount → wakeCount + 1 < count ∨ count = 1)).mpr
      ⟨loops, fun other _ => rounds.loops other⟩

theorem Rounds.moved {waiters : LinkedFifo Fiber}
    (queue : waiters.Tracks (update state.phase fiber next) Phase.Linking Phase.Parked)
    (kept : fiber ∉ waiters.members ∨ next.arrival = (state.phase fiber).arrival)
    (sorted : waiters.members.Pairwise fun first second =>
      (state.phase first).round count ≤ (state.phase second).round count)
    (ahead : ∀ queued ∈ waiters.members, ∀ other ≠ fiber, ∀ arrival,
      state.phase other = .pushing arrival →
        (state.phase queued).round count ≤ (state.phase other).round count)
    (placed : ∀ arrival, next ≠ .pushing arrival)
    (bounded : next.waits → next.arrival ≤ state.arrivals ∧ ¬ count ∣ next.arrival)
    (complete : next.passed → next.Complete count state.arrivals)
    (loops : ∀ arrival wakeCount, next = .waking arrival wakeCount →
      wakeCount + 1 < count ∨ count = 1)
    (supplied : total (Phase.owes count) (update state.phase fiber next) ≤
      total (Phase.overdue count state.arrivals) (update state.phase fiber next))
    (early : (state.phase fiber).early count state.arrivals ≤ next.early count state.arrivals) :
    Rounds count { state with waiters, phase := update state.phase fiber next } where
  counted := rounds.counted
  queue := queue
  bounded := (forall_update_iff state.phase (fun _ phase => phase.waits →
    phase.arrival ≤ state.arrivals ∧ ¬ count ∣ phase.arrival)).mpr
      ⟨bounded, fun other _ => rounds.bounded other⟩
  complete := (forall_update_iff state.phase (fun _ phase => phase.passed →
    phase.Complete count state.arrivals)).mpr ⟨complete, fun other _ => rounds.complete other⟩
  sorted := by
    refine sorted.imp_of_mem fun {first second} firstMember secondMember le => ?_
    rw [round_update kept first firstMember, round_update kept second secondMember]
    exact le
  ahead queued member other arrival pushing := by
    dsimp only at pushing ⊢
    have moved : other ≠ fiber := by
      rintro rfl
      rw [update_self] at pushing
      exact placed _ pushing
    rw [update_of_ne moved] at pushing ⊢
    rw [round_update kept queued member]
    exact ahead queued member other moved arrival pushing
  loops := rounds.loops_update loops
  supplied := supplied
  present := by
    have balance := total_update (Phase.early count state.arrivals) state.phase fiber next
    have present := rounds.present
    dsimp only
    omega

theorem exchange_rounds (pushing : state.phase fiber = .pushing arrival)
    (inTurn : InTurn count state (.exchange fiber)) :
    Rounds count { state with
      waiters := state.waiters.exchange fiber
      phase := update state.phase fiber (.linking arrival) } := by
  have waits : (state.phase fiber).waits := by rw [pushing]; rfl
  have same : (Phase.linking arrival).arrival = (state.phase fiber).arrival := by rw [pushing]; rfl
  have bounded := rounds.bounded fiber waits
  apply rounds.moved
  case queue =>
    exact rounds.queue.exchange (by rw [pushing]; exact id) (by rw [pushing]; exact id) trivial id
  case kept => exact .inr same
  case sorted =>
    rw [LinkedFifo.members_exchange]
    refine List.pairwise_append.mpr ⟨rounds.sorted, List.pairwise_singleton .., ?_⟩
    intro queued member last lastMember
    rw [List.mem_singleton.mp lastMember]
    exact rounds.ahead queued member fiber arrival pushing
  case ahead =>
    intro queued member other different number waiting
    rw [LinkedFifo.members_exchange] at member
    rcases List.mem_append.mp member with earlier | last
    · exact rounds.ahead queued earlier other number waiting
    · rw [List.mem_singleton.mp last]
      exact inTurn other (by rw [waiting]; rfl)
  case placed => simp
  case bounded =>
    rw [pushing] at bounded
    exact fun _ => bounded
  case complete => simp [Phase.passed]
  case loops => simp
  case supplied =>
    apply rounds.supplied_update
    rw [pushing]
    exact Nat.le_refl _
  case early =>
    rw [pushing]
    exact Nat.le_refl _

theorem link_rounds (linking : state.phase fiber = .linking arrival) :
    Rounds count { state with
      waiters := state.waiters.link fiber
      phase := update state.phase fiber (.parked arrival) } := by
  have waits : (state.phase fiber).waits := by rw [linking]; rfl
  have same : (Phase.parked arrival).arrival = (state.phase fiber).arrival := by rw [linking]; rfl
  have bounded := rounds.bounded fiber waits
  apply rounds.moved
  case queue => exact rounds.queue.link (by rw [linking]; trivial) trivial id
  case kept => exact .inr same
  case sorted =>
    rw [LinkedFifo.members_link]
    exact rounds.sorted
  case ahead =>
    intro queued member other _ number waiting
    rw [LinkedFifo.members_link] at member
    exact rounds.ahead queued member other number waiting
  case placed => simp
  case bounded =>
    rw [linking] at bounded
    exact fun _ => bounded
  case complete => simp [Phase.passed]
  case loops => simp
  case supplied =>
    apply rounds.supplied_update
    rw [linking]
    exact Nat.le_refl _
  case early =>
    rw [linking]
    exact Nat.le_refl _

theorem Rounds.goto (free : (state.phase fiber).waits = false) (stays : next.waits = false)
    (complete : next.passed → next.Complete count state.arrivals)
    (loops : ∀ arrival wakeCount, next = .waking arrival wakeCount →
      wakeCount + 1 < count ∨ count = 1)
    (owes : next.owes count ≤ (state.phase fiber).owes count) :
    Rounds count { state with phase := update state.phase fiber next } := by
  have linking : ∀ phase : Phase, phase.waits = false → ¬ phase.Linking := by
    intro phase idle
    cases phase <;> simp_all [Phase.waits, Phase.Linking]
  have parked : ∀ phase : Phase, phase.waits = false → ¬ phase.Parked := by
    intro phase idle
    cases phase <;> simp_all [Phase.waits, Phase.Parked]
  apply rounds.moved
  case queue =>
    exact rounds.queue.update_of_iff (iff_of_false (linking _ stays) (linking _ free))
      (iff_of_false (parked _ stays) (parked _ free))
  case kept =>
    rw [rounds.queue.mem_members]
    exact .inl (not_or.mpr ⟨linking _ free, parked _ free⟩)
  case sorted => exact rounds.sorted
  case ahead =>
    intro queued member other _ number waiting
    exact rounds.ahead queued member other number waiting
  case placed =>
    rintro arrival rfl
    cases stays
  case bounded => simp [stays]
  case complete => exact complete
  case loops => exact loops
  case supplied =>
    apply rounds.supplied_update
    simpa [Phase.overdue, free, stays] using owes
  case early => simp [Phase.early, free]

omit [DecidableEq Fiber] in
/-- While some pop is still to come, the waiter at the front of the queue is of
a complete generation. -/
theorem front_complete (popped : state.waiters.trypop = some (front, rest))
    (owed : 0 < total (Phase.owes count) state.phase) :
    (state.phase front).Complete count state.arrivals := by
  have positive := Nat.lt_of_lt_of_le owed rounds.supplied
  obtain ⟨late, counts⟩ := exists_of_total_pos positive
  have overdue : (state.phase late).waits ∧ (state.phase late).Complete count state.arrivals := by
    by_contra absent
    simp [Phase.overdue, absent] at counts
  have members := LinkedFifo.members_trypop popped
  have member : front ∈ state.waiters.members := by simp [members]
  have before : (state.phase front).round count ≤ (state.phase late).round count := by
    cases waiting : state.phase late with
    | pushing arrival =>
      rw [← waiting]
      exact rounds.ahead front member late arrival waiting
    | linking | parked =>
      have queued : late ∈ state.waiters.members := by
        rw [rounds.queue.mem_members, waiting]
        simp [Phase.Linking, Phase.Parked]
      have sorted := rounds.sorted
      rw [members, List.pairwise_cons] at sorted
      rw [← waiting]
      rcases List.mem_cons.mp (members ▸ queued) with rfl | behind
      · exact Nat.le_refl _
      · exact sorted.1 late behind
    | outside | released | waking | leaving =>
      rw [waiting] at overdue
      cases overdue.1
  exact Nat.le_trans (Nat.mul_le_mul_left _ before) overdue.2

end

theorem wakeLoop_owes (count arrival wakeCount : Nat) :
    (wakeLoop count arrival wakeCount).owes count ≤ count - 1 - wakeCount := by
  unfold wakeLoop
  split
  · exact Nat.le_refl _
  · exact Nat.zero_le _

theorem wakeLoop_loops (positive : 0 < count)
    (again : wakeLoop count arrival wakeCount = .waking first second) :
    second + 1 < count ∨ count = 1 := by
  unfold wakeLoop at again
  split at again
  · rename_i below
    cases again
    have bound := int32_le (show (0 : Int) ≤ count - 1 by omega)
    omega
  · cases again

theorem loop_rounds (positive : 0 < count) (rounds : Rounds count state)
    (waking : state.phase fiber = .waking arrival wakeCount) (counted : wakeCount ≤ popped) :
    Rounds count { state with
      phase := update state.phase fiber (wakeLoop count arrival popped) } := by
  have complete := rounds.complete fiber (by rw [waking]; rfl)
  have owes := wakeLoop_owes count arrival popped
  rw [waking] at complete
  apply rounds.goto
  case free => rw [waking]; rfl
  case stays => unfold wakeLoop; split <;> rfl
  case complete =>
    intro _
    unfold wakeLoop
    split
    · exact complete
    · exact complete
  case loops =>
    intro first second again
    exact wakeLoop_loops positive again
  case owes =>
    rw [waking]
    exact Nat.le_trans owes (Nat.sub_le_sub_left counted _)

theorem release_rounds (rounds : Rounds count state)
    (popped : state.waiters.trypop = some (front, rest))
    (complete : (state.phase front).Complete count state.arrivals)
    (spare : total (Phase.owes count) state.phase <
      total (Phase.overdue count state.arrivals) state.phase) :
    Rounds count { state with
      waiters := rest
      phase := update state.phase front (.released (state.phase front).arrival) } := by
  have members := LinkedFifo.members_trypop popped
  have sorted := rounds.sorted
  rw [members, List.pairwise_cons] at sorted
  apply rounds.moved
  case queue => exact rounds.queue.trypop popped id id
  case kept => exact .inr rfl
  case sorted => exact sorted.2
  case ahead =>
    intro queued member other _ number waiting
    exact rounds.ahead queued (members ▸ List.mem_cons_of_mem _ member) other number waiting
  case placed => simp
  case bounded => simp [Phase.waits]
  case complete => exact fun _ => complete
  case loops => simp
  case supplied =>
    have owes := total_update (Phase.owes count) state.phase front
      (.released (state.phase front).arrival)
    have overdue := total_update (Phase.overdue count state.arrivals) state.phase front
      (.released (state.phase front).arrival)
    have one : (state.phase front).overdue count state.arrivals ≤ 1 := by
      unfold Phase.overdue
      split <;> omega
    have nothing : (Phase.released (state.phase front).arrival).owes count = 0 := rfl
    omega
  case early => simp [Phase.early, complete]

theorem trypop_rounds (positive : 0 < count)
    (rounds : Rounds count state) (waking : state.phase fiber = .waking arrival wakeCount) :
    Rounds count (trypop count state fiber arrival wakeCount) := by
  cases popped : state.waiters.trypop with
  | none =>
    simp only [trypop, popped]
    exact loop_rounds positive rounds waking (Nat.le_refl _)
  | some taken =>
    obtain ⟨woken, rest⟩ := taken
    have parked := rounds.queue.parked_of_trypop popped
    have waits : (state.phase woken).waits := by
      cases standing : state.phase woken <;> simp_all [Phase.Parked, Phase.waits]
    have different : woken ≠ fiber := by
      rintro rfl
      simp [waking, Phase.waits] at waits
    have within : wakeCount + 1 < count := by
      rcases rounds.loops fiber arrival wakeCount waking with below | one
      · exact below
      · exact absurd (one ▸ one_dvd _) (rounds.bounded woken waits).2
    have own : (state.phase fiber).owes count = count - 1 - wakeCount := by rw [waking]; rfl
    have owed := le_total (Phase.owes count) state.phase fiber
    have complete := front_complete rounds popped (by omega)
    have looped := loop_rounds positive rounds waking (Nat.le_add_right wakeCount 1)
    have unmoved : update state.phase fiber (wakeLoop count arrival (wakeCount + 1)) woken =
        state.phase woken :=
      update_of_ne different ..
    have released := release_rounds looped popped
    simp only [unmoved] at released
    simp only [trypop, popped, update_comm different]
    apply released complete
    have owes := total_update (Phase.owes count) state.phase fiber
      (wakeLoop count arrival (wakeCount + 1))
    have overdue := total_update (Phase.overdue count state.arrivals) state.phase fiber
      (wakeLoop count arrival (wakeCount + 1))
    have fewer := wakeLoop_owes count arrival (wakeCount + 1)
    have supplied := rounds.supplied
    have idle : (state.phase fiber).overdue count state.arrivals = 0 := by
      simp [waking, Phase.overdue, Phase.waits]
    omega

theorem leave_rounds (rounds : Rounds count state) (free : (state.phase fiber).waits = false) :
    Rounds count { state with phase := update state.phase fiber .outside } := by
  apply rounds.goto free rfl
  case complete => simp [Phase.passed]
  case loops => simp
  case owes => exact Nat.zero_le _

theorem round_mono {first second : Phase} (le : first.arrival ≤ second.arrival) :
    first.round count ≤ second.round count :=
  Nat.div_le_div_right (Nat.sub_le_sub_right (Nat.add_le_add_right le _) _)

omit [DecidableEq Fiber] in
theorem waits_of_mem (rounds : Rounds count state) (member : fiber ∈ state.waiters.members) :
    (state.phase fiber).waits := by
  rw [rounds.queue.mem_members] at member
  cases phase : state.phase fiber <;> simp_all [Phase.Linking, Phase.Parked, Phase.waits]

theorem Rounds.entered (rounds : Rounds count state) (outside : state.phase fiber = .outside)
    (number : next.arrival = state.arrivals + 1) (unlinked : ¬ next.Linking)
    (unparked : ¬ next.Parked) (inner : next.waits → ¬ count ∣ state.arrivals + 1)
    (complete : next.passed → next.Complete count (state.arrivals + 1))
    (loops : ∀ arrival wakeCount, next = .waking arrival wakeCount →
      wakeCount + 1 < count ∨ count = 1)
    (supplied : total (Phase.owes count) (update state.phase fiber next) ≤
      total (Phase.overdue count (state.arrivals + 1)) (update state.phase fiber next))
    (present : state.arrivals + 1 ≤ count * ((state.arrivals + 1) / count) +
      total (Phase.early count (state.arrivals + 1)) (update state.phase fiber next)) :
    Rounds count { state with
      counter := state.counter + 1
      arrivals := state.arrivals + 1
      phase := update state.phase fiber next } where
  counted := congrArg (· + 1) rounds.counted
  queue := rounds.queue.update_of_iff (iff_of_false unlinked (by rw [outside]; exact id))
    (iff_of_false unparked (by rw [outside]; exact id))
  bounded := (forall_update_iff state.phase (fun _ phase => phase.waits →
    phase.arrival ≤ state.arrivals + 1 ∧ ¬ count ∣ phase.arrival)).mpr
      ⟨fun waits => ⟨Nat.le_of_eq number, number ▸ inner waits⟩, fun other _ waits =>
        (rounds.bounded other waits).imp_left Nat.le_succ_of_le⟩
  complete := (forall_update_iff state.phase (fun _ phase => phase.passed →
    phase.Complete count (state.arrivals + 1))).mpr
      ⟨complete, fun other _ passed => complete_mono (Nat.le_succ _) (rounds.complete other passed)⟩
  sorted := by
    have kept : fiber ∉ state.waiters.members := fun member => by
      simpa [outside, Phase.waits] using waits_of_mem rounds member
    refine rounds.sorted.imp_of_mem fun {first second} firstMember secondMember le => ?_
    rw [round_update (.inl kept) first firstMember, round_update (.inl kept) second secondMember]
    exact le
  ahead queued member other arrival pushing := by
    dsimp only at member pushing ⊢
    have waits := waits_of_mem rounds member
    have kept : queued ≠ fiber := by
      rintro rfl
      simp [outside, Phase.waits] at waits
    rw [update_of_ne kept]
    by_cases moved : other = fiber
    · subst moved
      rw [update_self]
      exact round_mono (number ▸ Nat.le_succ_of_le (rounds.bounded queued waits).1)
    · rw [update_of_ne moved] at pushing ⊢
      exact rounds.ahead queued member other arrival pushing
  loops := rounds.loops_update loops
  supplied := supplied
  present := present

theorem arrive_rounds (positive : 0 < count) (rounds : Rounds count state)
    (outside : state.phase fiber = .outside) (inner : ¬ count ∣ state.arrivals + 1) :
    Rounds count { state with
      counter := state.counter + 1
      arrivals := state.arrivals + 1
      phase := update state.phase fiber (.pushing (state.arrivals + 1)) } := by
  have incomplete : ¬ (Phase.pushing (state.arrivals + 1)).Complete count (state.arrivals + 1) := by
    rw [complete_succ_iff _ inner]
    intro complete
    have reached : state.arrivals + 1 ≤ count * (Phase.pushing (state.arrivals + 1)).round count :=
      le_smul_ceilDiv positive
    exact Nat.not_succ_le_self _ (Nat.le_trans reached complete)
  have overdue := total_congr (fun other =>
    show (state.phase other).overdue count (state.arrivals + 1) =
      (state.phase other).overdue count state.arrivals by
    simp only [Phase.overdue, complete_succ_iff _ inner])
  have early := total_congr (fun other =>
    show (state.phase other).early count (state.arrivals + 1) =
      (state.phase other).early count state.arrivals by
    simp only [Phase.early, complete_succ_iff _ inner])
  apply rounds.entered outside rfl id id
  case inner => exact fun _ => inner
  case complete => simp [Phase.passed]
  case loops => simp
  case supplied =>
    have owesUpdate := total_update (Phase.owes count) state.phase fiber
      (.pushing (state.arrivals + 1))
    have overdueUpdate := total_update (Phase.overdue count (state.arrivals + 1)) state.phase fiber
      (.pushing (state.arrivals + 1))
    have supplied := rounds.supplied
    rw [outside] at owesUpdate overdueUpdate
    simp [Phase.owes] at owesUpdate
    simp [Phase.overdue, Phase.waits] at overdueUpdate
    omega
  case present =>
    have update := total_update (Phase.early count (state.arrivals + 1)) state.phase fiber
      (.pushing (state.arrivals + 1))
    have one : (Phase.pushing (state.arrivals + 1)).early count (state.arrivals + 1) = 1 := by
      simp [Phase.early, Phase.waits, incomplete]
    have zero : (state.phase fiber).early count (state.arrivals + 1) = 0 := by
      simp [outside, Phase.early, Phase.waits]
    have present := rounds.present
    have quotient : (state.arrivals + 1) / count = state.arrivals / count := by
      rw [Nat.succ_div, if_neg inner, Nat.add_zero]
    rw [quotient]
    omega

theorem last_rounds (positive : 0 < count) (rounds : Rounds count state)
    (outside : state.phase fiber = .outside) (last : count ∣ state.arrivals + 1) :
    Rounds count { state with
      counter := state.counter + 1
      arrivals := state.arrivals + 1
      phase := update state.phase fiber (.waking (state.arrivals + 1) 0) } := by
  have quotient : (state.arrivals + 1) / count = state.arrivals / count + 1 := by
    rw [Nat.succ_div, if_pos last]
  have whole : count * (state.arrivals / count + 1) = state.arrivals + 1 :=
    quotient ▸ Nat.mul_div_cancel' last
  apply rounds.entered outside rfl id id
  case inner => simp [Phase.waits]
  case complete =>
    intro _
    exact complete_of_dvd positive last (Nat.le_refl _)
  case loops =>
    intro arrival wakeCount waking
    cases waking
    omega
  case supplied =>
    have due : total (fun phase => phase.overdue count state.arrivals +
        phase.early count state.arrivals) state.phase ≤
        total (Phase.overdue count (state.arrivals + 1)) state.phase := by
      refine total_mono fun other => ?_
      by_cases waits : (state.phase other).waits
      · have reached := Nat.le_succ_of_le (rounds.bounded other waits).1
        have complete := complete_of_dvd positive last reached
        by_cases before : (state.phase other).Complete count state.arrivals <;>
          simp [Phase.overdue, Phase.early, waits, complete, before]
      · simp [Phase.overdue, Phase.early, waits]
    rw [total_add] at due
    have owesUpdate := total_update (Phase.owes count) state.phase fiber
      (.waking (state.arrivals + 1) 0)
    have overdueUpdate := total_update (Phase.overdue count (state.arrivals + 1)) state.phase fiber
      (.waking (state.arrivals + 1) 0)
    have own : (Phase.waking (state.arrivals + 1) 0).owes count = count - 1 := rfl
    have idle : (state.phase fiber).overdue count (state.arrivals + 1) = 0 := by
      simp [outside, Phase.overdue, Phase.waits]
    have supplied := rounds.supplied
    have present := rounds.present
    rw [Nat.mul_add, Nat.mul_one] at whole
    omega
  case present =>
    rw [quotient, whole]
    exact Nat.le_add_right _ _

theorem wait_rounds (positive : 0 < count) (rounds : Rounds count state)
    (outside : state.phase fiber = .outside) (room : state.counter + 1 < 2 ^ 64) :
    Rounds count (wait count state fiber) := by
  have exact : (state.counter + 1) % 2 ^ 64 = state.counter + 1 := Nat.mod_eq_of_lt room
  have counted := rounds.counted
  by_cases last : count ∣ state.arrivals + 1
  · have zero : (state.counter + 1) % count = 0 := counted ▸ Nat.mod_eq_zero_of_dvd last
    simp only [wait, exact, if_pos zero]
    exact last_rounds positive rounds outside last
  · have nonzero : (state.counter + 1) % count ≠ 0 :=
      fun zero => last (counted ▸ Nat.dvd_of_mod_eq_zero zero)
    simp only [wait, exact, if_neg nonzero]
    exact arrive_rounds positive rounds outside last

theorem step_rounds (positive : 0 < count)
    (rounds : Rounds count state) (inTurn : InTurn count state action)
    (stepped : step count state action = some after) : Rounds count after := by
  cases action with
  | wait fiber =>
    obtain ⟨outside, ⟨⟩⟩ := Option.ite_none_right_eq_some.mp stepped
    exact wait_rounds positive rounds outside inTurn
  | exchange fiber =>
    cases phase : state.phase fiber <;> simp only [step, phase, reduceCtorEq] at stepped
    cases stepped
    exact exchange_rounds rounds phase inTurn
  | link fiber =>
    cases phase : state.phase fiber <;> simp only [step, phase, reduceCtorEq] at stepped
    cases stepped
    exact link_rounds rounds phase
  | trypop fiber =>
    cases phase : state.phase fiber <;> simp only [step, phase, reduceCtorEq] at stepped
    cases stepped
    exact trypop_rounds positive rounds phase
  | leave fiber =>
    have free : (state.phase fiber).waits = false := by
      cases phase : state.phase fiber <;> simp_all [step, Phase.waits]
    cases phase : state.phase fiber <;> simp only [step, phase, reduceCtorEq] at stepped <;>
      cases stepped <;> exact leave_rounds rounds free

abbrev History (Fiber : Type) := List (State Fiber × Action Fiber)

theorem run_rounds (positive : 0 < count) (run : (machine Fiber count).Run history state)
    (inTurn : ∀ taken ∈ history, InTurn count taken.1 taken.2) : Rounds count state :=
  Machine.Run.invariant_of_allowed (InTurn count) _
    (fun _ initial => initial ▸ init_rounds)
    (fun _ _ _ _ _ rounds inTurn stepped => step_rounds positive rounds inTurn stepped) run inTurn

/-- In every run in which the waiters queue in the order of their generations:
when the call that was the `k`-th arrival returns, the `count * ⌈k / count⌉`
arrivals of its generation and of those before it have happened. -/
theorem barrier_generations {history : History Fiber} (positive : 0 < count)
    (run : (machine Fiber count).Run history state)
    (inTurn : ∀ taken ∈ history, InTurn count taken.1 taken.2) :
    ∀ taken ∈ history, ∀ fiber, taken.2 = .leave fiber →
      count * ((taken.1.phase fiber).arrival ⌈/⌉ count) ≤ taken.1.arrivals := by
  induction run with
  | start => simp
  | @step history before after action run stepped ih =>
    obtain ⟨earlier, _⟩ := List.forall_mem_append.mp inTurn
    intro taken member fiber leaves
    rcases List.mem_append.mp member with old | last
    · exact ih earlier taken old fiber leaves
    · obtain rfl := List.mem_singleton.mp last
      obtain rfl : action = .leave fiber := leaves
      have passed : (before.phase fiber).passed := by
        cases phase : before.phase fiber <;> simp_all [machine, step, Phase.passed]
      exact (run_rounds positive run earlier).complete fiber passed

end Rounds

/-- The first fiber waits for the second, which pops it. -/
def met {Fiber : Type} (first second : Fiber) : List (Action Fiber) :=
  [.wait first, .exchange first, .link first, .wait second, .trypop second, .leave first]

theorem barrier_generations_met : ∃ history state,
    (machine (Fin 2) 2).Run history state ∧ (∀ taken ∈ history, InTurn 2 taken.1 taken.2) ∧
      ∃ taken ∈ history, taken.2 = .leave 0 ∧
        2 * ((taken.1.phase 0).arrival ⌈/⌉ 2) ≤ taken.1.arrivals := by
  have run := Machine.run_of_isSome (show (machine (Fin 2) 2).initial init from rfl)
    (show ((machine (Fin 2) 2).exec init (met 0 1)).isSome by decide)
  have inTurn : ∀ taken ∈ (machine (Fin 2) 2).trail init (met 0 1),
      InTurn 2 taken.1 taken.2 := by decide
  have found : ((machine (Fin 2) 2).trail init (met 0 1)).any
      (fun taken => decide (taken.2 = .leave 0)) := by
    decide
  obtain ⟨taken, member, leaves⟩ := List.any_eq_true.mp found
  have left := of_decide_eq_true leaves
  exact ⟨_, _, run, inTurn, taken, member, left,
    barrier_generations (by decide) run inTurn taken member 0 left⟩

/-- The slow fiber is counted and does not get to the queue.  The last one completes
the generation, pops the quick one and then pops it again in the next generation, in
the place of the slow one. -/
def overtaken {Fiber : Type} (slow quick last : Fiber) : List (Action Fiber) :=
  [.wait slow, .wait quick, .exchange quick, .link quick, .wait last, .trypop last, .leave quick,
    .wait quick, .exchange quick, .link quick, .trypop last, .leave quick]

theorem barrier_generations_overtaken : ∃ history state,
    (machine (Fin 3) 3).Run history state ∧ ∃ taken ∈ history, taken.2 = .leave 1 ∧
      taken.1.arrivals < 3 * ((taken.1.phase 1).arrival ⌈/⌉ 3) := by
  have run := Machine.run_of_isSome (show (machine (Fin 3) 3).initial init from rfl)
    (show ((machine (Fin 3) 3).exec init (overtaken 0 1 2)).isSome by decide)
  have found : ((machine (Fin 3) 3).trail init (overtaken 0 1 2)).any (fun taken =>
      decide (taken.2 = .leave 1 ∧ taken.1.arrivals < 3 * ((taken.1.phase 1).arrival ⌈/⌉ 3))) := by
    decide
  obtain ⟨taken, member, early⟩ := List.any_eq_true.mp found
  exact ⟨_, _, run, taken, member, of_decide_eq_true early⟩

end LibFiber.Barrier
