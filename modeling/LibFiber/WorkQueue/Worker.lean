import LibFiber.WorkQueue.Machine
import LibFiber.Mpsc.Fifo
import LibFiber.Data.Handover
import Mathlib.Data.List.Perm.Basic

namespace LibFiber.WorkQueue

open Semantics Data Function

/-! There is one worker at a time, so that the fifo has one consumer, and the counts
say how many items are still to be handed out. -/

section Roles

variable {Fiber Node Value : Type}

def Phase.serving : Phase Node Value → Bool
  | .resting | .entering | .pushing => false
  | _ => true

structure Roles (state : State Fiber Node Value) : Prop where
  sole : ∀ fiber other, state.worker fiber → state.worker other → fiber = other
  serving : ∀ fiber, (state.phase fiber).serving → state.worker fiber
  mirror : ∀ fiber consumer, state.phase fiber = .popping consumer →
    state.fifo.consumer = consumer
  rested : (∀ fiber consumer, state.phase fiber ≠ .popping consumer) →
    state.fifo.consumer.resting
  starting : ∀ fiber, state.phase fiber = .entering →
    ∃ node, state.fifo.producer fiber = .terminating node

variable {state after : State Fiber Node Value} {fiber : Fiber}

theorem Roles.resting (roles : Roles state) (working : state.worker fiber)
    (apart : ∀ consumer, state.phase fiber ≠ .popping consumer) :
    state.fifo.consumer.resting := by
  refine roles.rested fun other consumer phase => ?_
  have serving := roles.serving other (by rw [phase]; rfl)
  rw [roles.sole other fiber serving working] at phase
  exact apart consumer phase

theorem Roles.fifo_eq (roles : Roles state) (phase : state.phase fiber = .popping consumer) :
    { state.fifo with consumer } = state.fifo := by
  rw [← roles.mirror fiber consumer phase]

variable [DecidableEq Fiber]
variable {next : Phase Node Value} {inCount : Int}

theorem Roles.goto (roles : Roles state) (consumer : fifo.consumer = state.fifo.consumer)
    (producers : ∀ other, other ≠ fiber → fifo.producer other = state.fifo.producer other)
    (before : ∀ consumer, state.phase fiber ≠ .popping consumer)
    (behind : ∀ consumer, next ≠ .popping consumer) (serving : next.serving → state.worker fiber)
    (starting : next = .entering → ∃ node, fifo.producer fiber = .terminating node) :
    Roles ⟨fifo, inCount, outCount, state.worker, update state.phase fiber next⟩ where
  sole := roles.sole
  serving other serves := by
    by_cases same : other = fiber
    · subst other
      exact serving (by simpa using serves)
    · exact roles.serving other (by simpa [update_of_ne same] using serves)
  mirror other element phase := by
    by_cases same : other = fiber
    · subst other
      exact (behind element (by simpa using phase)).elim
    · exact consumer.trans (roles.mirror other element (by simpa [update_of_ne same] using phase))
  rested idle := by
    rw [consumer]
    refine roles.rested fun other element phase => ?_
    by_cases same : other = fiber
    · exact before element (same ▸ phase)
    · exact idle other element (by simpa [update_of_ne same] using phase)
  starting other phase := by
    by_cases same : other = fiber
    · subst other
      exact starting (by simpa using phase)
    · obtain ⟨node, producer⟩ := roles.starting other (by simpa [update_of_ne same] using phase)
      exact ⟨node, (producers other same).trans producer⟩

theorem Roles.pop (roles : Roles state) (working : state.worker fiber)
    (producers : fifo.producer = state.fifo.producer)
    (mirror : ∀ consumer, next = .popping consumer → fifo.consumer = consumer)
    (rested : (∀ consumer, next ≠ .popping consumer) → fifo.consumer.resting)
    (behind : next ≠ .entering) :
    Roles ⟨fifo, inCount, outCount, state.worker, update state.phase fiber next⟩ where
  sole := roles.sole
  serving other serves := by
    by_cases same : other = fiber
    · rw [same]
      exact working
    · exact roles.serving other (by simpa [update_of_ne same] using serves)
  mirror other element phase := by
    by_cases same : other = fiber
    · subst other
      exact mirror element (by simpa using phase)
    · have popping : state.phase other = .popping element := by
        simpa [update_of_ne same] using phase
      have serving := roles.serving other (by rw [popping]; rfl)
      exact (same (roles.sole other fiber serving working)).elim
  rested idle := by
    refine rested fun element equal => idle fiber element ?_
    simpa using equal
  starting other phase := by
    by_cases same : other = fiber
    · subst other
      exact (behind (by simpa using phase)).elim
    · rw [producers]
      exact roles.starting other (by simpa [update_of_ne same] using phase)

theorem enter_roles (roles : Roles state) (phase : state.phase fiber = .entering)
    (free : state.inCount + 1 = 1 → ∀ other, state.worker other = false) :
    Roles { state with
      inCount := state.inCount + 1
      worker := if state.inCount + 1 = 1 then update state.worker fiber true else state.worker
      phase := update state.phase fiber .pushing } := by
  have moved : Roles { state with
      inCount := state.inCount + 1, phase := update state.phase fiber .pushing } :=
    roles.goto rfl (fun _ _ => rfl) (by simp [phase]) nofun nofun nofun
  by_cases first : state.inCount + 1 = 1
  · have idle := free first
    have only : ∀ other, update state.worker fiber true other → other = fiber := by
      intro other working
      by_contra apart
      rw [update_of_ne apart, idle other] at working
      cases working
    simp only [if_pos first]
    refine { moved with sole := ?_, serving := ?_ }
    · exact fun left right first second => (only left first).trans (only right second).symm
    · intro other serves
      have working := moved.serving other serves
      rw [show _ = false from idle other] at working
      cases working
  · simp only [if_neg first]
    exact moved

theorem finish_roles (roles : Roles state) (phase : state.phase fiber = .subtracting oldOutCount) :
    Roles { state with
      inCount
      worker := update state.worker fiber false
      phase := update state.phase fiber .resting } := by
  have moved : Roles { state with inCount, phase := update state.phase fiber .resting } :=
    roles.goto rfl (fun _ _ => rfl) (by simp [phase]) nofun nofun nofun
  refine { moved with sole := ?_, serving := ?_ }
  · intro left right first second
    have apart : ∀ other, update state.worker fiber false other → other ≠ fiber := by
      rintro other claims rfl
      rw [update_self] at claims
      cases claims
    have known : ∀ other, update state.worker fiber false other →
        state.worker other := fun other claims =>
      (update_of_ne (apart other claims) _ _).symm.trans claims
    exact roles.sole left right (known left first) (known right second)
  · intro other serves
    show update state.worker fiber false other
    by_cases same : other = fiber
    · subst other
      simp [Phase.serving] at serves
    · rw [update_of_ne same]
      exact moved.serving other serves

variable [DecidableEq Node] {fifo later : Mpsc.State Fiber Node Value}

theorem filled {data : Value} {next : Option Node}
    (stepped : Mpsc.step fifo (.fill node data next) = some later) :
    later.consumer = fifo.consumer ∧ later.producer = fifo.producer := by
  cases Mpsc.step_moves stepped with
  | fill => exact ⟨rfl, rfl⟩

theorem claimed (stepped : Mpsc.step fifo (.push fiber node) = some later) :
    later.consumer = fifo.consumer ∧ later.producer fiber = .terminating node ∧
      ∀ other, other ≠ fiber → later.producer other = fifo.producer other := by
  cases Mpsc.step_moves stepped with
  | push => exact ⟨rfl, update_self _ _ _, fun other apart => update_of_ne apart _ _⟩

theorem produced (stepped : Mpsc.step fifo (.moveProducer fiber) = some later) :
    later.consumer = fifo.consumer ∧
      ∀ other, other ≠ fiber → later.producer other = fifo.producer other := by
  cases Mpsc.step_moves stepped with
  | terminate | exchange | link => exact ⟨rfl, fun other apart => update_of_ne apart _ _⟩

theorem consumed (stepped : Mpsc.step fifo .moveConsumer = some later) :
    later.producer = fifo.producer := by
  cases Mpsc.step_moves stepped with
  | read | advance | store => rfl

theorem after_popping (same : Phase.after phase = .popping consumer) : phase = consumer := by
  unfold Phase.after at same
  split at same <;> cases same
  rfl

theorem after_resting
    (behind : ∀ consumer, Phase.after phase ≠ .popping consumer) : phase.resting := by
  cases phase with
  | popped => rfl
  | _ => exact (behind _ rfl).elim

omit [DecidableEq Fiber] [DecidableEq Node] in
theorem Thinks.apart (thinks : Thinks state (state.phase fiber) next) :
    (∀ consumer, state.phase fiber ≠ .popping consumer) ∧
      (∀ consumer, next ≠ .popping consumer) ∧ (state.phase fiber).serving ∧
      next ≠ .entering := by
  generalize state.phase fiber = phase at thinks
  cases thinks <;> exact ⟨nofun, nofun, rfl, nofun⟩

theorem Move.roles {action : Action Fiber Node Value} (move : Move state action after)
    (roles : Roles state) (counted : ∀ fiber, state.worker fiber → 0 < state.inCount) :
    Roles after := by
  cases move with
  | fill stepped =>
    obtain ⟨consumer, producer⟩ := filled stepped
    refine ⟨roles.sole, roles.serving, ?_, ?_, ?_⟩
    · exact fun fiber element phase => consumer.trans (roles.mirror fiber element phase)
    · exact fun idle => consumer ▸ roles.rested idle
    · intro fiber phase
      rw [producer]
      exact roles.starting fiber phase
  | push phase stepped =>
    obtain ⟨consumer, mine, others⟩ := claimed stepped
    exact roles.goto consumer others (by simp [phase]) nofun nofun fun _ => ⟨_, mine⟩
  | @enter fiber phase =>
    refine enter_roles roles phase fun first other => ?_
    by_contra working
    have positive := counted other (by simpa using working)
    omega
  | @produce fiber fifo phase stepped =>
    obtain ⟨consumer, others⟩ := produced stepped
    refine roles.goto consumer others (by simp [phase]) ?_ ?_ ?_
    · intro element
      split <;> nofun
    · intro serves
      split at serves <;> cases serves
    · intro same
      split at same <;> cases same
  | getWork phase working =>
    exact roles.pop working rfl (fun _ same => by cases same; rfl)
      (fun behind => (behind _ rfl).elim)
      nofun
  | retry phase | resume phase =>
    have working := roles.serving _ (by rw [phase]; rfl)
    exact roles.pop working rfl (fun _ same => by cases same; rfl)
      (fun behind => (behind _ rfl).elim)
      nofun
  | consume phase stepped =>
    have working := roles.serving _ (by rw [phase]; rfl)
    rw [roles.fifo_eq phase] at stepped
    refine roles.pop working (consumed stepped) (fun _ => after_popping) after_resting ?_
    intro same
    unfold Phase.after at same
    split at same <;> cases same
  | think thinks =>
    obtain ⟨before, behind, serving, unstarted⟩ := thinks.apart
    exact roles.goto rfl (fun _ _ => rfl) before behind (fun _ => roles.serving _ serving)
      fun same => (unstarted same).elim
  | zero phase =>
    have working := roles.serving _ (by rw [phase]; rfl)
    exact roles.goto rfl (fun _ _ => rfl) (by simp [phase]) nofun (fun _ => working) nofun
  | finish phase => exact finish_roles roles phase
  | count phase =>
    exact roles.goto rfl (fun _ _ => rfl) (by simp [phase]) nofun nofun nofun

end Roles

section History

variable {Fiber Node Value : Type}

def enters (taken : State Fiber Node Value × Action Fiber Node Value) : Option Fiber :=
  match taken.2 with
  | .move fiber =>
    match taken.1.phase fiber with
    | .entering => some fiber
    | _ => none
  | _ => none

def puts (taken : State Fiber Node Value × Action Fiber Node Value) : Option (Fiber × Value) :=
  match taken.2 with
  | .move fiber =>
    match taken.1.phase fiber, taken.1.fifo.producer fiber with
    | .pushing, .exchanging node => some (fiber, taken.1.fifo.data node)
    | _, _ => none
  | _ => none

/-- The item that the `mpsc_fifo_trypop` of a `work_queue_get_work` returns at the step. -/
def hands [DecidableEq Node] (taken : State Fiber Node Value × Action Fiber Node Value) :
    Option (Fiber × Value) :=
  match taken.2 with
  | .move fiber =>
    match taken.1.phase fiber with
    | .popping consumer =>
      (Mpsc.returned ({ taken.1.fifo with consumer }, .moveConsumer)).map (fiber, ·)
    | _ => none
  | _ => none

/-- The item's node in `*out`. -/
def Phase.out : Phase Node Value → List Node
  | .loadingOut node | .storingOut node _ => [node]
  | _ => []

def Phase.found : Phase Node Value → Option Node
  | .loadingOut node => some node
  | _ => none

def finds [DecidableEq Fiber] [DecidableEq Node] :
    State Fiber Node Value × Action Fiber Node Value → Option (Fiber × Node)
  | (state, .move fiber) =>
    (move state fiber).bind fun after => (after.phase fiber).found.map (fiber, ·)
  | _ => none

/-- The node in `*out` when `work_queue_get_work` returns `WORK_QUEUE_MORE_WORK`. -/
def delivers [DecidableEq Fiber] [DecidableEq Node] :
    State Fiber Node Value × Action Fiber Node Value → Option (Fiber × Node)
  | (state, .move fiber) =>
    match state.phase fiber with
    | .storingOut node _ =>
      (move state fiber).bind fun after =>
        if (after.phase fiber).rests = true then some (fiber, node) else none
    | _ => none
  | _ => none

def entered (history : History Fiber Node Value) : List Fiber := history.filterMap enters

def pushed (history : History Fiber Node Value) : List (Fiber × Value) := history.filterMap puts

variable [DecidableEq Node]

def handed (history : History Fiber Node Value) : List (Fiber × Value) := history.filterMap hands

variable [DecidableEq Fiber]

/-- The fifo below has a run of its own, with the same items going in and out. -/
def Simulated (history : History Fiber Node Value) (fifo : Mpsc.State Fiber Node Value) : Prop :=
  ∃ inner, (Mpsc.machine Fiber Node Value).Run inner fifo ∧
    Mpsc.popped inner = (handed history).map Prod.snd ∧
    (Mpsc.places inner).map (fun place => (place.producer, place.value)) = pushed history

variable {state after : State Fiber Node Value} {history : History Fiber Node Value}
variable {fiber : Fiber} {fifo : Mpsc.State Fiber Node Value}

theorem Simulated.stay (simulated : Simulated history fifo) (still : puts taken = none)
    (silent : hands taken = none) : Simulated (history ++ [taken]) fifo := by
  obtain ⟨inner, run, popped, places⟩ := simulated
  refine ⟨inner, run, ?_, ?_⟩
  · simpa [handed, silent] using popped
  · simpa [pushed, still] using places

theorem Simulated.step (simulated : Simulated history fifo)
    (stepped : Mpsc.step fifo act = some later)
    (pops : Mpsc.returned (fifo, act) = (hands taken).map Prod.snd)
    (records : ∀ places, (Mpsc.record places (fifo, act)).map
      (fun place => (place.producer, place.value)) =
        places.map (fun place => (place.producer, place.value)) ++ (puts taken).toList) :
    Simulated (history ++ [taken]) later := by
  obtain ⟨inner, run, popped, places⟩ := simulated
  refine ⟨_, run.step stepped, ?_, ?_⟩
  · show _ = ((history ++ [taken]).filterMap hands).map Prod.snd
    rw [Mpsc.popped_append, popped, pops, filterMap_snoc, List.map_append]
    cases hands taken <;> rfl
  · show _ = (history ++ [taken]).filterMap puts
    rw [Mpsc.places_append, records, places, filterMap_snoc]
    rfl

omit [DecidableEq Node] in
theorem settle_map (fiber : Fiber) (places : List (Place Fiber Node Value)) :
    (settle fiber places).map (fun place => (place.producer, place.value)) =
      places.map fun place => (place.producer, place.value) := by
  rw [settle, List.map_map]
  refine List.map_congr_left fun place _ => ?_
  by_cases own : place.producer = fiber <;> simp [own]

theorem trypop_step (resting : fifo.consumer.resting) :
    Mpsc.step fifo .trypop = some { fifo with consumer := .popping } := by
  simp [Mpsc.step, Mpsc.call, resting]

theorem produce_simulated
    (simulated : Simulated history state.fifo) (phase : state.phase fiber = .pushing)
    (stepped : Mpsc.step state.fifo (.moveProducer fiber) = some later) :
    Simulated (history ++ [(state, .move fiber)]) later := by
  refine simulated.step stepped (by simp [hands, phase, Mpsc.returned]) fun places => ?_
  cases producer : state.fifo.producer fiber with
  | idle | terminating | exchanging node => simp [Mpsc.record, puts, phase, producer]
  | linking prevTail node =>
    simpa [Mpsc.record, puts, phase, producer] using settle_map fiber places

theorem consume_simulated (simulated : Simulated history state.fifo)
    (roles : Roles state) (phase : state.phase fiber = .popping consumer)
    (stepped : Mpsc.step state.fifo .moveConsumer = some later) :
    Simulated (history ++ [(state, .move fiber)]) later := by
  refine simulated.step stepped ?_ fun places => by simp [Mpsc.record, puts, phase]
  simp [hands, phase, roles.fifo_eq phase, Function.comp_def]

theorem Move.simulated (move : Move state action after)
    (roles : Roles state) (simulated : Simulated history state.fifo) :
    Simulated (history ++ [(state, action)]) after.fifo := by
  cases move with
  | fill stepped | push _ stepped =>
    exact simulated.step stepped rfl fun places => by simp [Mpsc.record, puts]
  | enter phase | zero phase | finish phase | count phase =>
    exact simulated.stay (by simp [puts, phase]) (by simp [hands, phase])
  | produce phase stepped => exact produce_simulated simulated phase stepped
  | @getWork fiber phase working =>
    have resting := roles.resting working (by simp [phase])
    exact simulated.step (trypop_step resting) rfl fun places => by simp [Mpsc.record, puts]
  | @retry fiber outCount phase | @resume fiber oldOutCount phase =>
    have working := roles.serving fiber (by rw [phase]; rfl)
    have resting := roles.resting working (by simp [phase])
    exact simulated.step (trypop_step resting) (by simp [hands, phase, Mpsc.returned])
      fun places => by simp [Mpsc.record, puts, phase]
  | consume phase stepped =>
    rw [roles.fifo_eq phase] at stepped
    exact consume_simulated simulated roles phase stepped
  | @think fiber next thinks =>
    generalize phase : state.phase fiber = before at thinks
    cases thinks <;> exact simulated.stay (by simp [puts, phase]) (by simp [hands, phase])

end History

section Counts

variable {Fiber Node Value : Type} [DecidableEq Fiber]
variable {state after : State Fiber Node Value} {history : History Fiber Node Value}
variable {fiber : Fiber}
variable {fifo : Mpsc.State Fiber Node Value}
variable {next : Phase Node Value} {inCount outCount : Int} {worker : Fiber → Bool}

/-- The fiber has incremented `in_count` and not put its item at the tail yet. -/
def State.owes (state : State Fiber Node Value) (fiber : Fiber) : Bool :=
  match state.phase fiber, state.fifo.producer fiber with
  | .pushing, .terminating _ | .pushing, .exchanging _ => true
  | _, _ => false

omit [DecidableEq Fiber] in
theorem owes_of_ne (apart : state.phase fiber ≠ .pushing) : state.owes fiber = false := by
  unfold State.owes
  split
  · exact (apart ‹_›).elim
  · exact (apart ‹_›).elim
  · rfl

/-- Each push increments `in_count` once and puts its item at the tail once. -/
def Paired (history : History Fiber Node Value) (state : State Fiber Node Value) : Prop :=
  ∀ fiber, (entered history).count fiber =
    ((pushed history).map Prod.fst).count fiber + (state.owes fiber).toNat

theorem Paired.subperm (paired : Paired history state) :
    ((pushed history).map Prod.fst).Subperm (entered history) := by
  refine List.subperm_ext_iff.mpr fun fiber _ => ?_
  have counts := paired fiber
  omega

theorem Paired.length_le (paired : Paired history state) :
    (pushed history).length ≤ (entered history).length := by
  have least := paired.subperm.length_le
  rwa [List.length_map] at least

theorem Paired.step (paired : Paired history state)
    (balance : ∀ fiber, (decide (enters (state, action) = some fiber)).toNat +
        (state.owes fiber).toNat =
      (decide ((puts (state, action)).map Prod.fst = some fiber)).toNat +
        (after.owes fiber).toNat) :
    Paired (history ++ [(state, action)]) after := by
  intro fiber
  have before := paired fiber
  have step := balance fiber
  simp only [entered, pushed, List.map_filterMap, count_filterMap_snoc] at before ⊢
  omega

theorem owes_update (apart : other ≠ fiber)
    (producers : fifo.producer other = state.fifo.producer other) :
    State.owes ⟨fifo, inCount, outCount, worker, update state.phase fiber next⟩ other =
      state.owes other := by
  simp only [State.owes, update_of_ne apart, producers]

theorem Paired.carry (paired : Paired history state) (outside : enters (state, action) = none)
    (still : puts (state, action) = none) (before : state.phase fiber ≠ .pushing)
    (behind : next ≠ .pushing)
    (producers : ∀ other, other ≠ fiber → fifo.producer other = state.fifo.producer other) :
    Paired (history ++ [(state, action)])
      ⟨fifo, inCount, outCount, worker, update state.phase fiber next⟩ := by
  refine paired.step fun other => ?_
  rw [outside, still]
  by_cases same : other = fiber
  · subst other
    rw [owes_of_ne before, owes_of_ne (by simpa using behind)]
    rfl
  · rw [owes_update same (producers other same)]
    rfl

theorem enter_paired (paired : Paired history state)
    (roles : Roles state) (phase : state.phase fiber = .entering) :
    Paired (history ++ [(state, .move fiber)])
      { state with inCount, worker, phase := update state.phase fiber .pushing } := by
  obtain ⟨node, producer⟩ := roles.starting fiber phase
  refine paired.step fun other => ?_
  by_cases same : other = fiber
  · subst other
    simp [enters, puts, State.owes, phase, producer]
  · rw [owes_update same rfl]
    simp [enters, puts, phase, Ne.symm same]

variable [DecidableEq Node]

theorem produce_paired (paired : Paired history state) (phase : state.phase fiber = .pushing)
    (stepped : Mpsc.step state.fifo (.moveProducer fiber) = some fifo) :
    Paired (history ++ [(state, .move fiber)])
      { state with
        fifo
        phase := update state.phase fiber
          (if fifo.producer fiber = .idle then .resting else .pushing) } := by
  refine paired.step fun other => ?_
  by_cases same : other = fiber
  · subst other
    cases Mpsc.step_moves stepped with
    | terminate producer | exchange producer | link producer =>
      simp [enters, puts, State.owes, phase, producer]
  · rw [owes_update same ((produced stepped).2 other same)]
    have different : ∀ {found : Option (Fiber × Value)}, (∀ pair ∈ found, pair.1 = fiber) →
        found.map Prod.fst ≠ some other := by
      rintro (_ | pair) named found
      · cases found
      · exact same ((Option.some.inj found).symm.trans (named pair rfl))
    have apart : (puts (state, .move fiber)).map Prod.fst ≠ some other := by
      refine different fun pair found => ?_
      cases producer : state.fifo.producer fiber <;> simp [puts, phase, producer] at found
      rw [← found]
    simp [enters, phase, apart]

theorem Move.paired (move : Move state action after)
    (roles : Roles state) (paired : Paired history state) :
    Paired (history ++ [(state, action)]) after := by
  cases move with
  | fill stepped =>
    refine paired.step fun fiber => ?_
    simp [enters, puts, State.owes, (filled stepped).2]
  | push phase stepped =>
    exact paired.carry rfl rfl (by simp [phase]) nofun (claimed stepped).2.2
  | enter phase => exact enter_paired paired roles phase
  | produce phase stepped => exact produce_paired paired phase stepped
  | getWork phase => exact paired.carry rfl rfl (by simp [phase]) nofun fun _ _ => rfl
  | retry phase | resume phase | zero phase | finish phase | count phase =>
    exact paired.carry (by simp [enters, phase]) (by simp [puts, phase]) (by simp [phase]) nofun
      fun _ _ => rfl
  | @consume fiber consumer fifo phase stepped =>
    refine paired.carry (by simp [enters, phase]) (by simp [puts, phase]) (by simp [phase]) ?_ ?_
    · unfold Phase.after
      split <;> nofun
    · intro other _
      rw [consumed stepped]
  | @think fiber next thinks =>
    generalize phase : state.phase fiber = before at thinks
    cases thinks <;>
      exact paired.carry (by simp [enters, phase]) (by simp [puts, phase]) (by simp [phase]) nofun
        fun _ _ => rfl

/-- The items of which `in_count` knows and that are not handed out. -/
def remaining (history : History Fiber Node Value) : Int :=
  (entered history).length - (handed history).length

omit [DecidableEq Fiber] in
theorem remaining_snoc (taken : State Fiber Node Value × Action Fiber Node Value) :
    remaining (history ++ [taken]) =
      remaining history + (enters taken).toList.length - (hands taken).toList.length := by
  simp only [remaining, entered, handed, filterMap_snoc, List.length_append]
  omega

/-- What the worker's local variables and the counts say about the items that are left. -/
def Phase.Tallies (inCount outCount remaining : Int) : Phase Node Value → Prop
  | .zeroing oldOutCount => oldOutCount = outCount ∧ inCount - outCount = remaining
  | .subtracting oldOutCount => outCount = 0 ∧ inCount - oldOutCount = remaining
  | .loadingOut _ => inCount - outCount = remaining + 1
  | .storingOut _ old => old = outCount ∧ inCount - outCount = remaining + 1
  | _ => inCount - outCount = remaining

structure Tally (history : History Fiber Node Value) (state : State Fiber Node Value) : Prop where
  idle : (∀ fiber, state.worker fiber = false) →
    state.inCount = 0 ∧ state.outCount = 0 ∧ remaining history = 0
  working : ∀ fiber, state.worker fiber → 0 < state.inCount ∧
    (state.phase fiber).Tallies state.inCount state.outCount (remaining history)

theorem Tally.carry (tally : Tally history state)
    (outside : enters (state, action) = none) (silent : hands (state, action) = none)
    (still : (state.phase fiber).Tallies state.inCount state.outCount (remaining history) →
      next.Tallies state.inCount state.outCount (remaining history)) :
    Tally (history ++ [(state, action)])
      { state with fifo, phase := update state.phase fiber next } := by
  have same : remaining (history ++ [(state, action)]) = remaining history := by
    simp [remaining_snoc, outside, silent]
  refine ⟨?_, ?_⟩
  · rw [same]
    exact tally.idle
  · intro other working
    obtain ⟨positive, tallies⟩ := tally.working other working
    refine ⟨positive, ?_⟩
    rw [same]
    show Phase.Tallies _ _ _ (update state.phase fiber next other)
    by_cases equal : other = fiber
    · subst other
      rw [update_self]
      exact still tallies
    · rw [update_of_ne equal]
      exact tallies

theorem Tally.serve
    (roles : Roles state) (working : state.worker fiber) (positive : 0 < inCount)
    (tallies : next.Tallies inCount outCount (remaining (history ++ [taken]))) :
    Tally (history ++ [taken])
      ⟨fifo, inCount, outCount, state.worker, update state.phase fiber next⟩ := by
  refine ⟨fun idle => ?_, fun other claims => ?_⟩
  · rw [show _ = false from idle fiber] at working
    cases working
  · obtain rfl := roles.sole other fiber claims working
    refine ⟨positive, ?_⟩
    show Phase.Tallies _ _ _ (update state.phase other next other)
    rw [update_self]
    exact tallies

theorem enter_tally (tally : Tally history state) (phase : state.phase fiber = .entering) :
    Tally (history ++ [(state, .move fiber)])
      { state with
        inCount := state.inCount + 1
        worker := if state.inCount + 1 = 1 then update state.worker fiber true else state.worker
        phase := update state.phase fiber .pushing } := by
  have more : remaining (history ++ [(state, .move fiber)]) = remaining history + 1 := by
    simp [remaining_snoc, enters, hands, phase]
  by_cases first : state.inCount + 1 = 1
  · have idle : ∀ other, state.worker other = false := by
      intro other
      by_contra working
      have positive := (tally.working other (by simpa using working)).1
      omega
    obtain ⟨_, out, none⟩ := tally.idle idle
    simp only [if_pos first]
    refine ⟨fun unclaimed => ?_, fun other claims => ⟨by show 0 < state.inCount + 1; omega, ?_⟩⟩
    · have own := unclaimed fiber
      simp at own
    · obtain rfl : other = fiber := by
        by_contra apart
        have known : state.worker other := (update_of_ne apart _ _).symm.trans claims
        rw [idle other] at known
        cases known
      show Phase.Tallies _ _ _ (update state.phase other .pushing other)
      rw [update_self, more, none]
      show state.inCount + 1 - state.outCount = 0 + 1
      omega
  · simp only [if_neg first]
    refine ⟨fun idle => ?_, fun other claims => ?_⟩
    · have zero := (tally.idle idle).1
      omega
    · obtain ⟨positive, tallies⟩ := tally.working other claims
      refine ⟨by show 0 < state.inCount + 1; omega, ?_⟩
      show Phase.Tallies (state.inCount + 1) state.outCount _
        (update state.phase fiber .pushing other)
      rw [more]
      by_cases same : other = fiber
      · subst other
        rw [phase] at tallies
        rw [update_self]
        simp only [Phase.Tallies] at tallies ⊢
        omega
      · rw [update_of_ne same]
        cases found : state.phase other <;> rw [found] at tallies <;>
          simp only [Phase.Tallies] at tallies ⊢ <;> omega

theorem finish_tally (tally : Tally history state) (roles : Roles state)
    (phase : state.phase fiber = .subtracting oldOutCount)
    (done : state.inCount - oldOutCount = 0) :
    Tally (history ++ [(state, .move fiber)])
      { state with
        inCount := state.inCount - oldOutCount
        worker := update state.worker fiber false
        phase := update state.phase fiber .resting } := by
  have same : remaining (history ++ [(state, .move fiber)]) = remaining history := by
    simp [remaining_snoc, enters, hands, phase]
  have working := roles.serving fiber (by rw [phase]; rfl)
  obtain ⟨_, tallies⟩ := tally.working fiber working
  rw [phase] at tallies
  refine ⟨fun _ => ⟨done, tallies.1, ?_⟩, fun other claims => ?_⟩
  · rw [same]
    exact tallies.2.symm.trans done
  · exfalso
    by_cases equal : other = fiber
    · simp [equal] at claims
    · have known : state.worker other := (update_of_ne equal _ _).symm.trans claims
      exact equal (roles.sole other fiber known working)

theorem consume_tally (tally : Tally history state) (roles : Roles state)
    (phase : state.phase fiber = .popping consumer)
    (stepped : Mpsc.step state.fifo .moveConsumer = some fifo) :
    Tally (history ++ [(state, .move fiber)])
      { state with fifo, phase := update state.phase fiber (.after fifo.consumer) } := by
  have mirror := roles.mirror fiber consumer phase
  have working := roles.serving fiber (by rw [phase]; rfl)
  have outside : enters (state, .move fiber) = none := by simp [enters, phase]
  obtain ⟨positive, tallies⟩ := tally.working fiber working
  rw [phase] at tallies
  cases Mpsc.step_moves stepped with
  | @store prevHead data storing =>
    obtain rfl : consumer = .storing prevHead data := mirror.symm.trans storing
    have handing : hands (state, .move fiber) = some (fiber, data) := by
      simp [hands, phase, Mpsc.returned, Mpsc.moveConsumer, Mpsc.ConsumerPhase.node]
    refine Tally.serve roles working positive ?_
    rw [remaining_snoc, outside, handing]
    simp only [Phase.after, Phase.Tallies] at tallies ⊢
    simp [tallies]
  | @read next reads =>
    refine tally.carry outside ?_ fun _ => ?_
    · simp [hands, phase, roles.fifo_eq phase, reads.returned]
    · rw [mirror] at reads
      cases reads <;> exact tallies
  | @advance prevHead prevHeadNext advancing =>
    obtain rfl : consumer = .advancing prevHead prevHeadNext := mirror.symm.trans advancing
    refine tally.carry outside ?_ fun _ => tallies
    simp [hands, phase, Mpsc.returned, Mpsc.moveConsumer, Mpsc.ConsumerPhase.node]

theorem Move.tally (move : Move state action after)
    (roles : Roles state) (tally : Tally history state) (enough : 0 ≤ remaining history) :
    Tally (history ++ [(state, action)]) after := by
  cases move with
  | fill stepped =>
    have same : ∀ taken, enters taken = none → hands taken = none →
        remaining (history ++ [taken]) = remaining history := by
      intro taken outside silent
      simp [remaining_snoc, outside, silent]
    refine ⟨?_, ?_⟩ <;> rw [same _ rfl rfl]
    · exact tally.idle
    · exact tally.working
  | push phase stepped | getWork phase working =>
    refine tally.carry rfl rfl ?_
    rw [phase]
    exact id
  | enter phase => exact enter_tally tally phase
  | produce phase stepped =>
    refine tally.carry (by simp [enters, phase]) (by simp [hands, phase]) fun tallies => ?_
    rw [phase] at tallies
    split <;> exact tallies
  | retry phase =>
    refine tally.carry (by simp [enters, phase]) (by simp [hands, phase]) ?_
    rw [phase]
    exact id
  | consume phase stepped =>
    rw [roles.fifo_eq phase] at stepped
    exact consume_tally tally roles phase stepped
  | @think fiber next thinks =>
    generalize phase : state.phase fiber = before at thinks
    refine tally.carry ?_ ?_ fun tallies => ?_
    · cases thinks <;> simp [enters, phase]
    · cases thinks <;> simp [hands, phase]
    · rw [phase] at tallies
      cases thinks with
      | check | equal => exact tallies
      | read | load => exact ⟨rfl, tallies⟩
  | @zero fiber oldOutCount phase =>
    have working := roles.serving fiber (by rw [phase]; rfl)
    obtain ⟨positive, tallies⟩ := tally.working fiber working
    rw [phase] at tallies
    refine Tally.serve roles working positive ⟨rfl, ?_⟩
    simp only [remaining_snoc, enters, hands, phase]
    simp [tallies.1, tallies.2]
  | finish phase done => exact finish_tally tally roles phase done
  | @resume fiber oldOutCount phase more =>
    have working := roles.serving fiber (by rw [phase]; rfl)
    obtain ⟨_, out, tallies⟩ := phase ▸ tally.working fiber working
    have positive : 0 < state.inCount - oldOutCount := by omega
    show Tally _ (⟨{ state.fifo with consumer := .popping }, state.inCount - oldOutCount,
      state.outCount, state.worker, update state.phase fiber (.popping .popping)⟩ : State _ _ _)
    refine Tally.serve roles working positive ?_
    show _ - _ = _
    simp only [remaining_snoc, enters, hands, phase]
    simp [out, tallies]
  | @count fiber node outCount phase =>
    have working := roles.serving fiber (by rw [phase]; rfl)
    obtain ⟨positive, same, tallies⟩ := phase ▸ tally.working fiber working
    refine Tally.serve roles working positive ?_
    show _ - _ = _
    simp only [remaining_snoc, enters, hands, phase]
    simp only [Option.toList_none, List.length_nil, Int.ofNat_zero]
    omega

end Counts

section Results

variable {Fiber Node Value : Type} [DecidableEq Fiber] [DecidableEq Node]
variable {state after : State Fiber Node Value} {history : History Fiber Node Value}
variable {fiber : Fiber}

/-- Every push that has incremented `in_count` has put its item at the tail, and
every item that was put there has been handed out. -/
def Served (history : History Fiber Node Value) : Prop :=
  (handed history).map Prod.snd = (pushed history).map Prod.snd ∧
    ∀ fiber, (entered history).count fiber = ((pushed history).map Prod.fst).count fiber

theorem Paired.served (paired : Paired history state)
    (handedOut : (handed history).map Prod.snd <+: (pushed history).map Prod.snd)
    (done : remaining history = 0) : Served history := by
  have most := handedOut.length_le
  have least := paired.length_le
  simp only [remaining, List.length_map] at done most
  refine ⟨handedOut.eq_of_length (by simp only [List.length_map]; omega), fun fiber => ?_⟩
  have enough : (entered history).length ≤ ((pushed history).map Prod.fst).length := by
    rw [List.length_map]
    omega
  exact (paired.subperm.perm_of_length_le enough).symm.count_eq fiber

structure Kept (history : History Fiber Node Value) (state : State Fiber Node Value) : Prop where
  roles : Roles state
  simulated : Simulated history state.fifo
  paired : Paired history state
  tally : Tally history state

theorem Simulated.isPrefix (simulated : Simulated history state.fifo) :
    (handed history).map Prod.snd <+: (pushed history).map Prod.snd := by
  obtain ⟨inner, run, popped, places⟩ := simulated
  obtain ⟨queue, owner, _, traced⟩ := Mpsc.run_keeps run
  rw [← popped, ← places, List.map_map]
  exact (List.prefix_append _ _).trans (Ledger.taken_isPrefix traced)

theorem Simulated.empty (simulated : Simulated history state.fifo)
    (resting : state.fifo.consumer.resting)
    (all : (handed history).map Prod.snd = (pushed history).map Prod.snd) :
    state.fifo.head = state.fifo.tail ∧ state.fifo.next state.fifo.head = none := by
  obtain ⟨inner, run, popped, places⟩ := simulated
  obtain ⟨queue, owner, sound, traced⟩ := Mpsc.run_keeps run
  have values := Ledger.values traced
  have pushes : (Mpsc.places inner).map Place.value = (pushed history).map Prod.snd := by
    rw [← places, List.map_map]
    rfl
  rw [Mpsc.ConsumerPhase.inHand_resting resting, List.append_nil, pushes, popped, all] at values
  have members : queue.members.map state.fifo.data = [] := List.self_eq_append_right.mp values
  have entries : queue.entries = [] := by
    simpa [LinkedFifo.members] using members
  have links := sound.published.represents.links
  rw [entries] at links
  exact links

theorem Kept.nonneg (kept : Kept history state) : 0 ≤ remaining history := by
  have most := kept.simulated.isPrefix.length_le
  have least := kept.paired.length_le
  simp only [List.length_map] at most
  simp only [remaining]
  omega

theorem run_keeps (run : (machine Fiber Node Value).Run history state) : Kept history state := by
  refine run.invariant Kept ?_ ?_
  · rintro _ ⟨fifo, initial, rfl⟩
    refine ⟨⟨nofun, nofun, nofun, fun _ => ?_, nofun⟩, ⟨[], .start initial, rfl, rfl⟩, fun _ => rfl,
      ⟨fun _ => ⟨rfl, rfl, rfl⟩, nofun⟩⟩
    obtain ⟨sentinel, next, data, rfl⟩ := initial
    rfl
  · intro history before action after kept stepped
    have move := step_moves stepped
    exact
      { roles := move.roles kept.roles fun fiber working => (kept.tally.working fiber working).1
        simulated := move.simulated kept.roles kept.simulated
        paired := move.paired kept.roles kept.paired
        tally := move.tally kept.roles kept.tally kept.nonneg }

theorem Move.dismisses (move : Move state action after)
    (working : state.worker fiber) (dismissed : after.worker fiber = false) :
    ∃ oldOutCount, state.phase fiber = .subtracting oldOutCount ∧
      state.inCount - oldOutCount = 0 := by
  have still : ∀ {worker : Fiber → Bool}, worker fiber = false → worker fiber → False := by
    intro worker idle works
    rw [idle] at works
    cases works
  cases move with
  | fill | push | produce | getWork | retry | consume | think | zero | resume | count =>
    exact (still dismissed working).elim
  | @enter starter phase =>
    refine (still dismissed ?_).elim
    split
    · by_cases same : fiber = starter
      · rw [same]
        exact update_self _ _ _
      · exact (update_of_ne same _ _).trans working
    · exact working
  | @finish worker oldOutCount phase done =>
    by_cases same : fiber = worker
    · subst worker
      exact ⟨oldOutCount, phase, done⟩
    · exact (still dismissed ((update_of_ne same _ _).trans working)).elim

theorem step_delivers (stepped : step state action = some after)
    (handed : Handed (history.filterMap finds) (history.filterMap delivers)
      (Phase.out ∘ state.phase)) :
    Handed ((history ++ [(state, action)]).filterMap finds)
      ((history ++ [(state, action)]).filterMap delivers) (Phase.out ∘ after.phase) := by
  cases step_moves stepped with
  | fill => exact handed.carry rfl rfl rfl
  | push phase | getWork phase =>
    exact handed.carry rfl rfl (comp_update_of_eq (by rw [phase]; rfl))
  | enter phase | retry phase | zero phase | finish phase | resume phase =>
    have moved : move state _ = some _ := stepped
    exact handed.carry (by simp [finds, Phase.found, moved, State.trypop])
      (by simp [delivers, phase])
      (comp_update_of_eq (by rw [phase]; rfl))
  | @produce fiber fifo phase =>
    have moved : move state fiber = some _ := stepped
    refine handed.carry ?_ (by simp [delivers, phase]) (comp_update_of_eq ?_)
    · by_cases done : fifo.producer fiber = .idle <;> simp [finds, Phase.found, moved, done]
    · rw [phase]
      split <;> rfl
  | @consume fiber consumer fifo phase =>
    have moved : move state fiber = some _ := stepped
    have mute : delivers (state, .move fiber) = none := by simp [delivers, phase]
    cases found : fifo.consumer with
    | popped out =>
      cases out with
      | none =>
        exact handed.carry (by simp [finds, Phase.found, moved, found, Phase.after]) mute
          (comp_update_of_eq (by rw [phase]; rfl))
      | some node =>
        exact handed.taken (by simp [finds, Phase.found, moved, found, Phase.after]) mute
          (by simp [phase, Phase.out]) (comp_update _ _ _ _)
    | _ =>
      exact handed.carry (by simp [finds, Phase.found, moved, found, Phase.after]) mute
        (comp_update_of_eq (by rw [phase]; rfl))
  | @think fiber next thinks =>
    have moved : move state fiber = some _ := stepped
    generalize phase : state.phase fiber = before at thinks
    cases thinks <;>
      exact handed.carry (by simp [finds, Phase.found, moved, State.goto])
        (by simp [delivers, phase])
        (comp_update_of_eq (by rw [phase]; rfl))
  | @count fiber node outCount phase =>
    have moved : move state fiber = some _ := stepped
    have gives : delivers (state, .move fiber) = some (fiber, node) := by
      simp [delivers, phase, moved, Phase.rests]
    exact handed.given (by simp [finds, Phase.found, moved]) gives
      (by simp [phase, Phase.out]) (comp_update _ _ _ _)

theorem run_delivers (run : (machine Fiber Node Value).Run history state) :
    Handed (history.filterMap finds) (history.filterMap delivers) (Phase.out ∘ state.phase) := by
  refine run.invariant (fun history state => Handed (history.filterMap finds)
    (history.filterMap delivers) (Phase.out ∘ state.phase)) ?_ ?_
  · intro state initial
    obtain ⟨fifo, _, rfl⟩ := initial
    exact .start
  · intro history before action after handed stepped
    exact step_delivers stepped handed

/-- One fiber works at a time, and only it calls `work_queue_get_work`.  Items are
handed out once each and in order, and each call that finds one returns it with
`WORK_QUEUE_MORE_WORK`; when the worker is told `WORK_QUEUE_EMPTY`, and
as long as there is no worker after that, none is left; and once no push is under
way the queue is as it was at first. -/
theorem work_queue_serves (run : (machine Fiber Node Value).Run history state) :
    (∀ fiber other, state.worker fiber → state.worker other → fiber = other) ∧
    (∀ fiber, (state.phase fiber).serving → state.worker fiber) ∧
    (handed history).map Prod.snd <+: (pushed history).map Prod.snd ∧
    (∀ fiber, own fiber (history.filterMap finds) =
      own fiber (history.filterMap delivers) ++ (state.phase fiber).out) ∧
    (∀ fiber after, state.worker fiber → step state (.move fiber) = some after →
      after.worker fiber = false → Served history) ∧
    ((∀ fiber, state.worker fiber = false) → Served history) ∧
    ((∀ fiber, state.worker fiber = false ∧ state.phase fiber = .resting) →
      state.fifo.head = state.fifo.tail ∧ state.fifo.next state.fifo.head = none ∧
        state.inCount = 0 ∧ state.outCount = 0) := by
  have kept := run_keeps run
  have handedOut := kept.simulated.isPrefix
  refine ⟨kept.roles.sole, kept.roles.serving, handedOut, run_delivers run, ?_, ?_, ?_⟩
  · intro fiber after working stepped dismissed
    obtain ⟨oldOutCount, phase, done⟩ := (step_moves stepped).dismisses working dismissed
    obtain ⟨_, _, tallies⟩ := phase ▸ kept.tally.working fiber working
    exact kept.paired.served handedOut (tallies.symm.trans done)
  · intro idle
    exact kept.paired.served handedOut (kept.tally.idle idle).2.2
  · intro quiet
    obtain ⟨ins, outs, done⟩ := kept.tally.idle fun fiber => (quiet fiber).1
    obtain ⟨all, _⟩ := kept.paired.served handedOut done
    have resting := kept.roles.rested fun fiber consumer phase => by
      rw [(quiet fiber).2] at phase
      cases phase
    obtain ⟨ends, unlinked⟩ := kept.simulated.empty resting all
    exact ⟨ends, unlinked, ins, outs⟩

end Results

/-- The worker has found the counts equal when another push comes; it is left some
work by its subtraction, and waits for the item. -/
def overtaken : List (Action Bool Nat Nat) :=
  List.flatten [[.fill 1 11 none, .push true 1], List.replicate 4 (.move true),
    .getWork true :: List.replicate 7 (.move true), .getWork true :: List.replicate 5 (.move true),
    [.fill 0 22 none, .push false 0, .move false], List.replicate 6 (.move true),
    List.replicate 3 (.move false), List.replicate 7 (.move true),
    .getWork true :: List.replicate 7 (.move true)]

def blank : State Bool Nat Nat := init (Mpsc.init 0 (fun _ => none) (fun _ => 0))

theorem work_queue_serves_overtaken : ∃ history state,
    (machine Bool Nat Nat).Run history state ∧ entered history = [true, false] ∧
      handed history = [(true, 11), (true, 22)] ∧
      history.filterMap delivers = [(true, 0), (true, 1)] ∧
      (state.fifo.head = state.fifo.tail ∧ state.fifo.next state.fifo.head = none ∧
        state.inCount = 0 ∧ state.outCount = 0) := by
  have run := Machine.run_of_isSome
    (show (machine Bool Nat Nat).initial blank from ⟨_, ⟨0, _, _, rfl⟩, rfl⟩)
    (show ((machine Bool Nat Nat).exec blank overtaken).isSome by decide +kernel)
  refine ⟨_, _, run, by decide +kernel, by decide +kernel, by decide +kernel, ?_⟩
  exact (work_queue_serves run).2.2.2.2.2.2 (by rintro (_ | _) <;> decide +kernel)

end LibFiber.WorkQueue
