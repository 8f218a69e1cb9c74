import LibFiber.MultiSignal.Machine

namespace LibFiber.MultiSignal

open Data Semantics Function

/-! What holds between any two accesses. -/

variable {Fiber Node : Type} {state after : State Fiber Node}
variable {phase : Phase Fiber Node}

/-- Whether the fiber is in a call, and in which. -/
inductive Busy where
  | outside
  | waits
  | raises
deriving DecidableEq, Repr

def Phase.busy : Phase Fiber Node → Busy
  | .wait _ => .waits
  | .raise _ _ => .raises
  | _ => .outside

def Phase.asleep : Phase Fiber Node → Bool
  | .wait .parking | .wait .parked => true
  | _ => false

/-- The fiber that a raiser has taken out and not scheduled yet. -/
def Phase.debt (data : Node → Option Fiber) : Phase Fiber Node → Option Fiber
  | .raise _ (.fetching node) => data node
  | .raise _ (.restoring _ toWake) | .raise _ (.spinning toWake)
  | .raise _ (.scheduling toWake) => some toWake
  | _ => none

def State.debt (state : State Fiber Node) (fiber : Fiber) : Option Fiber :=
  (state.phase fiber).debt state.data

/-- The node is the fiber's and says so. -/
def State.Named (state : State Fiber Node) (fiber : Fiber) (node : Node) : Prop :=
  state.node fiber = node ∧ state.data node = some fiber

/-- What a fiber knows of its node and of what it has read.  Only a raiser that
takes a node out relies on the counter: the others' compare-and-swap compares
all that they have read. -/
def Phase.Fits (state : State Fiber Node) (fiber : Fiber) : Phase Fiber Node → Prop
  | .wait (.naming node) => state.node fiber = node
  | .wait (.counting node) | .wait (.heading node _) | .wait (.consuming node _) =>
    state.Named fiber node
  | .wait (.linking node _ head) => state.Named fiber node ∧ head ≠ .raised
  | .wait (.pushing node _ head) =>
    state.Named fiber node ∧ head ≠ .raised ∧ state.next node = head
  | .wait .parking | .wait .parked => state.Named fiber (state.node fiber)
  | .raise _ (.heading counter) => counter ≤ state.word.counter
  | .raise strict (.marking _ head) => strict = false ∧ ∀ node, head ≠ .node node
  | .raise _ (.following counter node) =>
    state.word.Seen counter (state.word.head = .node node)
  | .raise _ (.popping counter node next) =>
    state.word.Seen counter (state.word.head = .node node ∧ state.next node = next)
  | .raise _ (.fetching node) => ∃ toWake, state.Named toWake node
  | .raise _ (.restoring node toWake) => state.node toWake = node
  | _ => True

/-- The list at `head`, as fibers, and who is in it. -/
structure Listed (state : State Fiber Node) (waiting : List Fiber) : Prop where
  chain : (state.word.head = .raised ∧ waiting = []) ∨
    Chain Pointer.node state.next state.word.head (waiting.map state.node) .null
  distinct : waiting.Nodup
  asleep : ∀ fiber ∈ waiting, (state.phase fiber).asleep
  covered : ∀ fiber, (state.phase fiber).asleep →
    fiber ∈ waiting ∨ ∃ raiser, state.debt raiser = some fiber
  owing : ∀ raiser fiber, state.debt raiser = some fiber →
    (state.phase fiber).asleep ∧ fiber ∉ waiting
  sole : ∀ raiser other fiber, state.debt raiser = some fiber → state.debt other = some fiber →
    raiser = other

structure Sound (state : State Fiber Node) : Prop where
  owned : ∀ fiber, state.owner (state.node fiber) = some fiber
  ready : ∀ fiber, (state.phase fiber).holds →
    (state.ready fiber ↔ state.phase fiber = .wait .parked)
  fits : ∀ fiber, (state.phase fiber).Fits state fiber
  due : ∀ raiser strict fiber, state.phase raiser = .raise strict (.scheduling fiber) →
    state.phase fiber = .wait .parked
  listed : ∃ waiting, Listed state waiting

theorem Sound.node_injective (sound : Sound state) {other : Fiber}
    (same : state.node fiber = state.node other) : fiber = other := by
  have owned := sound.owned fiber
  rw [same, sound.owned other] at owned
  exact (Option.some.inj owned).symm

theorem Sound.named (sound : Sound state) (asleep : (state.phase fiber).asleep) :
    state.data (state.node fiber) = some fiber := by
  have fits := sound.fits fiber
  rcases shape : state.phase fiber with _ | ⟨wait⟩ | _ | _ | _ <;> rw [shape] at asleep fits
  case wait =>
    cases wait with
    | parking | parked => exact fits.2
    | clearing | naming | counting | heading | consuming | linking | pushing | woken =>
      cases asleep
  all_goals cases asleep

theorem asleep_holds (asleep : phase.asleep) : phase.holds := by
  rcases phase with _ | ⟨wait⟩ | _ | _ | _
  case wait => cases wait <;> first | rfl | cases asleep
  all_goals cases asleep

section Moves

variable [DecidableEq Fiber] [DecidableEq Node]

/-- Everything a step can do.  A fiber that strolls only reads, or fails to
swap. -/
inductive Move (state : State Fiber Node) :
    Option (Event Fiber) → State Fiber Node → Prop where
  | call : (state.phase fiber).outside →
      next = .wait .clearing ∨ (∃ strict, next = .raise strict .counting) →
      Move state (some (.call fiber)) (state.goto fiber next)
  | stroll : (state.phase fiber).asleep = false → next.asleep = false →
      ((state.phase fiber).Fits state fiber → next.Fits state fiber) →
      next.debt state.data = (state.phase fiber).debt state.data →
      (next.holds → (state.phase fiber).holds) →
      next.busy = (state.phase fiber).busy → next.busy ≠ .outside →
      (∀ strict toWake, next ≠ .raise strict (.scheduling toWake)) →
      Move state none (state.goto fiber next)
  | clear : state.phase fiber = .wait .clearing →
      Move state none { state with
        ready := update state.ready fiber false
        phase := update state.phase fiber (.wait (.naming (state.node fiber))) }
  | name : state.phase fiber = .wait (.naming node) →
      Move state none { state with
        data := update state.data node (some fiber)
        phase := update state.phase fiber (.wait (.counting node)) }
  | consume : state.phase fiber = .wait (.consuming node counter) → state.word.head = .raised →
      Move state (some (.consume fiber)) { state with
        word := ⟨state.word.counter + 1, .null⟩
        phase := update state.phase fiber .waited }
  | link : state.phase fiber = .wait (.linking node counter head) →
      Move state none { state with
        next := update state.next node head
        phase := update state.phase fiber (.wait (.pushing node counter head)) }
  | push : state.phase fiber = .wait (.pushing node counter state.word.head) →
      Move state (some (.park fiber)) { state with
        word := ⟨state.word.counter + 1, .node node⟩
        phase := update state.phase fiber (.wait .parking) }
  | store : state.phase fiber = .wait .parking →
      Move state none { state with
        ready := update state.ready fiber true
        phase := update state.phase fiber (.wait .parked) }
  | resume : state.phase fiber = .wait .woken →
      Move state none { state with
        ready := update state.ready fiber false
        phase := update state.phase fiber .waited }
  | mark : state.phase fiber = .raise strict (.marking counter state.word.head) →
      Move state (some (.mark fiber)) { state with
        word := ⟨state.word.counter + 1, .raised⟩
        phase := update state.phase fiber (.raised strict false) }
  | pop : state.phase fiber = .raise strict (.popping state.word.counter node next) →
      state.word.head = .node node →
      Move state (some (.claim fiber)) { state with
        word := ⟨state.word.counter + 1, next⟩
        phase := update state.phase fiber (.raise strict (.fetching node)) }
  | restore : state.phase fiber = .raise strict (.restoring node toWake) →
      Move state none { state with
        node := update state.node toWake node
        phase := update state.phase fiber (.raise strict (.spinning toWake)) }
  | proceed : state.phase fiber = .raise strict (.spinning toWake) → state.ready toWake →
      Move state none (state.goto fiber (.raise strict (.scheduling toWake)))
  | schedule : state.phase fiber = .raise strict (.scheduling toWake) →
      Move state (some (.schedule fiber toWake))
        ((state.schedule toWake).goto fiber (.raised strict true))
  | scribble : (∀ fiber, state.owner node = some fiber → (state.phase fiber).holds = false) →
      Move state none { state with
        next := update state.next node next
        data := update state.data node toStore }
  | trade : (state.phase fiber).outside → state.owner node = none →
      Move state none { state with
        node := update state.node fiber node
        owner := update (update state.owner (state.node fiber) none) node (some fiber) }

attribute [local grind intro] Move

attribute [local grind =] Phase.asleep Phase.busy Phase.debt Phase.event Phase.Fits Phase.holds

theorem moveWait_moves {wait : WaitPhase Node} (was : state.phase fiber = .wait wait)
    (stepped : moveWait state fiber wait = some after) :
    Move state ((Phase.wait wait).event state.word fiber) after := by
  cases wait <;> simp only [moveWait, Versioned.swap, reduceCtorEq] at stepped
  case heading => cases head : state.word.head <;> simp only [head] at stepped <;> grind -linarith
  all_goals grind -linarith [Versioned.swap]

theorem moveRaise_moves {strict : Bool} {raise : RaisePhase Fiber Node}
    (was : state.phase fiber = .raise strict raise)
    (stepped : moveRaise state fiber strict raise = some after) :
    Move state ((Phase.raise strict raise).event state.word fiber) after := by
  cases raise <;> simp only [moveRaise, Versioned.swap] at stepped
  case heading =>
    cases strict <;> cases head : state.word.head <;> simp only [head] at stepped
    all_goals grind -linarith [Versioned.Seen]
  case fetching =>
    obtain ⟨toWake, found, rfl⟩ := Option.map_eq_some_iff.mp stepped
    grind -linarith [State.Named]
  all_goals grind -linarith [Versioned.swap, Versioned.Seen]

theorem step_moves {action : Action Fiber Node} (stepped : step state action = some after) :
    Move state (event state action) after := by
  cases action with
  | wait | raise | trade =>
    simp only [step] at stepped
    grind -linarith [event]
  | move fiber =>
    cases was : state.phase fiber <;> simp only [step, move, was, reduceCtorEq] at stepped
    · simpa only [event, was] using moveWait_moves was stepped
    · simpa only [event, was] using moveRaise_moves was stepped
  | scribble node next toStore =>
    obtain ⟨free, ⟨⟩⟩ := Option.ite_none_left_eq_some.mp stepped
    refine .scribble fun fiber owned => ?_
    simpa [owned] using free

end Moves

/-! The list and the readings of the other fibers through a step. -/

section Frames

theorem Listed.keep (listed : Listed state waiting)
    (chain : (after.word.head = .raised ∧ waiting = []) ∨
      Chain Pointer.node after.next after.word.head (waiting.map after.node) .null)
    (asleep : ∀ fiber, (after.phase fiber).asleep = (state.phase fiber).asleep)
    (debt : ∀ fiber, after.debt fiber = state.debt fiber) : Listed after waiting where
  chain := chain
  distinct := listed.distinct
  asleep fiber inside := by rw [asleep]; exact listed.asleep fiber inside
  covered fiber sleeps := by
    rw [asleep] at sleeps
    simpa only [debt] using listed.covered fiber sleeps
  owing raiser fiber owes := by
    rw [asleep]
    exact listed.owing raiser fiber (debt raiser ▸ owes)
  sole raiser other fiber owes also :=
    listed.sole raiser other fiber (debt raiser ▸ owes) (debt other ▸ also)

theorem Listed.frame (listed : Listed state waiting) (word : after.word.head = state.word.head)
    (nodes : ∀ fiber ∈ waiting, after.node fiber = state.node fiber)
    (next : ∀ fiber ∈ waiting, after.next (state.node fiber) = state.next (state.node fiber))
    (asleep : ∀ fiber, (after.phase fiber).asleep = (state.phase fiber).asleep)
    (debt : ∀ fiber, after.debt fiber = state.debt fiber) : Listed after waiting := by
  refine listed.keep ?_ asleep debt
  rw [word, List.map_congr_left nodes]
  rcases listed.chain with raised | chain
  · exact .inl raised
  · refine .inr (chain.congr ?_)
    intro node member
    obtain ⟨fiber, inside, rfl⟩ := List.mem_map.mp member
    exact next fiber inside

/-- A swap that succeeds leaves the other fibers with readings that are stale,
and nothing else takes from them what they know. -/
theorem Phase.Fits.carry (fits : phase.Fits state fiber)
    (word : after.word = state.word ∨ state.word.counter < after.word.counter)
    (next : after.next = state.next) (data : after.data = state.data)
    (own : phase.holds → after.node fiber = state.node fiber)
    (owed : ∀ toWake, phase.debt state.data = some toWake →
      after.node toWake = state.node toWake) : phase.Fits after fiber := by
  rcases phase with _ | ⟨wait⟩ | ⟨strict, raise⟩ | _ | _
  case wait =>
    cases wait with
    | clearing | woken => trivial
    | naming | counting | heading | consuming | linking | pushing | parking | parked =>
      simpa only [Phase.Fits, State.Named, next, data, own rfl] using fits
  case raise =>
    cases raise with
    | counting | spinning | scheduling => trivial
    | marking => exact fits
    | fetching node =>
      obtain ⟨toWake, mine, stored⟩ := fits
      exact ⟨toWake, (owed toWake stored).trans mine, (congrFun data node).trans stored⟩
    | restoring node toWake => exact (owed toWake rfl).trans fits
    | heading | following | popping =>
      rcases word with same | later
      · simpa only [Phase.Fits, same, next] using fits
      · first
          | exact Versioned.Seen.stale fits later
          | exact Nat.le_trans fits (Nat.le_of_lt later)
  all_goals trivial

theorem Phase.Fits.write (fits : phase.Fits state fiber) (word : after.word = state.word)
    (node : after.node = state.node)
    (next : ∀ other, other ≠ target → after.next other = state.next other)
    (data : ∀ other, other ≠ target → after.data other = state.data other)
    (held : phase.holds → state.node fiber ≠ target) (head : state.word.head ≠ .node target)
    (taken : ∀ strict node, phase = .raise strict (.fetching node) → node ≠ target) :
    phase.Fits after fiber := by
  have named : ∀ {own : Node}, phase.holds → state.Named fiber own →
      after.Named fiber own := by
    rintro own holds ⟨rfl, mine⟩
    exact ⟨congrFun node fiber, (data _ (held holds)).trans mine⟩
  rcases phase with _ | ⟨wait⟩ | ⟨strict, raise⟩ | _ | _
  case wait =>
    cases wait with
    | clearing | woken => trivial
    | naming own => exact (congrFun node fiber).trans fits
    | counting | heading | consuming => exact named rfl fits
    | linking => exact ⟨named rfl fits.1, fits.2⟩
    | pushing own counter head =>
      obtain ⟨mine, unraised, linked⟩ := fits
      have different : own ≠ target := mine.1 ▸ held rfl
      exact ⟨named rfl mine, unraised, (next own different).trans linked⟩
    | parking | parked =>
      have mine : after.Named fiber (state.node fiber) := named rfl fits
      simpa only [Phase.Fits, node] using mine
  case raise =>
    cases raise with
    | counting | spinning | scheduling => trivial
    | marking => exact fits
    | heading | following => simpa only [Phase.Fits, word] using fits
    | popping counter first rest =>
      simp only [Phase.Fits, word] at fits ⊢
      refine fits.weaken ?_
      rintro ⟨there, linked⟩
      have different : first ≠ target := fun same => head (same ▸ there)
      exact ⟨there, (next first different).trans linked⟩
    | fetching own =>
      obtain ⟨toWake, mine, stored⟩ := fits
      exact ⟨toWake, (congrFun node toWake).trans mine,
        (data own (taken strict own rfl)).trans stored⟩
    | restoring own toWake => exact (congrFun node toWake).trans fits
  all_goals trivial

/-- No sleeping fiber waits with the node. -/
def State.Free (state : State Fiber Node) (node : Node) : Prop :=
  ∀ fiber, (state.phase fiber).asleep → state.node fiber ≠ node

theorem Sound.free_own (sound : Sound state) (awake : (state.phase fiber).asleep = false) :
    state.Free (state.node fiber) := by
  intro other asleep same
  rw [sound.node_injective same, awake] at asleep
  cases asleep

theorem Listed.first (listed : Listed state waiting) (head : state.word.head = .node node) :
    ∃ toWake rest, waiting = toWake :: rest ∧ state.node toWake = node ∧
      Chain Pointer.node state.next (state.next node) (rest.map state.node) .null := by
  rcases listed.chain with ⟨raised, _⟩ | chain
  · rw [head] at raised
    cases raised
  · rw [head] at chain
    cases waiting with
    | nil => cases chain.nil_inv
    | cons toWake rest =>
      obtain ⟨starts, behind⟩ := chain.cons_inv
      obtain rfl : node = state.node toWake := Pointer.node.inj starts
      exact ⟨toWake, rest, rfl, rfl, behind⟩

theorem Listed.head_ne (listed : Listed state waiting) (free : state.Free node) :
    state.word.head ≠ .node node := by
  intro head
  obtain ⟨toWake, rest, rfl, own, _⟩ := listed.first head
  exact free toWake (listed.asleep toWake List.mem_cons_self) own

theorem Sound.fetching_ne (sound : Sound state) (listed : Listed state waiting)
    (free : state.Free node) {raiser : Fiber} {strict : Bool} {taken : Node}
    (fetching : state.phase raiser = .raise strict (.fetching taken)) : taken ≠ node := by
  have fits := sound.fits raiser
  rw [fetching] at fits
  obtain ⟨toWake, rfl, stored⟩ := fits
  have owes : state.debt raiser = some toWake := by
    simpa only [State.debt, fetching, Phase.debt] using stored
  exact free toWake (listed.owing raiser toWake owes).1

theorem debt_congr (same : after.phase raiser = state.phase raiser)
    (data : ∀ strict taken, state.phase raiser = .raise strict (.fetching taken) →
      after.data taken = state.data taken) : after.debt raiser = state.debt raiser := by
  simp only [State.debt, same]
  rcases shape : state.phase raiser with _ | _ | ⟨strict, raise⟩ | _ | _
  case raise =>
    cases raise with
    | fetching taken => exact data strict taken shape
    | counting | heading | marking | following | popping | restoring | spinning | scheduling => rfl
  all_goals rfl

theorem Listed.waiting_eq_nil (listed : Listed state waiting)
    (nobody : ∀ node, state.word.head ≠ .node node) : waiting = [] := by
  rcases listed.chain with ⟨_, empty⟩ | chain
  · exact empty
  · cases waiting with
    | nil => rfl
    | cons first rest => exact absurd chain.cons_inv.1 (nobody _)

theorem Sound.write (sound : Sound state) (free : state.Free node)
    (nexts : ∀ other, other ≠ node → next other = state.next other)
    (datas : ∀ other, other ≠ node → data other = state.data other)
    (own : ∀ fiber, (state.phase fiber).holds → state.node fiber = node →
      (state.phase fiber).Fits { state with next, data } fiber) :
    Sound { state with next, data } := by
  obtain ⟨waiting, listed⟩ := sound.listed
  refine ⟨sound.owned, sound.ready, ?_, sound.due, ⟨waiting, ?_⟩⟩
  · intro fiber
    by_cases mine : (state.phase fiber).holds ∧ state.node fiber = node
    · exact own fiber mine.1 mine.2
    · exact (sound.fits fiber).write rfl rfl nexts datas (fun holds same => mine ⟨holds, same⟩)
        (listed.head_ne free) (fun strict taken => sound.fetching_ne listed free)
  · refine listed.frame rfl (fun _ _ => rfl) ?_ (fun _ => rfl) ?_
    · intro fiber inside
      exact nexts _ (free fiber (listed.asleep fiber inside))
    · intro raiser
      exact debt_congr rfl fun strict taken fetching =>
        datas taken (sound.fetching_ne listed free fetching)

theorem outside_awake (outside : phase.outside) :
    phase.asleep = false ∧ phase.holds = false := by
  rcases phase with _ | _ | _ | _ | _
  case wait | raise => cases outside
  all_goals exact ⟨rfl, rfl⟩

theorem outside_debt (outside : phase.outside) (data : Node → Option Fiber) :
    phase.debt data = none := by
  rcases phase with _ | _ | _ | _ | _
  case wait | raise => cases outside
  all_goals rfl

variable [DecidableEq Fiber]

theorem asleep_update (same : next.asleep = (state.phase fiber).asleep) (other : Fiber) :
    (update state.phase fiber next other).asleep = (state.phase other).asleep := by
  by_cases own : other = fiber
  · subst own
    rw [update_self, same]
  · rw [update_of_ne own]

theorem fits_update (own : next.Fits after fiber)
    (others : ∀ other, other ≠ fiber → (state.phase other).Fits after other) (other : Fiber) :
    (update state.phase fiber next other).Fits after other := by
  by_cases same : other = fiber
  · subst same
    rwa [update_self]
  · rw [update_of_ne same]
    exact others other same

theorem debt_update (own : next.debt data = (state.phase fiber).debt state.data)
    (others : ∀ other, other ≠ fiber →
      (state.phase other).debt data = (state.phase other).debt state.data) (other : Fiber) :
    (update state.phase fiber next other).debt data = state.debt other := by
  by_cases same : other = fiber
  · subst same
    rw [update_self, own]
    rfl
  · rw [update_of_ne same]
    exact others other same

end Frames

/-! One step at a time. -/

section Preservation

variable [DecidableEq Fiber]

theorem Sound.turn (sound : Sound state)
    (asleep : next.asleep = (state.phase fiber).asleep) (fits : next.Fits state fiber)
    (debt : next.debt state.data = (state.phase fiber).debt state.data)
    (ready : next.holds → (value = true ↔ next = .wait .parked))
    (stays : state.phase fiber = .wait .parked → next = .wait .parked)
    (due : ∀ strict toWake, next = .raise strict (.scheduling toWake) →
      toWake ≠ fiber ∧ state.phase toWake = .wait .parked) :
    Sound { state with
      ready := update state.ready fiber value
      phase := update state.phase fiber next } where
  owned := sound.owned
  ready other holds := by
    by_cases own : other = fiber
    · subst own
      simpa using ready (by simpa using holds)
    · simpa [update_of_ne own] using sound.ready other (by simpa [update_of_ne own] using holds)
  fits := by
    refine fits_update (fits.carry (.inl rfl) rfl rfl (fun _ => rfl) (fun _ _ => rfl)) ?_
    intro other _
    exact (sound.fits other).carry (.inl rfl) rfl rfl (fun _ => rfl) (fun _ _ => rfl)
  due raiser strict toWake scheduling := by
    have parked : toWake ≠ fiber ∧ state.phase toWake = .wait .parked ∨
        state.phase toWake = .wait .parked := by
      by_cases own : raiser = fiber
      · subst own
        exact .inl (due strict toWake (by simpa using scheduling))
      · exact .inr (sound.due raiser strict toWake (by simpa [update_of_ne own] using scheduling))
    by_cases own : toWake = fiber
    · subst own
      rcases parked with ⟨different, _⟩ | parked
      · exact absurd rfl different
      · simpa using stays parked
    · have parked : state.phase toWake = .wait .parked := by
        rcases parked with ⟨_, parked⟩ | parked <;> exact parked
      simpa [update_of_ne own] using parked
  listed := by
    obtain ⟨waiting, listed⟩ := sound.listed
    exact ⟨waiting, listed.frame rfl (fun _ _ => rfl) (fun _ _ => rfl) (asleep_update asleep)
      (debt_update debt fun _ _ => rfl)⟩

theorem Sound.goto (sound : Sound state) (was : (state.phase fiber).asleep = false)
    (now : next.asleep = false) (fits : next.Fits state fiber)
    (debt : next.debt state.data = (state.phase fiber).debt state.data)
    (holds : next.holds → (state.phase fiber).holds)
    (due : ∀ strict toWake, next = .raise strict (.scheduling toWake) →
      toWake ≠ fiber ∧ state.phase toWake = .wait .parked) : Sound (state.goto fiber next) := by
  have notParked : ∀ phase : Phase Fiber Node, phase.asleep = false → phase ≠ .wait .parked := by
    rintro _ awake rfl
    cases awake
  have ready : next.holds → (state.ready fiber ↔ next = .wait .parked) := by
    intro held
    simpa [notParked _ was, notParked _ now] using sound.ready fiber (holds held)
  have turned := sound.turn (now.trans was.symm) fits debt ready
    (fun parked => absurd parked (notParked _ was)) due
  simpa [State.goto] using turned

/-- A step that changes the phase of a fiber that is not parked, and of no
other, keeps every scheduled fiber parked. -/
theorem Sound.due_update (sound : Sound state) (was : state.phase fiber ≠ .wait .parked)
    (now : ∀ strict toWake, next ≠ .raise strict (.scheduling toWake))
    (raiser : Fiber) (strict : Bool) (toWake : Fiber)
    (scheduling : update state.phase fiber next raiser = .raise strict (.scheduling toWake)) :
    update state.phase fiber next toWake = .wait .parked := by
  have different : raiser ≠ fiber := by
    rintro rfl
    exact now strict toWake (by simpa using scheduling)
  rw [update_of_ne different] at scheduling
  have parked := sound.due raiser strict toWake scheduling
  have other : toWake ≠ fiber := by
    rintro rfl
    exact was parked
  rw [update_of_ne other]
  exact parked

theorem Sound.ready_update (sound : Sound state)
    (own : next.holds → (state.ready fiber ↔ next = .wait .parked))
    (other : Fiber) (holds : (update state.phase fiber next other).holds) :
    state.ready other ↔ update state.phase fiber next other = .wait .parked := by
  by_cases same : other = fiber
  · subst same
    rw [update_self] at holds ⊢
    exact own holds
  · rw [update_of_ne same] at holds ⊢
    exact sound.ready other holds

theorem Sound.swap (sound : Sound state) (was : state.phase fiber ≠ .wait .parked)
    (fits : next.Fits { state with
      word := ⟨state.word.counter + 1, head⟩
      phase := update state.phase fiber next } fiber)
    (ready : next.holds → (state.ready fiber ↔ next = .wait .parked))
    (now : ∀ strict toWake, next ≠ .raise strict (.scheduling toWake))
    (listed : Listed { state with
      word := ⟨state.word.counter + 1, head⟩
      phase := update state.phase fiber next } waiting) :
    Sound { state with
      word := ⟨state.word.counter + 1, head⟩
      phase := update state.phase fiber next } := by
  refine ⟨sound.owned, sound.ready_update ready, fits_update fits ?_, sound.due_update was now,
    ⟨waiting, listed⟩⟩
  intro other _
  exact (sound.fits other).carry (.inr (Nat.lt_succ_self _)) rfl rfl (fun _ => rfl)
    (fun _ _ => rfl)

theorem consume_sound (sound : Sound state)
    (was : state.phase fiber = .wait (.consuming node counter)) (head : state.word.head = .raised) :
    Sound { state with
      word := ⟨state.word.counter + 1, .null⟩
      phase := update state.phase fiber .waited } := by
  obtain ⟨waiting, listed⟩ := sound.listed
  obtain rfl : waiting = [] := listed.waiting_eq_nil (by simp [head])
  refine sound.swap (by simp [was]) trivial (by simp [Phase.holds]) (by simp)
    (listed.keep (.inr (.nil _)) (asleep_update ?_) (debt_update ?_ fun _ _ => rfl))
  · rw [was]
    rfl
  · rw [was]
    rfl

theorem mark_sound (sound : Sound state)
    (was : state.phase fiber = .raise strict (.marking counter state.word.head)) :
    Sound { state with
      word := ⟨state.word.counter + 1, .raised⟩
      phase := update state.phase fiber (.raised strict false) } := by
  obtain ⟨waiting, listed⟩ := sound.listed
  have fits := sound.fits fiber
  rw [was] at fits
  obtain rfl : waiting = [] := listed.waiting_eq_nil fits.2
  refine sound.swap (by simp [was]) trivial (by simp [Phase.holds]) (by simp)
    (listed.keep (.inl ⟨rfl, rfl⟩) (asleep_update ?_) (debt_update ?_ fun _ _ => rfl))
  · rw [was]
    rfl
  · rw [was]
    rfl

theorem push_listed (listed : Listed state waiting)
    (was : state.phase fiber = .wait (.pushing node counter state.word.head))
    (fits : (state.phase fiber).Fits state fiber) :
    Listed { state with
      word := ⟨state.word.counter + 1, .node node⟩
      phase := update state.phase fiber (.wait .parking) } (fiber :: waiting) := by
  rw [was] at fits
  obtain ⟨⟨rfl, _⟩, unraised, linked⟩ := fits
  have awake : (state.phase fiber).asleep = false := by rw [was]; rfl
  have outside : fiber ∉ waiting := fun inside => by
    simp [listed.asleep fiber inside] at awake
  have debt : ∀ raiser, (update state.phase fiber (.wait .parking) raiser).debt state.data =
      state.debt raiser := debt_update (by rw [was]; rfl) fun _ _ => rfl
  have asleep : ∀ other, other ≠ fiber →
      (update state.phase fiber (.wait .parking) other).asleep = (state.phase other).asleep :=
    fun other different => by rw [update_of_ne different]
  refine ⟨.inr ?_, List.nodup_cons.mpr ⟨outside, listed.distinct⟩, ?_, ?_, ?_, ?_⟩
  · refine .cons ?_
    rcases listed.chain with ⟨raised, _⟩ | chain
    · exact absurd raised unraised
    · simpa only [linked] using chain
  · intro other inside
    rcases List.mem_cons.mp inside with rfl | inside
    · simp [Phase.asleep]
    · have different : other ≠ fiber := fun same => outside (same ▸ inside)
      simpa only [asleep other different] using listed.asleep other inside
  · intro other sleeps
    by_cases same : other = fiber
    · exact .inl (same ▸ List.mem_cons_self)
    · rcases listed.covered other (by simpa only [asleep other same] using sleeps)
        with inside | ⟨raiser, owes⟩
      · exact .inl (List.mem_cons_of_mem _ inside)
      · exact .inr ⟨raiser, (debt raiser).trans owes⟩
  · intro raiser other owes
    obtain ⟨sleeps, unlisted⟩ := listed.owing raiser other ((debt raiser).symm.trans owes)
    have different : other ≠ fiber := by
      rintro rfl
      simp [awake] at sleeps
    refine ⟨by simpa only [asleep other different] using sleeps, ?_⟩
    simpa [different] using unlisted
  · intro raiser other toWake owes also
    exact listed.sole raiser other toWake ((debt raiser).symm.trans owes)
      ((debt other).symm.trans also)

theorem push_sound (sound : Sound state)
    (was : state.phase fiber = .wait (.pushing node counter state.word.head)) :
    Sound { state with
      word := ⟨state.word.counter + 1, .node node⟩
      phase := update state.phase fiber (.wait .parking) } := by
  obtain ⟨waiting, listed⟩ := sound.listed
  have fits := sound.fits fiber
  have listed := push_listed listed was fits
  rw [was] at fits
  obtain ⟨⟨rfl, mine⟩, _⟩ := fits
  refine sound.swap (by simp [was]) ⟨rfl, mine⟩ ?_ (by simp) listed
  intro _
  simpa [was] using sound.ready fiber (by rw [was]; rfl)

theorem pop_listed
    (listed : Listed state (toWake :: waiting)) (awake : (state.phase fiber).asleep = false)
    (idle : state.debt fiber = none) (linked : state.next (state.node toWake) = pointer)
    (named : state.data (state.node toWake) = some toWake) :
    Listed { state with
      word := ⟨state.word.counter + 1, pointer⟩
      phase := update state.phase fiber (.raise strict (.fetching (state.node toWake))) }
      waiting := by
  obtain ⟨outside, distinct⟩ := List.nodup_cons.mp listed.distinct
  have asleep : ∀ other, (update state.phase fiber
      (.raise strict (.fetching (state.node toWake))) other).asleep = (state.phase other).asleep :=
    asleep_update awake.symm
  have own : (update state.phase fiber (.raise strict (.fetching (state.node toWake)))
      fiber).debt state.data = some toWake := by
    rw [update_self]
    exact named
  have others : ∀ raiser, raiser ≠ fiber → (update state.phase fiber
      (.raise strict (.fetching (state.node toWake))) raiser).debt state.data =
        state.debt raiser := fun raiser different => by
    rw [update_of_ne different]
    rfl
  -- Nobody has taken out the first fiber of the list before.
  have fresh : ∀ raiser, state.debt raiser ≠ some toWake := fun raiser owes =>
    (listed.owing raiser toWake owes).2 List.mem_cons_self
  refine ⟨.inr ?_, distinct, ?_, ?_, ?_, ?_⟩
  · rcases listed.chain with ⟨_, empty⟩ | chain
    · cases empty
    · simpa only [linked] using chain.cons_inv.2
  · intro other inside
    simpa only [asleep other] using listed.asleep other (List.mem_cons_of_mem _ inside)
  · intro other sleeps
    rcases listed.covered other (by simpa only [asleep other] using sleeps)
      with inside | ⟨raiser, owes⟩
    · rcases List.mem_cons.mp inside with rfl | inside
      · exact .inr ⟨fiber, own⟩
      · exact .inl inside
    · have different : raiser ≠ fiber := by
        rintro rfl
        simp [idle] at owes
      exact .inr ⟨raiser, (others raiser different).trans owes⟩
  · intro raiser other owes
    by_cases same : raiser = fiber
    · subst same
      obtain rfl : toWake = other := Option.some.inj (own.symm.trans owes)
      refine ⟨?_, outside⟩
      simpa only [asleep toWake] using listed.asleep toWake List.mem_cons_self
    · obtain ⟨sleeps, unlisted⟩ := listed.owing raiser other ((others raiser same).symm.trans owes)
      exact ⟨by simpa only [asleep other] using sleeps,
        fun inside => unlisted (List.mem_cons_of_mem _ inside)⟩
  · intro raiser other target owes also
    by_cases first : raiser = fiber <;> by_cases second : other = fiber
    · rw [first, second]
    · subst first
      obtain rfl : toWake = target := Option.some.inj (own.symm.trans owes)
      exact absurd ((others other second).symm.trans also) (fresh other)
    · subst second
      obtain rfl : toWake = target := Option.some.inj (own.symm.trans also)
      exact absurd ((others raiser first).symm.trans owes) (fresh raiser)
    · exact listed.sole raiser other target ((others raiser first).symm.trans owes)
        ((others other second).symm.trans also)

theorem pop_sound (sound : Sound state)
    (was : state.phase fiber = .raise strict (.popping state.word.counter node pointer))
    (head : state.word.head = .node node) :
    Sound { state with
      word := ⟨state.word.counter + 1, pointer⟩
      phase := update state.phase fiber (.raise strict (.fetching node)) } := by
  obtain ⟨waiting, listed⟩ := sound.listed
  have fits := sound.fits fiber
  rw [was] at fits
  obtain ⟨_, linked⟩ := fits.2 rfl
  obtain ⟨toWake, rest, rfl, rfl, _⟩ := listed.first head
  have named := sound.named (listed.asleep toWake List.mem_cons_self)
  exact sound.swap (by simp [was]) ⟨toWake, rfl, named⟩ (by simp [Phase.holds]) (by simp)
    (pop_listed listed (by rw [was]; rfl) (by simp only [State.debt, was]; rfl) linked named)

theorem restore_sound (sound : Sound state)
    (was : state.phase fiber = .raise strict (.restoring node toWake)) :
    Sound { state with
      node := update state.node toWake node
      phase := update state.phase fiber (.raise strict (.spinning toWake)) } := by
  have mine := sound.fits fiber
  rw [was] at mine
  -- The fiber is given the node that it has.
  have same : update state.node toWake node = state.node := update_eq_self_iff.mpr mine.symm
  rw [same]
  exact sound.goto (by rw [was]; rfl) rfl trivial (by rw [was]; rfl) (by simp [Phase.holds])
    (by simp)

omit [DecidableEq Fiber] in
theorem Sound.owes (sound : Sound state) (owes : state.debt fiber = some toWake) :
    (state.phase toWake).asleep := by
  obtain ⟨waiting, listed⟩ := sound.listed
  exact (listed.owing fiber toWake owes).1

theorem proceed_sound (sound : Sound state)
    (was : state.phase fiber = .raise strict (.spinning toWake)) (ready : state.ready toWake) :
    Sound (state.goto fiber (.raise strict (.scheduling toWake))) := by
  have owed : state.debt fiber = some toWake := by
    simp only [State.debt, was]
    rfl
  have asleep := sound.owes owed
  have parked := (sound.ready toWake (asleep_holds asleep)).mp ready
  refine sound.goto (by rw [was]; rfl) rfl trivial (by rw [was]; rfl) (by simp [Phase.holds]) ?_
  intro _ _ same
  cases same
  refine ⟨?_, parked⟩
  rintro rfl
  simp [was] at parked

theorem schedule_listed (listed : Listed state waiting)
    (was : state.phase fiber = .raise strict (.scheduling toWake))
    (parked : state.phase toWake = .wait .parked) :
    Listed ((state.goto toWake (.wait .woken)).goto fiber (.raised strict true)) waiting := by
  have different : toWake ≠ fiber := by
    rintro rfl
    simp [was] at parked
  have owed : state.debt fiber = some toWake := by
    simp only [State.debt, was]
    rfl
  have asleep : ∀ other, other ≠ toWake →
      (((state.goto toWake (.wait .woken)).goto fiber (.raised strict true)).phase other).asleep =
        (state.phase other).asleep := by
    intro other apart
    by_cases same : other = fiber
    · subst same
      simp [State.goto, was, Phase.asleep]
    · simp [State.goto, update_of_ne same, update_of_ne apart]
  have woken : (((state.goto toWake (.wait .woken)).goto fiber
      (.raised strict true)).phase toWake).asleep = false := by
    simp [State.goto, update_of_ne different, Phase.asleep]
  have debt : ∀ raiser other,
      ((state.goto toWake (.wait .woken)).goto fiber (.raised strict true)).debt raiser =
        some other → raiser ≠ fiber ∧ state.debt raiser = some other := by
    intro raiser other owes
    have apart : raiser ≠ fiber := by
      rintro rfl
      simp [State.debt, State.goto, Phase.debt] at owes
    have sleeper : raiser ≠ toWake := by
      rintro rfl
      simp [State.debt, State.goto, update_of_ne apart, Phase.debt] at owes
    refine ⟨apart, ?_⟩
    simpa [State.debt, State.goto, update_of_ne apart, update_of_ne sleeper] using owes
  refine ⟨listed.chain, listed.distinct, ?_, ?_, ?_, ?_⟩
  · intro other inside
    have apart : other ≠ toWake := by
      rintro rfl
      exact (listed.owing fiber other owed).2 inside
    rw [asleep other apart]
    exact listed.asleep other inside
  · intro other sleeps
    have apart : other ≠ toWake := by
      rintro rfl
      simp [woken] at sleeps
    rw [asleep other apart] at sleeps
    rcases listed.covered other sleeps with inside | ⟨raiser, owes⟩
    · exact .inl inside
    · have busy : raiser ≠ fiber := by
        rintro rfl
        exact apart (Option.some.inj (owes.symm.trans owed))
      have sleeper : raiser ≠ toWake := by
        rintro rfl
        simp [State.debt, parked, Phase.debt] at owes
      refine .inr ⟨raiser, ?_⟩
      simpa [State.debt, State.goto, update_of_ne busy, update_of_ne sleeper] using owes
  · intro raiser other owes
    obtain ⟨busy, owed'⟩ := debt raiser other owes
    have apart : other ≠ toWake := by
      rintro rfl
      exact busy (listed.sole raiser fiber other owed' owed)
    rw [asleep other apart]
    exact listed.owing raiser other owed'
  · intro raiser other target owes also
    exact listed.sole raiser other target (debt raiser target owes).2 (debt other target also).2

variable [DecidableEq Node]

theorem schedule_eq (parked : state.phase toWake = .wait .parked) :
    state.schedule toWake = state.goto toWake (.wait .woken) := by
  rw [State.schedule, if_pos parked]

theorem schedule_sound (sound : Sound state)
    (was : state.phase fiber = .raise strict (.scheduling toWake)) :
    Sound ((state.schedule toWake).goto fiber (.raised strict true)) := by
  obtain ⟨waiting, listed⟩ := sound.listed
  have parked := sound.due fiber strict toWake was
  have owed : state.debt fiber = some toWake := by
    simp only [State.debt, was]
    rfl
  rw [schedule_eq parked]
  refine ⟨sound.owned, ?_, ?_, ?_, ⟨waiting, schedule_listed listed was parked⟩⟩
  · intro other holds
    have apart : other ≠ fiber := by
      rintro rfl
      simp [State.goto, Phase.holds] at holds
    have sleeper : other ≠ toWake := by
      rintro rfl
      simp [State.goto, update_of_ne apart, Phase.holds] at holds
    simp only [State.goto, update_of_ne apart, update_of_ne sleeper] at holds ⊢
    exact sound.ready other holds
  · refine fits_update trivial fun other _ => ?_
    by_cases sleeper : other = toWake
    · subst sleeper
      simp only [State.goto, update_self]
      trivial
    · simp only [State.goto, update_of_ne sleeper]
      exact (sound.fits other).carry (.inl rfl) rfl rfl (fun _ => rfl) (fun _ _ => rfl)
  · intro raiser mode target scheduling
    have apart : raiser ≠ fiber := by
      rintro rfl
      simp [State.goto] at scheduling
    have sleeper : raiser ≠ toWake := by
      rintro rfl
      simp [State.goto, update_of_ne apart] at scheduling
    simp only [State.goto, update_of_ne apart, update_of_ne sleeper] at scheduling ⊢
    have still := sound.due raiser mode target scheduling
    have notOwn : target ≠ fiber := by
      rintro rfl
      simp [was] at still
    have notWoken : target ≠ toWake := by
      rintro rfl
      have also : state.debt raiser = some target := by
        simp only [State.debt, scheduling]
        rfl
      exact apart (listed.sole raiser fiber target also owed)
    rw [update_of_ne notOwn, update_of_ne notWoken]
    exact still

theorem name_sound (sound : Sound state) (was : state.phase fiber = .wait (.naming node)) :
    Sound { state with
      data := update state.data node (some fiber)
      phase := update state.phase fiber (.wait (.counting node)) } := by
  have mine := sound.fits fiber
  rw [was] at mine
  obtain rfl : state.node fiber = node := mine
  have awake : (state.phase fiber).asleep = false := by rw [was]; rfl
  have written :
      Sound { state with data := update state.data (state.node fiber) (some fiber) } := by
    refine sound.write (sound.free_own awake) (fun _ _ => rfl)
      (fun _ apart => update_of_ne apart _ _) ?_
    intro other _ same
    rw [sound.node_injective same, was]
    rfl
  exact written.goto awake rfl ⟨rfl, update_self _ _ _⟩ (by simp only [was]; rfl)
    (by simp [was, Phase.holds]) (by simp)

theorem link_sound (sound : Sound state)
    (was : state.phase fiber = .wait (.linking node counter head)) :
    Sound { state with
      next := update state.next node head
      phase := update state.phase fiber (.wait (.pushing node counter head)) } := by
  have fits := sound.fits fiber
  rw [was] at fits
  obtain ⟨⟨rfl, mine⟩, unraised⟩ := fits
  have awake : (state.phase fiber).asleep = false := by rw [was]; rfl
  have written : Sound { state with next := update state.next (state.node fiber) head } := by
    refine sound.write (sound.free_own awake) (fun _ apart => update_of_ne apart _ _)
      (fun _ _ => rfl) ?_
    intro other _ same
    rw [sound.node_injective same, was]
    exact ⟨⟨rfl, mine⟩, unraised⟩
  exact written.goto awake rfl ⟨⟨rfl, mine⟩, unraised, update_self _ _ _⟩ (by simp only [was]; rfl)
    (by simp [was, Phase.holds]) (by simp)

omit [DecidableEq Fiber] in
theorem scribble_sound (sound : Sound state)
    (unheld : ∀ fiber, state.owner node = some fiber → (state.phase fiber).holds = false) :
    Sound { state with
      next := update state.next node pointer
      data := update state.data node toStore } := by
  have released : ∀ fiber, (state.phase fiber).holds → state.node fiber ≠ node := by
    rintro fiber holds rfl
    rw [unheld fiber (sound.owned fiber)] at holds
    cases holds
  refine sound.write (fun fiber asleep => released fiber (asleep_holds asleep))
    (fun _ apart => update_of_ne apart _ _) (fun _ apart => update_of_ne apart _ _) ?_
  intro fiber holds same
  exact absurd same (released fiber holds)

theorem trade_sound (sound : Sound state) (outside : (state.phase fiber).outside)
    (unowned : state.owner node = none) :
    Sound { state with
      node := update state.node fiber node
      owner := update (update state.owner (state.node fiber) none) node (some fiber) } := by
  obtain ⟨awake, unheld⟩ := outside_awake outside
  obtain ⟨waiting, listed⟩ := sound.listed
  have others : ∀ other, other ≠ fiber → update state.node fiber node other = state.node other :=
    fun other different => update_of_ne different _ _
  have sleeper : ∀ other, (state.phase other).asleep → other ≠ fiber := by
    rintro other asleep rfl
    rw [awake] at asleep
    cases asleep
  refine ⟨?_, sound.ready, ?_, sound.due, ⟨waiting, ?_⟩⟩
  · intro other
    by_cases same : other = fiber
    · subst same
      simp
    · have owned := sound.owned other
      have notNew : state.node other ≠ node := by
        intro equal
        rw [equal, unowned] at owned
        cases owned
      have notOld : state.node other ≠ state.node fiber := fun equal =>
        same (sound.node_injective equal)
      simpa [others other same, update_of_ne notNew, update_of_ne notOld] using owned
  · intro other
    refine (sound.fits other).carry (.inl rfl) rfl rfl ?_ ?_
    · intro holds
      refine others other ?_
      rintro rfl
      rw [unheld] at holds
      cases holds
    · intro toWake owes
      exact others toWake (sleeper toWake (listed.owing other toWake owes).1)
  · refine listed.frame rfl ?_ (fun _ _ => rfl) (fun _ => rfl) (fun _ => rfl)
    intro other inside
    exact others other (sleeper other (listed.asleep other inside))

theorem Move.sound {event : Option (Event Fiber)} (move : Move state event after)
    (sound : Sound state) : Sound after := by
  cases move with
  | call outside enters =>
    obtain ⟨awake, unheld⟩ := outside_awake outside
    have idle := outside_debt outside state.data
    rcases enters with rfl | ⟨strict, rfl⟩
    · exact sound.goto awake rfl trivial idle.symm (by simp [Phase.holds]) (by simp)
    · exact sound.goto awake rfl trivial idle.symm (by simp [Phase.holds]) (by simp)
  | stroll was now fits debt holds _ _ fresh =>
    exact sound.goto was now (fits (sound.fits _)) debt holds
      (fun strict toWake same => absurd same (fresh strict toWake))
  | clear was =>
    exact sound.turn (by rw [was]; rfl) rfl (by rw [was]; rfl) (by simp) (by simp [was]) (by simp)
  | name was => exact name_sound sound was
  | consume was head => exact consume_sound sound was head
  | link was => exact link_sound sound was
  | push was => exact push_sound sound was
  | @store fiber was =>
    have fits := sound.fits fiber
    rw [was] at fits
    exact sound.turn (by rw [was]; rfl) fits (by rw [was]; rfl) (by simp) (by simp) (by simp)
  | resume was =>
    exact sound.turn (by rw [was]; rfl) trivial (by rw [was]; rfl) (by simp [Phase.holds])
      (by simp [was]) (by simp)
  | mark was => exact mark_sound sound was
  | pop was head => exact pop_sound sound was head
  | restore was => exact restore_sound sound was
  | proceed was ready => exact proceed_sound sound was ready
  | schedule was => exact schedule_sound sound was
  | scribble unheld => exact scribble_sound sound unheld
  | trade outside unowned => exact trade_sound sound outside unowned

omit [DecidableEq Fiber] [DecidableEq Node] in
theorem initial_sound (start : initial state) : Sound state := by
  obtain ⟨word, owned, idle⟩ := start
  refine ⟨owned, ?_, ?_, ?_, ⟨[], ?_⟩⟩
  · intro fiber holds
    simp [idle fiber, Phase.holds] at holds
  · intro fiber
    rw [idle fiber]
    trivial
  · intro raiser strict fiber scheduling
    simp [idle raiser] at scheduling
  · refine ⟨.inr (by rw [word]; exact .nil _), List.nodup_nil, by simp, ?_, ?_, ?_⟩
    · intro fiber asleep
      simp [idle fiber, Phase.asleep] at asleep
    · intro raiser fiber owes
      simp [State.debt, idle raiser, Phase.debt] at owes
    · intro raiser other fiber owes
      simp [State.debt, idle raiser, Phase.debt] at owes

theorem reachable_sound (reachable : (machine Fiber Node).Reachable state) : Sound state := by
  refine reachable.invariant Sound (fun _ => initial_sound) ?_
  intro before action after sound stepped
  exact (step_moves stepped).sound sound

end Preservation

end LibFiber.MultiSignal
