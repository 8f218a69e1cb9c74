import LibFiber.MultiSignal.Invariant

namespace LibFiber.MultiSignal

open Data Semantics Function

/-! Who is parked, woken and told, over a whole run. -/

section Runs

variable {Fiber Node : Type} [DecidableEq Fiber] [DecidableEq Node]

def parkCount (fiber : Fiber) (history : History Fiber Node) : Nat :=
  history.countP fun taken => event taken.1 taken.2 = some (.park fiber)

def Event.wakes (fiber : Fiber) : Event Fiber → Bool
  | .schedule _ toWake => toWake = fiber
  | _ => false

def scheduleCount (fiber : Fiber) (history : History Fiber Node) : Nat :=
  history.countP fun taken => (event taken.1 taken.2).any (Event.wakes fiber)

/-- How many fibers the current or last call of a raiser has scheduled, and how
often it has raised the signal. -/
structure Outcome where
  wakes : Nat
  marks : Nat
deriving DecidableEq, Repr

def Outcome.add (raiser : Fiber) (outcome : Outcome) : Event Fiber → Outcome
  | .call fiber => if fiber = raiser then ⟨0, 0⟩ else outcome
  | .schedule fiber _ =>
    if fiber = raiser then { outcome with wakes := outcome.wakes + 1 } else outcome
  | .mark fiber => if fiber = raiser then { outcome with marks := outcome.marks + 1 } else outcome
  | .park _ | .consume _ | .claim _ => outcome

def outcome (raiser : Fiber) (history : History Fiber Node) : Outcome :=
  history.foldl (fun earlier taken => (event taken.1 taken.2).elim earlier (earlier.add raiser))
    ⟨0, 0⟩

/-- Whether a raise has been left in the signal and not been consumed. -/
def Event.leaves (left : Bool) : Event Fiber → Bool
  | .mark _ => true
  | .consume _ => false
  | .call _ | .park _ | .claim _ | .schedule _ _ => left

def leftRaised (history : History Fiber Node) : Bool :=
  history.foldl (fun left taken => (event taken.1 taken.2).elim left (Event.leaves left)) false

/-- What a raiser's call has done when it is over. -/
def Phase.Scored (outcome : Outcome) : Phase Fiber Node → Prop
  | .raise _ _ => outcome = ⟨0, 0⟩
  | .raised _ true => outcome = ⟨1, 0⟩
  | .raised strict false => strict = false ∧ outcome = ⟨0, 1⟩
  | .idle | .wait _ | .waited => True

variable {state after : State Fiber Node} {history : History Fiber Node} {fiber : Fiber}
variable {happens : Option (Event Fiber)}
variable {phase : Phase Fiber Node}

omit [DecidableEq Node] in
theorem parks_quiet (same : (after.phase fiber).asleep = (state.phase fiber).asleep)
    (silent : happens.any (Event.wakes fiber) = false) (calm : happens ≠ some (.park fiber)) :
    (after.phase fiber).asleep.toNat + (happens.any (Event.wakes fiber)).toNat =
      (state.phase fiber).asleep.toNat + (decide (happens = some (.park fiber))).toNat := by
  simp [same, silent, calm]

theorem Move.parks (move : Move state happens after) (sound : Sound state) (fiber : Fiber) :
    (after.phase fiber).asleep.toNat + (happens.any (Event.wakes fiber)).toNat =
      (state.phase fiber).asleep.toNat + (decide (happens = some (.park fiber))).toNat := by
  cases move with
  | call outside enters =>
    have awake := (outside_awake outside).1
    rcases enters with rfl | ⟨strict, rfl⟩
    · exact parks_quiet (asleep_update (by rw [awake]; rfl) fiber) rfl (by simp)
    · exact parks_quiet (asleep_update (by rw [awake]; rfl) fiber) rfl (by simp)
  | stroll was now => exact parks_quiet (asleep_update (now.trans was.symm) fiber) rfl (by simp)
  | clear was | name was | link was | store was | resume was | restore was | proceed was
  | consume was | mark was | pop was =>
    exact parks_quiet (asleep_update (by rw [was]; rfl) fiber) rfl (by simp)
  | @push parker node counter was =>
    by_cases same : fiber = parker
    · subst same
      simp [was, Phase.asleep, Event.wakes]
    · simp [update_of_ne same, Event.wakes, Ne.symm same]
  | @schedule raiser strict toWake was =>
    have parked := sound.due raiser strict toWake was
    have different : toWake ≠ raiser := by
      rintro rfl
      simp [was] at parked
    rw [schedule_eq parked]
    by_cases same : fiber = toWake
    · subst same
      simp [State.goto, update_of_ne different, parked, Phase.asleep, Event.wakes]
    · by_cases own : fiber = raiser
      · subst own
        simp [State.goto, was, Phase.asleep, Event.wakes, Ne.symm same]
      · simp [State.goto, update_of_ne own, update_of_ne same, Event.wakes, Ne.symm same]
  | scribble | trade => exact parks_quiet rfl rfl (by simp)

omit [DecidableEq Fiber] [DecidableEq Node] in
theorem Phase.Scored.of_busy {count : Outcome} {next : Phase Fiber Node}
    (scored : phase.Scored count) (busy : next.busy = phase.busy) (inside : next.busy ≠ .outside) :
    next.Scored count := by
  cases next with
  | idle | waited | raised => exact absurd rfl inside
  | wait => trivial
  | raise =>
    cases phase with
    | raise => exact scored
    | idle | wait | waited | raised => cases busy

omit [DecidableEq Node] in
theorem scored_update {count : Fiber → Outcome} {next : Phase Fiber Node} {own : Fiber}
    (scored : ∀ raiser, (state.phase raiser).Scored (count raiser))
    (others : ∀ raiser, raiser ≠ own →
      happens.elim (count raiser) ((count raiser).add raiser) = count raiser)
    (now : next.Scored (happens.elim (count own) ((count own).add own))) (raiser : Fiber) :
    (update state.phase own next raiser).Scored
      (happens.elim (count raiser) ((count raiser).add raiser)) := by
  by_cases same : raiser = own
  · subst same
    rwa [update_self]
  · rw [update_of_ne same, others raiser same]
    exact scored raiser

theorem Move.scored (move : Move state happens after) (sound : Sound state)
    {count : Fiber → Outcome} (scored : ∀ raiser, (state.phase raiser).Scored (count raiser)) :
    ∀ raiser, (after.phase raiser).Scored
      (happens.elim (count raiser) ((count raiser).add raiser)) := by
  cases move with
  | @call fiber next outside enters =>
    refine scored_update scored (fun raiser different => ?_) ?_
    · simp [Outcome.add, Ne.symm different]
    · rcases enters with rfl | ⟨strict, rfl⟩
      · trivial
      · simp [Phase.Scored, Outcome.add]
  | @stroll fiber next _ _ _ _ _ busy inside _ =>
    exact scored_update scored (fun _ _ => rfl) ((scored fiber).of_busy busy inside)
  | clear was | name was | link was | store was | resume was | consume was | push was =>
    exact scored_update scored (fun _ _ => rfl) trivial
  | @restore fiber _ _ _ was | @proceed fiber _ _ was | @pop fiber _ _ _ was =>
    have before := scored fiber
    rw [was] at before
    exact scored_update scored (fun _ _ => rfl) before
  | @mark fiber strict counter was =>
    have before := scored fiber
    have fits := sound.fits fiber
    rw [was] at before fits
    refine scored_update scored (fun raiser different => ?_) ⟨fits.1, ?_⟩
    · simp [Outcome.add, Ne.symm different]
    · simp [Outcome.add, show count fiber = ⟨0, 0⟩ from before]
  | @schedule fiber strict toWake was =>
    have before := scored fiber
    rw [was] at before
    have parked := sound.due fiber strict toWake was
    rw [schedule_eq parked]
    have woken : ∀ raiser, (update state.phase toWake (.wait .woken) raiser).Scored
        ((none : Option (Event Fiber)).elim (count raiser) ((count raiser).add raiser)) :=
      scored_update scored (fun _ _ => rfl) trivial
    refine scored_update woken (fun raiser different => ?_) ?_
    · simp [Outcome.add, Ne.symm different]
    · simp [Phase.Scored, Outcome.add, show count fiber = ⟨0, 0⟩ from before]
  | scribble | trade => exact scored

theorem Move.left (move : Move state happens after) (sound : Sound state) :
    happens.elim (decide (state.word.head = .raised))
      (Event.leaves (decide (state.word.head = .raised))) = decide (after.word.head = .raised) := by
  cases move with
  
  | call | stroll | clear | name | link | store | resume | restore | proceed | scribble | trade
  | consume | mark =>
    rfl
  | @push fiber node counter was =>
    have fits := sound.fits fiber
    rw [was] at fits
    simp [Event.leaves, fits.2.1]
  | @pop fiber strict node next was head =>
    obtain ⟨waiting, listed⟩ := sound.listed
    obtain ⟨toWake, rest, _, _, behind⟩ := listed.first head
    have fits := sound.fits fiber
    rw [was] at fits
    -- The list behind the first node ends in a null pointer.
    have unraised : next ≠ .raised := by
      rintro rfl
      rw [(fits.2 rfl).2] at behind
      generalize rest.map state.node = nodes at behind
      cases behind
    simp [Event.leaves, head, unraised]
  | @schedule fiber strict toWake was =>
    rw [schedule_eq (sound.due fiber strict toWake was)]
    rfl

/-- Everything that a run adds up to. -/
structure Tally (history : History Fiber Node) (state : State Fiber Node) : Prop where
  parks : ∀ fiber, parkCount fiber history =
    scheduleCount fiber history + (state.phase fiber).asleep.toNat
  scored : ∀ raiser, (state.phase raiser).Scored (outcome raiser history)
  left : leftRaised history = decide (state.word.head = .raised)

theorem run_tally (run : (machine Fiber Node).Run history state) : Tally history state := by
  induction run with
  | start initial =>
    obtain ⟨word, _, idle⟩ := initial
    refine ⟨fun fiber => ?_, fun raiser => ?_, ?_⟩
    · simp [parkCount, scheduleCount, idle fiber, Phase.asleep]
    · rw [idle raiser]
      trivial
    · simp [leftRaised, word]
  | @step history before after action run stepped tally =>
    have sound := reachable_sound run.reachable
    have move := step_moves stepped
    refine ⟨fun fiber => ?_, fun raiser => ?_, ?_⟩
    · have parks := move.parks sound fiber
      have earlier := tally.parks fiber
      simp only [parkCount, scheduleCount, countP_snoc] at earlier ⊢
      omega
    · simpa only [outcome, List.foldl_append, List.foldl_cons, List.foldl_nil] using
        move.scored sound tally.scored raiser
    · have left := move.left sound
      rw [← tally.left] at left
      simpa only [leftRaised, List.foldl_append, List.foldl_cons, List.foldl_nil] using left

omit [DecidableEq Fiber] [DecidableEq Node] in
theorem Listed.mem_iff (listed : Listed state waiting) :
    fiber ∈ waiting ↔ (state.phase fiber).asleep ∧ ∀ raiser, state.debt raiser ≠ some fiber := by
  constructor
  · intro inside
    exact ⟨listed.asleep fiber inside, fun raiser owes => (listed.owing raiser fiber owes).2 inside⟩
  · rintro ⟨asleep, unclaimed⟩
    rcases listed.covered fiber asleep with inside | ⟨raiser, owes⟩
    · exact inside
    · exact absurd owes (unclaimed raiser)

omit [DecidableEq Fiber] in
theorem Phase.of_event_schedule {own : Fiber}
    (happens : phase.event word own = some (.schedule raiser fiber)) :
    ∃ strict, phase = .raise strict (.scheduling fiber) := by
  rcases phase with _ | ⟨wait⟩ | ⟨strict, raise⟩ | _ | _
  case wait => cases wait <;> simp [Phase.event] at happens
  case raise =>
    cases raise with
    | scheduling toWake =>
      simp only [Phase.event, Option.some.injEq, Event.schedule.injEq] at happens
      exact ⟨strict, by rw [happens.2]⟩
    | counting | heading | marking | following | popping | fetching | restoring | spinning =>
      simp [Phase.event] at happens
  all_goals simp [Phase.event] at happens

omit [DecidableEq Fiber] in
theorem Phase.of_event_park {own : Fiber} (happens : phase.event word own = some (.park fiber)) :
    ∃ node counter, phase = .wait (.pushing node counter word.head) := by
  rcases phase with _ | ⟨wait⟩ | ⟨strict, raise⟩ | _ | _
  case wait =>
    cases wait with
    | pushing node counter head =>
      obtain ⟨after, swapped, _⟩ := Option.map_eq_some_iff.mp happens
      obtain ⟨_, rfl, _⟩ := Versioned.swap_eq_some swapped
      exact ⟨node, counter, rfl⟩
    | clearing | naming | counting | heading | consuming | linking | parking | parked | woken =>
      simp [Phase.event] at happens
  case raise => cases raise <;> simp [Phase.event] at happens
  all_goals simp [Phase.event] at happens

omit [DecidableEq Fiber] in
theorem Sound.scheduled (sound : Sound state)
    (happens : event state action = some (.schedule raiser fiber)) :
    state.phase fiber = .wait .parked ∧ state.ready fiber := by
  cases action with
  | wait | raise | scribble | trade => cases happens
  | move other =>
    obtain ⟨strict, scheduling⟩ := Phase.of_event_schedule happens
    have parked := sound.due other strict fiber scheduling
    exact ⟨parked, (sound.ready fiber (by rw [parked]; rfl)).mpr parked⟩

omit [DecidableEq Fiber] in
theorem Sound.unraised (sound : Sound state)
    (happens : event state action = some (.park fiber)) : state.word.head ≠ .raised := by
  cases action with
  | wait | raise | scribble | trade => cases happens
  | move other =>
    obtain ⟨node, counter, pushing⟩ := Phase.of_event_park happens
    have fits := sound.fits other
    rw [pushing] at fits
    exact fits.2.1

end Runs

section Refusals

variable {Fiber Node : Type} [DecidableEq Fiber] [DecidableEq Node]

/-- While no yield is refused: the list at `head` holds the fibers that are parked
and unclaimed; parks and schedulings of a fiber alternate; a strict raise wakes one
fiber; and a raise that wakes nobody stays in the signal until a wait consumes it. -/
theorem multi_signal_wakeups (run : (refusing Fiber Node).Run history state)
    (granted : ∀ taken ∈ history, taken.2.isLeft) :
    (∃ waiting : List Fiber, ((state.1.word.head = .raised ∧ waiting = []) ∨
        Chain Pointer.node state.1.next state.1.word.head (waiting.map state.1.node) .null) ∧
      waiting.Nodup ∧ (∀ fiber ∈ waiting, state.1.data (state.1.node fiber) = some fiber) ∧
      ∀ fiber, fiber ∈ waiting ↔
        (state.1.phase fiber).asleep ∧ ∀ raiser, state.1.debt raiser ≠ some fiber) ∧
    (∀ fiber, parkCount fiber (ordinary history) =
      scheduleCount fiber (ordinary history) + (state.1.phase fiber).asleep.toNat) ∧
    (∀ taken ∈ ordinary history, ∀ raiser fiber,
      event taken.1 taken.2 = some (.schedule raiser fiber) →
        taken.1.phase fiber = .wait .parked ∧ taken.1.ready fiber) ∧
    (∀ raiser woken, state.1.phase raiser = .raised true woken →
      outcome raiser (ordinary history) = ⟨1, 0⟩) ∧
    (∀ raiser woken, state.1.phase raiser = .raised false woken →
      outcome raiser (ordinary history) = if woken = true then ⟨1, 0⟩ else ⟨0, 1⟩) ∧
    (leftRaised (ordinary history) ↔ state.1.word.head = .raised) ∧
    (∀ taken ∈ ordinary history, ∀ fiber, event taken.1 taken.2 = some (.park fiber) →
      taken.1.word.head ≠ .raised) := by
  obtain ⟨run, _⟩ := run.of_faultless granted
  have sound := reachable_sound run.reachable
  have tally := run_tally run
  refine ⟨?_, tally.parks, ?_, ?_, ?_, ?_, ?_⟩
  · obtain ⟨waiting, listed⟩ := sound.listed
    exact ⟨waiting, listed.chain, listed.distinct,
      fun fiber inside => sound.named (listed.asleep fiber inside), fun fiber => listed.mem_iff⟩
  · intro taken member raiser fiber happens
    exact (reachable_sound (run.reachable_of_mem member)).scheduled happens
  · intro raiser woken ended
    have scored := tally.scored raiser
    rw [ended] at scored
    cases woken with
    | true => exact scored
    | false => exact absurd scored.1 (by simp)
  · intro raiser woken ended
    have scored := tally.scored raiser
    rw [ended] at scored
    cases woken with
    | true => exact scored
    | false => exact scored.2
  · rw [tally.left, decide_eq_true_iff]
  · intro taken member fiber happens
    exact (reachable_sound (run.reachable_of_mem member)).unraised happens

/-- Two fibers wait; a raiser reads the first node's `next`, is overtaken by a
strict raise and starts over; a last raise finds nobody. -/
def overtaken : List (Action (Fin 4) (Fin 4) ⊕ Refusal (Fin 4)) :=
  (List.flatten [.wait 0 :: List.replicate 7 (.move 0), .wait 1 :: List.replicate 7 (.move 1),
    .raise 2 false :: List.replicate 3 (.move 2), .raise 3 true :: List.replicate 8 (.move 3),
    .scribble 1 (.node 3) none :: List.replicate 9 (.move 2),
    .raise 3 false :: List.replicate 3 (.move 3)]).map .inl

def start : State (Fin 4) (Fin 4) where
  word := ⟨0, .null⟩
  next := fun _ => .null
  data := fun _ => none
  node := id
  owner := some
  ready := fun _ => false
  phase := fun _ => .idle

theorem start_initial : (refusing (Fin 4) (Fin 4)).initial (start, fun _ => ⟨false, false⟩) :=
  ⟨⟨rfl, fun _ => rfl, fun _ => rfl⟩, rfl⟩

theorem multi_signal_wakeups_overtaken : ∃ history state,
    (refusing (Fin 4) (Fin 4)).Run history state ∧ (∀ taken ∈ history, taken.2.isLeft) ∧
      state.1.phase 2 = .raised false true ∧ state.1.phase 3 = .raised false false ∧
      outcome 3 (ordinary history) = ⟨0, 1⟩ ∧
      (leftRaised (ordinary history) ↔ state.1.word.head = .raised) := by
  have run := Machine.run_of_isSome start_initial
    (show ((refusing (Fin 4) (Fin 4)).exec _ overtaken).isSome by decide +kernel)
  exact ⟨_, _, run, by decide +kernel, by decide +kernel, by decide +kernel, by decide +kernel,
    (multi_signal_wakeups run (by decide +kernel)).2.2.2.2.2.1⟩

def refused {Fiber Node : Type} (fiber : Fiber) : List (Action Fiber Node ⊕ Refusal Fiber) :=
  .inl (.wait fiber) :: List.replicate 6 (.inl (.move fiber)) ++
    [.inr (.refuse fiber), .inl (.move fiber)]

theorem multi_signal_wakeups_refused : ∃ history state,
    (refusing (Fin 4) (Fin 4)).Run history state ∧
      state.1.word.head = .node (state.1.node 0) ∧ state.1.phase 0 = .waited := by
  have run := Machine.run_of_isSome start_initial
    (show ((refusing (Fin 4) (Fin 4)).exec _ (refused 0)).isSome by decide +kernel)
  exact ⟨_, _, run, by decide +kernel, by decide +kernel⟩

end Refusals

end LibFiber.MultiSignal
