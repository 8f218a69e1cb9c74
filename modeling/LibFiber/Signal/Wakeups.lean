import LibFiber.Signal.Machine

namespace LibFiber.Signal

open Semantics Function

/-! Every park of the waiter is answered by one raise, and a raise between two
waits is not lost. -/

/-- From the compare-and-swap that parks the fiber until it is scheduled. -/
def WaiterPhase.asleep : WaiterPhase → Bool
  | .parking | .parked => true
  | _ => false

/-- From the end of a wait until the next one's compare-and-swap. -/
def WaiterPhase.before : WaiterPhase → Bool
  | .outside | .clearing | .swapping => true
  | _ => false

/-- From the clearing of `scratch` until the fiber is scheduled. -/
def WaiterPhase.watched : WaiterPhase → Bool
  | .swapping | .parking | .parked => true
  | _ => false

/-- The raiser took the waiter out and has not scheduled it yet. -/
def RaiserPhase.claims : RaiserPhase → Bool
  | .resetting | .spinning | .scheduling => true
  | _ => false

/-- What becomes of the waiting fiber, and who owes it a wake-up. -/
inductive Stage {Fiber : Type} (state : State Fiber) : Option Fiber → Prop where
  | awake : state.self.asleep = false → state.waiter ≠ .fiber → Stage state none
  | offered : state.self.asleep → state.waiter = .fiber → Stage state none
  | claimed (fiber : Fiber) : state.self.asleep → state.waiter ≠ .fiber →
      (state.raiser fiber).claims →
      (state.raiser fiber = .scheduling → state.self = .parked) → Stage state (some fiber)

structure Sound {Fiber : Type} (state : State Fiber) : Prop where
  /-- Nobody but the claimant owes a wake-up. -/
  staged : ∃ claimant, Stage state claimant ∧
    ∀ fiber, (state.raiser fiber).claims → claimant = some fiber
  stored : state.self.watched → (state.ready ↔ state.self = .parked)

section Preservation

variable {Fiber : Type} {state after : State Fiber} {fiber : Fiber}

theorem watched_of_asleep {phase : WaiterPhase} (asleep : phase.asleep) :
    phase.watched := by
  cases phase with
  | parking | parked => rfl
  | outside | clearing | swapping | woken | leaving => cases asleep

theorem init_sound (ready : Bool) : Sound (init ready : State Fiber) where
  staged := ⟨none, .awake rfl (by simp [init]), by simp [init, RaiserPhase.claims]⟩
  stored := by simp [init, WaiterPhase.watched]

section

variable (sound : Sound state)
include sound

theorem Sound.stage_of_claims (claims : (state.raiser fiber).claims) :
    Stage state (some fiber) := by
  obtain ⟨claimant, stage, sole⟩ := sound.staged
  exact sole fiber claims ▸ stage

theorem Sound.asleep_of_claims (claims : (state.raiser fiber).claims) :
    state.self.asleep ∧ state.waiter ≠ .fiber := by
  cases sound.stage_of_claims claims with
  | claimed _ asleep absent _ _ => exact ⟨asleep, absent⟩

theorem Sound.sole (claims : (state.raiser fiber).claims)
    (other : Fiber) (also : (state.raiser other).claims) : other = fiber := by
  obtain ⟨claimant, _, sole⟩ := sound.staged
  exact Option.some.inj ((sole other also).symm.trans (sole fiber claims))

theorem Sound.unclaimed (awake : state.self.asleep = false) (fiber : Fiber) :
    (state.raiser fiber).claims = false := by
  cases claims : (state.raiser fiber).claims with
  | false => rfl
  | true =>
    have asleep := (sound.asleep_of_claims claims).1
    simp [awake] at asleep

theorem Sound.absent (awake : state.self.asleep = false) :
    state.waiter ≠ .fiber := by
  obtain ⟨_, stage, _⟩ := sound.staged
  cases stage with
  | awake _ absent => exact absent
  | offered asleep _ | claimed _ asleep _ _ _ => simp [awake] at asleep

theorem Sound.due (phase : state.raiser fiber = .scheduling) :
    state.self = .parked := by
  cases sound.stage_of_claims (by rw [phase]; rfl) with
  | claimed _ _ _ _ due => exact due phase

theorem Sound.ready (parked : state.self = .parked) : state.ready :=
  (sound.stored (by rw [parked]; rfl)).mpr parked

end

theorem WaiterPhase.awake_of_before {phase : WaiterPhase} (before : phase.before) :
    phase.asleep = false := by
  cases phase with
  | outside | clearing | swapping | woken | leaving => rfl
  | parking | parked => cases before

theorem Sound.unclaimed_of_before (sound : Sound state) (before : state.self.before)
    (claims : (state.raiser fiber).claims) : False := by
  simp [sound.unclaimed (WaiterPhase.awake_of_before before) fiber] at claims

theorem Sound.of_awake (sound : Sound state) (awake : state.self.asleep = false)
    (still : after.self.asleep = false) (absent : after.waiter ≠ .fiber)
    (kept : after.raiser = state.raiser)
    (stored : after.self.watched → after.ready = false) : Sound after where
  staged := ⟨none, .awake still absent, fun fiber claims => by
    simp [kept, sound.unclaimed awake fiber] at claims⟩
  stored watched := by
    have running : after.self ≠ .parked := fun parked => by
      simp [parked, WaiterPhase.asleep] at still
    simp [stored watched, running]

theorem park_sound (sound : Sound state) (phase : state.self = .swapping) :
    Sound { state with waiter := .fiber, self := .parking } where
  staged := ⟨none, .offered rfl rfl, fun fiber claims => by
    simp [sound.unclaimed (by rw [phase]; rfl) fiber] at claims⟩
  stored _ := by
    -- The fiber cleared `scratch` before its compare-and-swap.
    have cleared := sound.stored (by rw [phase]; rfl)
    simpa [phase] using cleared

theorem store_sound (sound : Sound state) (phase : state.self = .parking) :
    Sound { state with ready := true, self := .parked } := by
  obtain ⟨claimant, stage, sole⟩ := sound.staged
  refine ⟨⟨claimant, ?_, sole⟩, by simp⟩
  cases stage with
  | awake awake _ => simp [phase, WaiterPhase.asleep] at awake
  | offered _ named => exact .offered rfl named
  | claimed fiber _ absent claims _ => exact .claimed fiber rfl absent claims (fun _ => rfl)

variable [DecidableEq Fiber]

theorem Sound.goto_free (sound : Sound state) (was : (state.raiser fiber).claims = false)
    (now : next.claims = false) (same : word = .fiber ↔ state.waiter = .fiber) :
    Sound { state with waiter := word, raiser := update state.raiser fiber next } := by
  obtain ⟨claimant, stage, sole⟩ := sound.staged
  refine ⟨⟨claimant, ?_, ?_⟩, sound.stored⟩
  · cases stage with
    | awake awake absent => exact .awake awake (mt same.mp absent)
    | offered asleep named => exact .offered asleep (same.mpr named)
    | claimed other asleep absent claims due =>
      have different : other ≠ fiber := fun equal => by simp [← equal, claims] at was
      refine .claimed other asleep (mt same.mp absent) ?_ ?_
      · simpa [update_of_ne different] using claims
      · simpa [update_of_ne different] using due
  · intro other claims
    by_cases equal : other = fiber
    · subst other
      simp [now] at claims
    · exact sole other (by simpa [update_of_ne equal] using claims)

theorem Sound.goto_claimant (sound : Sound state) (asleep : state.self.asleep)
    (absent : word ≠ .fiber) (others : ∀ other, (state.raiser other).claims → other = fiber)
    (now : next.claims) (due : next = .scheduling → state.self = .parked) :
    Sound { state with waiter := word, raiser := update state.raiser fiber next } := by
  refine ⟨⟨some fiber, .claimed fiber asleep absent (by simp [now]) (by simpa using due), ?_⟩,
    sound.stored⟩
  intro other claims
  by_cases equal : other = fiber
  · rw [equal]
  · exact congrArg some (others other (by simpa [update_of_ne equal] using claims)).symm

theorem schedule_sound (sound : Sound state) (phase : state.raiser fiber = .scheduling) :
    Sound { state with
      self := state.self.schedule
      raiser := update state.raiser fiber (.returned true) } := by
  have claims : (state.raiser fiber).claims := by rw [phase]; rfl
  have parked := sound.due phase
  refine ⟨⟨none, .awake ?_ (sound.asleep_of_claims claims).2, ?_⟩, ?_⟩
  · simp [parked, WaiterPhase.schedule, WaiterPhase.asleep]
  · intro other also
    by_cases equal : other = fiber
    · simp [equal, RaiserPhase.claims] at also
    · exact absurd (sound.sole claims other (by simpa [update_of_ne equal] using also)) equal
  · simp [parked, WaiterPhase.schedule, WaiterPhase.watched]

theorem claim_sound (sound : Sound state) (named : state.waiter = .fiber) :
    Sound { state with waiter := .raised, raiser := update state.raiser fiber .resetting } := by
  obtain ⟨claimant, stage, nobody⟩ := sound.staged
  cases stage with
  | awake _ absent | claimed _ _ absent _ _ => exact absurd named absent
  | offered asleep _ =>
    exact sound.goto_claimant asleep (by simp) (fun other claims => by cases nobody other claims)
      rfl (by simp)

theorem proceed_sound (sound : Sound state) (phase : state.raiser fiber = .spinning)
    (ready : state.ready) : Sound (state.goto fiber .scheduling) := by
  have claims : (state.raiser fiber).claims := by rw [phase]; rfl
  obtain ⟨asleep, absent⟩ := sound.asleep_of_claims claims
  exact sound.goto_claimant asleep absent (sound.sole claims) rfl
    (fun _ => (sound.stored (watched_of_asleep asleep)).mp ready)

theorem Move.sound (move : Move state action after)
    (sound : Sound state) : Sound after := by
  have awake {phase : WaiterPhase} (at' : state.self = phase) (running : phase.asleep = false) :
      state.self.asleep = false := at' ▸ running
  cases move with
  | wait phase | refuse phase _ =>
    exact sound.of_awake (awake phase rfl) rfl (sound.absent (awake phase rfl)) rfl
      (by simp [WaiterPhase.watched])
  | clear phase | resume phase =>
    exact sound.of_awake (awake phase rfl) rfl (sound.absent (awake phase rfl)) rfl
      (fun _ => rfl)
  | park phase _ => exact park_sound sound phase
  | store phase => exact store_sound sound phase
  | leave phase =>
    exact sound.of_awake (awake phase rfl) rfl (by simp) rfl (by simp [WaiterPhase.watched])
  | raise free =>
    refine sound.goto_free ?_ rfl Iff.rfl
    rcases free with phase | ⟨woken, phase⟩ <;> rw [phase] <;> rfl
  | claim _ named => exact claim_sound sound named
  | mark phase absent => exact sound.goto_free (by rw [phase]; rfl) rfl (by simp [absent])
  | @reset fiber phase =>
    have claims : (state.raiser fiber).claims := by rw [phase]; rfl
    exact sound.goto_claimant (sound.asleep_of_claims claims).1 (by simp) (sound.sole claims)
      rfl (by simp)
  | spin => exact sound
  | proceed phase ready => exact proceed_sound sound phase ready
  | schedule phase => exact schedule_sound sound phase

theorem reachable_sound (reachable : (machine Fiber).Reachable state) : Sound state := by
  refine reachable.invariant Sound ?_ ?_
  · rintro _ ⟨ready, rfl⟩
    exact init_sound ready
  · intro before action after sound stepped
    exact (step_moves stepped).sound sound

end Preservation

section Counts

variable {Fiber : Type}

/-- The waiting fiber's compare-and-swap succeeds. -/
def parks (state : State Fiber) : Action Fiber → Bool
  | .moveWaiter => state.self = .swapping && state.waiter = .noWaiter
  | _ => false

/-- The raise that takes the waiter out in this step. -/
def claims (state : State Fiber) : Action Fiber → Option Fiber
  | .moveRaiser fiber =>
    if state.raiser fiber = .exchanging ∧ state.waiter = .fiber then some fiber else none
  | _ => none

/-- The raise that schedules the waiter in this step. -/
def schedules (state : State Fiber) : Action Fiber → Option Fiber
  | .moveRaiser fiber => if state.raiser fiber = .scheduling then some fiber else none
  | _ => none

def parkCount (history : History Fiber) : Nat :=
  history.countP fun taken => parks taken.1 taken.2

def claimCount (history : History Fiber) : Nat :=
  history.countP fun taken => (claims taken.1 taken.2).isSome

def scheduleCount (history : History Fiber) : Nat :=
  history.countP fun taken => (schedules taken.1 taken.2).isSome

/-- Whether a raise has exchanged `waiter` since the last wait returned, up to
the compare-and-swap of the next one. -/
def alert (alerted : Bool) (taken : State Fiber × Action Fiber) : Bool :=
  match taken.2 with
  | .moveRaiser fiber =>
    alerted || taken.1.self.before && taken.1.raiser fiber = .exchanging
  | .moveWaiter => alerted && taken.1.self ≠ .swapping
  | .wait | .raise _ => alerted

def alerted (history : History Fiber) : Bool := history.foldl alert false

/-- The waiter has parked and no raise has taken it out. -/
def State.unclaimed (state : State Fiber) : Bool := state.waiter = .fiber

/-- The waiter sleeps and a raise has taken it out. -/
def State.claimed (state : State Fiber) : Bool := state.self.asleep && state.waiter ≠ .fiber

variable [DecidableEq Fiber]

def claimsBy (fiber : Fiber) (history : History Fiber) : Nat :=
  history.countP fun taken => claims taken.1 taken.2 = some fiber

def schedulesBy (fiber : Fiber) (history : History Fiber) : Nat :=
  history.countP fun taken => schedules taken.1 taken.2 = some fiber

/-- What has happened so far, against who is where now. -/
structure Tally (history : History Fiber) (state : State Fiber) : Prop where
  parked : parkCount history = claimCount history + state.unclaimed.toNat
  claimed : claimCount history = scheduleCount history + state.claimed.toNat
  each : ∀ fiber, claimsBy fiber history =
    schedulesBy fiber history + (state.raiser fiber).claims.toNat
  alert : alerted history → state.self.before ∧ state.waiter = .raised

variable {state after : State Fiber} {history : History Fiber}

@[simp] theorem goto_unclaimed (fiber : Fiber) (next : RaiserPhase) :
    (state.goto fiber next).unclaimed = state.unclaimed := rfl

@[simp] theorem goto_claimed (fiber : Fiber) (next : RaiserPhase) :
    (state.goto fiber next).claimed = state.claimed := rfl

theorem Move.unclaimed (move : Move state action after) (sound : Sound state) :
    after.unclaimed.toNat + (claims state action).isSome.toNat =
      state.unclaimed.toNat + (parks state action).toNat := by
  cases move with
  | wait phase | clear phase | store phase | resume phase | spin phase | schedule phase =>
    simp [State.unclaimed, claims, parks, phase]
  | park phase free => simp [State.unclaimed, claims, parks, phase, free]
  | refuse phase taken => simp [State.unclaimed, claims, parks, phase, taken]
  | leave phase =>
    have absent := sound.absent (by rw [phase]; rfl)
    simp [State.unclaimed, claims, parks, phase, absent]
  | raise => rfl
  | claim phase named | mark phase named => simp [State.unclaimed, claims, parks, phase, named]
  | @reset fiber phase =>
    have absent := (sound.asleep_of_claims (by rw [phase]; rfl)).2
    simp [State.unclaimed, claims, parks, phase, absent]
  | proceed phase => simp [claims, parks, phase]

theorem Move.claimed (move : Move state action after) (sound : Sound state) :
    after.claimed.toNat + (schedules state action).isSome.toNat =
      state.claimed.toNat + (claims state action).isSome.toNat := by
  cases move with
  | wait phase | clear phase | resume phase | leave phase | refuse phase _ | park phase _
  | store phase =>
    simp [State.claimed, schedules, claims, phase, WaiterPhase.asleep]
  | raise => rfl
  | @claim fiber phase named =>
    have asleep : state.self.asleep := by
      cases asleep : state.self.asleep with
      | true => rfl
      | false => exact absurd named (sound.absent asleep)
    simp [State.claimed, schedules, claims, phase, named, asleep]
  | mark phase absent => simp [State.claimed, schedules, claims, phase, absent]
  | @reset fiber phase =>
    have absent := (sound.asleep_of_claims (by rw [phase]; rfl)).2
    simp [State.claimed, schedules, claims, phase, absent]
  | spin phase | proceed phase => simp [schedules, claims, phase]
  | @schedule fiber phase =>
    obtain ⟨asleep, absent⟩ := sound.asleep_of_claims (by rw [phase]; rfl)
    simp [State.claimed, schedules, claims, phase, sound.due phase, absent,
      WaiterPhase.schedule, WaiterPhase.asleep]

theorem Move.each (move : Move state action after) (fiber : Fiber) :
    (after.raiser fiber).claims.toNat + (decide (schedules state action = some fiber)).toNat =
      (state.raiser fiber).claims.toNat + (decide (claims state action = some fiber)).toNat := by
  cases move with
  | wait | clear | park | refuse | store | resume | leave => simp [schedules, claims]
  | @raise other free =>
    by_cases same : fiber = other
    · subst same
      rcases free with phase | ⟨woken, phase⟩ <;>
        simp [State.goto, schedules, claims, phase, RaiserPhase.claims]
    · simp [State.goto, schedules, claims, update_of_ne same]
  | @claim other phase named | @mark other phase named =>
    by_cases same : fiber = other
    · subst same
      simp [schedules, claims, phase, named, RaiserPhase.claims]
    · simp [schedules, claims, phase, named, update_of_ne same, Ne.symm same]
  | spin phase => simp [schedules, claims, phase]
  | @reset other phase | @schedule other phase =>
    by_cases same : fiber = other
    · subst same
      simp [schedules, claims, phase, RaiserPhase.claims]
    · simp [schedules, claims, phase, update_of_ne same, Ne.symm same]
  | @proceed other phase =>
    by_cases same : fiber = other
    · subst same
      simp [State.goto, schedules, claims, phase, RaiserPhase.claims]
    · simp [State.goto, schedules, claims, phase, update_of_ne same]

theorem Move.alert (move : Move state action after) (sound : Sound state) {flag : Bool}
    (meaning : flag → state.self.before ∧ state.waiter = .raised)
    (alerted : Signal.alert flag (state, action)) :
    after.self.before ∧ after.waiter = .raised := by
  cases move with
  | wait phase =>
    exact ⟨rfl, (meaning alerted).2⟩
  | clear phase =>
    obtain ⟨_, raised⟩ := meaning (by simpa [Signal.alert, phase] using alerted)
    exact ⟨rfl, raised⟩
  | park phase _ | refuse phase _ => simp [Signal.alert, phase] at alerted
  | store phase | resume phase | leave phase =>
    obtain ⟨before, _⟩ := meaning (by simpa [Signal.alert, phase] using alerted)
    simp [phase, WaiterPhase.before] at before
  | raise => exact meaning alerted
  | claim phase named =>
    simp only [Signal.alert, phase, decide_true, Bool.and_true, Bool.or_eq_true] at alerted
    rcases alerted with earlier | before
    · exact absurd ((meaning earlier).2.symm.trans named) (by simp)
    · exact ⟨before, rfl⟩
  | mark phase _ =>
    simp only [Signal.alert, phase, decide_true, Bool.and_true, Bool.or_eq_true] at alerted
    rcases alerted with earlier | before
    · exact ⟨(meaning earlier).1, rfl⟩
    · exact ⟨before, rfl⟩
  | reset phase | proceed phase | schedule phase =>
    obtain ⟨before, _⟩ := meaning (by simpa [Signal.alert, phase] using alerted)
    exact (sound.unclaimed_of_before before (by rw [phase]; rfl)).elim
  | spin phase => exact meaning (by simpa [Signal.alert, phase] using alerted)

theorem run_tally (run : (machine Fiber).Run history state) : Tally history state := by
  induction run with
  | start initial =>
    obtain ⟨ready, rfl⟩ := initial
    exact ⟨rfl, rfl, fun _ => rfl, by simp [alerted]⟩
  | @step history before after action run stepped tally =>
    have sound := reachable_sound run.reachable
    have move := step_moves stepped
    have unclaimed := move.unclaimed sound
    have claimed := move.claimed sound
    refine ⟨?_, ?_, ?_, ?_⟩
    · have parked := tally.parked
      simp only [parkCount, claimCount, countP_snoc] at parked ⊢
      omega
    · have answered := tally.claimed
      simp only [claimCount, scheduleCount, countP_snoc] at answered ⊢
      omega
    · intro fiber
      have each := move.each fiber
      have owed := tally.each fiber
      simp only [claimsBy, schedulesBy, countP_snoc] at owed ⊢
      omega
    · intro flag
      refine move.alert sound tally.alert ?_
      simpa [alerted] using flag

omit [DecidableEq Fiber] in
theorem Sound.scheduled (sound : Sound state) {fiber : Fiber}
    (schedules : schedules state action = some fiber) :
    state.self = .parked ∧ state.ready := by
  cases action with
  | wait | moveWaiter | raise => cases schedules
  | moveRaiser other =>
    simp only [Signal.schedules] at schedules
    split at schedules
    · rename_i phase
      exact ⟨sound.due phase, sound.ready (sound.due phase)⟩
    · cases schedules

theorem Move.answered (move : Move state action after) (sound : Sound state) {fiber : Fiber}
    (acts : action = .moveRaiser fiber) (phase : state.raiser fiber = .exchanging)
    (asleep : state.self.asleep) :
    ∃ claimant, (after.raiser claimant).claims := by
  cases move with
  | wait | clear | park | refuse | store | resume | leave | raise => cases acts
  | @claim other _ _ => exact ⟨other, by simp [RaiserPhase.claims]⟩
  | @mark other _ absent =>
    obtain rfl : other = fiber := by simpa using acts
    obtain ⟨claimant, stage, _⟩ := sound.staged
    cases stage with
    | awake awake _ => simp [asleep] at awake
    | offered _ named => exact absurd named absent
    | claimed claimant _ _ claims _ =>
      have different : claimant ≠ other := fun same => by
        simp [same, phase, RaiserPhase.claims] at claims
      exact ⟨claimant, by simpa [update_of_ne different] using claims⟩
  | reset phase' | spin phase' | proceed phase' | schedule phase' =>
    cases acts
    simp [phase] at phase'

end Counts

section Refusals

variable {Fiber : Type} [DecidableEq Fiber]

/-- While no yield is refused: parks, claims and schedulings correspond one to one,
in this order; a raise whose exchange finds the waiter asleep leaves it claimed; and
one between two waits keeps the second from parking. -/
theorem signal_wakeups (run : (refusing Fiber).Run history state)
    (granted : ∀ taken ∈ history, taken.2.isLeft) :
    parkCount (ordinary history) = claimCount (ordinary history) + state.1.unclaimed.toNat ∧
      claimCount (ordinary history) = scheduleCount (ordinary history) + state.1.claimed.toNat ∧
      (∀ fiber, claimsBy fiber (ordinary history) =
        schedulesBy fiber (ordinary history) + (state.1.raiser fiber).claims.toNat) ∧
      (∀ taken ∈ ordinary history, ∀ fiber, schedules taken.1 taken.2 = some fiber →
        taken.1.self = .parked ∧ taken.1.ready) ∧
      (state.1.self = .parked → state.1.ready) ∧
      (∀ fiber after, state.1.raiser fiber = .exchanging → state.1.self.asleep →
        step state.1 (.moveRaiser fiber) = some after →
        ∃ claimant, (after.raiser claimant).claims) ∧
      (alerted (ordinary history) → state.1.self = .swapping →
        step state.1 .moveWaiter = some { state.1 with self := .leaving }) := by
  obtain ⟨run, _⟩ := run.of_faultless granted
  have sound := reachable_sound run.reachable
  have tally := run_tally run
  refine ⟨tally.parked, tally.claimed, tally.each, ?_, sound.ready, ?_, ?_⟩
  · intro taken member fiber schedules
    exact (reachable_sound (run.reachable_of_mem member)).scheduled schedules
  · intro fiber after phase asleep stepped
    exact (step_moves stepped).answered sound rfl phase asleep
  · intro flag phase
    have raised := (tally.alert flag).2
    simp [step, moveWaiter, phase, raised]

/-- A raise before the first wait, and one that finds the second wait parked but
not switched out yet. -/
def raisedTwice : List (Action Unit ⊕ Refusal Unit) :=
  [.raise (), .moveRaiser (), .wait, .moveWaiter, .moveWaiter, .moveWaiter, .wait, .moveWaiter,
    .moveWaiter, .raise (), .moveRaiser (), .moveRaiser (), .moveRaiser (), .moveWaiter,
    .moveRaiser (), .moveRaiser (), .moveWaiter, .moveWaiter].map .inl

theorem signal_wakeups_raised : ∃ history state, (refusing Unit).Run history state ∧
    (∀ taken ∈ history, taken.2.isLeft) ∧ parkCount (ordinary history) = 1 ∧
      scheduleCount (ordinary history) = 1 ∧ state.1.self = .outside ∧
      parkCount (ordinary history) = claimCount (ordinary history) + state.1.unclaimed.toNat := by
  have run := Machine.run_of_isSome
    (show (refusing Unit).initial (init true, fun _ => ⟨false, false⟩) from ⟨⟨true, rfl⟩, rfl⟩)
    (show ((refusing Unit).exec _ raisedTwice).isSome by decide)
  exact ⟨_, _, run, by decide, by decide, by decide, by decide, (signal_wakeups run (by decide)).1⟩

/-- The yield of the wait is refused, a raise takes the waiter out, and the wait
returns.  The store that the next switch makes lets the raise go on. -/
def refused : List (Action Unit ⊕ Refusal Unit) :=
  [.inl .wait, .inl .moveWaiter, .inl .moveWaiter, .inr (.refuse ()), .inl (.raise ()),
    .inl (.moveRaiser ()), .inl (.moveRaiser ()), .inl .moveWaiter, .inl .moveWaiter,
    .inr (.maintain ()), .inl (.moveRaiser ()), .inl (.moveRaiser ())]

theorem signal_wakeups_refused : ∃ history state, (refusing Unit).Run history state ∧
    ∃ taken ∈ ordinary history, schedules taken.1 taken.2 = some () ∧ taken.1.self = .outside := by
  have run := Machine.run_of_isSome
    (show (refusing Unit).initial (init true, fun _ => ⟨false, false⟩) from ⟨⟨true, rfl⟩, rfl⟩)
    (show ((refusing Unit).exec _ refused).isSome by decide)
  exact ⟨_, _, run, by decide⟩

end Refusals

/-! What a fiber that is about to sleep, or sleeps unclaimed, still hears. -/

section Hearing

variable {Fiber : Type} {state after : State Fiber}

/-- The next raise will keep the fiber awake or wake it. -/
def State.listening (state : State Fiber) : Prop :=
  state.self.before ∨ state.waiter = .fiber

/-- A raise has been recorded or is about to be. -/
def State.heard (state : State Fiber) : Prop :=
  state.waiter = .raised ∨ ∃ fiber, state.raiser fiber = .exchanging

def RaiserPhase.idles : RaiserPhase → Bool
  | .idle | .returned _ => true
  | _ => false

variable [DecidableEq Fiber]
variable {fiber : Fiber}

theorem RaiserPhase.idles_cases {phase : RaiserPhase} (idles : phase.idles) :
    phase = .idle ∨ ∃ woken, phase = .returned woken := by
  cases phase with
  | idle => exact .inl rfl
  | returned woken => exact .inr ⟨woken, rfl⟩
  | exchanging | resetting | spinning | scheduling => cases idles

theorem Sound.call (sound : Sound state)
    (idles : (state.raiser fiber).idles) : Sound (state.goto fiber .exchanging) :=
  (Move.raise (RaiserPhase.idles_cases idles)).sound sound

theorem Move.raiser_of_ne (move : Move state (.moveRaiser fiber) after)
    (different : other ≠ fiber) : after.raiser other = state.raiser other := by
  cases move with
  | claim | mark | reset | proceed | schedule => exact update_of_ne different _ _
  | spin => rfl

theorem Move.outside (move : Move state (.moveRaiser fiber) after)
    (outside : state.self = .outside) : after.self = .outside := by
  cases move with
  | claim | mark | reset | spin | proceed => exact outside
  | schedule => simp [outside, WaiterPhase.schedule]

theorem Move.listening_of_raiser (move : Move state (.moveRaiser fiber) after)
    (sound : Sound state) (listening : after.listening) :
    state.listening ∧ (state.heard → after.heard) := by
  cases move with
  | claim _ named => exact ⟨.inr named, fun _ => .inl rfl⟩
  | mark _ _ =>
    rcases listening with before | named
    · exact ⟨.inl before, fun _ => .inl rfl⟩
    · cases named
  | reset phase =>
    rcases listening with before | named
    · exact (sound.unclaimed_of_before before (by rw [phase]; rfl)).elim
    · cases named
  | spin => exact ⟨listening, id⟩
  | @proceed fiber phase _ =>
    refine ⟨listening, ?_⟩
    rintro (raised | ⟨other, calls⟩)
    · exact .inl raised
    · have different : other ≠ fiber := fun same => by simp [same, phase] at calls
      exact .inr ⟨other, by simpa [State.goto, update_of_ne different] using calls⟩
  | schedule phase =>
    rcases listening with before | named
    · simp [sound.due phase, WaiterPhase.schedule, WaiterPhase.before] at before
    · exact absurd named (sound.asleep_of_claims (by rw [phase]; rfl)).2

theorem Move.listening_of_waiter (move : Move state .moveWaiter after) (sound : Sound state)
    (inside : after.self ≠ .outside) (listening : after.listening) :
    state.listening ∧ (state.heard → after.heard) := by
  cases move with
  | clear phase => exact ⟨.inl (by rw [phase]; rfl), id⟩
  | park phase free =>
    refine ⟨.inl (by rw [phase]; rfl), ?_⟩
    -- The swap finds no raise, so the one that is heard is still to exchange.
    rintro (raised | calls)
    · simp [free] at raised
    · exact .inr calls
  | refuse phase _ | resume phase =>
    rcases listening with before | named
    · cases before
    · exact absurd named (sound.absent (by rw [phase]; rfl))
  | store =>
    rcases listening with before | named
    · cases before
    · exact ⟨.inr named, id⟩
  | leave => exact absurd rfl inside

end Hearing

end LibFiber.Signal
