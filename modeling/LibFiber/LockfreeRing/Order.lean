import LibFiber.LockfreeRing.Machine
import LibFiber.Data.SlotCycle
import LibFiber.Data.Handover

namespace LibFiber.LockfreeRing

open Semantics Data PowerOf2 Function

/-! Every slot of the ring buffer goes through its rounds, and the values come out in
the order of the claims on `high`. -/

section Invariant

variable {Thread Value : Type} {ring : Ring Value} {values : List Value}
variable {state : State Thread Value} {thread : Thread}
variable {phase : Phase Value}

def Phase.writes : Phase Value → Option Nat
  | .writing _ position => some position
  | _ => none

def Phase.clears : Phase Value → Option Nat
  | .clearing position _ => some position
  | _ => none

/-- What a thread's local variables say about the slots. -/
def Phase.Fits (slots : Nat) (ring : Ring Value) (values : List Value) (turn : Nat → Nat) :
    Phase Value → Prop
  | .loadingHigh _ low | .probing _ low _ => low ≤ ring.low
  | .swappingHigh _ high => 4 * (high / slots) ≤ turn (high % slots)
  | .writing value position =>
    turn (position % slots) = 4 * (position / slots) + 1 ∧ values[position]? = some value
  | .readingLow high | .readingSlot high _ => high ≤ ring.high
  | .swappingLow low value =>
    4 * (low / slots) + 2 ≤ turn (low % slots) ∧
      (turn (low % slots) ≤ 4 * (low / slots) + 2 → values[low]? = some value)
  | .clearing position _ => turn (position % slots) = 4 * (position / slots) + 3
  | _ => True

structure Sound (slots : Nat) (state : State Thread Value) (values : List Value)
    (turn : Nat → Nat) : Prop where
  cycle : SlotCycle slots .takeFirst state.ring.high state.ring.low state.ring.buffer values turn
  fits : ∀ thread, (state.phase thread).Fits slots state.ring values turn
  writer : ∀ thread other position, (state.phase thread).writes = some position →
    (state.phase other).writes = some position → thread = other
  clearer : ∀ thread other position, (state.phase thread).clears = some position →
    (state.phase other).clears = some position → thread = other

theorem Phase.Fits.writes (fits : phase.Fits slots ring values turn)
    (own : phase.writes = some position) :
    turn (position % slots) = 4 * (position / slots) + 1 := by
  cases phase with
  | writing =>
    cases own
    exact fits.1
  | _ => cases own

theorem Phase.Fits.clears (fits : phase.Fits slots ring values turn)
    (own : phase.clears = some position) :
    turn (position % slots) = 4 * (position / slots) + 3 := by
  cases phase with
  | clearing =>
    cases own
    exact fits
  | _ => cases own

theorem Phase.Fits.spared {after : Ring Value} (fits : phase.Fits slots ring values turn)
    (due : turn (position % slots) = 4 * (position / slots) + stage) (staged : stage < 4)
    (low : ring.low ≤ after.low) (high : ring.high ≤ after.high)
    (grown : ∀ (index : Nat) value, values[index]? = some value → later[index]? = some value)
    (writer : stage = 1 → phase.writes ≠ some position)
    (clearer : stage = 3 → phase.clears ≠ some position) :
    phase.Fits slots after later (tick turn (position % slots)) := by
  cases phase with
  | loadingHigh | probing => exact Nat.le_trans fits low
  | swappingHigh => exact Nat.le_trans fits (turn_le_tick _ _ _)
  | writing value own =>
    refine ⟨?_, grown own value fits.2⟩
    rw [tick_of_apart due fits.1 staged (by decide)]
    · exact fits.1
    · rintro rfl rfl
      exact writer rfl rfl
  | readingLow | readingSlot => exact Nat.le_trans fits high
  | swappingLow own value =>
    have grows := turn_le_tick turn (position % slots) (own % slots)
    exact ⟨Nat.le_trans fits.1 grows, fun fresh =>
      grown own value (fits.2 (Nat.le_trans grows fresh))⟩
  | clearing own value =>
    show tick turn (position % slots) (own % slots) = _
    rw [tick_of_apart due fits staged (by decide)]
    · exact fits
    · rintro rfl rfl
      exact clearer rfl rfl
  | idle | loadingLow | pushed | readingHigh | popped => trivial

variable {powerOf2Size : Nat}

theorem Reads.fits (reads : Reads powerOf2Size ⟨high, low, buffer⟩ phase next)
    (cycle : SlotCycle (size powerOf2Size) .takeFirst high low buffer values turn)
    (fits : phase.Fits (size powerOf2Size) ⟨high, low, buffer⟩ values turn) :
    next.Fits (size powerOf2Size) ⟨high, low, buffer⟩ values turn := by
  cases reads with
  | loadLow | readHigh => exact Nat.le_refl _
  | loadHigh | readLow => exact fits
  | vacant nothing room =>
    rw [index_eq] at nothing
    exact cycle.vacant fits (by omega) nothing
  | found there below =>
    rw [index_eq] at there
    exact cycle.found (Nat.lt_of_lt_of_le below fits) there
  | refuse | missHigh | nothing | missLow => trivial

theorem Reads.sole (reads : Reads powerOf2Size ring phase next) :
    next.writes = none ∧ next.clears = none := by
  cases reads <;> exact ⟨rfl, rfl⟩

variable [DecidableEq Thread]

section

variable (sound : Sound slots state values turn)
include sound

theorem Sound.goto (fits : next.Fits slots state.ring values turn) (unwritten : next.writes = none)
    (uncleared : next.clears = none) : Sound slots (state.goto thread next) values turn where
  cycle := sound.cycle
  fits other := by
    by_cases same : other = thread
    · subst other
      simpa [State.goto] using fits
    · simpa [State.goto, update_of_ne same] using sound.fits other
  writer := sole_update sound.writer fun _ writes => by simp [unwritten] at writes
  clearer := sole_update sound.clearer fun _ clears => by simp [uncleared] at clears

theorem Sound.moved
    (due : turn (position % slots) = 4 * (position / slots) + stage) (staged : stage < 4)
    (cycle : SlotCycle slots .takeFirst ring.high ring.low ring.buffer later
      (tick turn (position % slots)))
    (low : state.ring.low ≤ ring.low) (high : state.ring.high ≤ ring.high)
    (grown : ∀ (index : Nat) value, values[index]? = some value → later[index]? = some value)
    (mine : next.Fits slots ring later (tick turn (position % slots)))
    (writer : stage = 1 → (state.phase thread).writes = some position)
    (clearer : stage = 3 → (state.phase thread).clears = some position)
    (writes : ∀ other, next.writes = some other → other = position ∧ stage ≠ 1)
    (clears : ∀ other, next.clears = some other → other = position ∧ stage ≠ 3) :
    Sound slots ⟨ring, update state.phase thread next⟩ later (tick turn (position % slots)) where
  cycle := cycle
  fits other := by
    show Phase.Fits slots ring later _ (update state.phase thread next other)
    by_cases same : other = thread
    · rw [same, update_self]
      exact mine
    · rw [update_of_ne same]
      refine (sound.fits other).spared due staged low high grown ?_ ?_
      · exact fun stages owns => same (sound.writer other thread position owns (writer stages))
      · exact fun stages owns => same (sound.clearer other thread position owns (clearer stages))
  writer := by
    refine sole_update sound.writer fun own now other _ owns => ?_
    obtain ⟨rfl, unstaged⟩ := writes own now
    have staged := (sound.fits other).writes owns
    omega
  clearer := by
    refine sole_update sound.clearer fun own now other _ owns => ?_
    obtain ⟨rfl, unstaged⟩ := clears own now
    have staged := (sound.fits other).clears owns
    omega

omit [DecidableEq Thread] in
theorem Sound.due_of_claim (phase : state.phase thread = .swappingHigh value state.ring.high) :
    turn (state.ring.high % slots) = 4 * (state.ring.high / slots) := by
  have fits := sound.fits thread
  rw [phase] at fits
  exact Nat.le_antisymm sound.cycle.turn_high_le fits

omit [DecidableEq Thread] in
theorem Sound.due_of_take (phase : state.phase thread = .swappingLow state.ring.low value) :
    turn (state.ring.low % slots) = 4 * (state.ring.low / slots) + 2 ∧
      values[state.ring.low]? = some value := by
  have fits := sound.fits thread
  rw [phase] at fits
  have due := Nat.le_antisymm sound.cycle.turn_low_le fits.1
  exact ⟨due, fits.2 (Nat.le_of_eq due)⟩

theorem claim_sound (phase : state.phase thread = .swappingHigh value state.ring.high) :
    Sound slots
      { ring := { state.ring with high := state.ring.high + 1 }
        phase := update state.phase thread (.writing value state.ring.high) }
      (values ++ [value]) (tick turn (state.ring.high % slots)) := by
  have due : turn (state.ring.high % slots) = 4 * (state.ring.high / slots) + 0 :=
    sound.due_of_claim phase
  refine sound.moved due (by decide) (sound.cycle.claim due) (Nat.le_refl _) (Nat.le_succ _) ?_ ?_
    nofun nofun ?_ nofun
  · intro index found there
    rw [List.getElem?_append_left (List.getElem?_eq_some_iff.mp there).1]
    exact there
  · refine ⟨?_, ?_⟩
    · rw [tick_self]
      omega
    · rw [← sound.cycle.count, List.getElem?_append_right (Nat.le_refl _), Nat.sub_self]
      rfl
  · intro other own
    cases own
    exact ⟨rfl, by decide⟩

theorem write_sound (phase : state.phase thread = .writing value position) :
    Sound slots
      { ring := { state.ring with
          buffer := update state.ring.buffer (position % slots) (some value) }
        phase := update state.phase thread (.pushed true) }
      values (tick turn (position % slots)) := by
  have fits := sound.fits thread
  rw [phase] at fits
  refine sound.moved fits.1 (by decide) (sound.cycle.write fits.1 fits.2) (Nat.le_refl _)
    (Nat.le_refl _) (fun _ _ there => there) trivial (fun _ => ?_) nofun nofun nofun
  rw [phase]
  rfl

theorem take_sound (phase : state.phase thread = .swappingLow state.ring.low value) :
    Sound slots
      { ring := { state.ring with low := state.ring.low + 1 }
        phase := update state.phase thread (.clearing state.ring.low value) }
      values (tick turn (state.ring.low % slots)) := by
  obtain ⟨due, _⟩ := sound.due_of_take phase
  refine sound.moved due (by decide) (sound.cycle.take due) (Nat.le_succ _) (Nat.le_refl _)
    (fun _ _ there => there) ?_ nofun nofun nofun ?_
  · show tick turn _ _ = _
    rw [tick_self, due]
  · intro other own
    cases own
    exact ⟨rfl, by decide⟩

theorem clear_sound (phase : state.phase thread = .clearing position value) :
    Sound slots
      { ring := { state.ring with buffer := update state.ring.buffer (position % slots) none }
        phase := update state.phase thread (.popped (some value)) }
      values (tick turn (position % slots)) := by
  have fits := sound.fits thread
  rw [phase] at fits
  refine sound.moved fits (by decide) (sound.cycle.clear fits) (Nat.le_refl _) (Nat.le_refl _)
    (fun _ _ there => there) trivial nofun (fun _ => ?_) nofun nofun
  rw [phase]
  rfl

end

end Invariant

/-- The steps of a slot's round. -/
inductive Stage where
  | claimed
  | written
  | taken
  | cleared
deriving DecidableEq, Repr

/-- The stages in their order, round after round. -/
def stage (turn : Nat) : Stage :=
  match turn % 4 with
  | 0 => .claimed
  | 1 => .written
  | 2 => .taken
  | _ => .cleared

section History

variable {Thread Value : Type}

/-- What the step does to the slot of a position. -/
def event (taken : State Thread Value × Action Thread Value) : Option (Stage × Nat) :=
  match taken.2 with
  | .move thread spurious =>
    match taken.1.phase thread with
    | .swappingHigh _ high => if taken.1.swaps thread spurious then some (.claimed, high) else none
    | .writing _ position => some (.written, position)
    | .swappingLow low _ => if taken.1.swaps thread spurious then some (.taken, low) else none
    | .clearing position _ => some (.cleared, position)
    | _ => none
  | _ => none

/-- The value that the step claims a position for. -/
def pushes (taken : State Thread Value × Action Thread Value) : Option Value :=
  match taken.2 with
  | .move thread spurious =>
    match taken.1.phase thread with
    | .swappingHigh value _ => if taken.1.swaps thread spurious then some value else none
    | _ => none
  | _ => none

/-- The value that the step takes off the front. -/
def pops (taken : State Thread Value × Action Thread Value) : Option (Thread × Value) :=
  match taken.2 with
  | .move thread spurious =>
    match taken.1.phase thread with
    | .swappingLow _ value => if taken.1.swaps thread spurious then some (thread, value) else none
    | _ => none
  | _ => none

def Phase.result : Phase Value → Option Value
  | .popped value => value
  | _ => none

def lifecycle (slots slot : Nat) (history : History Thread Value) : List (Stage × Nat) :=
  (history.filterMap event).filter fun event => event.2 % slots = slot

/-- The first steps of a slot, round after round and position after position. -/
def rounds (slots slot count : Nat) : List (Stage × Nat) :=
  (List.range count).map fun turn => (stage turn, slot + slots * (turn / 4))

def pushed (history : History Thread Value) : List Value := history.filterMap pushes

def popped (history : History Thread Value) : List (Thread × Value) := history.filterMap pops

/-- The value of a pop between its compare-and-swap and its return. -/
def Phase.inHand : Phase Value → List Value
  | .clearing _ value => [value]
  | _ => []

theorem lifecycle_snoc (taken : State Thread Value × Action Thread Value) :
    lifecycle slots slot (history ++ [taken]) = lifecycle slots slot history ++
      (event taken).toList.filter fun event => event.2 % slots = slot := by
  rw [lifecycle, filterMap_snoc, List.filter_append, lifecycle]

theorem rounds_succ (slots slot count : Nat) : rounds slots slot (count + 1) =
    rounds slots slot count ++ [(stage count, slot + slots * (count / 4))] := by
  simp [rounds, List.range_succ]

theorem stage_add (round turn : Nat) : stage (4 * round + turn) = stage turn := by
  rw [stage, stage, Nat.mul_add_mod]

theorem rounds_tick {slots position own slot : Nat} {turn : Nat → Nat}
    (due : turn (position % slots) = 4 * (position / slots) + own) (staged : own < 4) :
    rounds slots slot (tick turn (position % slots) slot) = rounds slots slot (turn slot) ++
        [(stage own, position)].filter fun event => event.2 % slots = slot := by
  by_cases same : position % slots = slot
  · subst slot
    have round : (4 * (position / slots) + own) / 4 = position / slots := by omega
    rw [tick_self, rounds_succ, due, stage_add, round, Nat.mod_add_div]
    simp
  · rw [tick_of_ne (Ne.symm same)]
    simp [same]

/-- The history agrees with how far the slots are and with what was taken. -/
structure Traced (slots : Nat) (history : History Thread Value) (low : Nat) (turn : Nat → Nat) :
    Prop where
  rounds : ∀ slot, lifecycle slots slot history = rounds slots slot (turn slot)
  popped : (popped history).map Prod.snd = (pushed history).take low

variable {low : Nat} {history : History Thread Value}

theorem Traced.carry (traced : Traced slots history low turn) (quiet : event taken = none)
    (mute : pushes taken = none) (silent : pops taken = none) :
    Traced slots (history ++ [taken]) low turn where
  rounds slot := by
    rw [lifecycle_snoc, quiet]
    simpa using traced.rounds slot
  popped := by
    simpa [LockfreeRing.popped, pushed, filterMap_snoc, mute, silent] using traced.popped

theorem Traced.rounds_snoc (traced : Traced slots history low turn) (own : Nat)
    (due : turn (position % slots) = 4 * (position / slots) + own) (staged : own < 4)
    (happens : event taken = some (stage own, position)) (slot : Nat) :
    lifecycle slots slot (history ++ [taken]) =
      LockfreeRing.rounds slots slot (tick turn (position % slots) slot) := by
  rw [lifecycle_snoc, happens, rounds_tick due staged, traced.rounds slot, Option.toList_some]

variable {powerOf2Size : Nat} {state : State Thread Value} {thread : Thread}
variable {action : Action Thread Value}

theorem Reads.silent (reads : Reads powerOf2Size state.ring (state.phase thread) next)
    (misses : state.swaps thread spurious = false) :
    event (state, .move thread spurious) = none ∧ pushes (state, .move thread spurious) = none ∧
      pops (state, .move thread spurious) = none := by
  generalize phase : state.phase thread = before at reads
  cases reads <;> simp [event, pushes, pops, phase, misses]

def Keeps (powerOf2Size : Nat) (history : History Thread Value) (state : State Thread Value) :
    Prop :=
  ∃ turn, Sound (size powerOf2Size) state (pushed history) turn ∧
    Traced (size powerOf2Size) history state.ring.low turn

theorem Reads.inHand (reads : Reads powerOf2Size ring phase next) :
    next.result = none ∧ next.inHand = phase.inHand := by
  cases reads <;> exact ⟨rfl, rfl⟩

theorem settle_keeps (sound : Sound (size powerOf2Size) after (pushed history) later)
    (traced : Traced (size powerOf2Size) history state.ring.low turn)
    (rounds : ∀ slot, lifecycle (size powerOf2Size) slot (history ++ [(state, action)]) =
      rounds (size powerOf2Size) slot (later slot))
    (low : after.ring.low = state.ring.low) (mute : pushes (state, action) = none)
    (silent : pops (state, action) = none) :
    Keeps powerOf2Size (history ++ [(state, action)]) after := by
  have same : pushed (history ++ [(state, action)]) = pushed history := by simp [pushed, mute]
  refine ⟨later, same ▸ sound, rounds, ?_⟩
  rw [same, low, ← traced.popped]
  simp [LockfreeRing.popped, silent]

theorem create_eq_some (created : create powerOf2Size = some state) :
    (0 < powerOf2Size ∧ powerOf2Size < 32) ∧
      state = { ring := ⟨0, 0, fun _ => none⟩, phase := fun _ => .idle } := by
  simpa [create, eq_comm] using created

variable [DecidableEq Thread]

theorem claim_keeps (sound : Sound (size powerOf2Size) state (pushed history) turn)
    (traced : Traced (size powerOf2Size) history state.ring.low turn)
    (phase : state.phase thread = .swappingHigh value state.ring.high) :
    Keeps powerOf2Size (history ++ [(state, .move thread false)])
      { ring := { state.ring with high := state.ring.high + 1 }
        phase := update state.phase thread (.writing value state.ring.high) } := by
  have swaps : state.swaps thread false := by simp [State.swaps, phase]
  have claims : pushed (history ++ [(state, .move thread false)]) = pushed history ++ [value] := by
    simp [pushed, pushes, phase, swaps]
  refine ⟨_, claims ▸ claim_sound sound phase, ?_, ?_⟩
  · exact traced.rounds_snoc 0 (sound.due_of_claim phase) (by decide)
      (by simp [event, phase, swaps, stage])
  · have within : state.ring.low ≤ (pushed history).length := by
      rw [sound.cycle.count]
      exact sound.cycle.low_le_high
    rw [claims, List.take_append_of_le_length within, ← traced.popped]
    simp [LockfreeRing.popped, pops, phase]

theorem take_keeps (sound : Sound (size powerOf2Size) state (pushed history) turn)
    (traced : Traced (size powerOf2Size) history state.ring.low turn)
    (phase : state.phase thread = .swappingLow state.ring.low value) :
    Keeps powerOf2Size (history ++ [(state, .move thread false)])
      { ring := { state.ring with low := state.ring.low + 1 }
        phase := update state.phase thread (.clearing state.ring.low value) } := by
  have swaps : state.swaps thread false := by simp [State.swaps, phase]
  have same : pushed (history ++ [(state, .move thread false)]) = pushed history := by
    simp [pushed, pushes, phase]
  have takes : popped (history ++ [(state, .move thread false)]) =
      popped history ++ [(thread, value)] := by
    simp [LockfreeRing.popped, pops, phase, swaps]
  obtain ⟨due, front⟩ := sound.due_of_take phase
  refine ⟨_, same ▸ take_sound sound phase, ?_, ?_⟩
  · exact traced.rounds_snoc 2 due (by decide) (by simp [event, phase, swaps, stage])
  · rw [takes, same, List.map_append, traced.popped, List.take_add_one, front]
    rfl

theorem Move.keeps (move : Move powerOf2Size state action after)
    (keeps : Keeps powerOf2Size history state) :
    Keeps powerOf2Size (history ++ [(state, action)]) after := by
  obtain ⟨turn, sound, traced⟩ := keeps
  cases move with
  | trypush | trypop =>
    refine settle_keeps (sound.goto trivial rfl rfl) traced ?_ rfl rfl rfl
    exact (traced.carry rfl rfl rfl).rounds
  | @read thread next spurious reads misses =>
    obtain ⟨quiet, mute, silent⟩ := reads.silent misses
    obtain ⟨unwritten, uncleared⟩ := reads.sole
    have fits := reads.fits sound.cycle (sound.fits thread)
    refine settle_keeps (sound.goto fits unwritten uncleared) traced ?_ rfl mute silent
    exact (traced.carry quiet mute silent).rounds
  | claim phase => exact claim_keeps sound traced phase
  | @write thread value position spurious phase =>
    have fits := sound.fits thread
    rw [phase] at fits
    refine settle_keeps (write_sound sound phase) traced ?_ rfl (by simp [pushes, phase])
      (by simp [pops, phase])
    exact traced.rounds_snoc 1 fits.1 (by decide) (by simp [event, phase, stage])
  | take phase => exact take_keeps sound traced phase
  | @clear thread position value spurious phase =>
    have fits := sound.fits thread
    rw [phase] at fits
    refine settle_keeps (clear_sound sound phase) traced ?_ rfl (by simp [pushes, phase])
      (by simp [pops, phase])
    exact traced.rounds_snoc 3 fits (by decide) (by simp [event, phase, stage])

theorem run_keeps (run : (machine Thread Value powerOf2Size).Run history state) :
    Keeps powerOf2Size history state := by
  refine run.invariant (Keeps powerOf2Size) ?_ ?_
  · intro state created
    obtain ⟨_, rfl⟩ := create_eq_some created
    exact ⟨fun _ => 0, ⟨.create (size_pos _), fun _ => trivial, nofun, nofun⟩, ⟨fun _ => rfl, rfl⟩⟩
  · intro history before action after keeps stepped
    exact (step_moves stepped).keeps keeps

def answers (powerOf2Size : Nat) :
    State Thread Value × Action Thread Value → Option (Thread × Value)
  | (state, .move thread spurious) =>
    (move powerOf2Size state thread spurious).bind fun after =>
      (after.phase thread).result.map (thread, ·)
  | _ => none

def answered (powerOf2Size : Nat) (history : History Thread Value) : List (Thread × Value) :=
  history.filterMap (answers powerOf2Size)

theorem answers_eq (stepped : step powerOf2Size state (.move thread spurious) = some after)
    (phase : after.phase thread = next) :
    answers powerOf2Size (state, .move thread spurious) = next.result.map (thread, ·) := by
  have moved : move powerOf2Size state thread spurious = some after := stepped
  simp [answers, moved, phase]

theorem answers_eq_none (stepped : step powerOf2Size state (.move thread spurious) = some after)
    (phase : after.phase thread = next) (pending : next.result = none) :
    answers powerOf2Size (state, .move thread spurious) = none := by
  rw [answers_eq stepped phase, pending, Option.map_none]

theorem step_handed (stepped : step powerOf2Size state action = some after)
    (handed : Handed (popped history) (answered powerOf2Size history)
      (Phase.inHand ∘ state.phase)) :
    Handed (popped (history ++ [(state, action)]))
      (answered powerOf2Size (history ++ [(state, action)])) (Phase.inHand ∘ after.phase) := by
  cases step_moves stepped with
  | @trypush thread _ resting | @trypop thread resting =>
    refine handed.carry rfl rfl (comp_update_of_eq ?_)
    cases phase : state.phase thread with
    | idle | pushed | popped => rfl
    | _ => simp [phase, Phase.resting] at resting
  | read reads misses =>
    exact handed.carry (reads.silent misses).2.2
      (answers_eq_none stepped (update_self _ _ _) reads.inHand.1)
      (comp_update_of_eq reads.inHand.2)
  | claim phase | write phase =>
    refine handed.carry (by simp [pops, phase]) (answers_eq_none stepped (update_self _ _ _) rfl)
      (comp_update_of_eq ?_)
    rw [phase]
    rfl
  | @take thread value phase =>
    have takes : pops (state, .move thread false) = some (thread, value) := by
      simp [pops, phase, State.swaps]
    exact handed.taken takes (answers_eq_none stepped (update_self _ _ _) rfl)
      (by simp [phase, Phase.inHand]) (comp_update _ _ _ _)
  | @clear thread position value spurious phase =>
    have gives : answers powerOf2Size (state, .move thread spurious) = some (thread, value) :=
      answers_eq stepped (update_self _ _ _)
    exact handed.given (by simp [pops, phase]) gives (by simp [phase, Phase.inHand])
      (comp_update _ _ _ _)

theorem run_handed (run : (machine Thread Value powerOf2Size).Run history state) :
    Handed (popped history) (answered powerOf2Size history) (Phase.inHand ∘ state.phase) := by
  refine run.invariant (fun history state => Handed (popped history)
    (answered powerOf2Size history) (Phase.inHand ∘ state.phase)) ?_ ?_
  · intro state created
    obtain ⟨_, rfl⟩ := create_eq_some created
    exact .start
  · intro history before action after handed stepped
    exact step_handed stepped handed

def Changes (powerOf2Size : Nat) (taken : State Thread Value × Action Thread Value) : Prop :=
  ∃ after, step powerOf2Size taken.1 taken.2 = some after ∧ after.ring ≠ taken.1.ring

/-- Whether the thread's current call, or its last one, has changed the ring buffer. -/
def touch (powerOf2Size : Nat) (thread : Thread) (touched : Prop)
    (taken : State Thread Value × Action Thread Value) : Prop :=
  match taken.2 with
  | .trypush other _ | .trypop other => other ≠ thread ∧ touched
  | .move other _ => touched ∨ other = thread ∧ Changes powerOf2Size taken

def Touches (powerOf2Size : Nat) (thread : Thread) (history : History Thread Value) : Prop :=
  history.foldl (touch powerOf2Size thread) False

/-- The call has gone through its compare-and-swap. -/
def Phase.effective : Phase Value → Bool
  | .writing _ _ | .pushed true | .clearing _ _ | .popped (some _) => true
  | _ => false

theorem Reads.effective (reads : Reads powerOf2Size ring phase next) : phase.effective = false := by
  cases reads <;> rfl

theorem touches_snoc (taken : State Thread Value × Action Thread Value) :
    Touches powerOf2Size thread (history ++ [taken]) =
      touch powerOf2Size thread (Touches powerOf2Size thread history) taken := by
  simp [Touches]

theorem Move.effective (move : Move powerOf2Size state action after)
    (stepped : step powerOf2Size state action = some after) (thread : Thread)
    (earlier : Touches powerOf2Size thread history → (state.phase thread).effective)
    (touches : Touches powerOf2Size thread (history ++ [(state, action)])) :
    (after.phase thread).effective := by
  rw [touches_snoc] at touches
  cases move with
  | @trypush mover | @trypop mover =>
    obtain ⟨apart, before⟩ := touches
    simpa [State.goto, update_of_ne (Ne.symm apart)] using earlier before
  | @read mover next spurious reads =>
    by_cases same : thread = mover
    · subst mover
      rcases touches with before | ⟨_, changed, stepped', changes⟩
      · have effective := earlier before
        rw [reads.effective] at effective
        cases effective
      · obtain rfl : _ = changed := Option.some.inj (stepped.symm.trans stepped')
        exact (changes rfl).elim
    · rcases touches with before | ⟨rfl, _⟩
      · simpa [State.goto, update_of_ne same] using earlier before
      · exact (same rfl).elim
  | @claim mover | @write mover | @take mover | @clear mover =>
    show (update state.phase mover _ thread).effective
    by_cases same : thread = mover
    · rw [same, update_self]
      rfl
    · rcases touches with before | ⟨rfl, _⟩
      · rw [update_of_ne same]
        exact earlier before
      · exact (same rfl).elim

theorem run_effective (run : (machine Thread Value powerOf2Size).Run history state)
    (thread : Thread) (touches : Touches powerOf2Size thread history) :
    (state.phase thread).effective := by
  refine run.invariant (fun history state => Touches powerOf2Size thread history →
    (state.phase thread).effective) ?_ ?_ touches
  · intro state created touches
    cases touches
  · intro history before action after earlier stepped touches
    exact (step_moves stepped).effective stepped thread earlier touches

omit [DecidableEq Thread] in
theorem accesses_lt (within : powerOf2Size < 29) {phase : Phase Value}
    (accesses : phase.accesses powerOf2Size = some slot) :
    slot < allocated header powerOf2Size := by
  cases phase with
  | probing _ _ position | writing _ position | readingSlot _ position | clearing position _ =>
    obtain rfl := Option.some.inj accesses
    exact index_lt_allocated header powerOf2Size position (by decide) within
  | _ => cases accesses

/-- With at most `2 ^ 28` slots, every access is to a slot that is allocated.  Each slot
is claimed by a push, written, claimed by a pop and cleared, round after
round; what is popped is what the positions were claimed for, in order, each pop
returns the value it took out, at most `size` positions are claimed and not popped,
and a call that fails has left the buffer as it was. -/
theorem ring_refines_fifo (within : powerOf2Size < 29)
    (run : (machine Thread Value powerOf2Size).Run history state) :
    (∀ thread slot, (state.phase thread).accesses powerOf2Size = some slot →
      slot < allocated header powerOf2Size) ∧
    (∀ slot, ∃ count, lifecycle (size powerOf2Size) slot history =
      rounds (size powerOf2Size) slot count) ∧
    (pushed history).length = state.ring.high ∧ (popped history).length = state.ring.low ∧
    (popped history).map Prod.snd <+: pushed history ∧
    (∀ thread, own thread (popped history) =
      own thread (answered powerOf2Size history) ++ (state.phase thread).inHand) ∧
    state.ring.low ≤ state.ring.high ∧ state.ring.high ≤ state.ring.low + size powerOf2Size ∧
    (∀ thread, state.phase thread = .pushed false ∨ state.phase thread = .popped none →
      ¬ Touches powerOf2Size thread history) := by
  obtain ⟨turn, sound, traced⟩ := run_keeps run
  have ordered := sound.cycle.low_le_high
  refine ⟨fun _ _ => accesses_lt within, fun slot => ⟨turn slot, traced.rounds slot⟩,
    sound.cycle.count, ?_, ?_, run_handed run, ordered, sound.cycle.high_le, ?_⟩
  · have lengths := congrArg List.length traced.popped
    rw [List.length_map, List.length_take, sound.cycle.count] at lengths
    omega
  · rw [traced.popped]
    exact List.take_prefix _ _
  · intro thread failed touches
    have effective := run_effective run thread touches
    rcases failed with phase | phase
    · rw [phase] at effective
      cases effective
    · rw [phase] at effective
      cases effective

end History

/-- Two slots, three pushes: the second push finishes before the first has written, a
pop fails on the gap and then takes the first value, and the third push wraps
around once the slot is cleared. -/
def lap : List (Action Bool Nat) :=
  List.flatten [.trypush true 10 :: List.replicate 4 (.move true false),
    .trypush false 11 :: List.replicate 5 (.move false false),
    .trypop false :: List.replicate 3 (.move false false), [.move true false],
    .trypop false :: List.replicate 5 (.move false false),
    .trypush true 12 :: List.replicate 5 (.move true false)]

def fresh : State Bool Nat where
  ring := ⟨0, 0, fun _ => none⟩
  phase := fun _ => .idle

theorem ring_refines_fifo_lap : ∃ history state, (machine Bool Nat 1).Run history state ∧
    state.ring.high = 3 ∧ state.ring.low = 1 ∧ pushed history = [10, 11, 12] ∧
      popped history = [(false, 10)] ∧
      lifecycle 2 0 history = [(.claimed, 0), (.written, 0), (.taken, 0), (.cleared, 0),
        (.claimed, 2), (.written, 2)] ∧
      answered 1 history = [(false, 10)] ∧ (popped history).map Prod.snd <+: pushed history ∧
      state.ring.high ≤ state.ring.low + size 1 := by
  have run := Machine.run_of_isSome (show (machine Bool Nat 1).initial fresh from rfl)
    (show ((machine Bool Nat 1).exec fresh lap).isSome by decide +kernel)
  obtain ⟨_, _, _, _, ordered, _, _, bounded, _⟩ := ring_refines_fifo (by decide) run
  exact ⟨_, _, run, by decide +kernel, by decide +kernel, by decide +kernel, by decide +kernel,
    by decide +kernel, by decide +kernel, ordered, bounded⟩

/-- The wrap around: with `2 ^ 29` slots or more `required_size` is that of the header
alone, and the first push looks at a slot behind the memory that was allocated. -/
theorem trypush_unallocated (member : powerOf2Size ∈ [29, 30, 31]) :
    requiredSize header powerOf2Size = header ∧
      ∃ history state, (machine Bool Nat powerOf2Size).Run history state ∧
        ∃ slot, (state.phase true).accesses powerOf2Size = some slot ∧
          ¬ slot < allocated header powerOf2Size := by
  obtain ⟨range, wrapped, none⟩ := allocated_eq_zero header _ (by decide) member
  have run := Machine.run_of_isSome
    (show (machine Bool Nat powerOf2Size).initial fresh from if_pos range)
    (show ((machine Bool Nat powerOf2Size).exec fresh
      [.trypush true 10, .move true false, .move true false]).isSome from rfl)
  exact ⟨wrapped, _, _, run, _, rfl, by simp [none]⟩

theorem ring_refines_fifo_unallocated : requiredSize header 29 = header ∧
    ∃ history state, (machine Bool Nat 29).Run history state ∧
      ∃ slot, (state.phase true).accesses 29 = some slot ∧ ¬ slot < allocated header 29 :=
  trypush_unallocated (by decide)

end LibFiber.LockfreeRing
