import LibFiber.BoundedChannel.Machine
import LibFiber.Data.SlotCycle

namespace LibFiber.BoundedChannel

open Semantics Data PowerOf2 Function

/-! The messages come out of the channel in the order of the claims on `high`.

The receiver clears a slot before it moves `low` on, so the slots are released in
the other order than those of `lockfree_ring_buffer`.
-/

section Invariant

variable {Sender Message : Type} {channel : Channel Message}
variable {state : State Sender Message}
variable {sender : Sender} {position : Nat}
variable {phase : SenderPhase Message}

def SenderPhase.writes : SenderPhase Message → Option Nat
  | .writing _ position => some position
  | _ => none

def SenderPhase.Fits (slots : Nat) (channel : Channel Message) (values : List Message)
    (turn : Nat → Nat) : SenderPhase Message → Prop
  | .loadingHigh _ low | .probing _ low _ => low ≤ channel.low
  | .swappingHigh _ high => 4 * (high / slots) ≤ turn (high % slots)
  | .writing message position =>
    turn (position % slots) = 4 * (position / slots) + 1 ∧ values[position]? = some message
  | _ => True

def ReceiverPhase.Fits (slots : Nat) (channel : Channel Message) (values : List Message)
    (turn : Nat → Nat) : ReceiverPhase Message → Prop
  | .readingLow _ high => high ≤ channel.high
  | .readingSlot _ high low => high ≤ channel.high ∧ low = channel.low
  | .emptying low message =>
    low = channel.low ∧ turn (low % slots) = 4 * (low / slots) + 2 ∧ values[low]? = some message
  | .advancing low message =>
    low = channel.low ∧ turn (low % slots) = 4 * (low / slots) + 3 ∧ values[low]? = some message
  | _ => True

/-- The slot at `low` is cleared, and `low` not moved on yet. -/
def ReceiverPhase.hollow : ReceiverPhase Message → Bool
  | .advancing _ _ => true
  | _ => false

structure Sound (slots : Nat) (state : State Sender Message) (values : List Message)
    (turn : Nat → Nat) : Prop where
  cycle : SlotCycle slots .clearFirst state.channel.high state.channel.low state.channel.buffer
    values turn
  senders : ∀ sender, (state.sender sender).Fits slots state.channel values turn
  receiver : state.receiver.Fits slots state.channel values turn
  cleared : ∀ position, turn (position % slots) = 4 * (position / slots) + 3 →
    state.receiver.hollow ∧ position = state.channel.low
  writer : ∀ sender other position, (state.sender sender).writes = some position →
    (state.sender other).writes = some position → sender = other
  /-- A claimed position has a sender that is about to write it. -/
  written : ∀ position, turn (position % slots) = 4 * (position / slots) + 1 →
    ∃ sender, (state.sender sender).writes = some position

theorem Sound.front (sound : Sound slots state values turn)
    (solid : state.receiver.hollow = false) :
    turn (state.channel.low % slots) ≤ 4 * (state.channel.low / slots) + 2 := by
  have least := sound.cycle.turn_low_le
  have cleared := sound.cleared state.channel.low
  by_contra ahead
  simp only [Release.takeAt] at least
  have hollow := (cleared (by omega)).1
  rw [solid] at hollow
  cases hollow

theorem SenderPhase.Fits.writes
    (fits : phase.Fits slots channel values turn) (own : phase.writes = some position) :
    turn (position % slots) = 4 * (position / slots) + 1 := by
  cases phase with
  | writing =>
    cases own
    exact fits.1
  | _ => cases own

theorem SenderPhase.Fits.spared (fits : phase.Fits slots channel values turn)
    (due : turn (position % slots) = 4 * (position / slots) + stage) (staged : stage < 4)
    (low : channel.low ≤ after.low)
    (grown : ∀ (index : Nat) message, values[index]? = some message → later[index]? = some message)
    (writer : stage = 1 → phase.writes ≠ some position) :
    phase.Fits slots after later (tick turn (position % slots)) := by
  cases phase with
  | loadingHigh | probing => exact Nat.le_trans fits low
  | swappingHigh => exact Nat.le_trans fits (turn_le_tick _ _ _)
  | writing message own =>
    refine ⟨?_, grown own message fits.2⟩
    rw [tick_of_apart due fits.1 staged (by decide)]
    · exact fits.1
    · rintro rfl rfl
      exact writer rfl rfl
  | idle | loadingLow | yielding | sent => trivial

theorem ReceiverPhase.Fits.spared {phase : ReceiverPhase Message} {after : Channel Message}
    (fits : phase.Fits slots channel values turn)
    (due : turn (position % slots) = 4 * (position / slots) + stage) (staged : stage < 2)
    (low : after.low = channel.low) (high : channel.high ≤ after.high)
    (grown : ∀ (index : Nat) message, values[index]? = some message →
      later[index]? = some message) :
    phase.Fits slots after later (tick turn (position % slots)) := by
  cases phase with
  | readingLow => exact Nat.le_trans fits high
  | readingSlot => exact ⟨Nat.le_trans fits.1 high, fits.2.trans low.symm⟩
  | emptying own message | advancing own message =>
    obtain ⟨same, mine, there⟩ := fits
    refine ⟨same.trans low.symm, ?_, grown own message there⟩
    rw [tick_of_apart due mine (by omega) (by decide) (by omega)]
    exact mine
  | outside | readingHigh | waiting | received => trivial

variable {powerOf2Size : Nat}
variable {message : Message}

theorem Looks.fits (looks : Looks powerOf2Size state.channel phase next)
    (sound : Sound (size powerOf2Size) state values turn)
    (fits : phase.Fits (size powerOf2Size) state.channel values turn) :
    next.Fits (size powerOf2Size) state.channel values turn := by
  cases looks with
  | loadLow => exact Nat.le_refl _
  | loadHigh => exact fits
  | vacant nothing room =>
    rw [index_eq] at nothing
    exact sound.cycle.vacant fits (by omega) nothing
  | send | full | miss | again => trivial

theorem Looks.writes (looks : Looks powerOf2Size channel phase next) :
    phase.writes = none ∧ next.writes = none := by
  cases looks with
  | send resting => rcases resting with rfl | rfl <;> exact ⟨rfl, rfl⟩
  | loadLow | loadHigh | vacant | full | miss | again => exact ⟨rfl, rfl⟩

theorem Tries.hollow {phase next : ReceiverPhase Message}
    (tries : Tries powerOf2Size channel phase next) : phase.hollow = false := by
  cases tries with
  | receive resting => rcases resting with rfl | ⟨message, rfl⟩ <;> rfl
  | readHigh | readLow | found | fail | again => rfl

theorem Tries.fits {next : ReceiverPhase Message}
    (tries : Tries powerOf2Size state.channel state.receiver next)
    (sound : Sound (size powerOf2Size) state values turn) :
    next.Fits (size powerOf2Size) state.channel values turn := by
  have front := sound.front tries.hollow
  have fits := sound.receiver
  generalize state.receiver = phase at tries fits
  cases tries with
  | readHigh => exact Nat.le_refl _
  | readLow => exact ⟨fits, rfl⟩
  | found there below =>
    obtain ⟨high, rfl⟩ := fits
    rw [index_eq] at there
    obtain ⟨written, value⟩ := sound.cycle.found (Nat.lt_of_lt_of_le below high) there
    exact ⟨rfl, Nat.le_antisymm front written, value front⟩
  | @fail blocking => cases blocking <;> trivial
  | receive | again => trivial

theorem attempt_sound {next : ReceiverPhase Message}
    (tries : Tries powerOf2Size state.channel state.receiver next)
    (sound : Sound (size powerOf2Size) state values turn) :
    Sound (size powerOf2Size) { state with receiver := next } values turn :=
  { sound with
    receiver := tries.fits sound
    cleared := fun position staged => by
      have hollow := (sound.cleared position staged).1
      rw [tries.hollow] at hollow
      cases hollow }

theorem empty_sound (sound : Sound slots state values turn)
    (phase : state.receiver = .emptying low message) :
    Sound slots
      { state with
        channel := { state.channel with
          buffer := update state.channel.buffer (low % slots) none }
        receiver := .advancing low message }
      values (tick turn (low % slots)) := by
  have fits := sound.receiver
  rw [phase] at fits
  obtain ⟨rfl, due, there⟩ := fits
  refine ⟨sound.cycle.clear due, ?_, ⟨rfl, ?_, there⟩, ?_, sound.writer, ?_⟩
  · exact fun sender => (sound.senders sender).spared due (by decide) (Nat.le_refl _)
      (fun _ _ found => found) nofun
  · rw [tick_self, due]
  · intro position staged
    by_cases same : position % slots = state.channel.low % slots
    · rw [same, tick_self, due] at staged
      have round : position / slots = state.channel.low / slots := by omega
      exact ⟨rfl, eq_of_residue same round⟩
    · rw [tick_of_ne same] at staged
      exact ⟨rfl, (sound.cleared position staged).2⟩
  · intro position staged
    refine sound.written position ?_
    by_cases same : position % slots = state.channel.low % slots
    · rw [same, tick_self, due] at staged
      omega
    · rwa [tick_of_ne same] at staged

theorem advance_sound (sound : Sound slots state values turn)
    (phase : state.receiver = .advancing low message) :
    Sound slots
      { state with
        channel := { state.channel with low := low + 1 }
        receiver := .received (some message) }
      values (tick turn (low % slots)) := by
  have fits := sound.receiver
  rw [phase] at fits
  obtain ⟨rfl, due, there⟩ := fits
  have cycle := sound.cycle.take due
  refine ⟨cycle, ?_, trivial, ?_, sound.writer, ?_⟩
  · exact fun sender => (sound.senders sender).spared due (by decide) (Nat.le_succ _)
      (fun _ _ found => found) nofun
  · intro position staged
    exfalso
    by_cases same : position % slots = state.channel.low % slots
    · rw [same, tick_self, due] at staged
      omega
    · rw [tick_of_ne same] at staged
      exact same (by rw [(sound.cleared position staged).2])
  · intro position staged
    refine sound.written position ?_
    by_cases same : position % slots = state.channel.low % slots
    · rw [same, tick_self, due] at staged
      omega
    · rwa [tick_of_ne same] at staged

variable [DecidableEq Sender]

theorem look_sound (sound : Sound (size powerOf2Size) state values turn)
    (looks : Looks powerOf2Size state.channel (state.sender sender) next) :
    Sound (size powerOf2Size) (state.goto sender next) values turn := by
  obtain ⟨before, after⟩ := looks.writes
  refine ⟨sound.cycle, ?_, sound.receiver, sound.cleared, ?_, ?_⟩
  · intro other
    by_cases same : other = sender
    · subst other
      simpa [State.goto] using looks.fits sound (sound.senders sender)
    · simpa [State.goto, update_of_ne same] using sound.senders other
  · exact sole_update sound.writer fun position writes => by simp [after] at writes
  · intro position staged
    obtain ⟨other, writes⟩ := sound.written position staged
    refine ⟨other, ?_⟩
    have apart : other ≠ sender := by
      rintro rfl
      simp [before] at writes
    simpa [State.goto, update_of_ne apart] using writes

theorem Sound.moved (sound : Sound slots state values turn)
    (due : turn (position % slots) = 4 * (position / slots) + stage) (staged : stage < 2)
    (cycle : SlotCycle slots .clearFirst channel.high channel.low channel.buffer later
      (tick turn (position % slots)))
    (low : channel.low = state.channel.low) (high : state.channel.high ≤ channel.high)
    (grown : ∀ (index : Nat) message, values[index]? = some message → later[index]? = some message)
    (mine : next.Fits slots channel later (tick turn (position % slots)))
    (writer : stage = 1 → (state.sender sender).writes = some position)
    (idle : stage = 0 → (state.sender sender).writes = none)
    (writes : next.writes = if stage = 0 then some position else none) :
    Sound slots { state with channel, sender := update state.sender sender next } later
      (tick turn (position % slots)) where
  cycle := cycle
  senders other := by
    show SenderPhase.Fits slots channel later _ (update state.sender sender next other)
    by_cases same : other = sender
    · rw [same, update_self]
      exact mine
    · rw [update_of_ne same]
      refine (sound.senders other).spared due (by omega) (Nat.le_of_eq low.symm) grown ?_
      exact fun stages owns => same (sound.writer other sender position owns (writer stages))
  receiver := sound.receiver.spared due staged low high grown
  cleared other stages := by
    by_cases same : other % slots = position % slots
    · rw [same, tick_self, due] at stages
      omega
    · rw [tick_of_ne same] at stages
      exact ⟨(sound.cleared other stages).1, (sound.cleared other stages).2.trans low.symm⟩
  writer := by
    refine sole_update sound.writer fun own now other _ owns => ?_
    have fits := (sound.senders other).writes owns
    rw [writes] at now
    split at now
    · cases now
      omega
    · cases now
  written other stages := by
    show ∃ owner, (update state.sender sender next owner).writes = some other
    by_cases same : other % slots = position % slots
    · refine ⟨sender, ?_⟩
      rw [same, tick_self, due] at stages
      have first : stage = 0 := by omega
      rw [update_self, writes, if_pos first, eq_of_residue same (by omega)]
    · rw [tick_of_ne same] at stages
      obtain ⟨owner, owns⟩ := sound.written other stages
      refine ⟨owner, ?_⟩
      have apart : owner ≠ sender := by
        rintro rfl
        rcases Nat.lt_or_ge stage 1 with first | second
        · rw [idle (by omega)] at owns
          cases owns
        · rw [writer (by omega)] at owns
          cases owns
          exact same rfl
      rw [update_of_ne apart]
      exact owns

theorem claim_sound (sound : Sound slots state values turn)
    (phase : state.sender sender = .swappingHigh message state.channel.high) :
    Sound slots
      { state with
        channel := { state.channel with high := state.channel.high + 1 }
        sender := update state.sender sender (.writing message state.channel.high) }
      (values ++ [message]) (tick turn (state.channel.high % slots)) := by
  have fits := sound.senders sender
  rw [phase] at fits
  have due : turn (state.channel.high % slots) = 4 * (state.channel.high / slots) + 0 :=
    Nat.le_antisymm sound.cycle.turn_high_le fits
  refine sound.moved due (by decide) (sound.cycle.claim due) rfl (Nat.le_succ _) ?_ ⟨?_, ?_⟩ nofun
    (fun _ => ?_) rfl
  · intro index found there
    rw [List.getElem?_append_left (List.getElem?_eq_some_iff.mp there).1]
    exact there
  · rw [tick_self]
    omega
  · rw [← sound.cycle.count, List.getElem?_append_right (Nat.le_refl _), Nat.sub_self]
    rfl
  · rw [phase]
    rfl

theorem write_sound (sound : Sound slots state values turn)
    (phase : state.sender sender = .writing message position) :
    Sound slots
      { state with
        channel := { state.channel with
          buffer := update state.channel.buffer (position % slots) (some message) }
        sender := update state.sender sender .sent }
      values (tick turn (position % slots)) := by
  have fits := sound.senders sender
  rw [phase] at fits
  refine sound.moved fits.1 (by decide) (sound.cycle.write fits.1 fits.2) rfl (Nat.le_refl _)
    (fun _ _ there => there) trivial (fun _ => ?_) nofun rfl
  rw [phase]
  rfl

end Invariant

section History

variable {Sender Message : Type} {powerOf2Size : Nat}
variable {state : State Sender Message} {history : History Sender Message}

/-- The messages, in the order of the compare-and-swaps of `high`. -/
def sent (history : History Sender Message) : List Message := history.filterMap sends

def received (powerOf2Size : Nat) (history : History Sender Message) : List Message :=
  history.filterMap (receives powerOf2Size)

def Keeps (powerOf2Size : Nat) (history : History Sender Message) (state : State Sender Message) :
    Prop :=
  (∃ turn, Sound (size powerOf2Size) state (sent history) turn) ∧
    received powerOf2Size history = (sent history).take state.channel.low

theorem Keeps.carry (keeps : Keeps powerOf2Size history state)
    (sound : Sound (size powerOf2Size) after (sent history) turn)
    (mute : sends (state, action) = none) (silent : receives powerOf2Size (state, action) = none)
    (low : after.channel.low = state.channel.low) :
    Keeps powerOf2Size (history ++ [(state, action)]) after := by
  have same : sent (history ++ [(state, action)]) = sent history := by simp [sent, mute]
  refine ⟨⟨turn, same ▸ sound⟩, ?_⟩
  rw [same, low, ← keeps.2]
  simp [received, silent]

theorem Sound.vacant_of_writing (sound : Sound slots state values turn)
    (phase : state.sender sender = .writing message position) :
    position < state.channel.low + slots ∧ state.channel.buffer (position % slots) = none := by
  have staged := (sound.senders sender).writes (show _ = some position by rw [phase]; rfl)
  have claimed := (sound.cycle.claimed position).mpr (by omega)
  have bounded := sound.cycle.high_le
  exact ⟨by omega, sound.cycle.empty position (by omega) (by omega) (.inl (by omega))⟩

theorem Sound.kept (sound : Sound slots state values turn) (position : Nat)
    (above : state.channel.low ≤ position) (below : position < state.channel.high) :
    (∃ sender, (state.sender sender).writes = some position) ∨
      state.channel.buffer (position % slots) = values[position]? ∨
      state.receiver.hollow ∧ position = state.channel.low := by
  have claimed := (sound.cycle.claimed position).mp below
  have untaken : turn (position % slots) ≤ 4 * (position / slots) + 3 := by
    by_contra ahead
    have taken := (sound.cycle.taken position).mpr (by simp only [Release.takeAt]; omega)
    omega
  rcases Nat.lt_or_ge (turn (position % slots)) (4 * (position / slots) + 2) with early | written
  · exact .inl (sound.written position (by omega))
  · right
    rcases Nat.lt_or_ge (turn (position % slots)) (4 * (position / slots) + 3) with full | cleared
    · exact .inl (sound.cycle.filled position written (by simp only [Release.clearAt]; omega))
    · exact .inr (sound.cleared position (by omega))

theorem accesses_lt (within : powerOf2Size < 29)
    (accesses : (∃ sender, (state.sender sender).accesses powerOf2Size = some slot) ∨
      state.receiver.accesses powerOf2Size = some slot) :
    slot < allocated header powerOf2Size := by
  have bounded := fun position => index_lt_allocated header powerOf2Size position (by decide) within
  rcases accesses with ⟨sender, accesses⟩ | accesses
  · cases phase : state.sender sender with
    | probing _ _ position | writing _ position =>
      rw [phase] at accesses
      exact Option.some.inj accesses ▸ bounded position
    | _ => simp [phase, SenderPhase.accesses] at accesses
  · cases phase : state.receiver with
    | readingSlot _ _ position | emptying position _ =>
      rw [phase] at accesses
      exact Option.some.inj accesses ▸ bounded position
    | _ => simp [phase, ReceiverPhase.accesses] at accesses

variable [DecidableEq Sender]

theorem Move.keeps {action : Action Sender Message} (move : Move powerOf2Size state action after)
    (keeps : Keeps powerOf2Size history state) :
    Keeps powerOf2Size (history ++ [(state, action)]) after := by
  obtain ⟨turn, sound⟩ := keeps.1
  cases move with
  | look looks mute silent => exact keeps.carry (look_sound sound looks) mute silent rfl
  | attempt tries mute silent => exact keeps.carry (attempt_sound tries sound) mute silent rfl
  | @claim sender message phase =>
    have claims : sent (history ++ [(state, .moveSender sender false)]) =
        sent history ++ [message] := by
      simp [sent, sends, phase, State.swaps]
    have within : state.channel.low ≤ (sent history).length := by
      rw [sound.cycle.count]
      exact sound.cycle.low_le_high
    refine ⟨⟨_, claims ▸ claim_sound sound phase⟩, ?_⟩
    rw [claims, List.take_append_of_le_length within, ← keeps.2]
    simp [received, receives]
  | write phase => exact keeps.carry (write_sound sound phase) (by simp [sends, phase]) rfl rfl
  | empty phase =>
    exact keeps.carry (empty_sound sound phase) rfl
      (by simp [receives, moveReceiver, ReceiverPhase.message, phase]) rfl
  | @advance low message phase =>
    have same : sent (history ++ [(state, .moveReceiver)]) = sent history := by
      simp [sent, sends]
    have takes : received powerOf2Size (history ++ [(state, .moveReceiver)]) =
        received powerOf2Size history ++ [message] := by
      simp [received, receives, moveReceiver, ReceiverPhase.message, phase]
    have fits := sound.receiver
    rw [phase] at fits
    refine ⟨⟨_, same ▸ advance_sound sound phase⟩, ?_⟩
    rw [takes, same, keeps.2, List.take_add_one, fits.2.2, fits.1]
    rfl

theorem run_keeps (run : (machine Sender Message powerOf2Size).Run history state) :
    Keeps powerOf2Size history state := by
  refine run.invariant (Keeps powerOf2Size) ?_ ?_
  · intro state created
    obtain ⟨_, rfl⟩ : (0 < powerOf2Size ∧ powerOf2Size < 32) ∧ _ = state := by
      simpa [machine, create] using created
    refine ⟨⟨fun _ => 0, .create (size_pos _), fun _ => trivial, trivial, ?_, nofun, ?_⟩, rfl⟩
    · intro position staged
      omega
    · intro position staged
      omega
  · intro history before action after keeps stepped
    exact (step_moves stepped).keeps keeps

/-- With at most `2 ^ 28` slots, every access is to a slot that is allocated.  What is
received is what was sent, in the order of the claims on `high`; a sender
writes only slots whose message before was received, `high - low` is at most
`size`, and every message between `low` and `high` is in its slot or in the hands
of its sender or of the receiver. -/
theorem channel_refines_fifo (within : powerOf2Size < 29)
    (run : (machine Sender Message powerOf2Size).Run history state) :
    (∀ slot, (∃ sender, (state.sender sender).accesses powerOf2Size = some slot) ∨
      state.receiver.accesses powerOf2Size = some slot → slot < allocated header powerOf2Size) ∧
    received powerOf2Size history <+: sent history ∧
    (sent history).length = state.channel.high ∧
    (received powerOf2Size history).length = state.channel.low ∧
    state.channel.low ≤ state.channel.high ∧
    state.channel.high ≤ state.channel.low + size powerOf2Size ∧
    (∀ sender message position, state.sender sender = .writing message position →
      position < (received powerOf2Size history).length + size powerOf2Size ∧
        state.channel.buffer (index powerOf2Size position) = none) ∧
    ∀ position, state.channel.low ≤ position → position < state.channel.high →
      (∃ sender, (state.sender sender).writes = some position) ∨
        state.channel.buffer (index powerOf2Size position) = (sent history)[position]? ∨
        state.receiver.hollow ∧ position = state.channel.low := by
  obtain ⟨⟨turn, sound⟩, taken⟩ := run_keeps run
  have ordered := sound.cycle.low_le_high
  have length : (received powerOf2Size history).length = state.channel.low := by
    rw [taken, List.length_take, sound.cycle.count]
    exact Nat.min_eq_left ordered
  refine ⟨fun _ => accesses_lt within, ?_, sound.cycle.count, length, ordered,
    sound.cycle.high_le, ?_, ?_⟩
  · rw [taken]
    exact List.take_prefix _ _
  · intro sender message position phase
    rw [length, index_eq]
    exact sound.vacant_of_writing phase
  · intro position above below
    rw [index_eq]
    exact sound.kept position above below

end History

/-- Two senders fill the two slots, the later one first; the receiver fails on the gap,
then takes the first message, and the next send wraps around. -/
def lap : List (Action Bool Nat) :=
  List.flatten [.send true 10 :: List.replicate 4 (.moveSender true false),
    .send false 11 :: List.replicate 5 (.moveSender false false),
    .receive false :: List.replicate 3 .moveReceiver, [.moveSender true false],
    .receive true :: List.replicate 5 .moveReceiver,
    .send true 12 :: List.replicate 4 (.moveSender true false)]

def fresh : State Bool Nat where
  channel := ⟨0, 0, fun _ => none⟩
  sender := fun _ => .idle
  receiver := .outside

theorem channel_refines_fifo_lap : ∃ history state, (machine Bool Nat 1).Run history state ∧
    sent history = [10, 11, 12] ∧ received 1 history = [10] ∧
      state.sender true = .writing 12 2 ∧ received 1 history <+: sent history ∧
      2 < (received 1 history).length + size 1 ∧ state.channel.buffer (index 1 2) = none := by
  have run := Machine.run_of_isSome (show (machine Bool Nat 1).initial fresh from rfl)
    (show ((machine Bool Nat 1).exec fresh lap).isSome by decide +kernel)
  obtain ⟨_, ordered, _, _, _, _, writers, _⟩ := channel_refines_fifo (by decide) run
  have writing : (((machine Bool Nat 1).exec fresh lap).get (by decide +kernel)).sender true =
      .writing 12 2 := by decide +kernel
  exact ⟨_, _, run, by decide +kernel, by decide +kernel, writing, ordered,
    writers true 12 2 writing⟩

/-- The wrap around: with `2 ^ 29` slots or more `required_size` is that of the header
alone, and the first send looks at a slot behind the memory that was allocated. -/
theorem send_unallocated (member : powerOf2Size ∈ [29, 30, 31]) :
    requiredSize header powerOf2Size = header ∧
      ∃ history state, (machine Bool Nat powerOf2Size).Run history state ∧
        ∃ slot, (state.sender true).accesses powerOf2Size = some slot ∧
          ¬ slot < allocated header powerOf2Size := by
  obtain ⟨range, wrapped, none⟩ := allocated_eq_zero header _ (by decide) member
  have run := Machine.run_of_isSome
    (show (machine Bool Nat powerOf2Size).initial fresh from if_pos range)
    (show ((machine Bool Nat powerOf2Size).exec fresh
      [.send true 10, .moveSender true false, .moveSender true false]).isSome from rfl)
  exact ⟨wrapped, _, _, run, _, rfl, by simp [none]⟩

theorem channel_refines_fifo_unallocated : requiredSize header 29 = header ∧
    ∃ history state, (machine Bool Nat 29).Run history state ∧
      ∃ slot, (state.sender true).accesses 29 = some slot ∧ ¬ slot < allocated header 29 :=
  send_unallocated (by decide)

end LibFiber.BoundedChannel
