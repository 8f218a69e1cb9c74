import LibFiber.Channel.Machine

namespace LibFiber.Channel

open Data Semantics Function

/-! A receiver that sleeps and that nobody is about to wake has missed nothing. -/

variable {Fiber Msg : Type} {count : Nat} {kind : Fin count → Kind Fiber}
variable {state after : State Fiber count Msg}

/-- The position of a bounded channel that a sender has claimed. -/
def SenderPhase.position (channel : Fin count) : SenderPhase count Msg → Option Int
  | .writing own _ position => if own = channel then some position else none
  | _ => none

def State.writing (state : State Fiber count Msg) (channel : Fin count) : Fiber → Option Int :=
  SenderPhase.position channel ∘ state.sender

/-- The receiver has cleared a slot of the channel and not stored `low` yet. -/
def ReceiverPhase.hollows (channel : Fin count) : ReceiverPhase count Msg → Bool
  | .advancing own _ => own = channel
  | _ => false

/-- What a sender has read is at most what is there now. -/
def SenderPhase.Fits (ring : Fin count → RingBuffer Msg) : SenderPhase count Msg → Prop
  | .sizing channel _ low | .probing channel _ low _ => low ≤ (ring channel).low
  | .swapping channel _ low high =>
    low ≤ (ring channel).low ∧ high - low < (ring channel).size
  | _ => True

def ReceiverPhase.Fits (ring : Fin count → RingBuffer Msg) : ReceiverPhase count Msg → Prop
  | .checking channel _ high => high ≤ (ring channel).high
  | .emptying channel message =>
    (ring channel).low < (ring channel).high ∧ (ring channel).get (ring channel).low = some message
  | _ => True

structure Buffers (state : State Fiber count Msg) : Prop where
  ring : ∀ channel,
    (state.ring channel).Sound (state.writing channel) (state.receiver.hollows channel)
  sender : ∀ fiber, (state.sender fiber).Fits state.ring
  receiver : state.receiver.Fits state.ring

/-- A try-receive on the channel would return a message. -/
def State.available (kind : Fin count → Kind Fiber) (state : State Fiber count Msg)
    (channel : Fin count) : Bool :=
  match kind channel with
  | .bounded _ => (state.ring channel).front.isSome
  | .unbounded | .single _ => (state.queue channel).trypop.isSome

/-- The receiver is done with the channel for this round, empty-handed. -/
def State.passed (state : State Fiber count Msg) (channel : Fin count) : Prop :=
  match state.receiver with
  | .trying rest => channel ∉ rest
  | .checking own rest high =>
    (channel ≠ own ∧ channel ∉ rest) ∨ (channel = own ∧ high ≤ (state.ring own).low)
  | .waiting => state.signal.listening
  | .outside | .emptying _ _ | .advancing _ _ | .received _ => False

structure Listening (kind : Fin count → Kind Fiber) (state : State Fiber count Msg) : Prop where
  signal : Signal.Sound state.signal
  raising : ∀ fiber, state.sender fiber ≠ .raising → (state.signal.raiser fiber).idles
  waiting : state.receiver ≠ .waiting → state.signal.self = .outside
  checking : ∀ channel rest high, state.receiver = .checking channel rest high →
    ∃ logSize, kind channel = .bounded logSize
  /-- What has come into a channel since the receiver passed it has been
  announced, or its sender is about to. -/
  covered : ∀ channel, state.passed channel → state.available kind channel →
    state.signal.heard

section Moves

variable [DecidableEq Fiber] [DecidableEq Msg]

/-- Everything a step can do.  A sender that strolls touches nothing shared. -/
inductive Move (kind : Fin count → Kind Fiber) (state : State Fiber count Msg) :
    State Fiber count Msg → Prop where
  | stroll (fiber : Fiber) (next : SenderPhase count Msg) :
      state.sender fiber ≠ .raising → next ≠ .raising →
      (∀ channel, next.position channel = (state.sender fiber).position channel) →
      ((state.sender fiber).Fits state.ring → next.Fits state.ring) →
      Move kind state (state.goto fiber next)
  | claim (fiber : Fiber) (channel : Fin count) (message : Msg) (low : Int) :
      state.sender fiber = .swapping channel message low (state.ring channel).high →
      Move kind state { state with
        ring := update state.ring channel (state.ring channel).claim
        sender := update state.sender fiber
          (.writing channel message (state.ring channel).high) }
  | write (fiber : Fiber) (channel : Fin count) (message : Msg) (position : Int) :
      state.sender fiber = .writing channel message position →
      Move kind state ({ state with
        ring := update state.ring channel ((state.ring channel).write position message)
        }.published fiber)
  | exchange (fiber : Fiber) (channel : Fin count) (message : Msg) :
      state.sender fiber = .exchanging channel message →
      Move kind state { state with
        queue := update state.queue channel ((state.queue channel).exchange (fiber, message))
        sender := update state.sender fiber (.linking channel message) }
  | link (fiber : Fiber) (channel : Fin count) (message : Msg) :
      state.sender fiber = .linking channel message →
      Move kind state ({ state with
        queue := update state.queue channel ((state.queue channel).link (fiber, message))
        }.published fiber)
  | raise (fiber : Fiber) (signal : Signal.State Fiber) :
      state.sender fiber = .raising →
      Signal.Move state.signal (.moveRaiser fiber) signal →
      Move kind state { state with
        signal
        sender := update state.sender fiber (.raised (signal.raiser fiber)) }
  | start : state.receiver ≠ .waiting → (∀ channel, state.receiver.hollows channel = false) →
      Move kind state { state with receiver := .trying (List.finRange count) }
  | wait : state.receiver = .trying [] →
      Move kind state { state with
        signal := { state.signal with self := .clearing }
        receiver := .waiting }
  | read (channel : Fin count) (rest : List (Fin count)) (logSize : Nat) :
      state.receiver = .trying (channel :: rest) → kind channel = .bounded logSize →
      Move kind state
        { state with receiver := .checking channel rest (state.ring channel).high }
  | pop (channel : Fin count) (rest : List (Fin count)) (entry : Fiber × Msg)
      (left : LinkedFifo (Fiber × Msg)) :
      state.receiver = .trying (channel :: rest) →
      Move kind state { state with
        queue := update state.queue channel left
        receiver := .received entry.2 }
  /-- The channel has nothing to take. -/
  | pass (channel : Fin count) (rest : List (Fin count)) :
      state.receiver = .trying (channel :: rest) → state.available kind channel = false →
      Move kind state { state with receiver := .trying rest }
  | take (channel : Fin count) (rest : List (Fin count)) (high : Int) (message : Msg) :
      state.receiver = .checking channel rest high →
      (state.ring channel).get (state.ring channel).low = some message →
      (state.ring channel).low < high →
      Move kind state { state with receiver := .emptying channel message }
  | skip (channel : Fin count) (rest : List (Fin count)) (high : Int) :
      state.receiver = .checking channel rest high →
      (state.ring channel).get (state.ring channel).low = none ∨ high ≤ (state.ring channel).low →
      Move kind state { state with receiver := .trying rest }
  | empty (channel : Fin count) (message : Msg) :
      state.receiver = .emptying channel message →
      Move kind state { state with
        ring := update state.ring channel (state.ring channel).clear
        receiver := .advancing channel message }
  | advance (channel : Fin count) (message : Msg) :
      state.receiver = .advancing channel message →
      Move kind state { state with
        ring := update state.ring channel (state.ring channel).advance
        receiver := .received message }
  | listen (signal : Signal.State Fiber) :
      state.receiver = .waiting → Signal.Move state.signal .moveWaiter signal →
      Move kind state { state with
        signal
        receiver := if signal.self = .outside then .trying (List.finRange count) else .waiting }

theorem send_moves (stepped : step kind state (.send fiber channel message) = some after) :
    Move kind state after := by
  simp only [step] at stepped
  split at stepped
  · cases phase : state.sender fiber <;> simp only [phase, reduceCtorEq] at stepped
    all_goals
      cases stepped
      refine .stroll fiber _ (by simp [phase]) ?_ ?_ ?_
      · cases kind channel <;> simp [Kind.entry]
      · intro other
        cases kind channel <;> simp [Kind.entry, SenderPhase.position, phase]
      · cases kind channel <;> simp [Kind.entry, SenderPhase.Fits]
  · cases stepped

attribute [local grind intro] Move

theorem moveSender_moves
    (stepped : moveSender state fiber fails = some after) : Move kind state after := by
  cases phase : state.sender fiber <;> simp only [moveSender, phase, reduceCtorEq] at stepped
  case raising =>
    obtain ⟨signal, moved, rfl⟩ := Option.map_eq_some_iff.mp stepped
    exact .raise fiber signal phase (Signal.moveRaiser_moves moved)
  all_goals grind [SenderPhase.position, SenderPhase.Fits]

theorem moveReceiver_moves (stepped : moveReceiver kind state = some after) :
    Move kind state after := by
  rw [moveReceiver] at stepped
  generalize phase : state.receiver = now at stepped
  cases now with
  | outside | received => cases stepped
  | trying rest =>
    cases rest with
    | nil => grind
    | cons channel rest =>
      cases sort : kind channel <;> simp only [sort] at stepped
      case bounded => grind
      all_goals
        cases popped : (state.queue channel).trypop <;> grind [State.available]
  | checking | emptying | advancing => grind
  | waiting =>
    obtain ⟨signal, moved, rfl⟩ := Option.map_eq_some_iff.mp stepped
    exact .listen signal phase (Signal.moveWaiter_moves moved)

theorem step_moves (stepped : step kind state action = some after) : Move kind state after := by
  cases action with
  | send fiber channel message => exact send_moves stepped
  | moveSender fiber fails => exact moveSender_moves stepped
  | receive =>
    cases phase : state.receiver <;>
      simp only [step, phase, reduceCtorEq, Option.some.injEq] at stepped
    all_goals exact stepped ▸ .start (by simp [phase]) (by simp [phase, ReceiverPhase.hollows])
  | moveReceiver => exact moveReceiver_moves stepped

end Moves

/-! What a sender or the receiver knows of a bounded channel stays true. -/

section Buffers

variable {ring : Fin count → RingBuffer Msg} {channel : Fin count}

theorem SenderPhase.Fits.grow {phase : SenderPhase count Msg} (fits : phase.Fits ring)
    (size : next.size = (ring channel).size) (low : (ring channel).low ≤ next.low) :
    phase.Fits (update ring channel next) := by
  cases phase with
  | idle | loading | writing | exchanging | linking | raising | sent => trivial
  | sizing own | probing own =>
    by_cases same : own = channel
    · subst same
      simpa [SenderPhase.Fits] using Int.le_trans fits low
    · simpa [SenderPhase.Fits, update_of_ne same] using fits
  | swapping own =>
    by_cases same : own = channel
    · subst same
      simpa [SenderPhase.Fits, size] using ⟨Int.le_trans fits.1 low, fits.2⟩
    · simpa [SenderPhase.Fits, update_of_ne same] using fits

theorem ReceiverPhase.Fits.grow {phase : ReceiverPhase count Msg}
        (fits : phase.Fits ring)
    (high : (ring channel).high ≤ next.high) (low : next.low = (ring channel).low)
    (front : ∀ found, (ring channel).get (ring channel).low = some found →
      next.get (ring channel).low = some found) :
    phase.Fits (update ring channel next) := by
  cases phase with
  | outside | trying | advancing | waiting | received => trivial
  | checking own =>
    by_cases same : own = channel
    · subst same
      simpa [ReceiverPhase.Fits] using Int.le_trans fits high
    · simpa [ReceiverPhase.Fits, update_of_ne same] using fits
  | emptying own found =>
    by_cases same : own = channel
    · subst same
      have still := Int.lt_of_lt_of_le fits.1 high
      simpa [ReceiverPhase.Fits, low] using ⟨still, front found fits.2⟩
    · simpa [ReceiverPhase.Fits, update_of_ne same] using fits

theorem Buffers.frame (buffers : Buffers state) (ring : after.ring = state.ring)
    (sender : after.sender = state.sender) (receiver : after.receiver = state.receiver) :
    Buffers after where
  ring channel := by
    have kept := buffers.ring channel
    simpa [State.writing, ring, sender, receiver] using kept
  sender fiber := by rw [ring, sender]; exact buffers.sender fiber
  receiver := by rw [ring, receiver]; exact buffers.receiver

theorem Buffers.turn (buffers : Buffers state) (ring : after.ring = state.ring)
    (sender : after.sender = state.sender) (was : ∀ channel, state.receiver.hollows channel = false)
    (now : ∀ channel, after.receiver.hollows channel = false)
    (fits : after.receiver.Fits state.ring) : Buffers after where
  ring channel := by
    have kept := buffers.ring channel
    rw [was] at kept
    simpa [State.writing, ring, sender, now] using kept
  sender fiber := by rw [ring, sender]; exact buffers.sender fiber
  receiver := by rw [ring]; exact fits

theorem empty_buffers (buffers : Buffers state)
    (phase : state.receiver = .emptying channel message) :
    Buffers { state with
      ring := update state.ring channel (state.ring channel).clear
      receiver := .advancing channel message } where
  ring other := by
    have kept := buffers.ring other
    rw [phase] at kept
    by_cases same : other = channel
    · subst same
      have fits := buffers.receiver
      rw [phase] at fits
      simpa [State.writing, ReceiverPhase.hollows] using kept.clear fits.1 fits.2
    · simpa [State.writing, update_of_ne same, ReceiverPhase.hollows, Ne.symm same] using kept
  sender fiber := (buffers.sender fiber).grow (RingBuffer.size_clear _) (Int.le_refl _)
  receiver := trivial

theorem advance_buffers (buffers : Buffers state)
    (phase : state.receiver = .advancing channel message) :
    Buffers { state with
      ring := update state.ring channel (state.ring channel).advance
      receiver := .received message } where
  ring other := by
    have kept := buffers.ring other
    rw [phase] at kept
    by_cases same : other = channel
    · subst same
      simp only [ReceiverPhase.hollows, decide_true] at kept
      simpa [State.writing, ReceiverPhase.hollows] using kept.advance
    · simpa [State.writing, update_of_ne same, ReceiverPhase.hollows, Ne.symm same] using kept
  sender fiber :=
    (buffers.sender fiber).grow (RingBuffer.size_advance _) (by simp [RingBuffer.advance])
  receiver := trivial

variable [DecidableEq Fiber] {fiber : Fiber}

theorem writing_update (channel : Fin count) :
    SenderPhase.position channel ∘ update state.sender fiber phase =
      update (state.writing channel) fiber (phase.position channel) :=
  comp_update _ _ _ _

theorem writing_eq (same : phase.position channel = (state.sender fiber).position channel) :
    SenderPhase.position channel ∘ update state.sender fiber phase = state.writing channel := by
  rw [writing_update, update_eq_self_iff]
  exact same

theorem fits_update
    (others : ∀ other, (state.sender other).Fits ring) (own : phase.Fits ring) (other : Fiber) :
    (update state.sender fiber phase other).Fits ring := by
  by_cases same : other = fiber
  · subst same
    simpa using own
  · simpa [update_of_ne same] using others other

theorem Buffers.stroll (buffers : Buffers state) (ring : after.ring = state.ring)
    (receiver : after.receiver = state.receiver)
    (sender : after.sender = update state.sender fiber phase)
    (same : ∀ channel, phase.position channel = (state.sender fiber).position channel)
    (fits : phase.Fits state.ring) : Buffers after where
  ring channel := by
    have kept := buffers.ring channel
    simpa [State.writing, ring, receiver, sender, writing_eq (same channel)] using kept
  sender other := by rw [ring, sender]; exact fits_update buffers.sender fits other
  receiver := by rw [ring, receiver]; exact buffers.receiver

theorem Buffers.change (buffers : Buffers state)
    (own : next.Sound (update (state.writing channel) fiber (phase.position channel))
      (state.receiver.hollows channel))
    (elsewhere : ∀ other, other ≠ channel →
      phase.position other = (state.sender fiber).position other)
    (fits : phase.Fits (update state.ring channel next))
    (size : next.size = (state.ring channel).size) (low : next.low = (state.ring channel).low)
    (high : (state.ring channel).high ≤ next.high)
    (front : ∀ found, (state.ring channel).get (state.ring channel).low = some found →
      next.get (state.ring channel).low = some found) :
    Buffers { state with
      ring := update state.ring channel next
      sender := update state.sender fiber phase } where
  ring other := by
    by_cases same : other = channel
    · subst same
      simpa [State.writing, writing_update] using own
    · have kept := buffers.ring other
      simpa [State.writing, update_of_ne same, writing_eq (elsewhere other same)] using kept
  sender := fits_update
    (fun other => (buffers.sender other).grow size (Int.le_of_eq low.symm)) fits
  receiver := buffers.receiver.grow high low front

theorem claim_buffers (buffers : Buffers state)
    (phase : state.sender fiber = .swapping channel message low (state.ring channel).high) :
    Buffers { state with
      ring := update state.ring channel (state.ring channel).claim
      sender := update state.sender fiber
        (.writing channel message (state.ring channel).high) } := by
  have fits := buffers.sender fiber
  rw [phase] at fits
  obtain ⟨stale, room⟩ := fits
  have free : (state.ring channel).high < (state.ring channel).low + (state.ring channel).size := by
    omega
  refine buffers.change ?_ ?_ trivial rfl rfl ?_ (fun found there => there)
  · simpa [SenderPhase.position] using (buffers.ring channel).claim free
  · intro other different
    simp [SenderPhase.position, phase, Ne.symm different]
  · simp [RingBuffer.claim]

theorem write_buffers
    (buffers : Buffers state) (phase : state.sender fiber = .writing channel message position) :
    Buffers { state with
      ring := update state.ring channel ((state.ring channel).write position message)
      sender := update state.sender fiber .raising } := by
  have claimed : state.writing channel fiber = some position := by
    simp [State.writing, phase, SenderPhase.position]
  refine buffers.change ?_ ?_ trivial rfl rfl (Int.le_refl _) ?_
  · exact (buffers.ring channel).write claimed
  · intro other different
    simp [SenderPhase.position, phase, Ne.symm different]
  · intro found there
    exact (buffers.ring channel).get_low_write claimed there

theorem position_raised (channel : Fin count) (raiser : Signal.RaiserPhase) :
    (SenderPhase.raised raiser : SenderPhase count Msg).position channel = none := by
  cases raiser <;> rfl

theorem fits_raised (ring : Fin count → RingBuffer Msg) (raiser : Signal.RaiserPhase) :
    (SenderPhase.raised raiser : SenderPhase count Msg).Fits ring := by
  cases raiser <;> trivial

variable [DecidableEq Msg]

theorem Move.buffers (move : Move kind state after) (buffers : Buffers state) : Buffers after := by
  cases move with
  | stroll fiber next _ _ same fits =>
    exact buffers.stroll rfl rfl rfl same (fits (buffers.sender fiber))
  | claim fiber channel message low phase => exact claim_buffers buffers phase
  | write fiber channel message position phase =>
    exact (write_buffers buffers phase).frame rfl rfl rfl
  | exchange fiber channel message phase | link fiber channel message phase =>
    exact buffers.stroll rfl rfl rfl (by simp [phase, SenderPhase.position]) trivial
  | raise fiber signal phase _ =>
    refine buffers.stroll rfl rfl rfl ?_ (fits_raised _ (signal.raiser fiber))
    intro channel
    rw [position_raised, phase]
    rfl
  | start _ was => exact buffers.turn rfl rfl was (fun _ => rfl) trivial
  | wait phase | pop channel rest entry left phase | pass channel rest phase
  | skip channel rest high phase =>
    exact buffers.turn rfl rfl (fun _ => by rw [phase]; rfl) (fun _ => rfl) trivial
  | read channel rest logSize phase =>
    exact buffers.turn rfl rfl (fun _ => by rw [phase]; rfl) (fun _ => rfl) (Int.le_refl _)
  | take channel rest high message phase found filled =>
    have fits := buffers.receiver
    rw [phase] at fits
    exact buffers.turn rfl rfl (fun _ => by rw [phase]; rfl) (fun _ => rfl)
      ⟨Int.lt_of_lt_of_le filled fits, found⟩
  | empty channel message phase => exact empty_buffers buffers phase
  | advance channel message phase => exact advance_buffers buffers phase
  | listen signal phase =>
    refine buffers.turn rfl rfl (fun _ => by rw [phase]; rfl) ?_ ?_
    · intro channel
      split <;> rfl
    · split <;> trivial

end Buffers

/-! Nothing comes into a channel that the receiver has passed without its being
announced. -/

section Listening

theorem Listening.keep (listening : Listening kind state) (signal : after.signal = state.signal)
    (raising : ∀ fiber, after.sender fiber ≠ .raising → state.sender fiber ≠ .raising)
    (waiting : after.receiver ≠ .waiting → state.receiver ≠ .waiting)
    (checking : ∀ channel rest high, after.receiver = .checking channel rest high →
      ∃ logSize, kind channel = .bounded logSize)
    (covered : ∀ channel, after.passed channel → after.available kind channel →
      state.passed channel ∧ state.available kind channel) :
    Listening kind after where
  signal := by rw [signal]; exact listening.signal
  raising fiber calls := by rw [signal]; exact listening.raising fiber (raising fiber calls)
  waiting outside := by rw [signal]; exact listening.waiting (waiting outside)
  checking := checking
  covered channel passed available := by
    rw [signal]
    obtain ⟨before, there⟩ := covered channel passed available
    exact listening.covered channel before there

variable {channel : Fin count}

theorem skip_listening
    (listening : Listening kind state) (phase : state.receiver = .checking channel rest high)
    (nothing : (state.ring channel).get (state.ring channel).low = none ∨
      high ≤ (state.ring channel).low) :
    Listening kind { state with receiver := .trying rest } := by
  refine listening.keep rfl (fun _ => id) (by simp [phase]) (by simp) ?_
  intro other passed available
  by_cases same : other = channel
  · subst same
    rcases nothing with empty | passing
    · obtain ⟨logSize, bounded⟩ := listening.checking _ _ _ phase
      simp [State.available, bounded, RingBuffer.front, empty] at available
    · exact ⟨by simp [State.passed, phase, passing], available⟩
  · have beyond : other ∉ rest := passed
    exact ⟨by simp [State.passed, phase, same, beyond], available⟩

variable [DecidableEq Fiber]
variable {fiber : Fiber}

theorem Listening.publish (listening : Listening kind state) (phase : state.sender fiber ≠ .raising)
    (signal : after.signal = state.signal.goto fiber .exchanging)
    (sender : after.sender = update state.sender fiber .raising)
    (receiver : after.receiver = state.receiver) : Listening kind after where
  signal := by
    rw [signal]
    exact listening.signal.call (listening.raising fiber phase)
  raising other calls := by
    have different : other ≠ fiber := fun same => calls (by simp [sender, same])
    rw [sender, update_of_ne different] at calls
    simpa [signal, Signal.State.goto, update_of_ne different] using listening.raising other calls
  waiting outside := by
    rw [receiver] at outside
    rw [signal]
    exact listening.waiting outside
  checking := by rw [receiver]; exact listening.checking
  covered _ _ _ := .inr ⟨fiber, by simp [signal, Signal.State.goto]⟩

theorem raised_of_idle {Msg : Type}
    (back : (SenderPhase.raised raiser : SenderPhase count Msg) ≠ .raising) :
    raiser.idles := by
  cases raiser with
  | returned => rfl
  | idle | exchanging | resetting | spinning | scheduling => exact absurd rfl back

theorem raise_listening (listening : Listening kind state) (phase : state.sender fiber = .raising)
    (move : Signal.Move state.signal (.moveRaiser fiber) signal) :
    Listening kind { state with
      signal
      sender := update state.sender fiber (.raised (signal.raiser fiber)) } := by
  have waiting : state.receiver ≠ .waiting → signal.self = .outside := fun outside =>
    move.outside (listening.waiting outside)
  refine ⟨move.sound listening.signal, ?_, waiting, listening.checking, ?_⟩
  · intro other calls
    by_cases same : other = fiber
    · subst same
      exact raised_of_idle (by simpa using calls)
    · have calls : state.sender other ≠ .raising := by simpa [update_of_ne same] using calls
      rw [move.raiser_of_ne same]
      exact listening.raising other calls
  · intro channel passed available
    by_cases waits : state.receiver = .waiting
    · have hears : signal.listening := by simpa [State.passed, waits] using passed
      obtain ⟨heard, kept⟩ := move.listening_of_raiser listening.signal hears
      exact kept (listening.covered channel (by simpa [State.passed, waits] using heard) available)
    · have before : state.passed channel := by
        cases receiver : state.receiver with
        | waiting => exact absurd receiver waits
        | outside | emptying | advancing | received => simp [State.passed, receiver] at passed
        | trying | checking => simpa [State.passed, receiver] using passed
      have hears : signal.listening := .inl (by rw [waiting waits]; rfl)
      exact (move.listening_of_raiser listening.signal hears).2
        (listening.covered channel before available)

theorem wait_listening (listening : Listening kind state) (phase : state.receiver = .trying []) :
    Listening kind { state with
      signal := { state.signal with self := .clearing }
      receiver := .waiting } := by
  have outside := listening.waiting (by simp [phase])
  refine ⟨(Signal.Move.wait outside).sound listening.signal, listening.raising, by simp, by simp,
    ?_⟩
  intro channel _ available
  exact listening.covered channel (by simp [State.passed, phase]) available

theorem listen_listening (listening : Listening kind state)
    (phase : state.receiver = .waiting) (move : Signal.Move state.signal .moveWaiter signal) :
    Listening kind { state with
      signal
      receiver := if signal.self = .outside then .trying (List.finRange count) else .waiting } := by
  have raisers : signal.raiser = state.signal.raiser := by cases move <;> rfl
  refine ⟨move.sound listening.signal, ?_, ?_, ?_, ?_⟩
  · rw [raisers]
    exact listening.raising
  · intro back
    by_contra inside
    exact back (if_neg inside)
  · intro channel rest high
    split <;> simp
  · intro channel passed available
    by_cases outside : signal.self = .outside
    · simp [State.passed, outside] at passed
    · have hears : signal.listening := by simpa [State.passed, outside] using passed
      obtain ⟨heard, kept⟩ := move.listening_of_waiter listening.signal outside hears
      exact kept (listening.covered channel (by simpa [State.passed, phase] using heard) available)

theorem claim_listening (buffers : Buffers state) (listening : Listening kind state)
    (phase : state.sender fiber = .swapping channel message low (state.ring channel).high) :
    Listening kind { state with
      ring := update state.ring channel (state.ring channel).claim
      sender := update state.sender fiber
        (.writing channel message (state.ring channel).high) } := by
  have lows : ∀ other, (update state.ring channel (state.ring channel).claim other).low =
      (state.ring other).low := by
    intro other
    by_cases same : other = channel
    · subst same
      simp [RingBuffer.claim]
    · simp [update_of_ne same]
  refine listening.keep rfl ?_ id listening.checking ?_
  · intro other calls
    by_cases same : other = fiber
    · simp [same, phase]
    · simpa [update_of_ne same] using calls
  · intro other passed available
    refine ⟨by simpa [State.passed, lows] using passed, ?_⟩
    cases sort : kind other with
    | unbounded | single => simpa [State.available, sort] using available
    | bounded logSize =>
      simp only [State.available, sort] at available ⊢
      by_cases same : other = channel
      · subst same
        exact (buffers.ring other).front_claim (by simpa using available)
      · simpa [update_of_ne same] using available

theorem exchange_listening
    (listening : Listening kind state) (phase : state.sender fiber = .exchanging channel message) :
    Listening kind { state with
      queue := update state.queue channel ((state.queue channel).exchange (fiber, message))
      sender := update state.sender fiber (.linking channel message) } := by
  refine listening.keep rfl ?_ id listening.checking ?_
  · intro other calls
    by_cases same : other = fiber
    · simp [same, phase]
    · simpa [update_of_ne same] using calls
  · intro other passed available
    refine ⟨passed, ?_⟩
    cases sort : kind other with
    | bounded logSize => simpa [State.available, sort] using available
    | unbounded | single =>
      simp only [State.available, sort] at available ⊢
      by_cases same : other = channel
      · subst same
        simpa using available
      · simpa [update_of_ne same] using available

variable [DecidableEq Msg]

theorem Move.listening (move : Move kind state after) (buffers : Buffers state)
    (listening : Listening kind state) : Listening kind after := by
  cases move with
  | stroll fiber next was now =>
    refine listening.keep rfl ?_ id listening.checking (fun _ passed there => ⟨passed, there⟩)
    intro other calls
    by_cases same : other = fiber
    · rw [same]
      exact was
    · simpa [State.goto, update_of_ne same] using calls
  | claim fiber channel message low phase => exact claim_listening buffers listening phase
  | write fiber channel message position phase | link fiber channel message phase =>
    exact listening.publish (by simp [phase]) rfl rfl rfl
  | exchange fiber channel message phase => exact exchange_listening listening phase
  | raise fiber signal phase move => exact raise_listening listening phase move
  | start outside _ =>
    exact listening.keep rfl (fun _ => id) (fun _ => outside) (by simp) (by simp [State.passed])
  | wait phase => exact wait_listening listening phase
  | read channel rest logSize phase bounded =>
    refine listening.keep rfl (fun _ => id) (by simp [phase]) ?_ ?_
    · intro own _ _ same
      cases same
      exact ⟨logSize, bounded⟩
    · intro other passed available
      rcases passed with ⟨different, beyond⟩ | ⟨rfl, empty⟩
      · exact ⟨by simp [State.passed, phase, different, beyond], available⟩
      · simp [State.available, bounded, RingBuffer.front, Int.not_lt.mpr empty] at available
  | pop channel rest entry left phase =>
    exact listening.keep rfl (fun _ => id) (by simp [phase]) (by simp) (by simp [State.passed])
  | pass channel rest phase nothing =>
    refine listening.keep rfl (fun _ => id) (by simp [phase]) (by simp) ?_
    intro other passed available
    have different : other ≠ channel := by
      rintro rfl
      exact absurd available (by simpa [State.available] using nothing)
    have beyond : other ∉ rest := passed
    exact ⟨by simp [State.passed, phase, different, beyond], available⟩
  | take channel rest high message phase | empty channel message phase
  | advance channel message phase =>
    exact listening.keep rfl (fun _ => id) (by simp [phase]) (by simp) (by simp [State.passed])
  | skip channel rest high phase nothing => exact skip_listening listening phase nothing
  | listen signal phase move => exact listen_listening listening phase move

end Listening

section Runs

theorem init_buffers (kind : Fin count → Kind Fiber) (ready : Bool) :
    Buffers (init kind ready : State Fiber count Msg) where
  ring channel := by
    cases sort : kind channel <;>
      simpa [init, Kind.ring, sort, ReceiverPhase.hollows] using
        RingBuffer.create_sound _ (fun fiber => by simp [State.writing, SenderPhase.position])
  sender _ := trivial
  receiver := trivial

theorem init_listening (kind : Fin count → Kind Fiber) (ready : Bool) :
    Listening kind (init kind ready : State Fiber count Msg) where
  signal := Signal.init_sound ready
  raising _ _ := rfl
  waiting _ := rfl
  checking := by simp [init]
  covered := by simp [init, State.passed]

variable [DecidableEq Fiber] [DecidableEq Msg]

theorem reachable_listening (reachable : (machine Msg kind).Reachable state) :
    Buffers state ∧ Listening kind state := by
  refine reachable.invariant (fun state => Buffers state ∧ Listening kind state) ?_ ?_
  · rintro _ ⟨ready, rfl⟩
    exact ⟨init_buffers kind ready, init_listening kind ready⟩
  · rintro before action after ⟨buffers, listening⟩ stepped
    have move := step_moves stepped
    exact ⟨move.buffers buffers, move.listening buffers listening⟩

/-- When no sender is between the publication of its message and the end of its
raise, a receiver that is parked and unclaimed has nothing to receive. -/
theorem receiver_sleeps (reachable : (machine Msg kind).Reachable state)
    (quiet : ∀ fiber, state.sender fiber ≠ .raising)
    (parked : state.signal.self.asleep) (unclaimed : state.signal.unclaimed) :
    ∀ channel, state.available kind channel = false := by
  obtain ⟨_, listening⟩ := reachable_listening reachable
  have named : state.signal.waiter = .fiber := by simpa [Signal.State.unclaimed] using unclaimed
  have waits : state.receiver = .waiting := by
    by_contra outside
    simp [listening.waiting outside, Signal.WaiterPhase.asleep] at parked
  intro channel
  by_contra missed
  have hears : state.signal.listening := .inr named
  have passed : state.passed channel := by simpa [State.passed, waits] using hears
  rcases listening.covered channel passed (by simpa using missed) with raised | ⟨fiber, calls⟩
  · simp [named] at raised
  · have idles := listening.raising fiber (quiet fiber)
    simp [calls, Signal.RaiserPhase.idles] at idles

def mixed (channel : Fin 2) : Kind Unit := if channel = 0 then .bounded 1 else .unbounded

/-- The receiver goes to sleep, is woken by a message on the bounded channel,
takes it and goes to sleep again. -/
def wokenOnce : List (Action Unit 2 Bool) :=
  List.flatten [.receive :: List.replicate 7 .moveReceiver,
    .send () 0 true :: List.replicate 9 (.moveSender () false),
    List.replicate 6 .moveReceiver, .receive :: List.replicate 7 .moveReceiver]

theorem receiver_sleeps_again : ∃ state : State Unit 2 Bool,
    (machine Bool mixed).Reachable state ∧ (∀ fiber, state.sender fiber ≠ .raising) ∧
      state.signal.self.asleep ∧ state.signal.unclaimed ∧
      (state.ring 0).low = 1 ∧ ∀ channel, state.available mixed channel = false := by
  have run := Machine.run_of_isSome
    (show (machine Bool mixed).initial (init mixed false) from ⟨false, rfl⟩)
    (show ((machine Bool mixed).exec (init mixed false) wokenOnce).isSome by decide +kernel)
  have quiet : ∀ fiber, (((machine Bool mixed).exec (init mixed false) wokenOnce).get
      (by decide +kernel)).sender fiber ≠ .raising := by
    rintro ⟨⟩
    decide +kernel
  exact ⟨_, run.reachable, quiet, by decide +kernel, by decide +kernel, by decide +kernel,
    receiver_sleeps run.reachable quiet (by decide +kernel) (by decide +kernel)⟩

end Runs

end LibFiber.Channel
