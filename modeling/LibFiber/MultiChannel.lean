import LibFiber.Data.Total
import LibFiber.Semantics.Machine

namespace LibFiber.MultiChannel

open Data Semantics Function

/-! The multi channel: a bounded buffer under a mutex, with one list in which
waiting senders and receivers lie on top of each other.

A critical section is one step.  A call that cannot go on puts itself on top of
the list and takes no further step until it is woken; then it tries again.
-/

inductive Kind where
  | send
  | receive
deriving DecidableEq, Repr

def Kind.other : Kind → Kind
  | .send => .receive
  | .receive => .send

theorem Kind.eq_other {kind own : Kind} (different : kind ≠ own) : kind = own.other := by
  cases kind <;> cases own <;> first | rfl | contradiction

/-- A call with its argument.  A message is a pointer, which may be null. -/
inductive Call (Msg : Type) where
  | send (message : Option Msg)
  | receive
deriving DecidableEq, Repr

def Call.kind {Msg : Type} : Call Msg → Kind
  | .send _ => .send
  | .receive => .receive

inductive Phase (Msg : Type) where
  | outside
  | running (call : Call Msg)
  | parked (call : Call Msg)
deriving DecidableEq, Repr

structure State (Fiber Msg : Type) where
  high : Nat
  low : Nat
  waiters : List Fiber
  buffer : Nat → Option Msg
  phase : Fiber → Phase Msg

inductive Action (Fiber Msg : Type) where
  | call (fiber : Fiber) (call : Call Msg)
  /-- One pass through the loop of a call, from `fiber_mutex_lock` on. -/
  | attempt (fiber : Fiber)
deriving DecidableEq, Repr

def init {Fiber Msg : Type} : State Fiber Msg where
  high := 0
  low := 0
  waiters := []
  buffer := fun _ => none
  phase := fun _ => .outside

variable {Fiber Msg : Type} [DecidableEq Fiber]

def State.goto (state : State Fiber Msg) (fiber : Fiber) (next : Phase Msg) : State Fiber Msg :=
  { state with phase := update state.phase fiber next }

def internalWait (state : State Fiber Msg) (fiber : Fiber) (call : Call Msg) : State Fiber Msg :=
  { state with
    waiters := fiber :: state.waiters
    phase := update state.phase fiber (.parked call) }

def Phase.woken : Phase Msg → Phase Msg
  | .parked call => .running call
  | .outside => .outside
  | .running call => .running call

def internalWake (state : State Fiber Msg) : State Fiber Msg :=
  match state.waiters with
  | [] => state
  | toWake :: rest =>
    { state with
      waiters := rest
      phase := update state.phase toWake (state.phase toWake).woken }

/-- `high - low < size`, in 64-bit arithmetic. -/
def State.hasRoom (exponent : Nat) (state : State Fiber Msg) : Bool :=
  (state.high + 2 ^ 64 - state.low) % 2 ^ 64 < 2 ^ exponent

def send (exponent : Nat) (state : State Fiber Msg) (fiber : Fiber) (message : Option Msg) :
    State Fiber Msg :=
  if state.hasRoom exponent then
    let index := state.high &&& (2 ^ exponent - 1)
    (internalWake { state with
      buffer := update state.buffer index message
      high := (state.high + 1) % 2 ^ 64 }).goto fiber .outside
  else internalWait state fiber (.send message)

def receive (exponent : Nat) (state : State Fiber Msg) (fiber : Fiber) : State Fiber Msg :=
  if state.low < state.high then
    let index := state.low &&& (2 ^ exponent - 1)
    (internalWake { state with
      buffer := update state.buffer index none
      low := (state.low + 1) % 2 ^ 64 }).goto fiber .outside
  else internalWait state fiber .receive

def step (exponent : Nat) (state : State Fiber Msg) : Action Fiber Msg → Option (State Fiber Msg)
  | .call fiber call =>
    match state.phase fiber with
    | .outside => some (state.goto fiber (.running call))
    | .running _ | .parked _ => none
  | .attempt fiber =>
    match state.phase fiber with
    | .running (.send message) => some (send exponent state fiber message)
    | .running .receive => some (receive exponent state fiber)
    | .outside | .parked _ => none

/-- A channel created with `power_of_2_size = exponent`. -/
def machine (Fiber Msg : Type) [DecidableEq Fiber] (exponent : Nat) :
    Machine (State Fiber Msg) (Action Fiber Msg) where
  initial state := state = init
  step := step exponent

def Phase.isRunning : Phase Msg → Bool
  | .running _ => true
  | .outside | .parked _ => false

def Phase.isParked : Phase Msg → Bool
  | .parked _ => true
  | .outside | .running _ => false

def Phase.parkedFor (kind : Kind) : Phase Msg → Bool
  | .parked call => call.kind = kind
  | .outside | .running _ => false

/-- If the next wake-up goes to a call of this kind, then no call of the other
kind is waiting. -/
def State.WakesOther (kind : Kind) (state : State Fiber Msg) : Prop :=
  ∀ top ∈ state.waiters.head?, (state.phase top).parkedFor kind →
    ∀ fiber ∈ state.waiters, (state.phase fiber).parkedFor kind.other = false

instance (kind : Kind) (state : State Fiber Msg) : Decidable (state.WakesOther kind) :=
  inferInstanceAs (Decidable (∀ top ∈ state.waiters.head?, (state.phase top).parkedFor kind →
    ∀ fiber ∈ state.waiters, (state.phase fiber).parkedFor kind.other = false))

/-- No sender is woken by a send while a receiver waits, no receiver by a
receive while a sender waits, and the counters do not wrap. -/
def Phase.Fitting (exponent : Nat) (state : State Fiber Msg) : Phase Msg → Prop
  | .running (.send _) =>
    state.hasRoom exponent → state.high + 1 < 2 ^ 64 ∧ state.WakesOther .send
  | .running .receive => state.low < state.high → state.WakesOther .receive
  | .outside | .parked _ => True

instance (exponent : Nat) (state : State Fiber Msg) :
    (phase : Phase Msg) → Decidable (phase.Fitting exponent state)
  | .running (.send _) => inferInstanceAs (Decidable (state.hasRoom exponent →
      state.high + 1 < 2 ^ 64 ∧ state.WakesOther .send))
  | .running .receive => inferInstanceAs (Decidable (state.low < state.high →
      state.WakesOther .receive))
  | .outside | .parked _ => inferInstanceAs (Decidable True)

def Fitting (exponent : Nat) (state : State Fiber Msg) : Action Fiber Msg → Prop
  | .call _ _ => True
  | .attempt fiber => (state.phase fiber).Fitting exponent state

instance (exponent : Nat) (state : State Fiber Msg) :
    (action : Action Fiber Msg) → Decidable (Fitting exponent state action)
  | .call _ _ => inferInstanceAs (Decidable True)
  | .attempt fiber => inferInstanceAs (Decidable ((state.phase fiber).Fitting exponent state))

section Served

variable [Fintype Fiber] {exponent : Nat} {state : State Fiber Msg} {fiber : Fiber}

/-- How many calls of a kind would succeed one after another. -/
def State.open (exponent : Nat) (state : State Fiber Msg) : Kind → Nat
  | .send => state.low + 2 ^ exponent - state.high
  | .receive => state.high - state.low

omit [DecidableEq Fiber] [Fintype Fiber] in
theorem open_with (waiters : List Fiber) (phase : Fiber → Phase Msg) (kind : Kind) :
    ({ state with waiters, phase } : State Fiber Msg).open exponent kind =
      state.open exponent kind := by
  cases kind <;> rfl

def Phase.runs (kind : Kind) : Phase Msg → Nat
  | .running call => if call.kind = kind then 1 else 0
  | .outside | .parked _ => 0

/-- As long as a call waits, enough calls of its kind are on their way to use
everything that is open to them. -/
structure Served (exponent : Nat) (state : State Fiber Msg) : Prop where
  ordered : state.low ≤ state.high
  bounded : state.high ≤ state.low + 2 ^ exponent
  range : state.high < 2 ^ 64
  distinct : state.waiters.Nodup
  listed : ∀ fiber, fiber ∈ state.waiters ↔ (state.phase fiber).isParked
  served : ∀ kind fiber, (state.phase fiber).parkedFor kind →
    state.open exponent kind ≤ total (Phase.runs kind) state.phase

omit [DecidableEq Fiber] in
theorem init_served : Served exponent (init : State Fiber Msg) where
  ordered := Nat.le_refl _
  bounded := Nat.zero_le _
  range := by simp [init]
  distinct := List.nodup_nil
  listed fiber := by simp [init, Phase.isParked]
  served kind fiber parked := by simp [init, Phase.parkedFor] at parked

theorem call_served (served : Served exponent state) (call : Call Msg)
    (outside : state.phase fiber = .outside) :
    Served exponent (state.goto fiber (.running call)) where
  ordered := served.ordered
  bounded := served.bounded
  range := served.range
  distinct := served.distinct
  listed other := by
    simp only [State.goto, served.listed]
    by_cases moved : other = fiber
    · subst moved
      simp [outside, Phase.isParked]
    · rw [update_of_ne moved]
  served kind other parked := by
    have balance := total_update (Phase.runs kind) state.phase fiber (.running call)
    have idle : (state.phase fiber).runs kind = 0 := by rw [outside]; rfl
    have moved : other ≠ fiber := by
      rintro rfl
      simp [State.goto, Phase.parkedFor] at parked
    simp only [State.goto, update_of_ne moved] at parked
    have before := served.served kind other parked
    simp only [State.goto, open_with]
    omega

theorem internalWait_served (served : Served exponent state)
    (running : state.phase fiber = .running call) (closed : state.open exponent call.kind = 0) :
    Served exponent (internalWait state fiber call) where
  ordered := served.ordered
  bounded := served.bounded
  range := served.range
  distinct := by
    have absent : fiber ∉ state.waiters := by simp [served.listed, running, Phase.isParked]
    exact List.nodup_cons.mpr ⟨absent, served.distinct⟩
  listed other := by
    simp only [internalWait, List.mem_cons, served.listed]
    by_cases moved : other = fiber
    · subst moved
      simp [Phase.isParked]
    · simp [moved]
  served kind other parked := by
    rw [internalWait, open_with]
    by_cases own : kind = call.kind
    · rw [own, closed]
      exact Nat.zero_le _
    · have moved : other ≠ fiber := by
        rintro rfl
        simp [internalWait, Phase.parkedFor, Ne.symm own] at parked
      simp only [internalWait, update_of_ne moved] at parked ⊢
      have balance := total_update (Phase.runs kind) state.phase fiber (.parked call)
      have idle : (state.phase fiber).runs kind = 0 := by
        simp [running, Phase.runs, Ne.symm own]
      have before := served.served kind other parked
      omega

theorem parkedFor_eq_true {kind : Kind} {phase : Phase Msg} (parked : phase.parkedFor kind) :
    ∃ call, phase = .parked call ∧ call.kind = kind := by
  cases phase with
  | parked call => exact ⟨call, rfl, by simpa [Phase.parkedFor] using parked⟩
  | outside | running => cases parked

section Finish

variable {call : Call Msg} {moved : State Fiber Msg} {rest : List Fiber}

section

variable (served : Served exponent state)
include served

omit [DecidableEq Fiber] in
theorem Served.woken_kind (wakes : state.WakesOther call.kind)
    (waiting : state.waiters = top :: rest) (standing : state.phase top = .parked waiter)
    (still : state.phase other = .parked asleep) (across : asleep.kind ≠ call.kind) :
    waiter.kind = asleep.kind := by
  by_contra apart
  have own : waiter.kind = call.kind := by
    cases first : waiter.kind <;> cases second : asleep.kind <;> cases third : call.kind <;>
      simp_all
  have none := wakes top (by simp [waiting]) (by simp [standing, Phase.parkedFor, own])
    other ((served.listed other).mpr (by simp [still, Phase.isParked]))
  rw [← Kind.eq_other across, still] at none
  simp [Phase.parkedFor] at none

theorem finish_alone
    (ordered : moved.low ≤ moved.high) (bounded : moved.high ≤ moved.low + 2 ^ exponent)
    (range : moved.high < 2 ^ 64) (sameWaiters : moved.waiters = state.waiters)
    (samePhase : moved.phase = state.phase) (waiting : state.waiters = []) :
    Served exponent (moved.goto fiber .outside) := by
  have nobody : ∀ other, (update state.phase fiber .outside other).isParked = false := by
    intro other
    by_cases same : other = fiber
    · rw [same, update_self]
      rfl
    · rw [update_of_ne same]
      simpa [waiting] using served.listed other
  refine ⟨ordered, bounded, range, ?_, ?_, ?_⟩
  · simp [State.goto, sameWaiters, waiting]
  · intro other
    simp [State.goto, sameWaiters, samePhase, waiting, nobody other]
  · intro kind other parked
    obtain ⟨asleep, still, _⟩ := parkedFor_eq_true parked
    have awake := nobody other
    simp only [State.goto, samePhase] at still
    rw [still] at awake
    cases awake

variable (running : state.phase fiber = .running call)
  (taken : moved.open exponent call.kind + 1 ≤ state.open exponent call.kind)
  (opened : moved.open exponent call.kind.other ≤ state.open exponent call.kind.other + 1)
include running taken opened

theorem Served.open_le (standing : state.phase top = .parked waiter)
    (still : state.phase other = .parked asleep)
    (woken : asleep.kind ≠ call.kind → waiter.kind = asleep.kind) :
    moved.open exponent asleep.kind ≤ total (Phase.runs asleep.kind)
      (update (update state.phase top (.running waiter)) fiber .outside) := by
  have different : fiber ≠ top := by
    rintro rfl
    rw [running] at standing
    cases standing
  have enough := served.served asleep.kind other (by simp [still, Phase.parkedFor])
  have enters := total_update (Phase.runs asleep.kind) state.phase top (.running waiter)
  have leaves := total_update (Phase.runs asleep.kind)
    (update state.phase top (.running waiter)) fiber .outside
  rw [standing] at enters
  rw [update_of_ne different, running] at leaves
  by_cases own : asleep.kind = call.kind
  · simp only [Phase.runs, own, if_true] at enters leaves enough ⊢
    omega
  · have kinds := Kind.eq_other own
    simp only [Phase.runs, woken own, if_true] at enters leaves
    rw [kinds] at enough enters leaves ⊢
    simp only [kinds ▸ Ne.symm own, if_false] at leaves
    omega

variable (ordered : moved.low ≤ moved.high) (bounded : moved.high ≤ moved.low + 2 ^ exponent)
  (range : moved.high < 2 ^ 64) (wakes : state.WakesOther call.kind)
include ordered bounded range wakes

theorem finish_woken (waiting : state.waiters = top :: rest)
    (standing : state.phase top = .parked waiter) :
    Served exponent { moved with
      waiters := rest
      phase := update (update state.phase top (.running waiter)) fiber .outside } := by
  obtain ⟨absent, distinct⟩ := List.nodup_cons.mp (waiting ▸ served.distinct)
  have different : fiber ≠ top := by
    rintro rfl
    rw [running] at standing
    cases standing
  refine ⟨ordered, bounded, range, distinct, ?_, ?_⟩
  · intro other
    have before := served.listed other
    rw [waiting] at before
    by_cases sameFiber : other = fiber
    · subst sameFiber
      rw [running] at before
      simpa [Phase.isParked, different] using before
    · by_cases sameTop : other = top
      · subst sameTop
        simpa [Phase.isParked, sameFiber] using absent
      · simpa [sameFiber, sameTop] using before
  · intro kind other parked
    obtain ⟨asleep, still, rfl⟩ := parkedFor_eq_true parked
    have sameFiber : other ≠ fiber := by
      rintro rfl
      simp at still
    have sameTop : other ≠ top := by
      rintro rfl
      simp [sameFiber] at still
    simp only [update_of_ne sameFiber, update_of_ne sameTop] at still
    rw [open_with]
    exact served.open_le running taken opened standing still
      (served.woken_kind wakes waiting standing still)

/-- A call that succeeds takes one of the places open to its kind, opens one for
the other kind and wakes the top of the list. -/
theorem finish_served (sameWaiters : moved.waiters = state.waiters)
    (samePhase : moved.phase = state.phase) :
    Served exponent ((internalWake moved).goto fiber .outside) := by
  cases waiting : state.waiters with
  | nil =>
    have alone : internalWake moved = moved := by simp [internalWake, sameWaiters, waiting]
    rw [alone]
    exact finish_alone served ordered bounded range sameWaiters samePhase waiting
  | cons top rest =>
    obtain ⟨waiter, standing⟩ : ∃ waiter, state.phase top = .parked waiter := by
      have parked := (served.listed top).mp (by simp [waiting])
      cases standing : state.phase top with
      | parked waiter => exact ⟨waiter, rfl⟩
      | outside | running => simp [standing, Phase.isParked] at parked
    have result : (internalWake moved).goto fiber .outside =
        { moved with
          waiters := rest
          phase := update (update state.phase top (.running waiter)) fiber .outside } := by
      simp [internalWake, State.goto, sameWaiters, samePhase, waiting, standing, Phase.woken]
    rw [result]
    exact finish_woken served running taken opened ordered bounded range wakes waiting standing

end

end Finish

omit [DecidableEq Fiber] in
theorem hasRoom_iff (served : Served exponent state) :
    state.hasRoom exponent ↔ state.high < state.low + 2 ^ exponent := by
  have ordered := served.ordered
  have range := served.range
  have distance : (state.high + 2 ^ 64 - state.low) % 2 ^ 64 = state.high - state.low := by omega
  rw [State.hasRoom, distance, decide_eq_true_iff]
  omega

theorem send_served (served : Served exponent state)
    (running : state.phase fiber = .running (.send message))
    (fitting : Fitting exponent state (.attempt fiber)) :
    Served exponent (send exponent state fiber message) := by
  have bounded := served.bounded
  have ordered := served.ordered
  unfold send
  split
  · rename_i room
    simp only [Fitting, running] at fitting
    obtain ⟨small, wakes⟩ := fitting room
    have free := (hasRoom_iff served).mp room
    have exact : (state.high + 1) % 2 ^ 64 = state.high + 1 := Nat.mod_eq_of_lt small
    simp only [exact]
    apply finish_served served running
    case sameWaiters => rfl
    case samePhase => rfl
    case ordered => dsimp only; omega
    case bounded => dsimp only; omega
    case range => exact small
    case taken => simp only [State.open, Call.kind]; omega
    case opened => simp only [State.open, Call.kind, Kind.other]; omega
    case wakes => exact wakes
  · rename_i full
    rw [hasRoom_iff served] at full
    apply internalWait_served served running
    simp only [State.open, Call.kind]
    omega

theorem receive_served (served : Served exponent state)
    (running : state.phase fiber = .running .receive)
    (fitting : Fitting exponent state (.attempt fiber)) :
    Served exponent (receive exponent state fiber) := by
  have bounded := served.bounded
  have ordered := served.ordered
  have range := served.range
  unfold receive
  split
  · rename_i filled
    simp only [Fitting, running] at fitting
    have exact : (state.low + 1) % 2 ^ 64 = state.low + 1 := Nat.mod_eq_of_lt (by omega)
    apply finish_served served running
    case sameWaiters => rfl
    case samePhase => rfl
    case ordered => dsimp only; omega
    case bounded => dsimp only; omega
    case range => exact range
    case taken => simp only [State.open, Call.kind]; omega
    case opened => simp only [State.open, Call.kind, Kind.other]; omega
    case wakes => exact fitting filled
  · apply internalWait_served served running
    simp only [State.open, Call.kind]
    omega

theorem step_served (served : Served exponent state) (fitting : Fitting exponent state action)
    (stepped : step exponent state action = some after) : Served exponent after := by
  cases action with
  | call fiber call =>
    cases phase : state.phase fiber <;> simp only [step, phase, reduceCtorEq] at stepped
    cases stepped
    exact call_served served call phase
  | attempt fiber =>
    cases phase : state.phase fiber with
    | running call =>
      cases call with
      | send message =>
        simp only [step, phase] at stepped
        cases stepped
        exact send_served served phase fitting
      | receive =>
        simp only [step, phase] at stepped
        cases stepped
        exact receive_served served phase fitting
    | outside | parked => simp only [step, phase, reduceCtorEq] at stepped

theorem run_served (run : (machine Fiber Msg exponent).Run history state)
    (fitting : ∀ taken ∈ history, Fitting exponent taken.1 taken.2) : Served exponent state :=
  Machine.Run.invariant_of_allowed (Fitting exponent) _
    (fun _ initial => initial ▸ init_served)
    (fun _ _ _ _ _ served fitting stepped => step_served served fitting stepped) run fitting

/-- In every run whose wake-ups are all fitting: when every call is parked, a
parked receiver has an empty channel before it and a parked sender a full one. -/
theorem channel_wakeups {history : List (State Fiber Msg × Action Fiber Msg)}
    (run : (machine Fiber Msg exponent).Run history state)
    (fitting : ∀ taken ∈ history, Fitting exponent taken.1 taken.2)
    (still : ∀ fiber, (state.phase fiber).isRunning = false) :
    (∀ fiber, state.phase fiber = .parked .receive → state.high = state.low) ∧
      ∀ fiber message, state.phase fiber = .parked (.send message) →
        state.high = state.low + 2 ^ exponent := by
  have served := run_served run fitting
  have ordered := served.ordered
  have bounded := served.bounded
  have nobody : ∀ kind, total (Phase.runs kind) state.phase = 0 := by
    intro kind
    refine Finset.sum_eq_zero fun fiber _ => ?_
    have idle := still fiber
    cases phase : state.phase fiber with
    | running call => simp [phase, Phase.isRunning] at idle
    | outside | parked => rfl
  refine ⟨fun fiber parked => ?_, fun fiber message parked => ?_⟩
  · have enough := served.served .receive fiber (by simp [parked, Phase.parkedFor, Call.kind])
    simp only [nobody, State.open] at enough
    omega
  · have enough := served.served .send fiber (by simp [parked, Phase.parkedFor, Call.kind])
    simp only [nobody, State.open] at enough
    omega

end Served

/-- Two receivers go to sleep and one message comes.  The receiver that takes it
wakes the other one, which goes to sleep again. -/
def delivered : List (Action (Fin 3) Unit) :=
  [.call 0 .receive, .attempt 0, .call 1 .receive, .attempt 1, .call 2 (.send (some ())),
    .attempt 2, .attempt 1, .attempt 0]

theorem channel_wakeups_delivered : ∃ history state,
    (machine (Fin 3) Unit 1).Run history state ∧ (∀ taken ∈ history, Fitting 1 taken.1 taken.2) ∧
      (∀ fiber, (state.phase fiber).isRunning = false) ∧
      state.phase 0 = .parked .receive ∧ state.high = state.low := by
  have run := Machine.run_of_isSome (show (machine (Fin 3) Unit 1).initial init from rfl)
    (show ((machine (Fin 3) Unit 1).exec init delivered).isSome by decide)
  have fitting : ∀ taken ∈ (machine (Fin 3) Unit 1).trail init delivered,
      Fitting 1 taken.1 taken.2 := by
    decide
  have still : ∀ fiber, ((((machine (Fin 3) Unit 1).exec init delivered).get
      (by decide)).phase fiber).isRunning = false := by
    decide
  have parked : (((machine (Fin 3) Unit 1).exec init delivered).get
      (by decide)).phase 0 = .parked .receive := by
    decide
  exact ⟨_, _, run, fitting, still, parked, (channel_wakeups run fitting still).1 0 parked⟩

/-- Three receivers sleep at an empty channel of two places.  Two messages wake
the upper two; three more senders find the channel full and lie down on top of
the lowest receiver.  Each receive then wakes a sender whose own wake-up goes to
the next sender, which finds the channel full again. -/
def lost : List (Action (Fin 6) Unit) :=
  [.call 0 .receive, .attempt 0, .call 1 .receive, .attempt 1, .call 2 .receive, .attempt 2,
    .call 3 (.send none), .attempt 3, .call 3 (.send none), .attempt 3,
    .call 3 (.send none), .attempt 3, .call 4 (.send none), .attempt 4,
    .call 5 (.send none), .attempt 5,
    .attempt 1, .attempt 5, .attempt 4, .attempt 2, .attempt 4, .attempt 3]

theorem channel_wakeups_lost : ∃ history state,
    (machine (Fin 6) Unit 1).Run history state ∧ (∀ fiber, (state.phase fiber).isRunning = false) ∧
      state.phase 0 = .parked .receive ∧ state.high = state.low + 2 := by
  have run := Machine.run_of_isSome (show (machine (Fin 6) Unit 1).initial init from rfl)
    (show ((machine (Fin 6) Unit 1).exec init lost).isSome by decide)
  exact ⟨_, _, run, by decide, by decide, by decide⟩

end LibFiber.MultiChannel
