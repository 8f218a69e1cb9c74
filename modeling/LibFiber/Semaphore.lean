import LibFiber.Data.LinkedFifo
import LibFiber.Data.MachineInt
import LibFiber.Data.Total
import LibFiber.Semantics.Machine

namespace LibFiber.Semaphore

open Data Semantics Function

/-! The counting semaphore: one `int` counter and an mpmc queue of waiters.

A post that reads a negative counter pops a waiter first and increments the
counter afterwards; one that reads a nonnegative counter only increments it.
-/

inductive Phase where
  | idle
  /-- `wait` decremented below zero; the maintenance step will push the fiber. -/
  | pushing
  | linking
  | parked
  /-- `trywait` about to load the counter. -/
  | trying
  | tryLoaded (counter : Int) (positive : 0 < counter)
  /-- `post_internal` about to load the counter. -/
  | posting
  | postLoaded (prevCounter : Int) (nonnegative : 0 ≤ prevCounter)
  /-- `post_internal` read a negative counter and will try to pop a waiter. -/
  | postWaking
  /-- `post_internal` woke a waiter and still owes the increment. -/
  | postPopped
deriving DecidableEq, Repr

structure State (Fiber : Type) where
  counter : Int
  waiters : LinkedFifo Fiber
  phase : Fiber → Phase

inductive Action (Fiber : Type) where
  | wait (fiber : Fiber)
  | exchange (fiber : Fiber)
  | link (fiber : Fiber)
  | trywait (fiber : Fiber)
  | tryLoad (fiber : Fiber)
  | tryCas (fiber : Fiber) (spurious : Bool)
  | post (fiber : Fiber)
  | postLoad (fiber : Fiber)
  | trypop (fiber : Fiber)
  | postAdd (fiber : Fiber)
  | postCas (fiber : Fiber) (spurious : Bool)
deriving DecidableEq, Repr

def init {Fiber : Type} (value : Int) : State Fiber where
  counter := value
  waiters := .empty
  phase := fun _ => .idle

variable {Fiber : Type} [DecidableEq Fiber]

def State.goto (state : State Fiber) (fiber : Fiber) (next : Phase) : State Fiber :=
  { state with phase := update state.phase fiber next }

def wait (state : State Fiber) (fiber : Fiber) : State Fiber :=
  let val := int32 (state.counter - 1)
  { state with
    counter := val
    phase := update state.phase fiber (if 0 ≤ val then .idle else .pushing) }

def tryLoad (state : State Fiber) (fiber : Fiber) : State Fiber :=
  state.goto fiber
    (if positive : 0 < state.counter then .tryLoaded state.counter positive else .idle)

def tryCas (state : State Fiber) (fiber : Fiber) (counter : Int) (spurious : Bool) : State Fiber :=
  if state.counter = counter ∧ spurious = false then
    { state with counter := int32 (counter - 1), phase := update state.phase fiber .idle }
  else state.goto fiber .trying

/-- `wake_from_mpmc_queue` with count zero: one attempt to pop. -/
def trypop (state : State Fiber) (fiber : Fiber) : State Fiber :=
  match state.waiters.trypop with
  | some (woken, rest) =>
    { state with
      waiters := rest
      phase := update (update state.phase woken .idle) fiber .postPopped }
  | none => state.goto fiber .posting

def postLoad (state : State Fiber) (fiber : Fiber) : State Fiber :=
  state.goto fiber
    (if nonnegative : 0 ≤ state.counter then .postLoaded state.counter nonnegative
      else .postWaking)

def postCas (state : State Fiber) (fiber : Fiber) (prevCounter : Int) (spurious : Bool) :
    State Fiber :=
  if state.counter = prevCounter ∧ spurious = false then
    { state with counter := int32 (prevCounter + 1), phase := update state.phase fiber .idle }
  else state.goto fiber .posting

def step (state : State Fiber) : Action Fiber → Option (State Fiber)
  | .wait fiber => if state.phase fiber = .idle then some (wait state fiber) else none
  | .exchange fiber =>
    if state.phase fiber = .pushing then
      some { state with
        waiters := state.waiters.exchange fiber
        phase := update state.phase fiber .linking }
    else none
  | .link fiber =>
    if state.phase fiber = .linking then
      some { state with
        waiters := state.waiters.link fiber
        phase := update state.phase fiber .parked }
    else none
  | .trywait fiber => if state.phase fiber = .idle then some (state.goto fiber .trying) else none
  | .tryLoad fiber => if state.phase fiber = .trying then some (tryLoad state fiber) else none
  | .tryCas fiber spurious =>
    match state.phase fiber with
    | .tryLoaded counter _ => some (tryCas state fiber counter spurious)
    | _ => none
  | .post fiber => if state.phase fiber = .idle then some (state.goto fiber .posting) else none
  | .postLoad fiber => if state.phase fiber = .posting then some (postLoad state fiber) else none
  | .trypop fiber => if state.phase fiber = .postWaking then some (trypop state fiber) else none
  | .postAdd fiber =>
    if state.phase fiber = .postPopped then
      some { state with
        counter := int32 (state.counter + 1)
        phase := update state.phase fiber .idle }
    else none
  | .postCas fiber spurious =>
    match state.phase fiber with
    | .postLoaded prevCounter _ => some (postCas state fiber prevCounter spurious)
    | _ => none

def machine (Fiber : Type) [DecidableEq Fiber] (value : Int) :
    Machine (State Fiber) (Action Fiber) where
  initial state := state = init value
  step := step

/-- The step lets one wait through: at once, by `trywait`, or from the queue. -/
def admits (state : State Fiber) : Action Fiber → Bool
  | .wait _ => decide (0 ≤ int32 (state.counter - 1))
  | .tryCas fiber spurious =>
    match state.phase fiber with
    | .tryLoaded counter _ => decide (state.counter = counter ∧ spurious = false)
    | _ => false
  | .trypop _ => state.waiters.trypop.isSome
  | _ => false

/-- The step makes one post effective: it pops a waiter, or increments the
counter without one. -/
def takesEffect (state : State Fiber) : Action Fiber → Bool
  | .trypop _ => state.waiters.trypop.isSome
  | .postCas fiber spurious =>
    match state.phase fiber with
    | .postLoaded prevCounter _ => decide (state.counter = prevCounter ∧ spurious = false)
    | _ => false
  | _ => false

abbrev History (Fiber : Type) := List (State Fiber × Action Fiber)

def admitted (history : History Fiber) : Nat :=
  history.countP fun taken => admits taken.1 taken.2

def effective (history : History Fiber) : Nat :=
  history.countP fun taken => takesEffect taken.1 taken.2

omit [DecidableEq Fiber] in
theorem admitted_append (history : History Fiber) (state : State Fiber) (action : Action Fiber) :
    admitted (history ++ [(state, action)]) =
      admitted history + if admits state action then 1 else 0 := by
  simp [admitted, List.countP_append, List.countP_cons]

omit [DecidableEq Fiber] in
theorem effective_append (history : History Fiber) (state : State Fiber) (action : Action Fiber) :
    effective (history ++ [(state, action)]) =
      effective history + if takesEffect state action then 1 else 0 := by
  simp [effective, List.countP_append, List.countP_cons]

/-- The counter has room for the step: a wait does not start from the least
`int` and a post does not increment the greatest. -/
def InRange (state : State Fiber) : Action Fiber → Prop
  | .wait _ => -2 ^ 31 < state.counter
  | .postCas fiber spurious =>
    takesEffect state (.postCas fiber spurious) → state.counter < 2 ^ 31 - 1
  | _ => True

instance (state : State Fiber) : (action : Action Fiber) → Decidable (InRange state action)
  | .wait _ => inferInstanceAs (Decidable (-2 ^ 31 < state.counter))
  | .postCas fiber spurious => inferInstanceAs (Decidable
    (takesEffect state (.postCas fiber spurious) → state.counter < 2 ^ 31 - 1))
  | .exchange _ | .link _ | .trywait _ | .tryLoad _ | .tryCas _ _ | .post _ | .postLoad _
  | .trypop _ | .postAdd _ => inferInstanceAs (Decidable True)

def Phase.waits : Phase → Nat
  | .pushing | .linking | .parked => 1
  | _ => 0

def Phase.owesAdd : Phase → Nat
  | .postPopped => 1
  | _ => 0

section Counts

variable {Fiber : Type} [Fintype Fiber]

/-- Fibers that decremented below zero and are not popped yet. -/
def waiting (state : State Fiber) : Nat :=
  total Phase.waits state.phase

/-- Posts that popped a waiter and have not incremented the counter yet. -/
def owing (state : State Fiber) : Nat :=
  total Phase.owesAdd state.phase

end Counts

section Balance

variable [Fintype Fiber] {value : Int} {state : State Fiber} {history : History Fiber}

/-- Where the permits are.  Together the fields give both bounds on the waits:
no more are admitted than `value` and the effective posts allow, and nobody
waits while the counter is not negative. -/
structure Balance (value : Int) (history : History Fiber) (state : State Fiber) : Prop where
  lower : -2 ^ 31 ≤ state.counter
  upper : state.counter < 2 ^ 31
  debt : (waiting state : Int) + owing state = max 0 (-state.counter)
  permits : state.counter + admitted history + waiting state + owing state =
    value + effective history
  queue : state.waiters.Tracks state.phase (· = .linking) (· = .parked)

theorem counts_update (phase : Fiber → Phase) (fiber : Fiber) (next : Phase) :
    total Phase.waits (update phase fiber next) + (phase fiber).waits =
      total Phase.waits phase + next.waits ∧
    total Phase.owesAdd (update phase fiber next) + (phase fiber).owesAdd =
      total Phase.owesAdd phase + next.owesAdd :=
  ⟨total_update _ _ _ _, total_update _ _ _ _⟩

omit [DecidableEq Fiber] in
theorem init_balance (nonnegative : 0 ≤ value) (int : value < 2 ^ 31) :
    Balance value [] (init value : State Fiber) := by
  have nobody : waiting (init value : State Fiber) = 0 := total_const _ _ rfl
  have clear : owing (init value : State Fiber) = 0 := total_const _ _ rfl
  refine ⟨?_, int, ?_, ?_, .empty (fun _ => by simp [init]) (fun _ => by simp [init])⟩
  · simp only [init]; omega
  · rw [nobody, clear]; simp only [init]; omega
  · rw [nobody, clear]; simp [init, admitted, effective]

section

variable (balance : Balance value history state)
include balance

/-- A fiber's step keeps the balance if it does so by what it adds to each account. -/
theorem Balance.move (lower : -2 ^ 31 ≤ counter) (upper : counter < 2 ^ 31)
    (debt : next.waits + next.owesAdd + max 0 (-state.counter) =
      (state.phase fiber).waits + (state.phase fiber).owesAdd + max 0 (-counter))
    (permits : counter + (if admits state action then 1 else 0) + next.waits + next.owesAdd =
      state.counter + (state.phase fiber).waits + (state.phase fiber).owesAdd +
        if takesEffect state action then 1 else 0)
    (queue : waiters.Tracks (update state.phase fiber next) (· = .linking) (· = .parked)) :
    Balance value (history ++ [(state, action)])
      { counter, waiters, phase := update state.phase fiber next } := by
  obtain ⟨_, _, owed, spent, _⟩ := balance
  obtain ⟨waits, owes⟩ := counts_update state.phase fiber next
  simp only [waiting, owing] at owed spent
  refine ⟨lower, upper, ?_, ?_, queue⟩
  · simp only [waiting, owing]; omega
  · rw [admitted_append, effective_append]
    simp only [waiting, owing]
    split_ifs at permits ⊢ <;> omega

theorem Balance.goto (quiet : admits state action = false) (mute : takesEffect state action = false)
    (sameWaits : next.waits = (state.phase fiber).waits)
    (sameOwes : next.owesAdd = (state.phase fiber).owesAdd)
    (queue : waiters.Tracks (update state.phase fiber next) (· = .linking) (· = .parked)) :
    Balance value (history ++ [(state, action)])
      { state with waiters, phase := update state.phase fiber next } :=
  balance.move balance.lower balance.upper (by rw [sameWaits, sameOwes])
    (by simp [quiet, mute, sameWaits, sameOwes]) queue

theorem wait_balance (idle : state.phase fiber = .idle) (room : -2 ^ 31 < state.counter) :
    Balance value (history ++ [(state, .wait fiber)]) (wait state fiber) := by
  have upper := balance.upper
  have exact : int32 (state.counter - 1) = state.counter - 1 := int32_of_range (by omega) (by omega)
  by_cases free : 0 ≤ state.counter - 1
  · have entered : admits state (.wait fiber) := by
      simpa only [admits, exact] using decide_eq_true free
    simp only [wait, exact, if_pos free]
    apply balance.move
    case debt => simp only [idle]; omega
    case permits => simp [idle, entered, takesEffect]
    case queue => exact balance.queue.update_of_iff (by simp [idle]) (by simp [idle])
    all_goals omega
  · have stopped : admits state (.wait fiber) = false := by
      simpa only [admits, exact] using decide_eq_false free
    simp only [wait, exact, if_neg free]
    apply balance.move
    case debt => simp only [idle, Phase.waits, Phase.owesAdd]; omega
    case permits => simp [idle, stopped, takesEffect, Phase.waits, Phase.owesAdd]
    case queue => exact balance.queue.update_of_iff (by simp [idle]) (by simp [idle])
    all_goals omega

theorem exchange_balance (pushing : state.phase fiber = .pushing) :
    Balance value (history ++ [(state, .exchange fiber)])
      { state with
        waiters := state.waiters.exchange fiber
        phase := update state.phase fiber .linking } := by
  apply balance.goto rfl rfl (by simp [pushing, Phase.waits]) (by simp [pushing, Phase.owesAdd])
  exact balance.queue.exchange (by simp [pushing]) (by simp [pushing]) rfl (by simp)

theorem link_balance (linking : state.phase fiber = .linking) :
    Balance value (history ++ [(state, .link fiber)])
      { state with
        waiters := state.waiters.link fiber
        phase := update state.phase fiber .parked } := by
  apply balance.goto rfl rfl (by simp [linking, Phase.waits]) (by simp [linking, Phase.owesAdd])
  exact balance.queue.link linking rfl (by simp)

theorem tryCas_balance
    (loaded : state.phase fiber = .tryLoaded counter positive) (spurious : Bool) :
    Balance value (history ++ [(state, .tryCas fiber spurious)])
      (tryCas state fiber counter spurious) := by
  have lower := balance.lower
  have upper := balance.upper
  by_cases swapped : state.counter = counter ∧ spurious = false
  · have exact : int32 (counter - 1) = counter - 1 := int32_of_range (by omega) (by omega)
    have entered : admits state (.tryCas fiber spurious) := by
      simpa only [admits, loaded] using decide_eq_true swapped
    simp only [tryCas, if_pos swapped, exact]
    apply balance.move
    case debt => simp only [loaded, Phase.waits, Phase.owesAdd]; omega
    case permits => simp [loaded, entered, takesEffect, swapped.1, Phase.waits, Phase.owesAdd]
    case queue => exact balance.queue.update_of_iff (by simp [loaded]) (by simp [loaded])
    all_goals omega
  · have refused : admits state (.tryCas fiber spurious) = false := by
      simpa only [admits, loaded] using decide_eq_false swapped
    simp only [tryCas, if_neg swapped]
    exact balance.goto refused rfl (by simp [loaded, Phase.waits])
      (by simp [loaded, Phase.owesAdd])
      (balance.queue.update_of_iff (by simp [loaded]) (by simp [loaded]))

theorem postCas_balance (loaded : state.phase fiber = .postLoaded prevCounter nonnegative)
    (spurious : Bool) (room : InRange state (.postCas fiber spurious)) :
    Balance value (history ++ [(state, .postCas fiber spurious)])
      (postCas state fiber prevCounter spurious) := by
  by_cases swapped : state.counter = prevCounter ∧ spurious = false
  · have counts : takesEffect state (.postCas fiber spurious) := by
      simpa only [takesEffect, loaded] using decide_eq_true swapped
    have space := room counts
    have exact : int32 (prevCounter + 1) = prevCounter + 1 := int32_of_range (by omega) (by omega)
    simp only [postCas, if_pos swapped, exact]
    apply balance.move
    case debt => simp only [loaded, Phase.waits, Phase.owesAdd]; omega
    case permits => simp [loaded, counts, admits, swapped.1, Phase.waits, Phase.owesAdd]
    case queue => exact balance.queue.update_of_iff (by simp [loaded]) (by simp [loaded])
    all_goals omega
  · have refused : takesEffect state (.postCas fiber spurious) = false := by
      simpa only [takesEffect, loaded] using decide_eq_false swapped
    simp only [postCas, if_neg swapped]
    exact balance.goto rfl refused (by simp [loaded, Phase.waits])
      (by simp [loaded, Phase.owesAdd])
      (balance.queue.update_of_iff (by simp [loaded]) (by simp [loaded]))

theorem trypop_balance (loaded : state.phase fiber = .postWaking) :
    Balance value (history ++ [(state, .trypop fiber)]) (trypop state fiber) := by
  cases popped : state.waiters.trypop with
  | none =>
    simp only [trypop, popped]
    exact balance.goto (by simp [admits, popped]) (by simp [takesEffect, popped])
      (by simp [loaded, Phase.waits]) (by simp [loaded, Phase.owesAdd])
      (balance.queue.update_of_iff (by simp [loaded]) (by simp [loaded]))
  | some taken =>
    obtain ⟨woken, rest⟩ := taken
    obtain ⟨lower, upper, debt, permits, queue⟩ := balance
    have parked := queue.parked_of_trypop popped
    have different : fiber ≠ woken := fun same => by simp [same, parked] at loaded
    have loadedNow : update state.phase woken .idle fiber = .postWaking := by
      rw [update_of_ne different, loaded]
    obtain ⟨waits, owes⟩ := counts_update state.phase woken .idle
    obtain ⟨waitsNow, owesNow⟩ := counts_update (update state.phase woken .idle) fiber .postPopped
    simp only [parked, Phase.waits, Phase.owesAdd] at waits owes
    simp only [loadedNow, Phase.waits, Phase.owesAdd] at waitsNow owesNow
    simp only [waiting, owing] at debt permits
    have freed : rest.Tracks (update state.phase woken .idle) (· = .linking) (· = .parked) :=
      queue.trypop popped (by simp) (by simp)
    simp only [trypop, popped]
    refine ⟨lower, upper, ?_, ?_, freed.update_of_iff (by simp [loadedNow]) (by simp [loadedNow])⟩
    · simp only [waiting, owing]; omega
    · rw [admitted_append, effective_append]
      simp only [waiting, owing, admits, takesEffect, popped, Option.isSome_some, if_true]; omega

theorem postAdd_balance (popped : state.phase fiber = .postPopped) :
    Balance value (history ++ [(state, .postAdd fiber)])
      { state with
        counter := int32 (state.counter + 1)
        phase := update state.phase fiber .idle } := by
  obtain ⟨lower, upper, debt, permits, queue⟩ := balance
  obtain ⟨waits, owes⟩ := counts_update state.phase fiber .idle
  simp only [popped, Phase.waits, Phase.owesAdd] at waits owes
  simp only [waiting, owing] at debt permits
  -- the unit this post owes is part of the debt, so the counter is negative
  have exact : int32 (state.counter + 1) = state.counter + 1 := int32_of_range (by omega) (by omega)
  rw [exact]
  refine ⟨by dsimp only; omega, by dsimp only; omega, ?_, ?_,
    queue.update_of_iff (by simp [popped]) (by simp [popped])⟩
  · simp only [waiting, owing]; omega
  · rw [admitted_append, effective_append]
    simp only [waiting, owing, admits, takesEffect, Bool.false_eq_true, if_false]; omega

theorem step_balance (room : InRange state action) (stepped : step state action = some after) :
    Balance value (history ++ [(state, action)]) after := by
  cases action with
  | wait fiber =>
    obtain ⟨idle, ⟨⟩⟩ := Option.ite_none_right_eq_some.mp stepped
    exact wait_balance balance idle room
  | exchange fiber =>
    obtain ⟨pushing, ⟨⟩⟩ := Option.ite_none_right_eq_some.mp stepped
    exact exchange_balance balance pushing
  | link fiber =>
    obtain ⟨linking, ⟨⟩⟩ := Option.ite_none_right_eq_some.mp stepped
    exact link_balance balance linking
  | trywait fiber | post fiber =>
    obtain ⟨idle, ⟨⟩⟩ := Option.ite_none_right_eq_some.mp stepped
    exact balance.goto rfl rfl (by simp [idle, Phase.waits]) (by simp [idle, Phase.owesAdd])
      (balance.queue.update_of_iff (by simp [idle]) (by simp [idle]))
  | tryLoad fiber =>
    obtain ⟨trying, ⟨⟩⟩ := Option.ite_none_right_eq_some.mp stepped
    unfold tryLoad
    split <;> exact balance.goto rfl rfl (by simp [trying, Phase.waits])
      (by simp [trying, Phase.owesAdd])
      (balance.queue.update_of_iff (by simp [trying]) (by simp [trying]))
  | tryCas fiber spurious =>
    cases loaded : state.phase fiber with
    | tryLoaded counter positive =>
      simp only [step, loaded] at stepped
      cases stepped
      exact tryCas_balance balance loaded spurious
    | _ => simp [step, loaded] at stepped
  | postLoad fiber =>
    obtain ⟨posting, ⟨⟩⟩ := Option.ite_none_right_eq_some.mp stepped
    unfold postLoad
    split <;> exact balance.goto rfl rfl (by simp [posting, Phase.waits])
      (by simp [posting, Phase.owesAdd])
      (balance.queue.update_of_iff (by simp [posting]) (by simp [posting]))
  | trypop fiber =>
    obtain ⟨waking, ⟨⟩⟩ := Option.ite_none_right_eq_some.mp stepped
    exact trypop_balance balance waking
  | postAdd fiber =>
    obtain ⟨popped, ⟨⟩⟩ := Option.ite_none_right_eq_some.mp stepped
    exact postAdd_balance balance popped
  | postCas fiber spurious =>
    cases loaded : state.phase fiber with
    | postLoaded prevCounter nonnegative =>
      simp only [step, loaded] at stepped
      cases stepped
      exact postCas_balance balance loaded spurious room
    | _ => simp [step, loaded] at stepped

end

theorem run_balance (nonnegative : 0 ≤ value) (int : value < 2 ^ 31)
    (run : (machine Fiber value).Run history state)
    (room : ∀ taken ∈ history, InRange taken.1 taken.2) : Balance value history state :=
  Machine.Run.invariant_of_allowed InRange (Balance value)
    (fun _ initial => initial ▸ init_balance nonnegative int)
    (fun _ _ _ _ _ balance room stepped => step_balance balance room stepped) run room

/-- The permits of the semaphore, along every run in which the `int` counter
does not overflow. -/
theorem semaphore_permits (nonnegative : 0 ≤ value) (int : value < 2 ^ 31)
    (run : (machine Fiber value).Run history state)
    (room : ∀ taken ∈ history, InRange taken.1 taken.2) :
    (admitted history : Int) ≤ value + effective history ∧
    (waiting state : Int) + owing state = max 0 (-state.counter) ∧
    (0 ≤ state.counter → waiting state = 0) := by
  obtain ⟨_, _, debt, permits, _⟩ := run_balance nonnegative int run room
  refine ⟨?_, debt, fun free => ?_⟩
  · omega
  · omega

/-- A waiter arrives at an empty semaphore and a post, still owing its
increment, has just popped it. -/
theorem semaphore_permits_popped :
    ∃ state : State (Fin 2), (machine (Fin 2) 0).Reachable state ∧
      state.counter = -1 ∧ (waiting state : Int) + owing state = 1 := by
  have executed : (machine (Fin 2) 0).exec (init 0)
      [.wait 0, .exchange 0, .link 0, .post 1, .postLoad 1, .trypop 1] = some _ := rfl
  have run := Machine.run_of_exec rfl executed
  have bounds := semaphore_permits (by decide) (by decide) run (by decide)
  exact ⟨_, run.reachable, rfl, bounds.2.1⟩

/-- A post on a semaphore that holds the greatest `int` wraps the counter, and
the debt it then reports belongs to nobody. -/
theorem semaphore_permits_overflow :
    ¬ ∀ (history : History (Fin 1)) (state : State (Fin 1)),
      (machine (Fin 1) (2 ^ 31 - 1)).Run history state →
      (admitted history : Int) ≤ 2 ^ 31 - 1 + effective history ∧
      (waiting state : Int) + owing state = max 0 (-state.counter) ∧
      (0 ≤ state.counter → waiting state = 0) := by
  intro claimed
  have executed : (machine (Fin 1) (2 ^ 31 - 1)).exec (init (2 ^ 31 - 1))
      [.post 0, .postLoad 0, .postCas 0 false] = some _ := rfl
  obtain ⟨_, debt, _⟩ := claimed _ _ (Machine.run_of_exec rfl executed)
  exact absurd debt (by decide)

end Balance

end LibFiber.Semaphore
