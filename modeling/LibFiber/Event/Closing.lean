import LibFiber.Data.VersionedList
import LibFiber.Event.Machine

namespace LibFiber.Event.Closing

open Data Semantics Function

/-! The shim of `close` against the blocking shims, on one number.

What is done under the spinlock of the number's `fd_wait_info_t` is one step, up to the
loop of `fiber_event_wake_waiters`, whose rounds are one step each.  What a wait returns
is left out.
-/

/-- What a fiber has to do with the number, and for which of the files that it stood for. -/
inductive Phase where
  | running
  /-- `should_block` has returned 1. -/
  | tested (file : Nat)
  | parked (file : Nat)
deriving DecidableEq, Repr

/-- What is left of a call of `close`. -/
inductive Closer where
  | none
  | clearingFlags
  | closing
deriving DecidableEq, Repr

structure State (Fiber : Type) where
  /-- The file under the number, of the files so far. -/
  file : Option Nat
  files : Nat
  /-- `flags_` has one of the bits that `should_block` tests. -/
  flags : Bool
  events : BitVec 32
  added : Bool
  waiters : Scratch Fiber
  scratch : Fiber → Scratch Fiber
  /-- In `fiber_event_wake_waiters`, with this result. -/
  waking : Option (Scratch Fiber)
  locked : Bool
  /-- Whether `epoll` has the file. -/
  registered : Bool
  closer : Closer
  phase : Fiber → Phase

inductive Action (Fiber : Type) where
  | openFile
  /-- `setup_socket` -/
  | setup
  | shouldBlock (fiber : Fiber)
  /-- `fiber_wait_for_event` up to the switch. -/
  | wait (fiber : Fiber) (events : BitVec 32)
  | refuse (fiber : Fiber) (events : BitVec 32)
  | unlock
  /-- An event that `epoll` has reported for the number. -/
  | handle (reported : BitVec 32)
  /-- A round of `fiber_event_wake_waiters`, or its end. -/
  | wake
  | close
  | closer
deriving DecidableEq, Repr

def init {Fiber : Type} (scratch : Fiber → Scratch Fiber) : State Fiber where
  file := none
  files := 0
  flags := false
  events := 0
  added := false
  waiters := .null
  scratch
  waking := none
  locked := false
  registered := false
  closer := .none
  phase := fun _ => .running

section Steps

variable {Fiber : Type} [DecidableEq Fiber]

omit [DecidableEq Fiber] in
/-- The spinlock can be taken. -/
def State.free (state : State Fiber) : Bool := state.waking.isNone && !state.locked

/-- `fiber_wait_for_event` up to its yield.  `EPOLL_CTL_ADD` fails when no file is open;
nobody looks at what it returns. -/
def State.link (state : State Fiber) (fiber : Fiber) (events : BitVec 32) : State Fiber :=
  { state with
    events := state.events ||| requested events
    added := true
    registered := if state.added then state.registered else state.file.isSome
    scratch := update state.scratch fiber state.waiters
    waiters := .fiber fiber }

omit [DecidableEq Fiber] in
def State.fdClosed (state : State Fiber) : State Fiber :=
  let cleared :=
    if state.events ≠ 0 ∨ state.added then
      { state with registered := false, events := 0, added := false }
    else state
  { cleared with waking := some .closed }

/-- There is no step from a link that is no fiber. -/
def State.wake (state : State Fiber) (result : Scratch Fiber) : Option (State Fiber) :=
  match state.waiters with
  | .fiber toSchedule =>
    some { state with
      waiters := state.scratch toSchedule
      scratch := update state.scratch toSchedule result
      phase := update state.phase toSchedule .running }
  | .null => some { state with waking := none }
  | .closed => none

def step (state : State Fiber) : Action Fiber → Option (State Fiber)
  | .openFile =>
    if state.file = none then
      some { state with file := some state.files, files := state.files + 1 }
    else none
  | .setup =>
    if state.file.isSome ∧ state.closer = .none then some { state with flags := true } else none
  | .shouldBlock fiber =>
    match state.phase fiber, state.flags, state.file with
    | .running, true, some file =>
      some { state with phase := update state.phase fiber (.tested file) }
    | _, _, _ => none
  | .wait fiber events =>
    match state.phase fiber with
    | .tested file =>
      if state.free = true then
        some { state.link fiber events with phase := update state.phase fiber (.parked file) }
      else none
    | _ => none
  | .refuse fiber events =>
    match state.phase fiber with
    | .tested _ =>
      if state.free = true then
        some { state.link fiber events with
          locked := true
          phase := update state.phase fiber .running }
      else none
    | _ => none
  | .unlock => if state.locked = true then some { state with locked := false } else none
  | .handle reported =>
    if state.free = true then
      some { state with
        events := state.events &&& ~~~reported &&& (epollIn ||| epollOut)
        waking := some .null }
    else none
  | .wake => state.waking.bind state.wake
  | .close =>
    if state.file.isSome ∧ state.closer = .none ∧ state.free then
      some { state.fdClosed with closer := .clearingFlags }
    else none
  | .closer =>
    match state.closer with
    | .none => none
    | .clearingFlags =>
      if state.waking = some .closed then none
      else some { state with flags := false, closer := .closing }
    | .closing => some { state with file := none, registered := false, closer := .none }

def machine (Fiber : Type) [DecidableEq Fiber] : Machine (State Fiber) (Action Fiber) where
  initial state := ∃ scratch, state = init scratch
  step := step

/-- Nobody waits for a file whose `close` has begun, and the yields of the waits are
granted. -/
def prompt (state : State Fiber) : Action Fiber → Bool
  | .wait fiber _ =>
    decide (state.closer = .none ∧ state.file.map .tested = some (state.phase fiber))
  | .refuse _ _ => false
  | _ => true

/-- The links lead through those that are parked. -/
structure Listed (scratch : Fiber → Scratch Fiber) (waiters : Scratch Fiber)
    (phase : Fiber → Phase) (parked : List Fiber) : Prop where
  chain : Chain Scratch.fiber scratch waiters parked .null
  distinct : parked.Nodup
  mem_iff : ∀ fiber, fiber ∈ parked ↔ ∃ file, phase fiber = .parked file

/-- Somebody parked has the file to wait for; while it is closed, only until the loop has
come to them. -/
structure Sound (state : State Fiber) : Prop where
  listed : ∃ parked, Listed state.scratch state.waiters state.phase parked
  parked : ∀ fiber file, state.phase fiber = .parked file →
    state.file = some file ∧ (state.closer = .none ∨ state.waking = some .closed)
  waking : state.waking = some .closed → state.closer = .clearingFlags
  added : state.added = state.registered
  opened : state.registered → state.file.isSome
  closing : state.closer ≠ .none → state.registered = false

variable {state after : State Fiber}

omit [DecidableEq Fiber] in
theorem init_sound (scratch : Fiber → Scratch Fiber) : Sound (init scratch) where
  listed := ⟨[], .nil _, List.nodup_nil, by simp [init]⟩
  parked := by simp [init]
  waking := by simp [init]
  added := rfl
  opened := by simp [init]
  closing := by simp [init]

omit [DecidableEq Fiber] in
theorem State.waking_of_free (free : state.free) : state.waking = none := by
  simp only [State.free, Bool.and_eq_true, Option.isNone_iff_eq_none] at free
  exact free.1

theorem Sound.test (sound : Sound state) (running : state.phase fiber = .running) (file : Nat) :
    Sound { state with phase := update state.phase fiber (.tested file) } := by
  have others {other : Fiber} {found : Nat} :
      update state.phase fiber (.tested file) other = .parked found ↔
        state.phase other = .parked found := by
    by_cases own : other = fiber <;> simp [own, running, update_of_ne]
  obtain ⟨parked, listed⟩ := sound.listed
  exact { sound with
    listed := ⟨parked, listed.chain, listed.distinct, by simpa only [others] using listed.mem_iff⟩
    parked := fun other found waits => sound.parked other found (others.mp waits) }

theorem Sound.link (sound : Sound state) (tested : state.phase fiber = .tested file)
    (here : state.file = some file) (calm : state.closer = .none) (free : state.free)
    (events : BitVec 32) :
    Sound { state.link fiber events with
      phase := update state.phase fiber (.parked file) } := by
  obtain ⟨parked, listed⟩ := sound.listed
  have outside : fiber ∉ parked := fun member => by
    obtain ⟨found, waits⟩ := (listed.mem_iff fiber).mp member
    simp [tested] at waits
  have registered : (if state.added then state.registered else state.file.isSome) = true := by
    simp [sound.added, here]
  refine ⟨⟨fiber :: parked, .cons ?_, List.nodup_cons.mpr ⟨outside, listed.distinct⟩, ?_⟩, ?_, ?_,
    registered.symm, fun _ => by rw [State.link, here]; rfl, fun closing => absurd calm closing⟩
  · simpa [State.link] using listed.chain.update_of_notMem outside
  · intro other
    by_cases own : other = fiber
    · simp [own]
    · simp [own, listed.mem_iff other]
  · intro other found waits
    by_cases own : other = fiber
    · simp only [own, update_self, Phase.parked.injEq] at waits
      exact ⟨waits ▸ here, .inl calm⟩
    · exact sound.parked other found (by simpa only [update_of_ne own] using waits)
  · intro waking
    simp [State.link, State.waking_of_free free] at waking

theorem Sound.wake (sound : Sound state)
    (woken : state.wake result = some after) : Sound after := by
  obtain ⟨parked, listed⟩ := sound.listed
  rw [State.wake] at woken
  cases parked with
  | nil =>
    -- the end of the loop: nobody is parked any more
    rw [listed.chain.nil_inv] at woken
    cases woken
    have nobody {fiber : Fiber} {file : Nat} : state.phase fiber ≠ .parked file :=
      fun waits => List.not_mem_nil ((listed.mem_iff fiber).mpr ⟨file, waits⟩)
    exact { sound with
      listed := ⟨[], .nil _, listed.distinct, listed.mem_iff⟩
      parked := fun fiber file waits => absurd waits nobody
      waking := by simp }
  | cons first rest =>
    obtain ⟨start, chain⟩ := listed.chain.cons_inv
    obtain ⟨outside, distinct⟩ := List.nodup_cons.mp listed.distinct
    rw [start] at woken
    cases woken
    exact { sound with
      listed := by
        refine ⟨rest, chain.update_of_notMem outside, distinct, fun fiber => ?_⟩
        by_cases own : fiber = first
        · simp [own, outside]
        · simpa [own, update_of_ne own] using listed.mem_iff fiber
      parked := by
        intro fiber file waits
        by_cases own : fiber = first
        · simp [own] at waits
        · exact sound.parked fiber file (by simpa only [update_of_ne own] using waits) }

omit [DecidableEq Fiber] in
theorem Sound.close (sound : Sound state) :
    Sound { state.fdClosed with closer := .clearingFlags } := by
  have cleared : state.fdClosed.added = false ∧ state.fdClosed.registered = false := by
    rw [State.fdClosed]
    split
    · exact ⟨rfl, rfl⟩
    · next idle =>
      have unused : state.added = false := by simpa using (not_or.mp idle).2
      exact ⟨unused, sound.added ▸ unused⟩
  have kept : state.fdClosed.scratch = state.scratch ∧ state.fdClosed.waiters = state.waiters ∧
      state.fdClosed.phase = state.phase ∧ state.fdClosed.file = state.file := by
    rw [State.fdClosed]
    split <;> exact ⟨rfl, rfl, rfl, rfl⟩
  obtain ⟨scratch, waiters, phase, file⟩ := kept
  obtain ⟨parked, listed⟩ := sound.listed
  refine ⟨⟨parked, ?_, listed.distinct, ?_⟩, ?_, fun _ => rfl,
    cleared.1.trans cleared.2.symm, fun registered => ?_, fun _ => cleared.2⟩
  · simpa only [scratch, waiters] using listed.chain
  · simpa only [phase] using listed.mem_iff
  · intro fiber found waits
    rw [phase] at waits
    exact ⟨file.trans (sound.parked fiber found waits).1, .inr rfl⟩
  · simp [cleared.2] at registered

omit [DecidableEq Fiber] in
theorem Sound.advance (sound : Sound state) (busy : state.closer ≠ .none)
    (done : state.waking ≠ some .closed) {fiber : Fiber} {file : Nat} :
    state.phase fiber ≠ .parked file := by
  intro waits
  rcases (sound.parked fiber file waits).2 with calm | waking
  · exact busy calm
  · exact done waking

theorem step_sound (sound : Sound state) (allowed : prompt state action)
    (stepped : step state action = some after) : Sound after := by
  cases action with
  | openFile =>
    obtain ⟨closed, ⟨⟩⟩ := Option.ite_none_right_eq_some.mp stepped
    exact { sound with
      parked := fun fiber file waits => by simpa [closed] using (sound.parked fiber file waits).1
      opened := fun _ => rfl }
  | setup =>
    obtain ⟨_, ⟨⟩⟩ := Option.ite_none_right_eq_some.mp stepped
    exact { sound with }
  | shouldBlock fiber =>
    rw [step] at stepped
    split at stepped
    · next running _ _ =>
      cases stepped
      exact sound.test running _
    · cases stepped
  | wait fiber events =>
    obtain ⟨calm, current⟩ := of_decide_eq_true allowed
    rw [step] at stepped
    split at stepped
    · next file tested =>
      obtain ⟨free, ⟨⟩⟩ := Option.ite_none_right_eq_some.mp stepped
      exact sound.link tested (by simpa [tested] using current) calm free events
    · cases stepped
  | refuse fiber events => cases allowed
  | unlock =>
    obtain ⟨_, ⟨⟩⟩ := Option.ite_none_right_eq_some.mp stepped
    exact { sound with }
  | handle reported =>
    obtain ⟨free, ⟨⟩⟩ := Option.ite_none_right_eq_some.mp stepped
    exact { sound with
      parked := fun fiber file waits => by
        simpa [State.waking_of_free free] using sound.parked fiber file waits
      waking := by simp }
  | wake =>
    obtain ⟨result, _, woken⟩ := Option.bind_eq_some_iff.mp stepped
    exact sound.wake woken
  | close =>
    obtain ⟨_, ⟨⟩⟩ := Option.ite_none_right_eq_some.mp stepped
    exact sound.close
  | closer =>
    rw [step] at stepped
    generalize stage : state.closer = now at stepped
    cases now with
    | none => cases stepped
    | clearingFlags =>
      obtain ⟨done, ⟨⟩⟩ := Option.ite_none_left_eq_some.mp stepped
      exact { sound with
        parked := fun fiber file waits => absurd waits (sound.advance (by simp [stage]) done)
        waking := fun waking => absurd waking done
        closing := fun _ => sound.closing (by simp [stage]) }
    | closing =>
      cases stepped
      have done : state.waking ≠ some .closed := fun waking => by
        simp [sound.waking waking] at stage
      exact { sound with
        parked := fun fiber file waits => absurd waits (sound.advance (by simp [stage]) done)
        waking := fun waking => absurd waking done
        added := sound.added.trans (sound.closing (by simp [stage]))
        opened := by simp
        closing := fun _ => rfl }

theorem closed_leaves_nothing (history : List (State Fiber × Action Fiber)) (state : State Fiber)
    (run : (machine Fiber).Run history state)
    (allowed : ∀ taken ∈ history, prompt taken.1 taken.2) :
    (∀ fiber file, state.phase fiber = .parked file → state.file = some file) ∧
      (state.added ↔ state.file.isSome ∧ state.registered) := by
  have sound := run.invariant_of_allowed (fun state action => prompt state action)
    _
    (fun _ start => by obtain ⟨scratch, rfl⟩ := start; exact init_sound scratch)
    (fun _ _ _ _ _ sound allowed stepped => step_sound sound allowed stepped) allowed
  refine ⟨fun fiber file waits => (sound.parked fiber file waits).1, ?_⟩
  rw [sound.added]
  exact ⟨fun registered => ⟨sound.opened registered, registered⟩, And.right⟩

end Steps

/-- The next file of the number. -/
theorem closed_leaves_nothing_next : ∃ history, ∃ state : State Nat,
    (machine Nat).Run history state ∧ state.phase 0 = .parked 1 ∧ state.file = some 1 ∧
      (state.added ↔ state.file.isSome ∧ state.registered) := by
  let schedule : List (Action Nat) := [.openFile, .setup, .close, .wake, .closer, .closer,
    .openFile, .setup, .shouldBlock 0, .wait 0 1]
  obtain ⟨state, run, checked⟩ := Machine.run_of_check
    (show (machine Nat).initial (init fun _ => .null) from ⟨_, rfl⟩)
    (show ((machine Nat).exec _ schedule).any
      (fun state => decide (state.phase 0 = .parked 1)) by decide +kernel)
  have parked := of_decide_eq_true checked
  obtain ⟨current, added⟩ := closed_leaves_nothing _ state run (by decide +kernel)
  exact ⟨_, state, run, parked, current 0 1 parked, added⟩

/-- A fiber passes the test, the file is closed, and the fiber waits then.  The file that is
opened next is not registered with `epoll`, but the record says so. -/
theorem closed_leaves_nothing_late : ∃ history, ∃ state : State Nat,
    (machine Nat).Run history state ∧ state.closer = .none ∧ state.phase 0 = .parked 0 ∧
      state.file = some 1 ∧ state.added = true ∧ state.registered = false := by
  obtain ⟨state, run, checked⟩ := Machine.run_of_check
    (show (machine Nat).initial (init fun _ => .null) from ⟨_, rfl⟩)
    (show ((machine Nat).exec _ [.openFile, .setup, .shouldBlock 0, .close, .wake, .closer,
      .closer, .wait 0 1, .openFile]).any (fun state => decide (state.closer = .none ∧
        state.phase 0 = .parked 0 ∧ state.file = some 1 ∧ state.added = true ∧
        state.registered = false)) by decide +kernel)
  exact ⟨_, state, run, of_decide_eq_true checked⟩

end LibFiber.Event.Closing
