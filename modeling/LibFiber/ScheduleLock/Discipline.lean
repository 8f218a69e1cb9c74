import LibFiber.ScheduleLock.Callers
import Mathlib.Data.List.Nodup

namespace LibFiber.ScheduleLock

open Semantics RwLock Function

/-! What the callers hold where they wait and where they return. -/

section Calm

variable {Caller : Type} [DecidableEq Caller] {state : State Caller}
variable {caller : Caller} {frame : Frame}

/-- Whether a caller with these locks keeps the others from taking the lock. -/
def conflicts (held : List Mode) : Mode → Bool
  | .read => decide (.write ∈ held)
  | .write => decide (held ≠ [])

/-- No other caller holds the lock in a conflicting mode where one takes it. -/
def unopposed (state : State Caller) (action : Action Caller) (other : Caller) : Bool :=
  match action with
  | .call _ _ => true
  | .move caller =>
    match state.phase caller with
    | .swapping frame snapshot =>
      match frame.rest with
      | .lock mode :: _ =>
        decide (other = caller) || decide (state.word ≠ snapshot) ||
          !conflicts (state.phase other).held mode
      | _ => true
    | _ => true

/-- Nobody waits, and the word counts the callers that hold the lock. -/
structure Calm (state : State Caller) : Prop where
  quiet : ∀ caller frame mode, state.phase caller ≠ .parking frame mode
  waiting : state.word.waitingReaders = 0 ∧ state.word.waitingWriters = 0
  written : state.word.writeLocked ≠ 0 → ∃ caller, .write ∈ (state.phase caller).held
  readers : ∃ holders : List Caller, holders.Nodup ∧
    (∀ caller, caller ∈ holders ↔ .read ∈ (state.phase caller).held) ∧
    state.word.readerCount = BitVec.ofNat 21 holders.length

omit [DecidableEq Caller] in
theorem init_calm : Calm (init : State Caller) where
  quiet := by simp [init]
  waiting := ⟨rfl, rfl⟩
  written := fun locked => absurd rfl locked
  readers := ⟨[], List.nodup_nil, by simp [init, Phase.held, Phase.frame], rfl⟩

theorem quiet_update (calm : Calm state) (quiet : ∀ frame mode, next ≠ .parking frame mode) :
    ∀ other frame mode, update state.phase caller next other ≠ .parking frame mode :=
  (forall_update_iff state.phase (fun _ phase => ∀ frame mode, phase ≠ .parking frame mode)).mpr
    ⟨quiet, fun other _ => calm.quiet other⟩

theorem Calm.goto (calm : Calm state) (quiet : ∀ frame mode, next ≠ .parking frame mode)
    (same : next.held = (state.phase caller).held) :
    Calm { state with lockUsing, phase := update state.phase caller next } := by
  have held : ∀ other, (update state.phase caller next other).held = (state.phase other).held :=
    congrFun (comp_update_of_eq same)
  refine { calm with quiet := quiet_update calm quiet, written := ?_, readers := ?_ }
  · intro locked
    obtain ⟨writer, holds⟩ := calm.written locked
    exact ⟨writer, by rw [held]; exact holds⟩
  · obtain ⟨holders, distinct, members, count⟩ := calm.readers
    exact ⟨holders, distinct, fun other => by rw [held]; exact members other, count⟩

theorem Calm.read (calm : Calm state)
    (phase : state.phase caller = .swapping frame state.word) (nothing : frame.held = []) :
    Calm { state with
      word := { state.word with readerCount := state.word.readerCount + 1 }
      phase := update state.phase caller (.running (frame.next (.lock .read) rest)) } := by
  obtain ⟨holders, distinct, members, count⟩ := calm.readers
  have mine : (state.phase caller).held = [] := by
    rw [phase]
    exact nothing
  have outside : caller ∉ holders := by simp [members, mine]
  refine { calm with quiet := quiet_update calm nofun, written := ?_, readers := ?_ }
  · intro locked
    obtain ⟨writer, holds⟩ := calm.written locked
    have different : writer ≠ caller := by
      intro same
      rw [same, mine] at holds
      cases holds
    exact ⟨writer, by simpa [different] using holds⟩
  · refine ⟨caller :: holders, List.nodup_cons.mpr ⟨outside, distinct⟩, ?_, ?_⟩
    · intro other
      by_cases same : other = caller
      · simp [same, Instr.hold]
      · simpa [same] using members other
    · simp [count, BitVec.ofNat_add]

theorem Calm.write (calm : Calm state) (free : state.word = .free)
    (nothing : frame.held = []) (alone : ∀ other, other ≠ caller → (state.phase other).held = []) :
    Calm { state with
      word := { state.word with writeLocked := 1 }
      phase := update state.phase caller (.running (frame.next (.lock .write) rest)) } := by
  refine { calm with quiet := quiet_update calm nofun, written := ?_, readers := ?_ }
  · intro _
    exact ⟨caller, by simp [Instr.hold]⟩
  · refine ⟨[], List.nodup_nil, ?_, by rw [free]; rfl⟩
    intro other
    by_cases same : other = caller
    · simp [same, Instr.hold, nothing]
    · simp [same, alone other same]

theorem Calm.unread (calm : Calm state)
    (phase : state.phase caller = .swapping frame state.word) (reading : frame.held = [.read]) :
    Calm { state with
      word := { state.word with readerCount := state.word.readerCount - 1 }
      phase := update state.phase caller (.running (frame.next (.unlock .read) rest)) } := by
  obtain ⟨holders, distinct, members, count⟩ := calm.readers
  have mine : (state.phase caller).held = [.read] := by
    rw [phase]
    exact reading
  have inside : caller ∈ holders := by simp [members, mine]
  refine { calm with quiet := quiet_update calm nofun, written := ?_, readers := ?_ }
  · intro locked
    obtain ⟨writer, holds⟩ := calm.written locked
    have different : writer ≠ caller := by
      intro same
      simp [same, mine] at holds
    exact ⟨writer, by simpa [different] using holds⟩
  · refine ⟨holders.erase caller, distinct.erase caller, ?_, ?_⟩
    · intro other
      rw [distinct.mem_erase_iff]
      by_cases same : other = caller
      · simp [same, Instr.hold, reading]
      · simpa [same] using members other
    · have positive := List.length_pos_of_mem inside
      have split : holders.length = holders.length - 1 + 1 := by omega
      rw [List.length_erase_of_mem inside]
      simp only [count]
      rw [split, BitVec.ofNat_add, Nat.add_sub_cancel]
      exact BitVec.add_sub_cancel _ _

theorem Calm.unwrite (calm : Calm state)
    (phase : state.phase caller = .swapping frame state.word) (writing : frame.held = [.write]) :
    Calm { state with
      word := { state.word with writeLocked := 0 }
      phase := update state.phase caller (.running (frame.next (.unlock .write) rest)) } := by
  obtain ⟨holders, distinct, members, count⟩ := calm.readers
  have mine : (state.phase caller).held = [.write] := by
    rw [phase]
    exact writing
  refine { calm with quiet := quiet_update calm nofun, written := ?_, readers := ?_ }
  · exact fun locked => absurd rfl locked
  · refine ⟨holders, distinct, ?_, count⟩
    intro other
    by_cases same : other = caller
    · simp [same, members, mine, Instr.hold, writing]
    · simpa [same] using members other

omit [DecidableEq Caller] in
theorem Sound.returned (sound : Sound state writer) (phase : state.phase caller = .returned frame) :
    frame.held = [] := by
  have ended : frame.rest = [] := by
    have stands := sound.stands caller
    rwa [phase] at stands
  rcases sound.fits caller frame (by rw [phase]; rfl) with ⟨_, nothing⟩ | ⟨going, _⟩
  · exact nothing
  · exact absurd ended going

theorem round_rdunlock (waiting : word.waitingReaders = 0 ∧ word.waitingWriters = 0)
    (round : (Op.unlock .read).round word = .swap next commit) :
    next = { word with readerCount := word.readerCount - 1 } ∧ commit = .released := by
  simp only [Op.round, rdunlock, waiting, ne_eq, not_true_eq_false, if_false, ite_self] at round
  cases round
  exact ⟨by simp [waiting], rfl⟩

theorem round_wrunlock (waiting : word.waitingReaders = 0 ∧ word.waitingWriters = 0)
    (round : (Op.unlock .write).round word = .swap next commit) :
    next = { word with writeLocked := 0 } ∧ commit = .released := by
  simp only [Op.round, wrunlock, waiting, ne_eq, not_true_eq_false, if_false] at round
  cases round
  exact ⟨by simp [waiting], rfl⟩

omit [DecidableEq Caller] in
theorem Calm.free (calm : Calm state) (nobody : ∀ other, (state.phase other).held = []) :
    state.word = .free := by
  obtain ⟨holders, _, members, count⟩ := calm.readers
  have none : holders = [] := by
    rw [List.eq_nil_iff_forall_not_mem]
    intro other member
    have reads := (members other).mp member
    rw [nobody] at reads
    cases reads
  have unlocked : state.word.writeLocked = 0 := by
    by_contra locked
    obtain ⟨other, writes⟩ := calm.written locked
    rw [nobody] at writes
    cases writes
  obtain ⟨readers, writers⟩ := calm.waiting
  cases word : state.word
  simp_all [Word.free]

theorem Calm.lock (calm : Calm state) (phase : state.phase caller = .swapping frame state.word)
    (nothing : frame.held = [])
    (clear : ∀ other, other ≠ caller → conflicts (state.phase other).held mode = false)
    (round : (Op.lock mode).round state.word = .swap word commit) :
    Calm { state with
      word
      phase := update state.phase caller (committed frame (.lock mode) rest mode commit) } := by
  have mine : (state.phase caller).held = [] := by
    rw [phase]
    exact nothing
  cases mode with
  | read =>
    rcases round_rdlock round with ⟨_, used⟩ | ⟨rfl, rfl⟩
    · exfalso
      rcases used with waits | locked | waits
      · exact waits calm.waiting.2
      · obtain ⟨writer, writes⟩ := calm.written locked
        have different : writer ≠ caller := by
          intro same
          rw [same, mine] at writes
          cases writes
        have none := clear writer different
        simp [conflicts, writes] at none
      · exact waits calm.waiting.1
    · exact calm.read phase nothing
  | write =>
    have alone : ∀ other, other ≠ caller → (state.phase other).held = [] := by
      intro other different
      simpa [conflicts] using clear other different
    rcases round_wrlock round with ⟨_, used⟩ | ⟨rfl, free, rfl⟩
    · refine absurd (calm.free fun other => ?_) used
      by_cases same : other = caller
      · rw [same, mine]
      · exact alone other same
    · exact calm.write free nothing alone

theorem Calm.step (calm : Calm state) (sound : Sound state writer)
    (early : ∀ caller frame, (state.phase caller).frame = some frame → frame.Early)
    (moved : Move state caller after)
    (clear : ∀ frame mode rest, state.phase caller = .swapping frame state.word →
      frame.rest = .lock mode :: rest → ∀ other, other ≠ caller →
      conflicts (state.phase other).held mode = false) : Calm after := by
  cases moved with
  | call resting =>
    refine calm.goto nofun ?_
    rcases resting with idle | ⟨frame, returned⟩
    · rw [idle]
      rfl
    · rw [returned]
      exact (sound.returned returned).symm
  | finish phase | enter phase | retry phase | load phase | store phase | proceed phase
  | skip phase =>
    refine calm.goto nofun ?_
    rw [phase]
    rfl
  | @commit frame instr rest op word commit phase pending found round =>
    have fits := sound.fits caller frame (by rw [phase]; rfl)
    cases instr with
    | load | store | guard => simp [Instr.op] at found
    | lock mode =>
      obtain rfl : Op.lock mode = op := Option.some.inj found
      have nothing := (early caller frame (by rw [phase]; rfl)).held fits pending
      exact calm.lock phase nothing (clear frame mode rest phase pending) round
    | unlock mode =>
      obtain rfl : Op.unlock mode = op := Option.some.inj found
      have mine := place_unlock (fits.place pending)
      cases mode with
      | read =>
        obtain ⟨rfl, rfl⟩ := round_rdunlock calm.waiting round
        exact calm.unread phase mine
      | write =>
        obtain ⟨rfl, rfl⟩ := round_wrunlock calm.waiting round
        exact calm.unwrite phase mine

end Calm

section Runs

theorem init_sound : Sound (init : State Caller) none where
  fits := by simp [init, Phase.frame]
  stands := fun _ => trivial
  owned := by simp [init, Phase.held, Phase.frame]
  locked := fun never => absurd rfl never

variable {Caller : Type} [DecidableEq Caller] {state : State Caller}
variable {action : Action Caller} {history : List (State Caller × Action Caller)}

theorem added_spec (stepped : step state action = some after) (allowed : added state action) :
    ∀ frame rest, state.phase action.caller = .running frame → frame.rest = .guard :: rest →
      ¬ frame.val < 0 := by
  intro frame rest phase pending
  cases action with
  | call caller call =>
    rw [Action.caller] at phase
    simp [step, phase] at stepped
  | move caller =>
    rw [Action.caller] at phase
    simp only [added, phase, pending, decide_eq_true_eq] at allowed
    omega

theorem unopposed_spec (stepped : step state action = some after)
    (allowed : ∀ other, unopposed state action other) :
    ∀ frame mode rest, state.phase action.caller = .swapping frame state.word →
      frame.rest = .lock mode :: rest → ∀ other, other ≠ action.caller →
      conflicts (state.phase other).held mode = false := by
  intro frame mode rest phase pending other different
  have clear := allowed other
  cases action with
  | call caller call =>
    rw [Action.caller] at phase
    simp [step, phase] at stepped
  | move caller =>
    rw [Action.caller] at phase different
    simpa [unopposed, phase, pending, different] using clear

theorem run_sound (run : (machine Caller).Run history state) : ∃ writer, Sound state writer := by
  refine run.invariant (fun _ state => ∃ writer, Sound state writer) ?_ ?_
  · intro state initial
    cases initial
    exact ⟨none, init_sound⟩
  · intro history before action after holds stepped
    obtain ⟨writer, sound⟩ := holds
    exact sound.step (step_moves stepped)

theorem run_early (run : (machine Caller).Run history state)
    (allowed : ∀ made ∈ history, added made.1 made.2) :
    ∀ caller frame, (state.phase caller).frame = some frame → frame.Early := by
  refine run.invariant_of_allowed (fun state action => added state action)
    (fun _ state => ∀ caller frame, (state.phase caller).frame = some frame → frame.Early)
    ?_ ?_ allowed
  · intro state initial
    cases initial
    simp [init, Phase.frame]
  · intro history before action after _ early allowed stepped
    exact early_step (step_moves stepped) (added_spec stepped allowed) early

theorem run_calm (run : (machine Caller).Run history state)
    (spared : ∀ made ∈ history, added made.1 made.2)
    (clear : ∀ made ∈ history, ∀ other, unopposed made.1 made.2 other) : Calm state := by
  have both := run.invariant_of_allowed
    (fun state action => added state action ∧ ∀ other, unopposed state action other)
    (fun _ state => (∃ writer, Sound state writer) ∧
      (∀ caller frame, (state.phase caller).frame = some frame → frame.Early) ∧ Calm state)
  refine (both ?_ ?_ fun made member => ⟨spared made member, clear made member⟩).2.2
  · intro state initial
    cases initial
    exact ⟨⟨none, init_sound⟩, by simp [init, Phase.frame], init_calm⟩
  · intro history before action after _ holds allowed stepped
    obtain ⟨⟨writer, sound⟩, early, calm⟩ := holds
    have moved := step_moves stepped
    exact ⟨sound.step moved, early_step moved (added_spec stepped allowed.1) early,
      calm.step sound early moved (unopposed_spec stepped allowed.2)⟩

/-- If no `add_lock` finds `lock_using` negative, a caller that waits holds nothing and
a call that returns holds nothing; and if in addition nobody takes the lock against
another holder, no caller is about to push itself on a queue that was not
initialised. -/
theorem lock_discipline (run : (machine Caller).Run history state)
    (spared : ∀ made ∈ history, added made.1 made.2) :
    (∀ caller frame mode, state.phase caller = .parking frame mode → frame.held = []) ∧
    (∀ caller frame, state.phase caller = .returned frame → frame.held = []) ∧
    ((∀ made ∈ history, ∀ other, unopposed made.1 made.2 other) →
      ∀ caller frame mode, state.phase caller = .parking frame mode →
        state.initialised mode) := by
  obtain ⟨writer, sound⟩ := run_sound run
  have early := run_early run spared
  refine ⟨?_, fun caller frame => sound.returned, ?_⟩
  · intro caller frame mode phase
    have pending : ∃ rest, frame.rest = .lock mode :: rest := by
      have stands := sound.stands caller
      rwa [phase] at stands
    obtain ⟨rest, pending⟩ := pending
    exact (early caller frame (by rw [phase]; rfl)).held
      (sound.fits caller frame (by rw [phase]; rfl)) pending
  · intro clear caller frame mode phase
    exact absurd phase ((run_calm run spared clear).quiet caller frame mode)

end Runs

/-- A reader is in while another one comes, and the flag is set after both. -/
def shared : List (Action Bool) :=
  [.call true .isLockUsing, .move true, .move true, .call false .isLockUsing, .move false,
    .move true, .move false, .move false, .move false, .move false, .move false,
    .move true, .move true, .move true, .call false .setLockStatus, .move false, .move false,
    .move false, .move false, .move false, .move false]

theorem lock_discipline_shared : ∃ history state, (machine Bool).Run history state ∧
    state.lockUsing = 1 ∧ state.word = .free ∧
      ∃ frame, state.phase false = .returned frame ∧ frame.call = .setLockStatus ∧
        frame.held = [] := by
  obtain ⟨state, run, checked⟩ := Machine.run_of_check (show (machine Bool).initial init from rfl)
    (show ((machine Bool).exec init shared).any (fun state => decide (state.lockUsing = 1 ∧
      state.word = .free ∧ state.phase false = .returned ⟨.setLockStatus, [], 0, []⟩)) by
        decide +kernel)
  obtain ⟨flag, free, returned⟩ := of_decide_eq_true checked
  exact ⟨_, state, run, flag, free, _, returned, rfl,
    (lock_discipline run (by decide +kernel)).2.1 false _ returned⟩

/-- The first `add_lock` waits for the lock that it holds, on a queue that was not
initialised; and so does a reader that comes while the flag is set, without any
`add_lock`. -/
theorem lock_discipline_broken :
    (∃ history state, (machine Unit).Run history state ∧ ∃ frame,
      state.phase () = .parking frame .write ∧ frame.held = [.write] ∧
        state.initialised .write = false) ∧
    ∃ history state, (machine Bool).Run history state ∧
      (∀ made ∈ history, added made.1 made.2) ∧ ∃ frame,
        state.phase true = .parking frame .read ∧ state.initialised .read = false := by
  have alone := Machine.run_of_isSome (show (machine Unit).initial init from rfl)
    (show ((machine Unit).exec init ([.call () .addLock] ++ List.replicate 11 (.move ()))).isSome =
      true by decide +kernel)
  have contended := Machine.run_of_isSome (show (machine Bool).initial init from rfl)
    (show ((machine Bool).exec init [.call false .setLockStatus, .move false, .move false,
      .call true .isLockUsing, .move true, .move true]).isSome by decide +kernel)
  exact ⟨⟨_, _, alone, ⟨.addLock, [.lock .write], -1, [.write]⟩, by decide +kernel⟩,
    _, _, contended, by decide +kernel, ⟨.isLockUsing, Call.isLockUsing.program, 0, []⟩,
    by decide +kernel⟩

end LibFiber.ScheduleLock
