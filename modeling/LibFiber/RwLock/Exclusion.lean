import LibFiber.RwLock.Machine

namespace LibFiber.RwLock

open Data Semantics Function

variable {Fiber : Type} [Fintype Fiber]

/-- The accounts between the word's counters and the fibers' positions.  A
grant counts twice: the lock is already held on its behalf, and the waiter it
is for has not been popped yet. -/
structure Ledger (counts : Counts) (phase : Fiber → Phase) : Prop where
  locked : ∀ mode, counts.locked mode =
    total (Phase.holds mode) phase + total (Phase.grants mode) phase
  waiting : ∀ mode, total (Phase.commits mode) phase =
    counts.waiting mode + total (Phase.grants mode) phase
  exclusive : counts.writeLocked = 0 ∨ counts.readerCount = 0
  inUse : 0 < counts.waitingReaders ∨ 0 < counts.waitingWriters →
    0 < counts.writeLocked ∨ 0 < counts.readerCount
  single : ∀ mode, total (Phase.wakes mode) phase ≤ 1

/-- What a fiber in the middle of an operation may rely on. -/
def Phase.Sound : Phase → Prop
  | .waking _ left => 0 < left
  | .swapping op snapshot => op.exact snapshot ∧ op.asserts snapshot
  | _ => True

structure Invariant (state : State Fiber) : Prop where
  ledger : Ledger state.word.counts state.phase
  queues : ∀ mode, (state.waiters mode).Tracks state.phase (· = .linking mode) (· = .parked mode)
  sound : ∀ fiber, (state.phase fiber).Sound

theorem wakes_le_grants {phase : Fiber → Phase} (sound : ∀ fiber, (phase fiber).Sound)
    (mode : Mode) : total (Phase.wakes mode) phase ≤ total (Phase.grants mode) phase := by
  refine total_mono fun fiber => ?_
  have busy := sound fiber
  cases found : phase fiber with
  | waking queue left =>
    simp only [found, Phase.Sound] at busy
    simp only [Phase.wakes, Phase.grants]
    split <;> omega
  | _ => simp

variable [DecidableEq Fiber]

theorem tallies_update (phase : Fiber → Phase) (fiber : Fiber) (next : Phase) (mode : Mode) :
    total (Phase.holds mode) (update phase fiber next) + (phase fiber).holds mode =
      total (Phase.holds mode) phase + next.holds mode ∧
    total (Phase.commits mode) (update phase fiber next) + (phase fiber).commits mode =
      total (Phase.commits mode) phase + next.commits mode ∧
    total (Phase.grants mode) (update phase fiber next) + (phase fiber).grants mode =
      total (Phase.grants mode) phase + next.grants mode ∧
    total (Phase.wakes mode) (update phase fiber next) + (phase fiber).wakes mode =
      total (Phase.wakes mode) phase + next.wakes mode :=
  ⟨total_update _ _ _ _, total_update _ _ _ _, total_update _ _ _ _, total_update _ _ _ _⟩

omit [Fintype Fiber] in
theorem sound_update (sound : ∀ fiber, (phase fiber).Sound)
    {fiber : Fiber} {next : Phase} (arrived : next.Sound) (other : Fiber) :
    (update phase fiber next other).Sound := by
  by_cases same : other = fiber
  · rw [same, update_self]
    exact arrived
  · rw [update_of_ne same]
    exact sound other

section Ledger

variable {phase : Fiber → Phase}

theorem Ledger.goto (ledger : Ledger counts phase)
    (same : ∀ mode, next.holds mode = (phase fiber).holds mode ∧
      next.commits mode = (phase fiber).commits mode ∧
      next.grants mode = (phase fiber).grants mode ∧
      next.wakes mode = (phase fiber).wakes mode) :
    Ledger counts (update phase fiber next) := by
  obtain ⟨locked, waiting, exclusive, inUse, single⟩ := ledger
  refine ⟨fun mode => ?_, fun mode => ?_, exclusive, inUse, fun mode => ?_⟩
  all_goals
    have deltas := tallies_update phase fiber next mode
    have kept := same mode
  · have account := locked mode
    omega
  · have account := waiting mode
    omega
  · have account := single mode
    omega

omit [DecidableEq Fiber] in
theorem Ledger.intro (readLocked : counts.readerCount =
      total (Phase.holds .read) phase + total (Phase.grants .read) phase)
    (writeLocked : counts.writeLocked =
      total (Phase.holds .write) phase + total (Phase.grants .write) phase)
    (readWaiting : total (Phase.commits .read) phase =
      counts.waitingReaders + total (Phase.grants .read) phase)
    (writeWaiting : total (Phase.commits .write) phase =
      counts.waitingWriters + total (Phase.grants .write) phase)
    (exclusive : counts.writeLocked = 0 ∨ counts.readerCount = 0)
    (inUse : 0 < counts.waitingReaders ∨ 0 < counts.waitingWriters →
      0 < counts.writeLocked ∨ 0 < counts.readerCount)
    (readSingle : total (Phase.wakes .read) phase ≤ 1)
    (writeSingle : total (Phase.wakes .write) phase ≤ 1) : Ledger counts phase where
  locked mode := by cases mode <;> assumption
  waiting mode := by cases mode <;> assumption
  exclusive := exclusive
  inUse := inUse
  single mode := by cases mode <;> assumption

/-- Every rule of the lock keeps the accounts.  A new round of wake-ups starts
only where no grant is outstanding: the fiber that leaves is then the only one
the lock counts. -/
theorem Ledger.effect (ledger : Ledger counts phase) (bit : counts.writeLocked ≤ 1)
    (sound : ∀ fiber, (phase fiber).Sound) (swapping : phase fiber = .swapping op snapshot)
    (effect : Effect op counts after commit) :
    Ledger after (update phase fiber (commit.phase op.mode)) := by
  have readWakes := wakes_le_grants sound .read
  have writeWakes := wakes_le_grants sound .write
  have locked := And.intro (ledger.locked .read) (ledger.locked .write)
  have waiting := And.intro (ledger.waiting .read) (ledger.waiting .write)
  have single := And.intro (ledger.single .read) (ledger.single .write)
  have deltas := And.intro (tallies_update phase fiber (commit.phase op.mode) .read)
    (tallies_update phase fiber (commit.phase op.mode) .write)
  obtain ⟨_, _, exclusive, inUse, _⟩ := ledger
  rw [swapping] at deltas
  simp only [Counts.locked, Counts.waiting] at locked waiting
  cases effect with
  | readWait contended | writeWait contended | readLeave held alone
  | readToWriter last writers | readToReaders last noWriters readers
  | writeLeave noWriters noReaders | writeToWriter writers
  | writeToReaders noWriters readers =>
    simp at deltas
    refine .intro ?_ ?_ ?_ ?_ ?_ ?_ (by simp; omega) (by simp; omega) <;> simp <;> omega
  | readEnter reads noWriters unlocked noReaders =>
    rcases reads with rfl | rfl <;> simp at deltas <;>
      refine .intro ?_ ?_ ?_ ?_ ?_ ?_ (by simp; omega) (by simp; omega) <;> simp <;> omega
  | writeEnter writes unlocked noHolders noReaders noWriters =>
    rcases writes with rfl | rfl <;> simp at deltas <;>
      refine .intro ?_ ?_ ?_ ?_ ?_ ?_ (by simp; omega) (by simp; omega) <;> simp <;> omega

theorem Ledger.trypop (ledger : Ledger counts phase) (parked : phase woken = .parked mode)
    (waking : phase fiber = .waking mode left) (positive : 0 < left) :
    Ledger counts (update (update phase woken (.holding mode)) fiber
      (if left ≤ 1 then .idle else .waking mode (left - 1))) := by
  have different : fiber ≠ woken := fun same => by simp [same, parked] at waking
  have wakingNow : update phase woken (.holding mode) fiber = .waking mode left := by
    rw [update_of_ne different, waking]
  obtain ⟨locked, waiting, exclusive, inUse, single⟩ := ledger
  refine ⟨fun queue => ?_, fun queue => ?_, exclusive, inUse, fun queue => ?_⟩
  all_goals
    have popped := tallies_update phase woken (.holding mode) queue
    have finished := tallies_update (update phase woken (.holding mode)) fiber
      (if left ≤ 1 then .idle else .waking mode (left - 1)) queue
    have account := And.intro (locked queue) (And.intro (waiting queue) (single queue))
    rw [parked] at popped
    rw [wakingNow] at finished
    by_cases same : mode = queue <;> by_cases last : left ≤ 1 <;>
      simp [same, last] at popped finished ⊢ <;> omega

/-- One for a fiber that holds or awaits the lock. -/
def Phase.involved (phase : Phase) : Nat :=
  (phase.holds .read + phase.holds .write) + (phase.commits .read + phase.commits .write)

theorem Phase.involved_le_one (phase : Phase) : phase.involved ≤ 1 := by
  unfold Phase.involved
  cases phase with
  | loading op | swapping op =>
    cases op with
    | unlock mode => cases mode <;> simp
    | _ => simp
  | pushing mode | linking mode | parked mode | holding mode => cases mode <;> simp
  | _ => simp

omit [DecidableEq Fiber] in
theorem Ledger.room (ledger : Ledger counts phase) (bound : Fintype.card Fiber < 2 ^ 21)
    (uninvolved : (phase fiber).involved = 0) :
    counts.readerCount + 1 < 2 ^ 21 ∧ counts.waitingReaders + 1 < 2 ^ 21 ∧
      counts.waitingWriters + 1 < 2 ^ 21 := by
  have spare : total Phase.involved phase < Fintype.card Fiber :=
    total_lt_card (fun index => (phase index).involved_le_one) uninvolved
  have split : total Phase.involved phase =
      (total (Phase.holds .read) phase + total (Phase.holds .write) phase) +
        (total (Phase.commits .read) phase + total (Phase.commits .write) phase) := by
    simp only [← total_add]
    rfl
  have locked := ledger.locked .read
  have readers := ledger.waiting .read
  have writers := ledger.waiting .write
  simp only [Counts.locked, Counts.waiting] at locked readers writers
  omega

omit [DecidableEq Fiber] in
theorem Ledger.load (ledger : Ledger word.counts phase)
    (bound : Fintype.card Fiber < 2 ^ 21) (loading : phase fiber = .loading op) :
    op.exact word ∧ op.asserts word := by
  obtain ⟨locked, _, exclusive, _, _⟩ := id ledger
  cases op with
  | lock mode =>
    obtain ⟨readers, waiters, writers⟩ := ledger.room bound (by rw [loading]; rfl)
    cases mode with
    | read =>
      refine ⟨?_, trivial⟩
      simp only [Op.exact]
      split <;> assumption
    | write => exact ⟨fun _ => writers, trivial⟩
  | trylock mode =>
    obtain ⟨readers, _, _⟩ := ledger.room bound (by rw [loading]; rfl)
    cases mode with
    | read => exact ⟨fun _ => readers, trivial⟩
    | write => exact ⟨trivial, trivial⟩
  | unlock mode =>
    have held := le_total (Phase.holds mode) phase fiber
    have counted := locked mode
    rw [loading] at held
    simp only [Phase.holds, if_true] at held
    cases mode with
    | read =>
      have positive : 0 < word.readerCount.toNat := by
        simp only [Counts.locked, Word.counts] at counted
        omega
      have free : word.writeLocked.toNat = 0 := by
        simp only [Word.counts] at exclusive
        omega
      exact ⟨⟨positive, fun _ => toNat_pos.mpr⟩, positive, toNat_zero.mp free⟩
    | write =>
      have positive : 0 < word.writeLocked.toNat := by
        simp only [Counts.locked, Word.counts] at counted
        omega
      have unread : word.readerCount.toNat = 0 := by
        simp only [Word.counts] at exclusive
        omega
      exact ⟨toNat_pos.mpr, toNat_zero.mp unread, toNat_pos.mp positive⟩

end Ledger

theorem Effect.sound
    (effect : Effect op before after commit) (mode : Mode) : (commit.phase mode).Sound := by
  cases effect <;> simp_all [Phase.Sound]

theorem Word.writeLocked_le_one (word : Word) : word.counts.writeLocked ≤ 1 :=
  Nat.le_of_lt_succ word.writeLocked.isLt

section Preservation

variable {state : State Fiber}

omit [DecidableEq Fiber] in
theorem init_invariant : Invariant (init : State Fiber) where
  ledger := by apply Ledger.intro <;> simp [init, total, Word.counts, Word.free]
  queues mode := .empty (fun _ => by simp [init]) (fun _ => by simp [init])
  sound fiber := trivial

theorem Invariant.goto (invariant : Invariant state)
    (same : ∀ mode, next.holds mode = (state.phase fiber).holds mode ∧
      next.commits mode = (state.phase fiber).commits mode ∧
      next.grants mode = (state.phase fiber).grants mode ∧
      next.wakes mode = (state.phase fiber).wakes mode)
    (aside : ∀ mode, (next = .linking mode ↔ state.phase fiber = .linking mode) ∧
      (next = .parked mode ↔ state.phase fiber = .parked mode))
    (sound : next.Sound) : Invariant (state.goto fiber next) where
  ledger := invariant.ledger.goto same
  queues mode := (invariant.queues mode).update_of_iff (aside mode).1 (aside mode).2
  sound := sound_update invariant.sound sound

theorem call_invariant (invariant : Invariant state) (calling : state.phase fiber = op.caller) :
    Invariant (state.goto fiber (.loading op)) := by
  cases op <;>
    exact invariant.goto (by simp [calling, Op.caller]) (by simp [calling, Op.caller]) trivial

theorem load_invariant (bound : Fintype.card Fiber < 2 ^ 21) (invariant : Invariant state)
    (loading : state.phase fiber = .loading op) : Invariant (load state fiber op) := by
  have loaded := invariant.ledger.load bound loading
  unfold load
  cases round : op.round state.word with
  | error =>
    obtain ⟨mode, rfl⟩ := Op.trylock_of_error round
    exact invariant.goto (by simp [loading]) (by simp [loading]) trivial
  | swap next commit =>
    cases op <;> exact invariant.goto (by simp [loading]) (by simp [loading]) loaded

section

variable (invariant : Invariant state)
include invariant

theorem Invariant.effect (swapping : state.phase fiber = .swapping op snapshot) {next : Word}
    {commit : Commit} (effect : Effect op state.word.counts next.counts commit) :
    Invariant { state with
      word := next, phase := update state.phase fiber (commit.phase op.mode) } where
  ledger := invariant.ledger.effect state.word.writeLocked_le_one invariant.sound swapping effect
  queues mode := by
    refine (invariant.queues mode).update_of_iff ?_ ?_ <;>
      cases commit <;> simp [swapping]
  sound := sound_update invariant.sound (effect.sound op.mode)

omit [DecidableEq Fiber] in
theorem swap_effect (swapping : state.phase fiber = .swapping op snapshot)
    (round : op.round snapshot = .swap next commit) (same : state.word.blob = snapshot.blob) :
    Effect op state.word.counts next.counts commit := by
  have sound := invariant.sound fiber
  rw [swapping] at sound
  rw [Word.blob_injective same]
  exact Op.round_effect sound.1 round

theorem cas_invariant (swapping : state.phase fiber = .swapping op snapshot) :
    Invariant (cas state fiber op snapshot) := by
  unfold cas
  cases round : op.round snapshot with
  | error =>
    obtain ⟨mode, rfl⟩ := Op.trylock_of_error round
    exact invariant.goto (by simp [swapping]) (by simp [swapping]) trivial
  | swap next commit =>
    dsimp only
    split
    · rename_i same
      exact invariant.effect swapping (swap_effect invariant swapping round same)
    · cases op <;> exact invariant.goto (by simp [swapping]) (by simp [swapping]) trivial

theorem exchange_invariant (pushing : state.phase fiber = .pushing mode) :
    Invariant { state with
      waiters := update state.waiters mode ((state.waiters mode).exchange fiber)
      phase := update state.phase fiber (.linking mode) } where
  ledger := invariant.ledger.goto (by simp [pushing])
  queues queue := by
    have tracked := invariant.queues queue
    dsimp only
    by_cases same : queue = mode
    · subst same
      rw [update_self]
      exact tracked.exchange (by simp [pushing]) (by simp [pushing]) rfl (by simp)
    · rw [update_of_ne same]
      exact tracked.update_of_iff (by simp [pushing, Ne.symm same]) (by simp [pushing])
  sound := sound_update invariant.sound trivial

theorem link_invariant (linking : state.phase fiber = .linking mode) :
    Invariant { state with
      waiters := update state.waiters mode ((state.waiters mode).link fiber)
      phase := update state.phase fiber (.parked mode) } where
  ledger := invariant.ledger.goto (by simp [linking])
  queues queue := by
    have tracked := invariant.queues queue
    dsimp only
    by_cases same : queue = mode
    · subst same
      rw [update_self]
      exact tracked.link linking rfl (by simp)
    · rw [update_of_ne same]
      exact tracked.update_of_iff (by simp [linking, Ne.symm same])
        (by simp [linking, Ne.symm same])
  sound := sound_update invariant.sound trivial

theorem trypop_invariant (waking : state.phase fiber = .waking mode left) :
    Invariant (trypop state fiber mode left) := by
  unfold trypop
  cases popped : (state.waiters mode).trypop with
  | none => exact invariant
  | some taken =>
    obtain ⟨woken, rest⟩ := taken
    have parked := (invariant.queues mode).parked_of_trypop popped
    have positive : 0 < left := by
      have sound := invariant.sound fiber
      rwa [waking] at sound
    refine ⟨invariant.ledger.trypop parked waking positive, fun queue => ?_, ?_⟩
    · have different : fiber ≠ woken := fun same => by simp [same, parked] at waking
      have wakingNow : update state.phase woken (.holding mode) fiber = .waking mode left := by
        rw [update_of_ne different, waking]
      have tracked := invariant.queues queue
      have freed : (update state.waiters mode rest queue).Tracks
          (update state.phase woken (.holding mode)) (· = .linking queue) (· = .parked queue) := by
        by_cases same : queue = mode
        · subst same
          rw [update_self]
          exact tracked.trypop popped (by simp) (by simp)
        · rw [update_of_ne same]
          exact tracked.update_of_iff (by simp [parked]) (by simp [parked, Ne.symm same])
      apply freed.update_of_iff <;> split <;> simp [wakingNow]
    · have granted : (Phase.holding mode).Sound := trivial
      refine sound_update (sound_update invariant.sound granted) ?_
      split
      · trivial
      · simp only [Phase.Sound]
        omega

end

theorem step_invariant (bound : Fintype.card Fiber < 2 ^ 21) {action : Action Fiber}
    {after : State Fiber} (invariant : Invariant state)
    (stepped : step state action = some after) : Invariant after := by
  cases action with
  | call fiber op =>
    obtain ⟨calling, ⟨⟩⟩ := Option.ite_none_right_eq_some.mp stepped
    exact call_invariant invariant calling
  | load fiber =>
    simp only [step] at stepped
    split at stepped <;> cases stepped
    exact load_invariant bound invariant ‹_›
  | cas fiber =>
    simp only [step] at stepped
    split at stepped <;> cases stepped
    exact cas_invariant invariant ‹_›
  | exchange fiber =>
    simp only [step] at stepped
    split at stepped <;> cases stepped
    exact exchange_invariant invariant ‹_›
  | link fiber =>
    simp only [step] at stepped
    split at stepped <;> cases stepped
    exact link_invariant invariant ‹_›
  | trypop fiber =>
    simp only [step] at stepped
    split at stepped <;> cases stepped
    exact trypop_invariant invariant ‹_›

theorem reachable_invariant (bound : Fintype.card Fiber < 2 ^ 21)
    (reachable : (machine Fiber).Reachable state) : Invariant state :=
  Machine.Reachable.invariant Invariant
    (fun _ initial => initial ▸ init_invariant)
    (fun _ _ _ invariant stepped => step_invariant bound invariant stepped) reachable

theorem step_effect (invariant : Invariant state) (stepped : step state action = some after) :
    after.word = state.word ∨
      ∃ op commit, Effect op state.word.counts after.word.counts commit := by
  cases action with
  | call fiber op =>
    obtain ⟨_, ⟨⟩⟩ := Option.ite_none_right_eq_some.mp stepped
    exact .inl rfl
  | load fiber | trypop fiber =>
    simp only [step, load, trypop] at stepped
    split at stepped <;> cases stepped
    exact .inl (by split <;> rfl)
  | cas fiber =>
    simp only [step] at stepped
    split at stepped <;> cases stepped
    rename_i op snapshot found
    unfold cas
    split
    · exact .inl rfl
    · rename_i next commit round
      split
      · exact .inr ⟨op, commit, swap_effect invariant found round ‹_›⟩
      · exact .inl rfl
  | exchange fiber | link fiber =>
    simp only [step] at stepped
    split at stepped <;> cases stepped
    exact .inl rfl

theorem rwlock_exclusion (bound : Fintype.card Fiber < 2 ^ 21)
    (reachable : (machine Fiber).Reachable state) :
    (state.word.writeLocked = 1 → state.word.readerCount = 0) ∧
    state.word.readerCount.toNat = holders .read state + grants .read state ∧
    state.word.writeLocked.toNat = holders .write state + grants .write state ∧
    (∀ action after, step state action = some after → after.word = state.word ∨
      ∃ op commit, Effect op state.word.counts after.word.counts commit) ∧
    (∀ fiber op snapshot, state.phase fiber = .swapping op snapshot →
      op.exact snapshot ∧ op.asserts snapshot) := by
  have invariant := reachable_invariant bound reachable
  refine ⟨fun locked => ?_, invariant.ledger.locked .read, invariant.ledger.locked .write,
    fun action after stepped => step_effect invariant stepped, fun fiber op snapshot swapping => ?_⟩
  · have exclusive := invariant.ledger.exclusive
    simp only [Word.counts, locked, toNat_zero] at exclusive
    exact exclusive.resolve_left (by decide)
  · have sound := invariant.sound fiber
    rwa [swapping] at sound

/-- The last reader has passed the lock to a writer that has its place in the
queue but no link yet. -/
theorem rwlock_exclusion_granted :
    ∃ state : State (Fin 2), (machine (Fin 2)).Reachable state ∧
      state.word.writeLocked = 1 ∧ state.word.readerCount = 0 ∧
      holders .write state + grants .write state = 1 := by
  have executed : (machine (Fin 2)).exec init
      [.call 0 (.lock .read), .load 0, .cas 0, .call 1 (.lock .write), .load 1, .cas 1,
        .exchange 1, .call 0 (.unlock .read), .load 0, .cas 0] = some _ := rfl
  have reachable := Machine.reachable_of_exec rfl executed
  obtain ⟨exclusive, _, writers, _⟩ := rwlock_exclusion (by decide) reachable
  exact ⟨_, reachable, rfl, exclusive rfl, writers.symm.trans (by decide)⟩

theorem rwlock_wakeups (bound : Fintype.card Fiber < 2 ^ 21)
    (reachable : (machine Fiber).Reachable state) :
    (state.word.waitingReaders ≠ 0 ∨ state.word.waitingWriters ≠ 0 →
      state.word.writeLocked = 1 ∨ 0 < state.word.readerCount.toNat) ∧
    committed .read state = state.word.waitingReaders.toNat + grants .read state ∧
    committed .write state = state.word.waitingWriters.toNat + grants .write state ∧
    ∀ mode left right leftCount rightCount, state.phase left = .waking mode leftCount →
      state.phase right = .waking mode rightCount → left = right := by
  obtain ⟨⟨_, waiting, _, inUse, single⟩, _, _⟩ := reachable_invariant bound reachable
  refine ⟨fun waiters => ?_, waiting .read, waiting .write, ?_⟩
  · simp only [Word.counts, toNat_pos] at inUse
    rcases inUse waiters with written | read
    · exact .inl (by bv_omega)
    · exact .inr (toNat_pos.mpr read)
  · intro mode left right leftCount rightCount leftWakes rightWakes
    exact unique_of_total_le_one (single mode) (by simp [leftWakes]) (by simp [rightWakes])

/-- One reader is granted the lock, and behind a writer another one has
committed to wait since. -/
theorem rwlock_wakeups_late :
    ∃ state : State (Fin 4), (machine (Fin 4)).Reachable state ∧
      state.word.waitingReaders = 1 ∧ committed .read state = 1 + grants .read state ∧
      grants .read state = 1 := by
  have executed : (machine (Fin 4)).exec init
      [.call 0 (.lock .write), .load 0, .cas 0, .call 1 (.lock .read), .load 1, .cas 1,
        .call 0 (.unlock .write), .load 0, .cas 0, .call 2 (.lock .write), .load 2, .cas 2,
        .call 3 (.lock .read), .load 3, .cas 3] = some _ := rfl
  have reachable := Machine.reachable_of_exec rfl executed
  obtain ⟨_, waiting, _, _⟩ := rwlock_wakeups (by decide) reachable
  exact ⟨_, reachable, rfl, waiting, rfl⟩

end Preservation

end LibFiber.RwLock
