import LibFiber.Runtime.Invariant

namespace LibFiber.Runtime

open Data Semantics Function

attribute [local grind =] Function.update_apply

variable {Mgr : Type} {own : Mgr} {state : State Mgr} {place : Fiber Mgr → Place Mgr}

/-- What the fiber on a manager may go on with instead: its frames and new calls. -/
structure State.Reframes (state : State Mgr) (mgr : Mgr) (frames : List (Frame Mgr)) : Prop where
  settled : frames.head? ≠ some (.settle mgr)
  fresh : ∀ frame ∈ frames, frame ∈ state.stack (state.exec mgr) ∨
    (∃ rest, frame = .maintenance mgr rest) ∨
    (∃ queue count wakeCount, frame = .wakeLoop queue count wakeCount) ∨
    ∃ address, frame = .clearLoop address
  loops : ∀ own, .threadLoop own ∈ state.stack (state.exec mgr) → .threadLoop own ∈ frames
  pending : ∀ slot rest, .maintenance mgr rest ∈ state.stack (state.exec mgr) → slot ∈ rest →
    state.slots (mgr, slot) = none ∨ ∃ left, .maintenance mgr left ∈ frames ∧ slot ∈ left

namespace Invariant

section

variable (invariant : Invariant state place)
include invariant

theorem running
    (there : place fiber = .on mgr) : state.exec mgr = fiber ∧ state.fiberState fiber = .running :=
  invariant.placed.held there

theorem shape (mgr : Mgr) :
    Calm (state.stack (state.exec mgr)) ∨
      (state.pc mgr).returns ∧ Fresh mgr (state.stack (state.exec mgr)) := by
  obtain calm | ⟨other, same, returns, fresh⟩ := (invariant.fibers (state.exec mgr)).shape
  · exact .inl calm
  · obtain rfl := invariant.apart other mgr (state.exec mgr) (.inl same) (.inl rfl)
    exact .inr ⟨returns, fresh⟩

theorem settling (top : state.stack (state.exec mgr) = .settle own :: below) :
    own = mgr ∧ ∃ rest, below = .maintenance mgr Slot.all :: rest ∧ Calm rest := by
  obtain calm | ⟨_, fresh⟩ := top ▸ invariant.shape mgr
  · exact absurd List.mem_cons_self calm.settle_not_mem
  · exact fresh.of_settle

theorem maintaining (top : state.stack (state.exec mgr) = .maintenance own rest :: below) :
    own = mgr ∧ rest <:+ Slot.all ∧ Calm below := by
  obtain calm | ⟨_, fresh⟩ := top ▸ invariant.shape mgr
  · exact calm.not_maintenance.elim
  · exact fresh.of_maintenance

theorem calling (top : state.stack (state.exec mgr) = frame :: below)
    (plain : ∀ own, frame ≠ .settle own ∧ ∀ rest, frame ≠ .maintenance own rest) :
    Calm (frame :: below) := by
  obtain calm | ⟨_, fresh⟩ := top ▸ invariant.shape mgr
  · exact calm
  · cases fresh <;> simp at plain

theorem calm (inside : (state.pc mgr).returns = false) :
    Calm (state.stack (state.exec mgr)) := by
  obtain calm | ⟨returns, _⟩ := invariant.shape mgr
  · exact calm
  · grind

theorem free (saved : state.fiberState fiber ≠ .saving)
    (loose : ∀ mgr, place fiber ≠ .on mgr ∧ ∀ slot, place fiber ≠ .slot mgr slot) :
    state.Free fiber := by
  intro mgr tie
  have := (invariant.managers mgr).tied fiber tie
  grind

theorem calm_of_free (free : state.Free fiber) : Calm (state.stack fiber) := by
  obtain calm | ⟨mgr, here, _⟩ := (invariant.fibers fiber).shape
  · exact calm
  · exact absurd (.inl here) (free mgr)

theorem not_keeper (outside : ∀ own, .threadLoop own ∉ state.stack fiber) (own : Mgr) :
    state.maintenanceFiber own ≠ some fiber :=
  fun keeps => outside own ((invariant.managers own).keeper fiber keeps)

theorem slot_eq_none (there : place (state.exec mgr) = .on mgr)
    (past : ∀ rest, .maintenance mgr rest ∈ state.stack (state.exec mgr) → slot ∉ rest) :
    state.slots (mgr, slot) = none := by
  have running := (invariant.running there).2
  cases found : state.slots (mgr, slot) with
  | none => rfl
  | some deferred =>
    have := (invariant.managers mgr).pending slot deferred found
    grind

/-- A step of a thread between two program points that takes the same fibers
along, and may turn the queues of a scheduler around. -/
theorem goto [DecidableEq Mgr] {pc : Pc Mgr} {scheduler : Mgr → Scheduler (Fiber Mgr)}
    {yieldCount : Mgr → Nat} (hand : pc.hand = (state.pc mgr).hand)
    (claimed : pc.claimed = (state.pc mgr).claimed) (enters : pc.enters = (state.pc mgr).enters)
    (calm : pc.returns ∨ Calm (state.stack (state.exec mgr)))
    (saved : ∀ fiber, pc.hand = some fiber → state.fiberState fiber ≠ .saving ∧
      ∀ own caller loop, pc ≠ .stash own caller loop fiber)
    (sound : state.Sound place mgr pc)
    (members : ∀ own, (scheduler own).members = (state.scheduler own).members)
    (froms : ∀ own, ∀ fiber ∈ (state.scheduler own).queue (state.scheduler own).scheduleFrom,
      fiber ∈ (scheduler own).queue (scheduler own).scheduleFrom) :
    Invariant { state with pc := update state.pc mgr pc, scheduler, yieldCount } place := by
  obtain ⟨tied, home, pending, carried, keeper, unkept, _⟩ := invariant.managers mgr
  apply invariant.advance mgr
  · constructor <;> grind
  · apply invariant.placed.congr
    intro fiber spot
    cases spot <;> grind
  · intro own
    rw [members own]
    exact invariant.queued own
  · exact invariant.waiting
  · refine ⟨tied, home, pending, carried, keeper, unkept, ?_⟩
    simp only [update_self]
    exact sound.congr rfl rfl rfl rfl rfl
  · intro fiber touched
    obtain ⟨shape, anchored, owed, dead, loop, lone, idle, unborn, gone, yields, hidden⟩ :=
      invariant.fibers fiber
    constructor
    · obtain calm | ⟨other, here, returns, fresh⟩ := shape
      · exact .inl calm
      · by_cases acting : other = mgr <;> grind
    · intro frame member own anchor
      cases spot : place fiber <;> grind
    all_goals assumption

end

variable [DecidableEq Mgr]

theorem carry (invariant : Invariant state place)
    (source : (place fiber).loose) (loose : target.loose)
    (changed : target ≠ place fiber) (owed : target.owed = 1 → (place fiber).owed = 1)
    (hand : ∀ other, (state.pc mgr).hand = some other → other = fiber)
    (calm : pc.returns ∨ Calm (state.stack (state.exec mgr)))
    (sound : state.Sound (update place fiber target) mgr pc)
    (anchored : ∀ frame ∈ state.stack fiber, ∀ own, frame.anchor = some own →
      State.Home { state with pc := update state.pc mgr pc, scheduler, waiters } fiber own target)
    (lone : ∀ own, state.stack fiber = [.threadLoop own] → target = .hand own)
    (hidden : ∀ wait, target = .waiting wait → state.fiberState fiber = .saving →
      ∃ queue, wait = .mpsc queue)
    (queued : ∀ own, (scheduler own).members.Nodup)
    (waiting : ∀ wait, (waiters wait).Nodup)
    (froms : ∀ own other, other ≠ fiber →
      other ∈ (state.scheduler own).queue (state.scheduler own).scheduleFrom →
      other ∈ (scheduler own).queue (scheduler own).scheduleFrom)
    (placed : Placed (State.Holds { state with pc := update state.pc mgr pc, scheduler, waiters })
      (update place fiber target)) :
    Invariant { state with pc := update state.pc mgr pc, scheduler, waiters }
      (update place fiber target) := by
  have good := invariant.managers mgr
  have held : ∀ other, place other = .hand mgr → other = fiber := by
    intro other inHand
    have := invariant.placed other (.hand mgr)
    grind
  apply invariant.advance mgr
  · constructor <;> grind
  · exact placed
  · exact queued
  · exact waiting
  · refine ⟨?_, good.home, good.pending, good.carried, good.keeper, good.unkept, ?_⟩
    · have := good.tied
      grind
    · simp only [update_self]
      exact sound.congr rfl rfl rfl rfl rfl
  · intro other touched
    obtain ⟨shape, anchored, owed, dead, loop, lone, idle, unborn, gone, yields, hidden⟩ :=
      invariant.fibers other
    constructor
    · obtain calm | ⟨third, here, returns, fresh⟩ := shape
      · exact .inl calm
      · by_cases acting : third = mgr <;> grind
    · intro frame member own anchor
      have := anchored frame member own anchor
      by_cases same : other = fiber
      · grind
      · cases spot : place other <;> grind
    all_goals grind

theorem resume (invariant : Invariant state place)
    (others : ∀ other ≠ mgr, pcs other = state.pc other) (empty : (state.pc mgr).hand = none)
    (hand : (pcs mgr).hand = none) (claimed : (pcs mgr).claimed = (state.pc mgr).claimed)
    (enters : (pcs mgr).enters = (state.pc mgr).enters) (there : place (state.exec mgr) = .on mgr)
    (shape : Calm frames ∨ (pcs mgr).returns ∧ Fresh mgr frames)
    (reframes : state.Reframes mgr frames)
    (sound : State.Sound { state with stack := update state.stack (state.exec mgr) frames } place
      mgr (pcs mgr)) :
    Invariant { state with
      stack := update state.stack (state.exec mgr) frames, pc := pcs, counter } place := by
  obtain ⟨settled, fresh, loops, pending⟩ := reframes
  have good := invariant.managers mgr
  have known := invariant.fibers (state.exec mgr)
  have anchors : ∀ frame ∈ frames, ∀ own, frame.anchor = some own → own = mgr := by
    have := good.home (state.exec mgr) (.inl rfl)
    grind
  have living : .deadEnd ∉ frames := by
    have := known.dead
    grind
  have yields : ∀ current, .yieldLoop current ∈ frames → current = state.exec mgr := by
    have := known.yields
    grind
  have same : ∀ other, (pcs other).hand = (state.pc other).hand ∧
      (pcs other).claimed = (state.pc other).claimed ∧
      (pcs other).enters = (state.pc other).enters := by
    intro other
    by_cases acting : other = mgr <;> grind
  apply invariant.advance mgr
  · constructor <;> grind
  · apply invariant.placed.congr
    intro fiber spot
    cases spot <;> grind
  · exact invariant.queued
  · exact invariant.waiting
  · obtain ⟨tied, home, pending, carried, keeper, unkept, _⟩ := good
    constructor
    case sound => exact sound.congr rfl rfl rfl rfl rfl
    all_goals grind
  · intro fiber touched
    have unheld := invariant.placed fiber (.hand mgr)
    have same : fiber = state.exec mgr := by grind
    subst same
    constructor
    · simp only [update_self]
      exact shape.imp_right fun ⟨returns, fresh⟩ => ⟨mgr, rfl, returns, fresh⟩
    · grind
    · grind
    · grind
    · have := known.loop
      grind
    · intro own lone
      have := fun member => anchors (.threadLoop own) member own rfl
      grind
    all_goals grind

theorem retop (invariant : Invariant state place)
    (returns : (state.pc mgr).returns) (there : place (state.exec mgr) = .on mgr)
    (shape : Calm frames ∨ Fresh mgr frames) (reframes : state.Reframes mgr frames) :
    Invariant { state with
      stack := update state.stack (state.exec mgr) frames, counter } place := by
  have empty : (state.pc mgr).hand = none := by cases point : state.pc mgr <;> grind
  apply invariant.resume (fun _ _ => rfl) empty empty rfl rfl there
    (shape.imp_right fun fresh => ⟨returns, fresh⟩) reframes
  have sound := (invariant.managers mgr).sound
  cases point : state.pc mgr <;> grind

end Invariant

end LibFiber.Runtime
