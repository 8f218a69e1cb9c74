import LibFiber.Publish.Invariant

namespace LibFiber.Publish

open Data Semantics Function

attribute [local grind =] Function.update_apply

variable {Mgr Queue α : Type}
variable {place : α → Place Mgr Queue}
variable [DecidableEq Mgr]
variable {state : State Mgr Queue α}

theorem Invariant.goto (invariant : Invariant state place) (hand : pc.hand = (state.pc mgr).hand)
    (claimed : pc.claimed = (state.pc mgr).claimed) (enters : pc.enters = (state.pc mgr).enters)
    (settles : pc.settles → (state.pc mgr).settles)
    (leaves : pc.leaves = false → (state.pc mgr).leaves = false ∨ state.toSchedule mgr = none)
    (sound : pc.Sound state.fiberState (state.exec mgr) (state.oldFiber mgr))
    (queued : ∀ mgr, (scheduler mgr).members = (state.scheduler mgr).members)
    (waiting : ∀ queue, (waiters queue).members = (state.waiters queue).members) :
    Invariant { state with pc := update state.pc mgr pc, scheduler, waiters } place := by
  obtain ⟨tied, slotted, _⟩ := invariant.good mgr
  apply invariant.advance mgr
  · constructor <;> grind -linarith
  · apply invariant.placed.congr
    intro f spot
    cases spot <;> grind -linarith
  · intro other
    rw [queued other]
    exact invariant.queued other
  · intro other
    rw [waiting other]
    exact invariant.waiting other
  · exact invariant.unborn
  · constructor
    · grind -linarith
    · grind -linarith
    · simpa using sound

theorem queued_update (invariant : Invariant state place) {scheduler : Scheduler α}
    (distinct : scheduler.members.Nodup) (victim : Mgr) :
    ∀ other, (update state.scheduler victim scheduler other).members.Nodup :=
  (forall_update_iff state.scheduler fun _ scheduler => scheduler.members.Nodup).mpr
    ⟨distinct, fun other _ => invariant.queued other⟩

omit [DecidableEq Mgr] in
theorem waiting_update [DecidableEq Queue] (invariant : Invariant state place)
    {waiters : LinkedFifo α} (distinct : waiters.members.Nodup) (queue : Queue) :
    ∀ other, (update state.waiters queue waiters other).members.Nodup :=
  (forall_update_iff state.waiters fun _ waiters => waiters.members.Nodup).mpr
    ⟨distinct, fun other _ => invariant.waiting other⟩

variable [DecidableEq α]

section

variable (invariant : Invariant state place)
include invariant

theorem Invariant.carry (loose : ∀ other, place fiber ≠ .on other ∧ place fiber ≠ .slot other)
    (settles : pc.settles = false) (stays : (state.pc mgr).leaves = false)
    (sound : pc.Sound state.fiberState (state.exec mgr) (state.oldFiber mgr))
    (queued : ∀ mgr, (scheduler mgr).members.Nodup)
    (waiting : ∀ queue, (waiters queue).members.Nodup)
    (placed : Placed (State.Holds { state with pc := update state.pc mgr pc, scheduler, waiters })
      (update place fiber target)) :
    Invariant { state with pc := update state.pc mgr pc, scheduler, waiters }
      (update place fiber target) := by
  obtain ⟨tied, slotted, _⟩ := invariant.good mgr
  apply invariant.advance mgr
  · constructor <;> grind
  · exact placed
  · exact queued
  · exact waiting
  · exact invariant.unborn
  · constructor
    · grind
    · grind
    · simpa using sound

theorem Invariant.pushBottom (side : Bool)
    (point : state.pc mgr = .schedule fiber ∨ state.pc mgr = .stash fiber ∨
      state.pc mgr = .store fiber)
    (next : pc = .run ∨ pc = .scan)
    (sound : pc.Sound state.fiberState (state.exec mgr) (state.oldFiber mgr)) :
    Invariant { state with
        scheduler := update state.scheduler mgr ((state.scheduler mgr).pushBottom side fiber)
        pc := update state.pc mgr pc } (update place fiber (.queued mgr)) := by
  have spots := fun spot => invariant.placed fiber spot
  have held : place fiber = .hand mgr ∨ place fiber = .claimed mgr := by
    have := spots (.hand mgr)
    have := spots (.claimed mgr)
    grind
  have fresh : fiber ∉ (state.scheduler mgr).members := by
    have := spots (.queued mgr)
    grind
  apply invariant.carry
  · grind
  · grind
  · grind
  · exact sound
  · exact queued_update invariant (Scheduler.nodup_pushBottom _ (invariant.queued mgr) fresh) mgr
  · exact invariant.waiting
  · apply invariant.placed.move <;> intro spot <;> cases spot <;> grind

theorem enqueue_invariant (point : state.pc mgr = .schedule fiber ∨ state.pc mgr = .stash fiber) :
    Invariant (state.enqueue mgr fiber) (update place fiber (.queued mgr)) := by
  obtain ⟨_, _, sound⟩ := invariant.good mgr
  exact invariant.pushBottom _ (by grind) (.inl rfl) (by grind)

theorem store_invariant (point : state.pc mgr = .store fiber) :
    Invariant { state with
        scheduler := update state.scheduler mgr ((state.scheduler mgr).store fiber)
        pc := update state.pc mgr .scan } (update place fiber (.queued mgr)) :=
  invariant.pushBottom _ (.inr (.inr point)) (.inr rfl) trivial

theorem take_invariant (taken : (state.scheduler victim).Takes rest fiber)
    (quiet : (state.pc mgr).hand = none ∧ (state.pc mgr).claimed = none ∧
      (state.pc mgr).enters = false ∧ (state.pc mgr).leaves = false)
    (holds : pc = .test fiber ∨ pc = .stash fiber)
    (sound : pc.Sound state.fiberState (state.exec mgr) (state.oldFiber mgr)) :
    Invariant { state with
        scheduler := update state.scheduler victim rest
        pc := update state.pc mgr pc } (update place fiber (.hand mgr)) := by
  have spots := fun spot => invariant.placed fiber spot
  obtain ⟨absent, distinct⟩ := taken.nodup (invariant.queued victim)
  have members := taken.mem_iff
  have held : place fiber = .queued victim := (spots (.queued victim)).mp (by grind)
  apply invariant.carry
  · grind
  · grind
  · grind
  · exact sound
  · exact queued_update invariant distinct victim
  · exact invariant.waiting
  · apply invariant.placed.move <;> intro spot <;> cases spot <;> grind

theorem Invariant.restate (hand : pc.hand = (state.pc mgr).hand)
    (claimed : pc.claimed = (state.pc mgr).claimed) (enters : pc.enters = (state.pc mgr).enters)
    (settles : pc.settles = false) (leaves : (state.pc mgr).leaves → pc.leaves)
    (quiet : state.fiberState fiber ≠ .running ∧ next ≠ .running)
    (mine : state.fiberState fiber ≠ .saving ∧ place fiber = .claimed mgr ∨
      state.Tied mgr fiber ∧ state.exec mgr ≠ some fiber ∧
        state.fiberState fiber = .saving ∧ next = .waiting)
    (sound : pc.Sound (update state.fiberState fiber next) (state.exec mgr) (state.oldFiber mgr)) :
    Invariant { state with
        fiberState := update state.fiberState fiber next
        pc := update state.pc mgr pc } place := by
  obtain ⟨tied, slotted, _⟩ := invariant.good mgr
  have spots := fun spot => invariant.placed fiber spot
  have present : state.created fiber := by
    have := spots .absent
    have := invariant.unborn fiber
    grind -linarith
  have slot : state.toSchedule mgr = some fiber → place fiber = .slot mgr := (spots (.slot mgr)).mp
  apply invariant.advance mgr
  · constructor <;> grind -linarith
  · apply invariant.placed.congr
    intro f spot
    cases spot <;> grind -linarith
  · exact invariant.queued
  · exact invariant.waiting
  · have := invariant.unborn
    grind -linarith
  · constructor
    · grind -linarith
    · grind -linarith
    · simpa using sound

theorem save_invariant (point : state.pc mgr = .save fiber) :
    Invariant { state with
        fiberState := update state.fiberState fiber .waiting
        pc := update state.pc mgr .reschedule } place := by
  obtain ⟨_, _, sound⟩ := invariant.good mgr
  apply invariant.restate <;> grind

theorem wakeSet_invariant (point : state.pc mgr = .wakeSet fiber) :
    Invariant { state with
        fiberState := update state.fiberState fiber .ready
        pc := update state.pc mgr (.schedule fiber) } place := by
  obtain ⟨_, _, sound⟩ := invariant.good mgr
  have held : place fiber = .claimed mgr := invariant.placed.place_eq (by grind)
  apply invariant.restate <;> grind

theorem wait_invariant
    (point : state.pc mgr = .run) (exec : state.exec mgr = some fiber) : Invariant { state with
        fiberState := update state.fiberState fiber .saving
        pc := update state.pc mgr (.exchange queue) } (update place fiber (.entering mgr)) := by
  obtain ⟨tied, slotted, sound⟩ := invariant.good mgr
  have running : state.fiberState fiber = .running := by grind
  have held : place fiber = .on mgr := invariant.placed.place_eq ⟨exec, running⟩
  apply invariant.advance mgr
  · constructor <;> grind
  · apply invariant.placed.move <;> intro spot <;> cases spot <;> grind
  · exact invariant.queued
  · exact invariant.waiting
  · have := invariant.unborn
    grind
  · constructor <;> grind

omit [DecidableEq Mgr] [DecidableEq α] in
theorem Invariant.free
    (point : state.pc mgr = .switch (some fiber) ∨ state.pc mgr = .swap (some fiber)) :
    place fiber = .hand mgr ∧ (∀ other, ¬ state.Tied other fiber) ∧
      ∀ other, state.exec other ≠ some fiber := by
  have held : place fiber = .hand mgr := invariant.placed.place_eq (by grind)
  obtain ⟨_, _, sound⟩ := invariant.good mgr
  have loose : ∀ other, ¬ state.Tied other fiber := by
    intro other tie
    have := (invariant.good other).tied fiber tie
    grind
  exact ⟨held, loose, fun other exec => loose other (.inl exec)⟩

end

/-- The places after a context swap to `target`. -/
@[grind =] def landed (place : α → Place Mgr Queue) (mgr : Mgr) (target : Option α)
    (fiber : α) : Place Mgr Queue :=
  if target = some fiber then .on mgr else place fiber

theorem swap_invariant (invariant : Invariant state place)
    (point : state.pc mgr = .swap target) : Invariant { state with
        exec := update state.exec mgr target
        pc := update state.pc mgr .settle } (landed place mgr target) := by
  obtain ⟨tied, slotted, sound⟩ := invariant.good mgr
  have free := fun fiber (chosen : target = some fiber) =>
    invariant.free (.inr (chosen ▸ point))
  apply invariant.advance mgr
  · constructor <;> grind
  · intro fiber spot
    have := invariant.placed fiber spot
    cases spot <;> grind
  · exact invariant.queued
  · exact invariant.waiting
  · exact invariant.unborn
  · constructor <;> grind

omit [DecidableEq Mgr] [DecidableEq α] in
theorem State.leaving_eq_some : state.leaving mgr = some fiber ↔
    state.exec mgr = some fiber ∧ state.fiberState fiber = .running := by
  simp [State.leaving, Option.filter_eq_some_iff]

/-- The places after `fiber_manager_switch_to` has left a running fiber. -/
@[grind =] def departed (place : α → Place Mgr Queue) (mgr : Mgr) (leaving : Option α)
    (fiber : α) : Place Mgr Queue :=
  if leaving = some fiber then .slot mgr else place fiber

theorem switchTo_invariant (invariant : Invariant state place)
    (point : state.pc mgr = .switch target) :
    Invariant (switchTo state mgr target) (departed place mgr (state.leaving mgr)) := by
  obtain ⟨tied, slotted, sound⟩ := invariant.good mgr
  have leaving : ∀ fiber, state.leaving mgr = some fiber ↔
      state.exec mgr = some fiber ∧ state.fiberState fiber = .running :=
    fun _ => State.leaving_eq_some
  have held : ∀ fiber, state.leaving mgr = some fiber → place fiber = .on mgr :=
    fun fiber left => invariant.placed.place_eq ((leaving fiber).mp left)
  have free := fun fiber (chosen : target = some fiber) =>
    invariant.free (.inl (chosen ▸ point))
  have empty : state.toSchedule mgr = none := Option.eq_none_iff_forall_ne_some.mpr (by grind)
  unfold switchTo
  rw [empty, Option.or_none]
  apply invariant.advance mgr
  · constructor <;> grind
  · intro fiber spot
    have := invariant.placed fiber spot
    cases spot <;> grind
  · exact invariant.queued
  · exact invariant.waiting
  · have := invariant.unborn
    have := fun fiber => invariant.placed fiber .absent
    grind
  · constructor <;> grind

theorem reschedule_invariant (invariant : Invariant state place)
    (point : state.pc mgr = .reschedule) (slot : state.toSchedule mgr = some fiber) :
    Invariant { state.enqueue mgr fiber with toSchedule := update state.toSchedule mgr none }
      (update place fiber (.queued mgr)) := by
  obtain ⟨tied, slotted, sound⟩ := invariant.good mgr
  have spots := fun spot => invariant.placed fiber spot
  have held : place fiber = .slot mgr := (spots (.slot mgr)).mp slot
  have fresh : fiber ∉ (state.scheduler mgr).members := by
    have := spots (.queued mgr)
    grind
  unfold State.enqueue
  apply invariant.advance mgr
  · constructor <;> grind
  · apply invariant.placed.move <;> intro spot <;> cases spot <;> grind
  · exact queued_update invariant (Scheduler.nodup_pushBottom _ (invariant.queued mgr) fresh) mgr
  · exact invariant.waiting
  · exact invariant.unborn
  · constructor <;> grind

theorem create_invariant (invariant : Invariant state place) (point : state.pc mgr = .run)
    (absent : state.created fiber = false) :
    Invariant { state.enqueue mgr fiber with
        created := update state.created fiber true
        fiberState := update state.fiberState fiber .ready }
      (update place fiber (.queued mgr)) := by
  obtain ⟨tied, slotted, sound⟩ := invariant.good mgr
  have spots := fun spot => invariant.placed fiber spot
  have held : place fiber = .absent := (spots .absent).mp absent
  have ready := invariant.unborn fiber absent
  have fresh : fiber ∉ (state.scheduler mgr).members := by
    have := spots (.queued mgr)
    grind
  unfold State.enqueue
  apply invariant.advance mgr
  · constructor <;> grind
  · apply invariant.placed.move <;> intro spot <;> cases spot <;> grind
  · exact queued_update invariant (Scheduler.nodup_pushBottom _ (invariant.queued mgr) fresh) mgr
  · exact invariant.waiting
  · have := invariant.unborn
    grind
  · constructor <;> grind

variable [DecidableEq Queue]

theorem exchange_invariant (invariant : Invariant state place)
    (point : state.pc mgr = .exchange queue) (exec : state.exec mgr = some fiber) :
    Invariant { state with
        waiters := update state.waiters queue ((state.waiters queue).exchange fiber)
        pc := update state.pc mgr (.link queue) } (update place fiber (.waiting queue)) := by
  obtain ⟨_, _, sound⟩ := invariant.good mgr
  have spots := fun spot => invariant.placed fiber spot
  have held : place fiber = .entering mgr := (spots (.entering mgr)).mp ⟨exec, by grind⟩
  have fresh : fiber ∉ (state.waiters queue).members := by
    have := spots (.waiting queue)
    grind
  apply invariant.carry
  · grind
  · rfl
  · grind
  · grind
  · exact invariant.queued
  · apply waiting_update invariant
    rw [LinkedFifo.members_exchange]
    exact List.nodup_append.mpr ⟨invariant.waiting queue, List.nodup_singleton _, by grind⟩
  · apply invariant.placed.move <;> intro spot <;> cases spot <;>
      grind [LinkedFifo.members_exchange]

theorem wake_invariant (invariant : Invariant state place)
    (point : state.pc mgr = .run) (popped : (state.waiters queue).trypop = some (fiber, rest)) :
    Invariant { state with
        waiters := update state.waiters queue rest
        pc := update state.pc mgr (.wakeTest fiber) } (update place fiber (.claimed mgr)) := by
  obtain ⟨_, _, sound⟩ := invariant.good mgr
  have spots := fun spot => invariant.placed fiber spot
  have members := LinkedFifo.members_trypop popped
  have distinct := invariant.waiting queue
  rw [members, List.nodup_cons] at distinct
  have held : place fiber = .waiting queue := (spots (.waiting queue)).mp (by grind)
  apply invariant.carry
  · grind
  · rfl
  · grind
  · grind
  · exact invariant.queued
  · exact waiting_update invariant distinct.2 queue
  · apply invariant.placed.move <;> intro spot <;> cases spot <;> grind

end LibFiber.Publish
