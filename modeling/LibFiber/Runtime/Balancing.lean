import LibFiber.Runtime.Orderly
import LibFiber.Runtime.Yielding

namespace LibFiber.Runtime

open Data Semantics Function

attribute [local grind =] Function.update_apply

variable {Mgr : Type} [DecidableEq Mgr] {own : Mgr} {state : State Mgr}
variable {place : Fiber Mgr → Place Mgr}

/-! `fiber_scheduler_load_balance` -/

section

variable (invariant : Invariant state place)
include invariant

theorem visit_invariant (point : state.pc mgr = .balance own caller loop) :
    Invariant (visit state mgr own caller loop) place := by
  obtain ⟨rfl, there, looping, onCurrent⟩ := invariant.sound point
  have calm : Calm (state.stack (state.exec own)) := invariant.calm (by grind)
  unfold visit
  cases loop.visits with
  | cons =>
    apply invariant.goto
    all_goals grind
  | nil =>
    cases caller with
    | yield =>
      apply invariant.goto
      all_goals grind
    | thread =>
      apply invariant.goto
      case froms => exact froms_exchange own
      all_goals grind

omit [DecidableEq Mgr] in
theorem unanchored (queued : place fiber = .queued victim)
    (whole : (state.stack fiber).any Frame.maintains = false) :
    ∀ frame ∈ state.stack fiber, frame.anchor = none := by
  have known := invariant.fibers fiber
  have calm : Calm (state.stack fiber) := by
    obtain calm | ⟨other, here, returns, _⟩ := known.shape
    · exact calm
    · have sound := (invariant.managers other).sound
      cases point : state.pc other <;> grind
  rw [List.any_eq_false] at whole
  intro frame member
  cases frame with
  | threadLoop own =>
    obtain alone | ⟨other, inside⟩ := calm.threadLoop_eq member
    · have := known.lone own alone
      grind
    · exact absurd rfl (whole _ inside)
  | settle own => exact absurd member calm.settle_not_mem
  | maintenance own rest => exact absurd rfl (whole _ member)
  | _ => rfl

theorem steal_keeps (point : state.pc mgr = .steal own caller loop)
    (whole : ∀ fiber, state.stolen loop reading = some fiber →
      (state.stack fiber).any Frame.maintains = false) :
    Keeps (steal state mgr own caller loop reading) place := by
  obtain ⟨rfl, there, looping, onCurrent⟩ := invariant.sound point
  have calm : Calm (state.stack (state.exec own)) := invariant.calm (by grind)
  have leave : ∀ loop, Invariant (state.goto own (.balance own caller loop)) place := by
    intro loop
    apply invariant.goto
    all_goals grind
  unfold State.stolen at whole
  unfold steal
  cases route : loop.visits with
  | nil => exact (leave loop).keeps
  | cons visit rest =>
    obtain ⟨victim, side⟩ := visit
    simp only [route] at whole ⊢
    split
    case isFalse => exact (leave _).keeps
    case isTrue worthwhile =>
      cases taken : (state.scheduler victim).steal side with
      | none => exact (leave _).keeps
      | some found =>
        obtain ⟨fiber, remaining⟩ := found
        have takes := Scheduler.steal_takes taken
        have held : place fiber = .queued victim :=
          invariant.placed.place_eq ((takes.mem_iff fiber).mpr (.inl rfl))
        have loose := unanchored invariant held (whole fiber (by simp [worthwhile, taken]))
        refine ⟨update place fiber (.hand own), ?_, by grind⟩
        apply take_invariant invariant takes
        all_goals grind

theorem stash_keeps (point : state.pc mgr = .stash own caller loop fiber) :
    Keeps (stash state mgr own caller loop fiber) place := by
  obtain ⟨rfl, there, looping, onCurrent⟩ := invariant.sound point
  have calm : Calm (state.stack (state.exec own)) := invariant.calm (by grind)
  have held : place fiber = .hand own := invariant.placed.place_eq (by grind)
  have anchored := (invariant.fibers fiber).anchored
  refine ⟨update place fiber (.queued own), ?_, by grind⟩
  apply enqueue_invariant invariant
  case unanchored =>
    intro frame member
    cases anchor : frame.anchor <;> grind
  all_goals grind

end

end LibFiber.Runtime
