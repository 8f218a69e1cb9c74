import LibFiber.Semantics.Faults

namespace LibFiber

open Semantics Function

/-! Yields that the gate refuses.

`fiber_manager_yield` switches only when the gate lets the next fiber run.  If
not, it schedules its own caller and returns to it, also when the caller was
about to wait.  The caller then goes on as if it had been woken, it is in a run
queue as well, and the store that it left to the maintenance is made by some
later switch of its manager.
-/

inductive Refusal (Fiber : Type) where
  | refuse (fiber : Fiber)
  /-- A later switch makes the store that is still deferred. -/
  | maintain (fiber : Fiber)
  /-- A manager takes the fiber from its queue and runs it. -/
  | resume (fiber : Fiber)
deriving DecidableEq, Repr

/-- What refused yields have left behind for a fiber. -/
structure Leftover where
  deferred : Bool
  queued : Bool
deriving DecidableEq, Repr

/-- The yields of a model. -/
structure Yields (σ α Fiber : Type) where
  /-- Go on behind the yield, and whether a store is deferred. -/
  refuse : σ → Fiber → Option (σ × Bool)
  /-- The deferred store, while the fiber is where it may yield. -/
  maintain : σ → Fiber → Option σ
  resume : σ → Fiber → Option σ
  /-- The fiber whose deferred store the step makes. -/
  stores : σ → α → Option Fiber

variable {σ α Fiber : Type} [DecidableEq Fiber]

/-- The manager remembers one store, so the step that makes it leaves none. -/
def Yields.left (yields : Yields σ α Fiber) (state : σ) (left : Fiber → Leftover) (action : α) :
    Fiber → Leftover :=
  match yields.stores state action with
  | some fiber => update left fiber ⟨false, (left fiber).queued⟩
  | none => left

def Yields.fault (yields : Yields σ α Fiber) (state : σ) (left : Fiber → Leftover) :
    Refusal Fiber → Option (σ × (Fiber → Leftover))
  | .refuse fiber =>
    (yields.refuse state fiber).map fun (after, defers) =>
      (after, update left fiber ⟨defers || (left fiber).deferred, true⟩)
  | .maintain fiber =>
    if (left fiber).deferred = true then
      (yields.maintain state fiber).map fun after =>
        (after, update left fiber ⟨false, (left fiber).queued⟩)
    else none
  | .resume fiber =>
    if (left fiber).queued = true then
      (yields.resume state fiber).map fun after =>
        (after, update left fiber ⟨(left fiber).deferred, false⟩)
    else none

def Yields.faults (yields : Yields σ α Fiber) :
    Faults σ α (Fiber → Leftover) (Refusal Fiber) where
  nothing := fun _ => ⟨false, false⟩
  ordinary state left action := some (yields.left state left action)
  fault := yields.fault
  quiet := by
    intro state action left kept
    cases kept
    cases stored : yields.stores state action with
    | none => simp [Yields.left, stored]
    | some fiber => simp [Yields.left, stored]

end LibFiber
