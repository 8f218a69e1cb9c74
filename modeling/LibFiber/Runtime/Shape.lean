import LibFiber.Runtime.State

namespace LibFiber.Runtime

/-! The stacks fibers have between two steps. -/

variable {Mgr : Type} {below : List (Frame Mgr)} {own : Mgr}

/-- The stacks of fibers that are not in the part of their maintenance that
runs through: a wake loop is the fiber's own or that of a deferred unlock. -/
inductive Calm : List (Frame Mgr) → Prop where
  | nil : Calm []
  | waitEnd : Calm [.waitEnd]
  | deadEnd : Calm [.deadEnd]
  | threadLoop (own : Mgr) : Calm [.threadLoop own]
  | clearLoop (address : Nat) : Calm [.clearLoop address]
  | wakeLoop (queue : Nat) (count wakeCount : Int) : Calm [.wakeLoop queue count wakeCount]
  | waiting (current : Fiber Mgr) : Calm [.yieldLoop current, .waitEnd]
  | dying (current : Fiber Mgr) : Calm [.yieldLoop current, .deadEnd]
  | unlocking (queue : Nat) (count wakeCount : Int) (own : Mgr) {below : List (Frame Mgr)} :
      Calm below →
      Calm (.wakeLoop queue count wakeCount :: .maintenance own Slot.late :: below)

/-- The stack of a fiber in its maintenance on `mgr`. -/
inductive Fresh (mgr : Mgr) : List (Frame Mgr) → Prop where
  | settle {below : List (Frame Mgr)} :
      Calm below → Fresh mgr (.settle mgr :: .maintenance mgr Slot.all :: below)
  | maintenance {rest : List Slot} {below : List (Frame Mgr)} :
      rest <:+ Slot.all → Calm below → Fresh mgr (.maintenance mgr rest :: below)

/-- The manager whose fields a frame works on. -/
@[grind =] def Frame.anchor : Frame Mgr → Option Mgr
  | .threadLoop own | .settle own | .maintenance own _ => some own
  | .waitEnd | .deadEnd | .yieldLoop _ | .wakeLoop _ _ _ | .clearLoop _ => none

namespace Calm

theorem settle_not_mem (calm : Calm frames) : .settle own ∉ frames := by
  induction calm <;> grind

theorem head_ne_settle (calm : Calm frames) : frames.head? ≠ some (.settle own) :=
  fun head => calm.settle_not_mem (List.mem_of_mem_head? head)

theorem rest_eq_late (calm : Calm frames)
    (member : .maintenance own rest ∈ frames) : rest = Slot.late := by
  induction calm <;> grind

theorem threadLoop_eq (calm : Calm frames) (member : .threadLoop own ∈ frames) :
    frames = [.threadLoop own] ∨ ∃ other, .maintenance other Slot.late ∈ frames := by
  induction calm <;> grind

theorem waitEnd_below (calm : Calm (.waitEnd :: below)) : below = [] := by
  cases calm
  rfl

theorem threadLoop_below (calm : Calm (.threadLoop own :: below)) : below = [] := by
  cases calm
  rfl

theorem clearLoop_below (calm : Calm (.clearLoop address :: below)) :
    below = [] := by
  cases calm
  rfl

theorem yieldLoop_below (calm : Calm (.yieldLoop current :: below)) :
    below = [.waitEnd] ∨ below = [.deadEnd] := by
  cases calm <;> simp

theorem wakeLoop_below (calm : Calm (.wakeLoop queue count wakeCount :: below)) :
    below = [] ∨ ∃ own rest, below = .maintenance own Slot.late :: rest ∧ Calm rest := by
  cases calm with
  | wakeLoop => exact .inl rfl
  | unlocking _ _ _ own calm => exact .inr ⟨own, _, rfl, calm⟩

theorem wakeLoop_next (next : Int) (calm : Calm (.wakeLoop queue count wakeCount :: below)) :
    Calm (.wakeLoop queue count next :: below) := by
  cases calm with
  | wakeLoop => exact .wakeLoop _ _ _
  | unlocking _ _ _ own calm => exact .unlocking _ _ _ own calm

theorem not_maintenance (calm : Calm (.maintenance own rest :: below)) :
    False := by
  cases calm

end Calm

theorem Fresh.of_settle {mgr : Mgr} (fresh : Fresh mgr (.settle own :: below)) :
    own = mgr ∧ ∃ rest, below = .maintenance mgr Slot.all :: rest ∧ Calm rest := by
  cases fresh with
  | settle calm => exact ⟨rfl, _, rfl, calm⟩

theorem Fresh.of_maintenance {mgr : Mgr} {rest : List Slot}
    (fresh : Fresh mgr (.maintenance own rest :: below)) :
    own = mgr ∧ rest <:+ Slot.all ∧ Calm below := by
  cases fresh with
  | maintenance suffix calm => exact ⟨rfl, suffix, calm⟩

theorem Slot.mem_all (slot : Slot) : slot ∈ Slot.all := by
  cases slot <;> decide

theorem rest_of_mutexToUnlock
    (suffix : Slot.mutexToUnlock :: rest <:+ Slot.all) : rest = Slot.late := by
  simpa [Slot.all, Slot.late, List.suffix_cons_iff] using suffix

end LibFiber.Runtime
