import Mathlib.Data.List.Perm.Basic
import Mathlib.Logic.Function.Basic

namespace LibFiber

open Function

/-- `fiber_state_t` -/
inductive FiberState where
  | running
  | ready
  | waiting
  | done
  | saving
deriving DecidableEq, Repr

/-- One manager's `fiber_scheduler_wsd_t`: `queue_one` and `queue_two`, with
the bottom of a deque at the end of its list.  Pushes, pops and steals are
atomic, as the deque's linearisation allows. -/
structure Scheduler (α : Type u) where
  queue : Bool → List α
  scheduleFrom : Bool

namespace Scheduler

variable {α : Type u}
variable {scheduler : Scheduler α}

def init : Scheduler α := ⟨fun _ => [], false⟩

def storeTo (scheduler : Scheduler α) : Bool := !scheduler.scheduleFrom

def pushBottom (scheduler : Scheduler α) (side : Bool) (fiber : α) : Scheduler α :=
  { scheduler with queue := update scheduler.queue side (scheduler.queue side ++ [fiber]) }

/-- `fiber_scheduler_schedule` -/
def schedule (scheduler : Scheduler α) (fiber : α) : Scheduler α :=
  scheduler.pushBottom scheduler.scheduleFrom fiber

/-- What `fiber_scheduler_next` does with a fiber whose state is not saved. -/
def store (scheduler : Scheduler α) (fiber : α) : Scheduler α :=
  scheduler.pushBottom scheduler.storeTo fiber

/-- The exchange of the two queues at the start of `fiber_scheduler_next`. -/
def exchange (scheduler : Scheduler α) : Scheduler α :=
  if (scheduler.queue scheduler.scheduleFrom).isEmpty then
    { scheduler with scheduleFrom := scheduler.storeTo }
  else scheduler

def popBottom (scheduler : Scheduler α) : Option (α × Scheduler α) :=
  match (scheduler.queue scheduler.scheduleFrom).getLast? with
  | none => none
  | some fiber =>
    some (fiber, { scheduler with
      queue := update scheduler.queue scheduler.scheduleFrom
        (scheduler.queue scheduler.scheduleFrom).dropLast })

def steal (scheduler : Scheduler α) (side : Bool) : Option (α × Scheduler α) :=
  match scheduler.queue side with
  | [] => none
  | fiber :: rest => some (fiber, { scheduler with queue := update scheduler.queue side rest })

def members (scheduler : Scheduler α) : List α :=
  scheduler.queue false ++ scheduler.queue true

@[simp] theorem members_init : (init : Scheduler α).members = [] := rfl

@[simp, grind =] theorem members_exchange (scheduler : Scheduler α) :
    scheduler.exchange.members = scheduler.members := by
  unfold exchange
  split <;> rfl

theorem members_pushBottom (scheduler : Scheduler α) (side : Bool) (fiber : α) :
    (scheduler.pushBottom side fiber).members.Perm (fiber :: scheduler.members) := by
  cases side with
  | false =>
    simp only [members, pushBottom, update_self, ne_eq, Bool.true_eq_false, not_false_eq_true,
      update_of_ne, List.append_assoc]
    exact List.perm_middle
  | true =>
    simp only [members, pushBottom, update_self, ne_eq, Bool.false_eq_true, not_false_eq_true,
      update_of_ne, ← List.append_assoc]
    exact List.perm_append_singleton _ _

theorem members_replace {rest : List α} (shape : (scheduler.queue side).Perm (fiber :: rest)) :
    scheduler.members.Perm
      (fiber :: ({ scheduler with queue := update scheduler.queue side rest }).members) := by
  cases side with
  | false =>
    simp only [members, update_self, ne_eq, Bool.true_eq_false, not_false_eq_true, update_of_ne]
    exact shape.append_right _
  | true =>
    simp only [members, update_self, ne_eq, Bool.false_eq_true, not_false_eq_true, update_of_ne]
    exact (shape.append_left _).trans List.perm_middle

/-- One fiber is gone from one of the queues. -/
def Takes (scheduler rest : Scheduler α) (fiber : α) : Prop :=
  ∃ side others, (scheduler.queue side).Perm (fiber :: others) ∧
    rest = { scheduler with queue := update scheduler.queue side others }

theorem popBottom_takes
    (popped : scheduler.popBottom = some (fiber, rest)) : scheduler.Takes rest fiber := by
  cases bottom : (scheduler.queue scheduler.scheduleFrom).getLast? with
  | none => simp [popBottom, bottom] at popped
  | some last =>
    simp only [popBottom, bottom] at popped
    cases popped
    refine ⟨scheduler.scheduleFrom, _, ?_, rfl⟩
    conv_lhs => rw [← List.dropLast_append_getLast? _ bottom]
    simp

theorem steal_takes
    (stolen : scheduler.steal side = some (fiber, rest)) : scheduler.Takes rest fiber := by
  cases shape : scheduler.queue side with
  | nil => simp [steal, shape] at stolen
  | cons top others =>
    simp only [steal, shape] at stolen
    cases stolen
    exact ⟨side, others, shape ▸ List.Perm.refl _, rfl⟩

theorem Takes.members
    (takes : scheduler.Takes rest fiber) : scheduler.members.Perm (fiber :: rest.members) := by
  obtain ⟨side, others, shape, rfl⟩ := takes
  exact members_replace shape

theorem Takes.mem_iff (takes : scheduler.Takes rest fiber) (other : α) :
    other ∈ scheduler.members ↔ other = fiber ∨ other ∈ rest.members :=
  takes.members.mem_iff.trans List.mem_cons

@[grind =] theorem mem_pushBottom :
    other ∈ (scheduler.pushBottom side fiber).members ↔ other = fiber ∨ other ∈ scheduler.members :=
  (scheduler.members_pushBottom side fiber).mem_iff.trans List.mem_cons

@[grind =] theorem mem_schedule :
    other ∈ (scheduler.schedule fiber).members ↔ other = fiber ∨ other ∈ scheduler.members :=
  mem_pushBottom

theorem nodup_pushBottom (side : Bool)
    (distinct : scheduler.members.Nodup) (fresh : fiber ∉ scheduler.members) :
    (scheduler.pushBottom side fiber).members.Nodup :=
  (scheduler.members_pushBottom side fiber).nodup_iff.mpr (List.nodup_cons.mpr ⟨fresh, distinct⟩)

theorem Takes.nodup (takes : scheduler.Takes rest fiber) (distinct : scheduler.members.Nodup) :
    fiber ∉ rest.members ∧ rest.members.Nodup :=
  List.nodup_cons.mp (takes.members.nodup_iff.mp distinct)

/-! The queue that `fiber_scheduler_next` pops from. -/

theorem mem_from_exchange (member : fiber ∈ scheduler.queue scheduler.scheduleFrom) :
    fiber ∈ scheduler.exchange.queue scheduler.exchange.scheduleFrom := by
  have filled : (scheduler.queue scheduler.scheduleFrom).isEmpty = false := by
    simp [List.ne_nil_of_mem member]
  simpa [exchange, filled] using member

theorem mem_from_pushBottom (side : Bool) (fiber : α)
    (member : other ∈ scheduler.queue scheduler.scheduleFrom) :
    other ∈ (scheduler.pushBottom side fiber).queue
      (scheduler.pushBottom side fiber).scheduleFrom := by
  by_cases same : scheduler.scheduleFrom = side
  · simp [pushBottom, same, same ▸ member]
  · simpa [pushBottom, same] using member

theorem mem_from_schedule (scheduler : Scheduler α) (fiber : α) :
    fiber ∈ (scheduler.schedule fiber).queue (scheduler.schedule fiber).scheduleFrom := by
  simp [schedule, pushBottom]

theorem Takes.mem_from (takes : scheduler.Takes rest fiber) (different : other ≠ fiber)
    (member : other ∈ scheduler.queue scheduler.scheduleFrom) :
    other ∈ rest.queue rest.scheduleFrom := by
  obtain ⟨side, others, shape, rfl⟩ := takes
  by_cases same : scheduler.scheduleFrom = side
  · rw [same, shape.mem_iff] at member
    simpa only [same, update_self] using (List.mem_cons.mp member).resolve_left different
  · simpa only [update_of_ne same] using member

theorem popBottom_eq_none (empty : scheduler.popBottom = none) :
    scheduler.queue scheduler.scheduleFrom = [] := by
  cases bottom : (scheduler.queue scheduler.scheduleFrom).getLast? with
  | none => exact List.getLast?_eq_none_iff.mp bottom
  | some last => simp [popBottom, bottom] at empty

end Scheduler

end LibFiber
