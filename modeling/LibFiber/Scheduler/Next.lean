import LibFiber.Scheduler

namespace LibFiber.Scheduler

open Function

/-! `fiber_scheduler_next` while nobody steals, and the turns that it gives to the fibers
of one manager. -/

/-- The loop; its queue gets shorter by one fiber in each round. -/
def nextWhile (status : α → FiberState) : Nat → Scheduler α → Option α × Scheduler α
  | 0, scheduler => (none, scheduler)
  | size + 1, scheduler =>
    match scheduler.popBottom with
    | none => (none, scheduler)
    | some (newFiber, rest) =>
      if status newFiber = .saving then nextWhile status size (rest.store newFiber)
      else (some newFiber, rest)

def next (status : α → FiberState) (scheduler : Scheduler α) : Option α × Scheduler α :=
  nextWhile status (scheduler.exchange.queue scheduler.exchange.scheduleFrom).length
    scheduler.exchange

/-- What a call that starts with these queues answers and leaves. -/
def Answers (status : α → FiberState) (scheduler : Scheduler α) :
    Option α × Scheduler α → Prop
  | (none, rest) => rest.queue rest.scheduleFrom = [] ∧ rest.members.Perm scheduler.members ∧
      ∀ fiber ∈ scheduler.queue scheduler.scheduleFrom, status fiber = .saving
  | (some fiber, rest) => status fiber ≠ .saving ∧
      scheduler.members.Perm (fiber :: rest.members) ∧
      fiber ∈ scheduler.queue scheduler.scheduleFrom

variable {scheduler : Scheduler α}

theorem popBottom_from (popped : scheduler.popBottom = some (fiber, rest)) :
    scheduler.queue scheduler.scheduleFrom = rest.queue rest.scheduleFrom ++ [fiber] := by
  rw [popBottom] at popped
  split at popped
  · cases popped
  · next bottom =>
    cases popped
    simp only [update_self]
    exact (List.dropLast_append_getLast? _ bottom).symm

theorem from_store (scheduler : Scheduler α) (fiber : α) :
    (scheduler.store fiber).queue (scheduler.store fiber).scheduleFrom =
      scheduler.queue scheduler.scheduleFrom :=
  update_of_ne (Bool.eq_not_self scheduler.scheduleFrom).mp _ _

theorem nextWhile_answers (counted : (scheduler.queue scheduler.scheduleFrom).length = size) :
    Answers status scheduler (nextWhile status size scheduler) := by
  induction size generalizing scheduler with
  | zero =>
    have empty := List.length_eq_zero_iff.mp counted
    exact ⟨empty, .refl _, by simp [empty]⟩
  | succ size ih =>
    rw [nextWhile]
    cases popped : scheduler.popBottom with
    | none => simp [popBottom_eq_none popped] at counted
    | some found =>
      obtain ⟨newFiber, rest⟩ := found
      have kept := (popBottom_takes popped).members
      have shape := popBottom_from popped
      by_cases saving : status newFiber = .saving
      · have stored := kept.trans (rest.members_pushBottom rest.storeTo newFiber).symm
        have later : Answers status (rest.store newFiber) _ := ih (by
          rw [from_store]
          simpa [shape] using counted)
        simp only [saving, if_true]
        generalize nextWhile status size (rest.store newFiber) = result at later
        obtain ⟨none | fiber, after⟩ := result
        · refine ⟨later.1, later.2.1.trans stored.symm, ?_⟩
          rw [shape, ← from_store rest newFiber]
          intro fiber member
          rcases List.mem_append.mp member with earlier | last
          · exact later.2.2 fiber earlier
          · rw [List.mem_singleton.mp last, saving]
        · obtain ⟨ready, others, found⟩ := later
          rw [from_store] at found
          exact ⟨ready, stored.trans others, shape ▸ List.mem_append_left _ found⟩
      · simp only [saving, if_false]
        exact ⟨saving, kept, by simp [shape]⟩

/-- The queues are exchanged only at the start of a call. -/
def Finds (status : α → FiberState) (scheduler : Scheduler α) : Prop :=
  scheduler.queue scheduler.scheduleFrom = [] ∨
    (∃ fiber ∈ scheduler.queue scheduler.scheduleFrom, status fiber ≠ .saving) ∨
    ∀ fiber ∈ scheduler.queue scheduler.storeTo, status fiber = .saving

theorem mem_members_iff : fiber ∈ scheduler.members ↔
    fiber ∈ scheduler.queue scheduler.scheduleFrom ∨ fiber ∈ scheduler.queue scheduler.storeTo := by
  cases found : scheduler.scheduleFrom <;> simp [members, storeTo, found, or_comm]

theorem exchange_of_ne_nil (filled : scheduler.queue scheduler.scheduleFrom ≠ []) :
    scheduler.exchange = scheduler :=
  if_neg (by simpa using filled)

/-- A call answers as it should if and only if it finds what there is. -/
theorem next_work_conserving (status : α → FiberState) (scheduler : Scheduler α) :
    (match next status scheduler with
    | (none, rest) => rest.queue rest.scheduleFrom = [] ∧ rest.members.Perm scheduler.members ∧
        ∀ fiber ∈ rest.members, status fiber = .saving
    | (some fiber, rest) =>
      status fiber ≠ .saving ∧ scheduler.members.Perm (fiber :: rest.members)) ↔
    Finds status scheduler := by
  have answers : Answers status scheduler.exchange (next status scheduler) := nextWhile_answers rfl
  generalize next status scheduler = result at answers
  obtain ⟨none | fiber, rest⟩ := result
  · obtain ⟨ended, kept, saving⟩ := answers
    rw [members_exchange] at kept
    constructor
    · intro conserves
      refine .inr (.inr fun fiber member => ?_)
      exact conserves.2.2 fiber (kept.mem_iff.mpr (mem_members_iff.mpr (.inr member)))
    · refine fun finds => ⟨ended, kept, fun fiber member => ?_⟩
      rw [kept.mem_iff, ← members_exchange, mem_members_iff] at member
      rcases member with here | there
      · exact saving fiber here
      · by_cases empty : scheduler.queue scheduler.scheduleFrom = []
        · simp [exchange, empty, storeTo] at there
        · rw [exchange_of_ne_nil empty] at saving there
          rcases finds with none | ⟨other, held, ready⟩ | stored
          · exact absurd none empty
          · exact absurd (saving other held) ready
          · exact stored fiber there
  · obtain ⟨ready, kept, found⟩ := answers
    rw [members_exchange] at kept
    refine ⟨fun _ => ?_, fun _ => ⟨ready, kept⟩⟩
    by_cases empty : scheduler.queue scheduler.scheduleFrom = []
    · exact .inl empty
    · rw [exchange_of_ne_nil empty] at found
      exact .inr (.inl ⟨fiber, found, ready⟩)

theorem next_work_conserving_behind :
    let status : Nat → FiberState := fun fiber => if fiber = 0 then .ready else .saving
    let scheduler : Scheduler Nat := ((init.schedule 0).schedule 1).schedule 2
    (next status scheduler).1 = some 0 ∧
      scheduler.members.Perm (0 :: (next status scheduler).2.members) := by
  intro status scheduler
  exact ⟨by decide, ((next_work_conserving status scheduler).mpr (.inr (.inl ⟨0, by decide⟩))).2⟩

/-- Fiber 0 is put aside while it saves its context.  When that is done and fiber 1 is
scheduled before its own is saved, the call looks at fiber 1 only. -/
theorem next_work_conserving_aside :
    let early : Nat → FiberState := fun _ => .saving
    let late : Nat → FiberState := fun fiber => if fiber = 0 then .waiting else .saving
    let scheduler : Scheduler Nat := (next early (init.schedule 0)).2.schedule 1
    (next late scheduler).1 = none ∧ 0 ∈ (next late scheduler).2.members ∧ late 0 ≠ .saving := by
  decide

/-- `fiber_manager_switch_to` and the maintenance behind it: the fiber that was running is
scheduled. -/
def switch (current : α) (scheduler : Scheduler α) : α × Scheduler α :=
  match next (fun _ => .ready) scheduler with
  | (none, rest) => (current, rest)
  | (some newFiber, rest) => (newFiber, rest.schedule current)

/-- The fibers that run in so many switches. -/
def switches : Nat → α → Scheduler α → List α
  | 0, _, _ => []
  | count + 1, current, scheduler =>
    let switched := switch current scheduler
    switched.1 :: switches count switched.1 switched.2

theorem members_eq_nil (empty : scheduler.exchange.queue scheduler.exchange.scheduleFrom = []) :
    scheduler.members = [] := by
  rw [exchange] at empty
  split at empty
  · next none => cases found : scheduler.scheduleFrom <;> simp_all [members, storeTo]
  · next filled => simp [empty] at filled

theorem switch_of_members (current : α) (scheduler : Scheduler α)
    (filled : scheduler.members ≠ []) :
    ∃ newFiber, ∃ rest : Scheduler α, switch current scheduler = (newFiber, rest.schedule current) ∧
      scheduler.members.Perm (newFiber :: rest.members) := by
  have answers : Answers (fun _ => .ready) scheduler.exchange (next (fun _ => .ready) scheduler) :=
    nextWhile_answers rfl
  rw [switch]
  generalize next (fun _ => .ready) scheduler = result at answers
  obtain ⟨none | newFiber, rest⟩ := result
  · have empty := List.eq_nil_iff_forall_not_mem.mpr fun fiber member => by
      cases answers.2.2 fiber member
    exact absurd (members_eq_nil empty) filled
  · exact ⟨newFiber, rest, rfl, members_exchange scheduler ▸ answers.2.1⟩

/-- The fiber that was scheduled last is next. -/
theorem switch_schedule (current previous : α) (scheduler : Scheduler α) :
    (switch current (scheduler.schedule previous)).1 = previous := by
  have filled : (scheduler.schedule previous).queue (scheduler.schedule previous).scheduleFrom =
      scheduler.queue scheduler.scheduleFrom ++ [previous] := update_self _ _ _
  have bottom : (next (fun _ => .ready) (scheduler.schedule previous)).1 = some previous := by
    rw [next, exchange_of_ne_nil (by simp [filled])]
    simp [filled, nextWhile, popBottom]
  rw [switch]
  generalize next (fun _ => .ready) (scheduler.schedule previous) = result at bottom
  obtain ⟨none | found, rest⟩ := result
  · cases bottom
  · exact Option.some.inj bottom

/-- So many switches run each of the ready fibers once if and only if there is at most
one. -/
theorem switches_take_turns (current : α) (scheduler : Scheduler α)
    (distinct : (current :: scheduler.members).Nodup) :
    (switches scheduler.members.length current scheduler).Perm scheduler.members ↔
      scheduler.members.length ≤ 1 := by
  cases held : scheduler.members with
  | nil => simp [switches]
  | cons fiber others =>
    obtain ⟨newFiber, rest, switched, kept⟩ := switch_of_members current scheduler (by simp [held])
    rw [held] at distinct kept
    cases others with
    | nil =>
      obtain ⟨rfl, _⟩ := List.cons.inj (List.singleton_perm.mp kept)
      simp [switches, switched]
    | cons second others =>
      have back : (switch newFiber (rest.schedule current)).1 = current := switch_schedule ..
      have absent : current ∉ fiber :: second :: others := (List.nodup_cons.mp distinct).1
      refine iff_of_false (fun turns => absent (turns.mem_iff.mp ?_)) (by simp)
      simp [switches, switched, back]

theorem switches_take_turns_one : (switches 1 0 (init.schedule 1)).Perm [1] :=
  (switches_take_turns 0 (init.schedule 1) (by decide)).mpr (by decide)

/-- The fiber that was scheduled last is next: fibers 0 and 2 give the turn to each other
and fiber 1 does not run. -/
theorem switches_take_turns_two :
    let scheduler : Scheduler Nat := (init.schedule 1).schedule 2
    scheduler.members = [1, 2] ∧ switches 2 0 scheduler = [2, 0] ∧
      ¬ (switches 2 0 scheduler).Perm scheduler.members := by
  decide

end LibFiber.Scheduler
