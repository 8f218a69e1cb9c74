import LibFiber.Event.Registration

namespace LibFiber.Event

open Semantics Function

/-! The waits of a fiber, one after the other: each is ended by one wake-up, and fails when
that is `fiber_fd_closed`'s. -/

/-- What happens to a fiber in `fiber_wait_for_event`. -/
inductive Mark where
  | waited
  /-- The fiber is scheduled, by `fiber_fd_closed` or else. -/
  | scheduled (closed : Bool)
  /-- It returns, with `FIBER_ERROR` or `FIBER_SUCCESS`. -/
  | returned (error : Bool)
deriving DecidableEq, Repr

/-- How far a fiber is with its wait. -/
inductive Stage where
  | running
  | parked
  | woken (closed : Bool)
deriving DecidableEq, Repr

/-- A parked fiber is scheduled once, and returns what fits its wake-up. -/
def Stage.next : Stage → Mark → Option Stage
  | .running, .waited => some .parked
  | .parked, .scheduled closed => some (.woken closed)
  | .woken closed, .returned error => if error = closed then some .running else none
  | _, _ => none

section Logs

variable {Fd Fiber Poller : Type} [DecidableEq Fiber]

def State.stage (state : State Fd Fiber Poller) (fiber : Fiber) : Stage :=
  match state.phase fiber with
  | .running => .running
  | .parked _ _ => .parked
  | .woken => .woken (decide (state.scratch fiber ≠ .null))

def stepLog (state : State Fd Fiber Poller) (action : Action Fd Fiber Poller) (fiber : Fiber) :
    List Mark :=
  match action with
  | .open _ | .unlock _ | .epollWait _ _ => []
  | .close fd => List.replicate ((state.info fd).waiters.count fiber) (.scheduled true)
  | .wait waiter _ _ => if fiber = waiter then [.waited] else []
  | .refuse waiter fd _ =>
    -- The yield schedules the waiter itself, which then finds the link in its `scratch`.
    if fiber = waiter then
      [.waited, .scheduled false, .returned (decide ((state.info fd).waiters ≠ []))]
    else []
  | .handle poller =>
    match state.events poller with
    | [] => []
    | (fd, _) :: _ => List.replicate ((state.info fd).waiters.count fiber) (.scheduled false)
  | .resume waiter =>
    if fiber = waiter then [.returned (decide (state.scratch waiter ≠ .null))] else []

def log (history : History Fd Fiber Poller) (fiber : Fiber) : List Mark :=
  history.flatMap fun taken => stepLog taken.1 taken.2 fiber

/-- A wait is on an open file, and its yield switches. -/
def Orderly (state : State Fd Fiber Poller) : Action Fd Fiber Poller → Prop
  | .wait _ fd _ => state.opened fd
  | .refuse _ _ _ => False
  | .open _ | .close _ | .unlock _ | .epollWait _ _ | .handle _ | .resume _ => True

instance (state : State Fd Fiber Poller) (action : Action Fd Fiber Poller) :
    Decidable (Orderly state action) :=
  match action with
  | .wait _ fd _ => inferInstanceAs (Decidable (state.opened fd))
  | .refuse _ _ _ => inferInstanceAs (Decidable False)
  | .open _ | .close _ | .unlock _ | .epollWait _ _ | .handle _ | .resume _ =>
    inferInstanceAs (Decidable True)

end Logs

section Steps

variable {Fd Fiber Poller : Type} [DecidableEq Fd] [DecidableEq Fiber] [DecidableEq Poller]
variable {action : Action Fd Fiber Poller}

theorem step_sound (sound : Sound state) (orderly : Orderly state action)
    (stepped : step state action = some after) : Sound after := by
  cases action with
  | «open» fd =>
    obtain ⟨_, ⟨⟩⟩ := Option.ite_none_right_eq_some.mp stepped
    exact open_sound sound fd
  | close fd =>
    obtain ⟨_, ⟨⟩⟩ := Option.ite_none_right_eq_some.mp stepped
    exact close_sound sound fd
  | wait fiber fd events =>
    obtain ⟨⟨running, _⟩, ⟨⟩⟩ := Option.ite_none_right_eq_some.mp stepped
    exact wait_sound sound running orderly events
  | refuse fiber fd events => exact orderly.elim
  | unlock fd =>
    obtain ⟨locked, _⟩ := Option.ite_none_right_eq_some.mp stepped
    exact absurd locked (by simp [sound.unlocked fd])
  | epollWait poller events =>
    obtain ⟨⟨empty, _⟩, ⟨⟩⟩ := Option.ite_none_right_eq_some.mp stepped
    exact report_sound sound empty events
  | handle poller =>
    rw [step] at stepped
    generalize found : state.events poller = events at stepped
    cases events with
    | nil => cases stepped
    | cons event rest =>
      obtain ⟨_, ⟨⟩⟩ := Option.ite_none_right_eq_some.mp stepped
      exact handle_sound sound found
  | resume fiber =>
    obtain ⟨⟨woken, _⟩, ⟨⟩⟩ := Option.ite_none_right_eq_some.mp stepped
    exact resume_sound sound woken

omit [DecidableEq Poller] in
theorem Sound.stage_wakeWaiters (sound : Sound state) {base : State Fd Fiber Poller} {fd : Fd}
    {result : Scratch Fiber} {closed : Bool}
    (waiters : (base.info fd).waiters = (state.info fd).waiters) (phase : base.phase = state.phase)
    (scratch : base.scratch = state.scratch) (outcome : decide (result ≠ .null) = closed)
    (fiber : Fiber) :
    (List.replicate ((state.info fd).waiters.count fiber) (Mark.scheduled closed)).foldlM
        Stage.next (state.stage fiber) =
      some ((base.wakeWaiters fd result).stage fiber) := by
  subst outcome
  have wakes := foldl_wakes result (state.info fd).waiters
    { base with info := update base.info fd { base.info fd with waiters := [] } }
  rw [State.wakeWaiters, waiters]
  rw [State.stage, State.stage, wakes.phase, wakes.scratch]
  simp only [phase, scratch]
  by_cases member : fiber ∈ (state.info fd).waiters
  · obtain ⟨events, parked⟩ := (sound.listed fiber fd).mp member
    rw [List.count_eq_one_of_mem (sound.distinct fd) member, if_pos member, if_pos member, parked]
    rfl
  · rw [List.count_eq_zero_of_not_mem member, if_neg member, if_neg member]
    rfl

theorem step_stage (sound : Sound state) (orderly : Orderly state action)
    (stepped : step state action = some after) (fiber : Fiber) :
    (stepLog state action fiber).foldlM Stage.next (state.stage fiber) =
      some (after.stage fiber) := by
  cases action with
  | «open» fd | unlock fd | epollWait poller events =>
    obtain ⟨_, ⟨⟩⟩ := Option.ite_none_right_eq_some.mp stepped
    rfl
  | close fd =>
    obtain ⟨_, ⟨⟩⟩ := Option.ite_none_right_eq_some.mp stepped
    rw [State.close]
    refine sound.stage_wakeWaiters ?_ ?_ ?_ ?_ fiber
    · simp only [update_self]
      split <;> rfl
    all_goals rfl
  | wait waiter fd events =>
    obtain ⟨⟨running, _⟩, ⟨⟩⟩ := Option.ite_none_right_eq_some.mp stepped
    rw [sound.register orderly events, stepLog]
    split
    · subst fiber
      simp [State.stage, running, Stage.next]
    · rename_i apart
      simp [State.stage, State.link, apart]
  | refuse waiter fd events => exact orderly.elim
  | handle poller =>
    rw [step] at stepped
    rw [stepLog]
    generalize state.events poller = events at stepped ⊢
    cases events with
    | nil => cases stepped
    | cons event rest =>
      obtain ⟨fd, reported⟩ := event
      obtain ⟨_, ⟨⟩⟩ := Option.ite_none_right_eq_some.mp stepped
      obtain ⟨interest, handled, _⟩ :=
        handle_eq { state with events := update state.events poller rest } fd reported
      rw [handled]
      refine sound.stage_wakeWaiters ?_ ?_ ?_ ?_ fiber
      · simp
      all_goals rfl
  | resume waiter =>
    obtain ⟨⟨woken, _⟩, ⟨⟩⟩ := Option.ite_none_right_eq_some.mp stepped
    rw [stepLog]
    split
    · subst fiber
      simp [State.stage, woken, Stage.next]
    · rename_i apart
      simp [State.stage, apart]

end Steps

section Runs

variable {Fd Fiber Poller : Type} [DecidableEq Fd] [DecidableEq Fiber] [DecidableEq Poller]

/-- A parked fiber is in the list of its descriptor, which `info->events` and the armed
mask or a notification on its way cover. -/
theorem registration_loses_no_wakeup {history : History Fd Fiber Poller}
    {state : State Fd Fiber Poller} (run : (machine Fd Fiber Poller).Run history state)
    (orderly : ∀ taken ∈ history, Orderly taken.1 taken.2) :
    (∀ fiber fd events, state.phase fiber = .parked fd events →
      fiber ∈ (state.info fd).waiters ∧ Contains (state.info fd).events events ∧
        (Contains (state.armed fd) events ∨ state.Notified fd)) ∧
    (∀ fiber, (log history fiber).foldlM Stage.next .running = some (state.stage fiber)) ∧
    ∀ fiber, state.scheduled fiber = (state.phase fiber).entries := by
  have kept : Sound state ∧
      ∀ fiber, (log history fiber).foldlM Stage.next .running = some (state.stage fiber) := by
    refine run.invariant_of_allowed Orderly (fun history state => Sound state ∧
      ∀ fiber, (log history fiber).foldlM Stage.next .running = some (state.stage fiber))
      ?_ ?_ orderly
    · intro state initial
      obtain ⟨opened, scratch, rfl⟩ := initial
      exact ⟨init_sound opened scratch, fun _ => rfl⟩
    · intro history before action after _ held allowed stepped
      obtain ⟨sound, logged⟩ := held
      refine ⟨step_sound sound allowed stepped, fun fiber => ?_⟩
      rw [log, List.flatMap_append, List.foldlM_append, ← log, logged fiber]
      simpa using step_stage sound allowed stepped fiber
  obtain ⟨sound, logged⟩ := kept
  refine ⟨?_, logged, sound.ready⟩
  intro fiber fd events parked
  have waits := (sound.listed fiber fd).mpr ⟨events, parked⟩
  have asked := sound.asked fiber fd events parked
  refine ⟨waits, asked, (sound.armed fd (List.ne_nil_of_mem waits)).imp ?_ id⟩
  intro armed
  rw [armed, BitVec.or_comm]
  exact asked.or_right epollOneshot

end Runs

def closedFiles : State Unit Bool Unit := init (fun _ => false) fun _ => .null

/-- A reader and a writer are woken together, the reader waits again and is woken by the
`close`, and the writer waits on the next file of the number. -/
def reusedSchedule : List (Action Unit Bool Unit) :=
  [.open (), .wait true () pollIn, .wait false () pollOut, .epollWait () [((), epollIn)],
    .handle (), .resume true, .wait true () pollIn, .close (), .resume true, .resume false,
    .open (), .wait false () (pollIn ||| pollOut)]

theorem registration_loses_no_wakeup_reused :
    ∃ (history : History Unit Bool Unit) (state : State Unit Bool Unit),
      (machine Unit Bool Unit).Run history state ∧
      (∀ taken ∈ history, Orderly taken.1 taken.2) ∧
      log history true = [.waited, .scheduled false, .returned false, .waited, .scheduled true,
        .returned true] ∧
      state.phase false = .parked () (epollIn ||| epollOut) ∧
      false ∈ (state.info ()).waiters ∧ Contains (state.info ()).events (epollIn ||| epollOut) ∧
      (Contains (state.armed ()) (epollIn ||| epollOut) ∨ state.Notified ()) := by
  obtain ⟨state, run, checked⟩ := Machine.run_of_check
    (show (machine Unit Bool Unit).initial closedFiles from ⟨_, _, rfl⟩)
    (show ((machine Unit Bool Unit).exec closedFiles reusedSchedule).any (fun state =>
      decide (state.phase false = .parked () (epollIn ||| epollOut))) by decide +kernel)
  have orderly : ∀ taken ∈ (machine Unit Bool Unit).trail closedFiles reusedSchedule,
      Orderly taken.1 taken.2 := by decide +kernel
  have parked := of_decide_eq_true checked
  obtain ⟨covered, _⟩ := registration_loses_no_wakeup run orderly
  exact ⟨_, state, run, orderly, by decide +kernel, parked, covered false () _ parked⟩

/-- A fiber waits behind the `close`, where `EPOLL_CTL_ADD` fails.  The next one waits on the
next file of the number, where `EPOLL_CTL_MOD` fails. -/
def staleSchedule : List (Action Unit Bool Unit) :=
  [.open (), .close (), .wait true () pollIn, .open (), .wait false () pollIn]

/-- Both are parked, and `epoll` looks out for nothing. -/
theorem registration_loses_no_wakeup_stale :
    ∃ (history : History Unit Bool Unit) (state : State Unit Bool Unit),
      (machine Unit Bool Unit).Run history state ∧ state.opened () ∧
      state.phase true = .parked () epollIn ∧ state.phase false = .parked () epollIn ∧
      ¬ Contains (state.armed ()) epollIn ∧ ¬ state.Notified () := by
  obtain ⟨state, run, checked⟩ := Machine.run_of_check
    (show (machine Unit Bool Unit).initial closedFiles from ⟨_, _, rfl⟩)
    (show ((machine Unit Bool Unit).exec closedFiles staleSchedule).any (fun state =>
      decide (state.opened () ∧ state.phase true = .parked () epollIn ∧
        state.phase false = .parked () epollIn ∧ epollIn &&& state.armed () ≠ epollIn ∧
        state.events () = [])) by decide +kernel)
  obtain ⟨opened, first, second, unarmed, empty⟩ := of_decide_eq_true checked
  refine ⟨_, state, run, opened, first, second, unarmed, ?_⟩
  intro ⟨poller, reported, member⟩
  simp [empty] at member

end LibFiber.Event
