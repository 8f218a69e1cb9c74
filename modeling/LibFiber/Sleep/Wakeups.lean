import LibFiber.Sleep.Machine

namespace LibFiber.Sleep

open Semantics Data Function

/-! Every call of `fiber_event_wake_sleepers` wakes the sleepers that are due, as long
as none of them is resumed, and uses its stack again, before its element is read for
the last time. -/

section Invariant

variable {Fiber Addr : Type}

/-- The elements that are out of the tree and whose waiters are not scheduled yet. -/
def WakerPhase.Fits (element : Addr → Element Fiber Addr) (pending : List Addr) :
    WakerPhase Addr → Prop
  | .idle | .removing => pending = []
  | .scheduling toWake => Chain some (fun addr => (element addr).next) (some toWake) pending none
  | .reading toWake =>
    Chain some (fun addr => (element addr).next) (element toWake).next pending none

structure Sound (stack : Addr → Fiber) (state : State Fiber Addr) (behind : Addr → List Addr)
    (pending : List Addr) : Prop where
  forest : Forest state.element state.sleepers behind
  fits : state.waker.Fits state.element pending
  due : ∀ addr ∈ pending, (state.element addr).wakeTime < state.timerTriggerCount
  distinct : (state.sleepers.members behind ++ pending).Nodup
  asleep : ∀ addr ∈ state.sleepers.members behind ++ pending,
    (state.element addr).waiter = some (stack addr) ∧ state.fiber (stack addr) = .asleep addr
  placed : ∀ fiber addr, state.fiber fiber = .asleep addr →
    addr ∈ state.sleepers.members behind ++ pending ∧ stack addr = fiber
  entering : ∀ fiber addr sleepMs, state.fiber fiber = .entering addr sleepMs →
    stack addr = fiber ∧ (state.element addr).next = none

/-- The part of a stack that a step writes without the lock. -/
def Action.writes : Action Fiber Addr → Option Addr
  | .sleep _ wakeInfo _ _ => some wakeInfo
  | .scribble addr _ _ _ => some addr
  | _ => none

/-- No fiber uses again the element whose `next` is about to be read. -/
def Careful (state : State Fiber Addr) (action : Action Fiber Addr) : Prop :=
  ∀ addr, action.writes = some addr → state.waker ≠ .reading addr

variable {stack : Addr → Fiber} {state after : State Fiber Addr}
variable {fiber : Fiber} {addr : Addr}

theorem init_sound (element : Addr → Element Fiber Addr) :
    Sound stack (init element) (fun _ => []) [] where
  forest := .empty _
  fits := rfl
  due := nofun
  distinct := List.nodup_nil
  asleep := nofun
  placed fiber addr phase := by cases phase
  entering fiber addr sleepMs phase := by cases phase

theorem Fits.congr {element other : Addr → Element Fiber Addr} {waker : WakerPhase Addr}
    (fits : waker.Fits element pending)
    (same : ∀ addr ∈ pending, (other addr).next = (element addr).next)
    (standing : ∀ toWake, waker = .reading toWake → (other toWake).next = (element toWake).next) :
    waker.Fits other pending := by
  cases waker with
  | idle | removing => exact fits
  | scheduling toWake => exact Chain.congr fits same
  | reading toWake =>
    show Chain _ _ _ _ _
    rw [standing toWake rfl]
    exact Chain.congr fits same

theorem Sound.pending_eq_nil (sound : Sound stack state behind pending)
    (outside : state.waker = .idle ∨ state.waker = .removing) : pending = [] := by
  have fits := sound.fits
  rcases outside with waker | waker <;> rw [waker] at fits <;> exact fits

theorem Sound.notMem (sound : Sound stack state behind pending)
    (awake : state.fiber (stack addr) ≠ .asleep addr) :
    addr ∉ state.sleepers.members behind ++ pending :=
  fun member => awake (sound.asleep addr member).2

variable [DecidableEq Fiber] [DecidableEq Addr]
variable {sleepMs : Nat}

omit [DecidableEq Fiber] in
theorem timed_of_ne (different : other ≠ addr) :
    state.timed addr sleepMs other = state.element other :=
  update_of_ne different _ _

omit [DecidableEq Fiber] in
theorem Forest.timed (forest : Forest state.element state.sleepers behind)
    (fresh : addr ∉ state.sleepers.members behind) :
    Forest (state.timed addr sleepMs) state.sleepers behind := by
  refine forest.congr fun other member => ?_
  rw [timed_of_ne]
  · exact ⟨rfl, rfl⟩
  · rintro rfl
    exact fresh member

/-- What `enter` stores: the other elements keep their wake times and waiters, and
those outside the tree their links. -/
theorem enter_element (forest : Forest state.element state.sleepers behind)
    (fresh : addr ∉ state.sleepers.members behind) {other : Addr} (different : other ≠ addr) :
    ((enter state fiber addr sleepMs).element other).wakeTime = (state.element other).wakeTime ∧
      ((enter state fiber addr sleepMs).element other).waiter = (state.element other).waiter ∧
      (other ∉ state.sleepers.tops →
        ((enter state fiber addr sleepMs).element other).next = (state.element other).next) := by
  have stored : (enter state fiber addr sleepMs).element other =
      (waiterInsert (state.timed addr sleepMs) addr state.sleepers).2 other := by
    simp [enter, update_of_ne different]
  have fields : ((waiterInsert (state.timed addr sleepMs) addr state.sleepers).2 other).wakeTime =
      (state.timed addr sleepMs other).wakeTime ∧ _ = _ := waiterInsert_fields other
  rw [stored, fields.1, fields.2, timed_of_ne different]
  refine ⟨rfl, rfl, fun outside => ?_⟩
  rw [waiterInsert_next (forest.timed fresh).sorted outside different, timed_of_ne different]

section

variable {behind : Addr → List Addr} {pending : List Addr}
  (sound : Sound stack state behind pending)
include sound

omit [DecidableEq Fiber] in
theorem Sound.write (value : Element Fiber Addr)
    (awake : state.fiber (stack addr) ≠ .asleep addr)
    (unused : ∀ sleepMs, state.fiber (stack addr) ≠ .entering addr sleepMs)
    (careful : state.waker ≠ .reading addr) :
    Sound stack { state with element := update state.element addr value } behind pending := by
  have elsewhere : ∀ other, other ≠ addr → update state.element addr value other =
      state.element other := fun other apart => update_of_ne apart _ _
  have same : ∀ other ∈ state.sleepers.members behind ++ pending,
      update state.element addr value other = state.element other := by
    intro other member
    refine elsewhere other ?_
    rintro rfl
    exact sound.notMem awake member
  refine ⟨?_, ?_, ?_, sound.distinct, ?_, sound.placed, ?_⟩
  · refine sound.forest.congr fun other member => ?_
    have kept := same other (List.mem_append_left _ member)
    exact ⟨congrArg Element.wakeTime kept, congrArg Element.next kept⟩
  · refine Fits.congr sound.fits (fun other member => ?_) fun toWake reading => ?_
    · exact congrArg Element.next (same other (List.mem_append_right _ member))
    · refine congrArg Element.next (elsewhere toWake ?_)
      rintro rfl
      exact careful reading
  · intro other member
    show (update state.element addr value other).wakeTime < _
    rw [same other (List.mem_append_right _ member)]
    exact sound.due other member
  · intro other member
    obtain ⟨waiter, sleeps⟩ := sound.asleep other member
    exact ⟨(congrArg Element.waiter (same other member)).trans waiter, sleeps⟩
  · intro fiber other sleepMs phase
    obtain ⟨own, blank⟩ := sound.entering fiber other sleepMs phase
    refine ⟨own, (congrArg Element.next (elsewhere other ?_)).trans blank⟩
    rintro rfl
    exact unused sleepMs (own ▸ phase)

omit [DecidableEq Addr] in
theorem Sound.goto (awake : ∀ addr, state.fiber fiber ≠ .asleep addr)
    (stays : ∀ addr, next ≠ .asleep addr)
    (entering : ∀ addr sleepMs, next = .entering addr sleepMs →
      stack addr = fiber ∧ (state.element addr).next = none) :
    Sound stack { state with fiber := update state.fiber fiber next } behind pending := by
  refine ⟨sound.forest, sound.fits, sound.due, sound.distinct, ?_, ?_, ?_⟩
  · intro addr member
    obtain ⟨waiter, sleeps⟩ := sound.asleep addr member
    refine ⟨waiter, (update_of_ne ?_ _ _).trans sleeps⟩
    intro same
    exact awake addr (same ▸ sleeps)
  · exact (forall_update_iff state.fiber fun other phase => ∀ addr, phase = .asleep addr →
      addr ∈ state.sleepers.members behind ++ pending ∧ stack addr = other).mpr
      ⟨fun addr sleeps => (stays addr sleeps).elim, fun other _ => sound.placed other⟩
  · exact (forall_update_iff state.fiber fun other phase => ∀ addr sleepMs,
      phase = .entering addr sleepMs → stack addr = other ∧ (state.element addr).next = none).mpr
      ⟨entering, fun other _ => sound.entering other⟩

theorem enter_sound (phase : state.fiber fiber = .entering addr sleepMs)
    (idle : state.waker = .idle) :
    ∃ later, Sound stack (enter state fiber addr sleepMs) later [] := by
  obtain rfl := sound.pending_eq_nil (.inl idle)
  obtain ⟨rfl, blank⟩ := sound.entering fiber addr sleepMs phase
  have fresh : addr ∉ state.sleepers.members behind := by
    have outside : addr ∉ state.sleepers.members behind ++ [] := sound.notMem (by simp [phase])
    rwa [List.append_nil] at outside
  have unlinked : (state.timed addr sleepMs addr).next = none := by
    simpa [State.timed] using blank
  obtain ⟨later, inserted, perm⟩ := (sound.forest.timed fresh).insert fresh unlinked
  have members : ∀ other,
      other ∈ (enter state (stack addr) addr sleepMs).sleepers.members later ++ [] ↔
      other = addr ∨ other ∈ state.sleepers.members behind ++ [] := by
    intro other
    rw [List.append_nil, List.append_nil, ← List.mem_cons]
    exact perm.mem_iff
  refine ⟨later, ?_, ?_, nofun, ?_, ?_, ?_, ?_⟩
  · refine inserted.congr fun other member => ?_
    by_cases same : other = addr
    · subst other
      simp [enter]
    · simp [enter, update_of_ne same]
  · show WakerPhase.Fits _ _ state.waker
    rw [idle]
    rfl
  · rw [List.append_nil]
    exact inserted.distinct
  · intro other member
    rcases (members other).mp member with rfl | old
    · exact ⟨by simp [enter], update_self _ _ _⟩
    · obtain ⟨waiter, sleeps⟩ := sound.asleep other old
      have different : other ≠ addr := by
        rintro rfl
        rw [phase] at sleeps
        cases sleeps
      refine ⟨(enter_element sound.forest fresh different).2.1.trans waiter,
        (update_of_ne ?_ _ _).trans sleeps⟩
      intro same
      rw [same, phase] at sleeps
      cases sleeps
  · refine (forall_update_iff state.fiber fun rival phase => ∀ other, phase = .asleep other →
      other ∈ (enter state (stack addr) addr sleepMs).sleepers.members later ++ [] ∧
        stack other = rival).mpr ⟨?_, fun rival _ other sleeps => ?_⟩
    · rintro _ ⟨⟩
      exact ⟨(members addr).mpr (.inl rfl), rfl⟩
    · obtain ⟨placed, own⟩ := sound.placed rival other sleeps
      exact ⟨(members other).mpr (.inr placed), own⟩
  · refine (forall_update_iff state.fiber fun rival phase => ∀ other wait,
      phase = .entering other wait → stack other = rival ∧
        ((enter state (stack addr) addr sleepMs).element other).next = none).mpr
      ⟨nofun, fun rival apart other wait entering => ?_⟩
    obtain ⟨own, unlinked⟩ := sound.entering rival other wait entering
    have different : other ≠ addr := by
      rintro rfl
      exact apart own.symm
    have outside : other ∉ state.sleepers.tops := by
      intro member
      have sleeps := (sound.asleep other (List.mem_append_left _ (Tree.top_mem behind member))).2
      rw [own, entering] at sleeps
      cases sleeps
    exact ⟨own, ((enter_element sound.forest fresh different).2.2 outside).trans unlinked⟩

omit [DecidableEq Fiber] [DecidableEq Addr] in
theorem remove_sound (waker : state.waker = .removing)
    (removed : waiterRemoveLessThan state.element state.timerTriggerCount state.sleepers =
      some (toWake, sleepers)) :
    Sound stack { state with sleepers, waker := .scheduling toWake } behind
      (toWake :: behind toWake) := by
  obtain rfl := sound.pending_eq_nil (.inr waker)
  obtain ⟨forest, members, linked, early⟩ := sound.forest.remove removed
  have perm : (sleepers.members behind ++ (toWake :: behind toWake)).Perm
      (state.sleepers.members behind ++ []) := by
    rw [List.append_nil, members]
    exact List.perm_append_comm
  refine ⟨forest, .cons linked, early, perm.nodup_iff.mpr sound.distinct, ?_, ?_, sound.entering⟩
  · exact fun addr member => sound.asleep addr (perm.mem_iff.mp member)
  · intro fiber addr sleeps
    obtain ⟨member, own⟩ := sound.placed fiber addr sleeps
    exact ⟨perm.mem_iff.mpr member, own⟩

omit [DecidableEq Addr] in
theorem schedule_sound (waker : state.waker = .scheduling toWake)
    (waiter : (state.element toWake).waiter = some toSchedule) :
    ∃ rest, pending = toWake :: rest ∧ Sound stack
      { state with
        waker := .reading toWake
        fiber := update state.fiber toSchedule .ready }
      behind rest := by
  have fits := sound.fits
  rw [waker] at fits
  obtain ⟨rest, rfl⟩ : ∃ rest, pending = toWake :: rest := by
    cases fits with
    | cons chain => exact ⟨_, rfl⟩
  have member : toWake ∈ state.sleepers.members behind ++ toWake :: rest :=
    List.mem_append_right _ List.mem_cons_self
  obtain rfl : stack toWake = toSchedule :=
    Option.some.inj ((sound.asleep toWake member).1.symm.trans waiter)
  have split := sound.distinct
  rw [List.nodup_middle, List.nodup_cons] at split
  have others : ∀ addr ∈ state.sleepers.members behind ++ rest,
      addr ∈ state.sleepers.members behind ++ toWake :: rest :=
    fun addr member => List.perm_middle.mem_iff.mpr (List.mem_cons_of_mem _ member)
  refine ⟨rest, rfl, sound.forest, (Chain.cons_inv fits).2,
    fun addr member => sound.due addr (List.mem_cons_of_mem _ member), split.2, ?_, ?_, ?_⟩
  · intro addr member
    obtain ⟨waits, sleeps⟩ := sound.asleep addr (others addr member)
    refine ⟨waits, (update_of_ne ?_ _ _).trans sleeps⟩
    intro same
    have twice := (sound.asleep toWake ‹_›).2
    rw [← same, sleeps] at twice
    cases twice
    exact split.1 member
  · refine (forall_update_iff state.fiber fun other phase => ∀ addr, phase = .asleep addr →
      addr ∈ state.sleepers.members behind ++ rest ∧ stack addr = other).mpr
      ⟨nofun, fun other apart addr sleeps => ?_⟩
    obtain ⟨placed, own⟩ := sound.placed other addr sleeps
    refine ⟨(List.mem_cons.mp (List.perm_middle.mem_iff.mp placed)).resolve_left ?_, own⟩
    rintro rfl
    exact apart own.symm
  · exact (forall_update_iff state.fiber fun other phase => ∀ addr sleepMs,
      phase = .entering addr sleepMs → stack addr = other ∧ (state.element addr).next = none).mpr
      ⟨nofun, fun other _ => sound.entering other⟩

end

theorem Move.sound (move : Move stack state action after)
    (sound : Sound stack state behind pending) (careful : Careful state action) :
    ∃ behind pending, Sound stack after behind pending := by
  cases move with
  | @sleep fiber wakeInfo seconds useconds running own =>
    subst own
    have written := sound.write ⟨0, none, none⟩ (by simp [running]) (by simp [running])
      (careful wakeInfo rfl)
    refine ⟨behind, pending, written.goto (by simp [running]) nofun ?_⟩
    rintro _ _ ⟨⟩
    refine ⟨rfl, ?_⟩
    show (update state.element wakeInfo ⟨0, none, none⟩ wakeInfo).next = none
    rw [update_self]
  | enter phase idle =>
    obtain ⟨later, sound⟩ := enter_sound sound phase idle
    exact ⟨later, [], sound⟩
  | resume ready => exact ⟨behind, pending, sound.goto (by simp [ready]) nofun nofun⟩
  | @scribble addr fiber wakeTime next writable =>
    refine ⟨behind, pending, sound.write _ ?_ ?_ (careful addr rfl)⟩
    · intro sleeps
      simp [State.writable, sleeps] at writable
    · intro sleepMs entering
      simp [State.writable, entering] at writable
  | wake idle =>
    obtain rfl := sound.pending_eq_nil (.inl idle)
    exact ⟨behind, [], { sound with fits := rfl, due := nofun }⟩
  | remove waker removed => exact ⟨behind, _, remove_sound sound waker removed⟩
  | finish waker =>
    obtain rfl := sound.pending_eq_nil (.inr waker)
    exact ⟨behind, [], { sound with fits := rfl }⟩
  | schedule waker waiter =>
    obtain ⟨rest, _, sound⟩ := schedule_sound sound waker waiter
    exact ⟨behind, rest, sound⟩
  | next waker leads =>
    have fits := sound.fits
    rw [waker, WakerPhase.Fits, leads] at fits
    exact ⟨behind, pending, { sound with fits := fits }⟩
  | last waker ends =>
    have fits := sound.fits
    rw [waker, WakerPhase.Fits, ends] at fits
    cases fits
    exact ⟨behind, [], { sound with fits := rfl }⟩

end Invariant

section Calls

variable {Fiber Addr : Type}

/-- A call of `fiber_event_wake_sleepers`: the state it began in, the count of the
timer that it brought, and the fibers it has scheduled. -/
structure Call (Fiber Addr : Type) where
  start : State Fiber Addr
  limit : Nat
  scheduled : List Fiber

def record (call : Option (Call Fiber Addr)) (taken : State Fiber Addr × Action Fiber Addr) :
    Option (Call Fiber Addr) :=
  match taken.2 with
  | .wake triggerCount =>
    some ⟨taken.1, (taken.1.timerTriggerCount + triggerCount) % 2 ^ 64, []⟩
  | .moveWaker =>
    match taken.1.waker with
    | .scheduling toWake =>
      call.map fun call =>
        { call with scheduled := call.scheduled ++ (taken.1.element toWake).waiter.toList }
    | _ => call
  | _ => call

def lastCall (history : History Fiber Addr) : Option (Call Fiber Addr) :=
  history.foldl record none

theorem lastCall_snoc (history : History Fiber Addr)
    (taken : State Fiber Addr × Action Fiber Addr) :
    lastCall (history ++ [taken]) = record (lastCall history) taken := by
  simp [lastCall]

variable [DecidableEq Fiber]

/-- The sleepers that the call found sleep on, or were due and have been scheduled. -/
structure Called (call : Call Fiber Addr) (state : State Fiber Addr) : Prop where
  settled : ∀ fiber addr, call.start.fiber fiber = .asleep addr →
    (state.fiber fiber = .asleep addr ∧
      (state.element addr).wakeTime = (call.start.element addr).wakeTime ∧
      call.scheduled.count fiber = 0 ∧
      (state.waker = .idle → call.limit ≤ (call.start.element addr).wakeTime)) ∨
    ((call.start.element addr).wakeTime < call.limit ∧ call.scheduled.count fiber = 1 ∧
      (state.waker ≠ .idle → ∀ other, state.fiber fiber ≠ .asleep other))
  active : state.waker ≠ .idle → state.timerTriggerCount = call.limit ∧
    ∀ fiber addr, state.fiber fiber = .asleep addr → call.start.fiber fiber = .asleep addr

variable {stack : Addr → Fiber} {state after : State Fiber Addr}
variable {call : Call Fiber Addr}

theorem Called.carry (called : Called call state)
    (waker : after.waker = .idle ↔ state.waker = .idle)
    (timer : after.timerTriggerCount = state.timerTriggerCount)
    (still : ∀ fiber addr, state.fiber fiber = .asleep addr → after.fiber fiber = .asleep addr ∧
      (after.element addr).wakeTime = (state.element addr).wakeTime)
    (back : state.waker ≠ .idle → ∀ fiber addr, after.fiber fiber = .asleep addr →
      state.fiber fiber = .asleep addr) :
    Called call after where
  settled fiber addr started := by
    rcases called.settled fiber addr started with ⟨sleeps, time, none, late⟩ | ⟨due, once, awake⟩
    · obtain ⟨sleepsOn, same⟩ := still fiber addr sleeps
      exact .inl ⟨sleepsOn, same.trans time, none, fun idle => late (waker.mp idle)⟩
    · refine .inr ⟨due, once, fun busy other sleeps => ?_⟩
      have active : state.waker ≠ .idle := fun idle => busy (waker.mpr idle)
      exact awake active other (back active fiber other sleeps)
  active busy := by
    have active : state.waker ≠ .idle := fun idle => busy (waker.mpr idle)
    obtain ⟨limit, started⟩ := called.active active
    exact ⟨timer.trans limit,
      fun fiber addr sleeps => started fiber addr (back active fiber addr sleeps)⟩

omit [DecidableEq Fiber] in
theorem called_start [DecidableEq Fiber] (state : State Fiber Addr) (triggerCount : Nat) :
    Called ⟨state, (state.timerTriggerCount + triggerCount) % 2 ^ 64, []⟩
      { state with
        timerTriggerCount := (state.timerTriggerCount + triggerCount) % 2 ^ 64
        waker := .removing } where
  settled _ _ sleeps := .inl ⟨sleeps, rfl, rfl, nofun⟩
  active _ := ⟨rfl, fun _ _ sleeps => sleeps⟩

theorem finish_called (sound : Sound stack state behind pending) (called : Called call state)
    (waker : state.waker = .removing)
    (kept : waiterRemoveLessThan state.element state.timerTriggerCount state.sleepers = none) :
    Called call { state with waker := .idle } := by
  obtain rfl := sound.pending_eq_nil (.inr waker)
  obtain ⟨limit, started⟩ := called.active (by simp [waker])
  refine ⟨fun fiber addr began => ?_, fun busy => (busy rfl).elim⟩
  rcases called.settled fiber addr began with ⟨sleeps, time, none, _⟩ | ⟨due, once, _⟩
  · refine .inl ⟨sleeps, time, none, fun _ => ?_⟩
    obtain ⟨placed, _⟩ := sound.placed fiber addr sleeps
    rw [List.append_nil] at placed
    rw [← time, ← limit]
    exact sound.forest.late kept addr placed
  · exact .inr ⟨due, once, fun busy => (busy rfl).elim⟩

theorem schedule_called (sound : Sound stack state behind pending) (called : Called call state)
    (waker : state.waker = .scheduling toWake)
    (waiter : (state.element toWake).waiter = some toSchedule) :
    Called { call with scheduled := call.scheduled ++ [toSchedule] }
      { state with
        waker := .reading toWake
        fiber := update state.fiber toSchedule .ready } := by
  obtain ⟨rest, rfl, _⟩ := schedule_sound sound waker waiter
  obtain ⟨waits, sleeps⟩ := sound.asleep toWake (List.mem_append_right _ List.mem_cons_self)
  obtain rfl : stack toWake = toSchedule := Option.some.inj (waits.symm.trans waiter)
  have busy : state.waker ≠ .idle := by simp [waker]
  obtain ⟨limit, started⟩ := called.active busy
  have early : (state.element toWake).wakeTime < call.limit :=
    limit ▸ sound.due toWake List.mem_cons_self
  refine ⟨fun fiber addr began => ?_, fun _ => ⟨limit, fun fiber addr asleep => ?_⟩⟩
  · by_cases same : fiber = stack toWake
    · subst fiber
      obtain rfl : addr = toWake := by
        have equal := began.symm.trans (started _ _ sleeps)
        cases equal
        rfl
      rcases called.settled _ addr began with ⟨_, time, none, _⟩ | ⟨_, _, awake⟩
      · refine .inr ⟨time ▸ early, ?_, fun _ other => ?_⟩
        · simp [List.count_append, none]
        · simp
      · exact (awake busy addr sleeps).elim
    · have count : (call.scheduled ++ [stack toWake]).count fiber = call.scheduled.count fiber := by
        simp [List.count_append, Ne.symm same]
      have phase : update state.fiber (stack toWake) .ready fiber = state.fiber fiber :=
        update_of_ne same _ _
      rcases called.settled fiber addr began with ⟨asleep, time, none, _⟩ | ⟨due, once, awake⟩
      · exact .inl ⟨phase.trans asleep, time, count.trans none, nofun⟩
      · exact .inr ⟨due, count.trans once,
          fun _ other asleep => awake busy other (phase.symm.trans asleep)⟩
  · by_cases same : fiber = stack toWake
    · subst fiber
      simp at asleep
    · exact started fiber addr ((update_of_ne same _ _).symm.trans asleep)

variable [DecidableEq Addr] {history : History Fiber Addr}

theorem Move.called (move : Move stack state action after)
    (sound : Sound stack state behind pending)
    (called : ∀ call, lastCall history = some call → Called call state) :
    ∀ call, lastCall (history ++ [(state, action)]) = some call → Called call after := by
  intro call found
  rw [lastCall_snoc] at found
  have others : ∀ {fiber other : Fiber} {addr : Addr} {next : FiberPhase Addr},
      (∀ addr, state.fiber fiber ≠ .asleep addr) → state.fiber other = .asleep addr →
        update state.fiber fiber next other = .asleep addr := by
    intro fiber other addr next awake sleeps
    refine (update_of_ne ?_ _ _).trans sleeps
    rintro rfl
    exact awake addr sleeps
  have elsewhere : ∀ {fiber : Fiber} {addr written : Addr} {value : Element Fiber Addr},
      state.fiber (stack written) ≠ .asleep written → state.fiber fiber = .asleep addr →
        (update state.element written value addr).wakeTime = (state.element addr).wakeTime := by
    intro fiber addr written value awake sleeps
    rw [update_of_ne]
    rintro rfl
    exact sound.notMem awake (sound.placed fiber addr sleeps).1
  cases move with
  | @sleep fiber wakeInfo seconds useconds running own =>
    subst own
    have awake : ∀ addr, state.fiber (stack wakeInfo) ≠ .asleep addr := by simp [running]
    refine (called call found).carry Iff.rfl rfl
      (fun other addr sleeps => ⟨others awake sleeps, elsewhere (awake wakeInfo) sleeps⟩)
      fun _ other addr sleeps => ?_
    by_cases same : other = stack wakeInfo
    · simp [same] at sleeps
    · exact (update_of_ne same _ _).symm.trans sleeps
  | @enter fiber addr sleepMs phase idle =>
    obtain ⟨rfl, _⟩ := sound.entering fiber addr sleepMs phase
    have awake : ∀ other, state.fiber (stack addr) ≠ .asleep other := by simp [phase]
    have fresh : addr ∉ state.sleepers.members behind :=
      fun member => sound.notMem (awake addr) (List.mem_append_left _ member)
    refine (called call found).carry Iff.rfl rfl (fun other place sleeps => ?_)
      fun busy => (busy idle).elim
    have different : place ≠ addr := by
      rintro rfl
      exact sound.notMem (awake place) (sound.placed other place sleeps).1
    exact ⟨others awake sleeps, (enter_element sound.forest fresh different).1⟩
  | @resume fiber ready =>
    have awake : ∀ other, state.fiber fiber ≠ .asleep other := by simp [ready]
    refine (called call found).carry Iff.rfl rfl (fun _ _ sleeps => ⟨others awake sleeps, rfl⟩)
      fun _ other addr sleeps => ?_
    by_cases same : other = fiber
    · simp [same] at sleeps
    · exact (update_of_ne same _ _).symm.trans sleeps
  | @scribble addr fiber wakeTime next writable =>
    have awake : state.fiber (stack addr) ≠ .asleep addr := by
      intro sleeps
      simp [State.writable, sleeps] at writable
    exact (called call found).carry Iff.rfl rfl
      (fun _ _ sleeps => ⟨sleeps, elsewhere awake sleeps⟩) fun _ _ _ sleeps => sleeps
  | @wake triggerCount idle =>
    cases found
    exact called_start state triggerCount
  | remove waker removed | next waker leads | last waker ends =>
    refine (called call ?_).carry (by simp [waker]) rfl (fun _ _ sleeps => ⟨sleeps, rfl⟩)
      fun _ _ _ sleeps => sleeps
    simpa [record, waker] using found
  | finish waker kept =>
    refine finish_called sound (called call ?_) waker kept
    simpa [record, waker] using found
  | schedule waker waiter =>
    simp only [record, waker, waiter, Option.map_eq_some_iff] at found
    obtain ⟨earlier, begun, rfl⟩ := found
    exact schedule_called sound (called earlier begun) waker waiter

theorem run_keeps (run : (machine stack).Run history state)
    (careful : ∀ taken ∈ history, Careful taken.1 taken.2) :
    (∃ behind pending, Sound stack state behind pending) ∧
      ∀ call, lastCall history = some call → Called call state := by
  refine run.invariant_of_allowed Careful (fun history state =>
    (∃ behind pending, Sound stack state behind pending) ∧
      ∀ call, lastCall history = some call → Called call state) ?_ ?_ careful
  · rintro _ ⟨element, rfl⟩
    exact ⟨⟨_, _, init_sound element⟩, nofun⟩
  · rintro history before action after _ ⟨⟨behind, pending, sound⟩, called⟩ careful stepped
    have move := step_moves stepped
    exact ⟨move.sound sound careful, move.called sound called⟩

end Calls

section Results

variable {Fiber Addr : Type} {stack : Addr → Fiber} {state after : State Fiber Addr}
variable {addr : Addr}

/-- What can be found in the tree and along the lists behind its elements. -/
inductive Stored (state : State Fiber Addr) : Addr → Prop where
  | top {addr : Addr} : addr ∈ state.sleepers.tops → Stored state addr
  | next {addr next : Addr} : Stored state addr → (state.element addr).next = some next →
      Stored state next

theorem stored_of_single {single : Addr} (tops : state.sleepers.tops = [single])
    (ends : (state.element single).next = none) (stored : Stored state addr) : addr = single := by
  induction stored with
  | top member =>
    rw [tops] at member
    exact List.mem_singleton.mp member
  | next _ leads ih =>
    rw [ih, ends] at leads
    cases leads

theorem Stored.along {nodes : List Addr} (stored : Stored state addr)
    (chain : Chain some (fun addr => (state.element addr).next) (state.element addr).next nodes
      none)
    {node : Addr} (member : node ∈ nodes) : Stored state node := by
  induction nodes generalizing addr with
  | nil => cases member
  | cons first rest ih =>
    obtain ⟨leads, chain⟩ := Chain.cons_inv chain
    have found : Stored state first := stored.next leads
    rcases List.mem_cons.mp member with rfl | later
    · exact found
    · exact ih found chain later

theorem Sound.stored (sound : Sound stack state behind pending)
    (member : addr ∈ state.sleepers.members behind) : Stored state addr := by
  obtain ⟨top, above, within⟩ := List.mem_flatMap.mp member
  rcases List.mem_cons.mp within with rfl | waits
  · exact .top above
  · exact (Stored.top above).along (sound.forest.linked top above) waits

variable [DecidableEq Fiber] [DecidableEq Addr]

/-- How much there is left to do for `fiber_event_wake_sleepers`, at most. -/
def remaining (members : List Addr) : WakerPhase Addr → Nat
  | .idle => 0
  | .removing => 3 * members.length + 1
  | .scheduling _ => 3 * members.length
  | .reading _ => 3 * members.length + 2

omit [DecidableEq Addr] in
theorem moveWaker_remaining (sound : Sound stack state behind pending)
    (busy : state.waker ≠ .idle) :
    ∃ after pending', moveWaker state = some after ∧ Sound stack after behind pending' ∧
      remaining (after.sleepers.members behind ++ pending') after.waker <
        remaining (state.sleepers.members behind ++ pending) state.waker := by
  have fits := sound.fits
  cases waker : state.waker with
  | idle => exact (busy waker).elim
  | removing =>
    obtain rfl : pending = [] := by simpa [waker, WakerPhase.Fits] using fits
    cases removed : waiterRemoveLessThan state.element state.timerTriggerCount
        state.sleepers with
    | none =>
      refine ⟨{ state with waker := .idle }, [], by simp [moveWaker, waker, removed],
        { sound with fits := rfl }, ?_⟩
      simp [remaining]
    | some found =>
      obtain ⟨toWake, rest⟩ := found
      refine ⟨_, _, by simp [moveWaker, waker, removed], remove_sound sound waker removed, ?_⟩
      obtain ⟨_, members, _, _⟩ := sound.forest.remove removed
      have length := congrArg List.length members
      simp only [List.length_append] at length
      simp only [remaining, List.length_append, List.length_nil]
      omega
  | scheduling toWake =>
    rw [waker] at fits
    obtain ⟨rest, rfl⟩ : ∃ rest, pending = toWake :: rest := by
      cases fits with
      | cons chain => exact ⟨_, rfl⟩
    obtain ⟨waiter, _⟩ := sound.asleep toWake (List.mem_append_right _ List.mem_cons_self)
    obtain ⟨_, same, scheduled⟩ := schedule_sound sound waker waiter
    obtain rfl := (List.cons.inj same).2
    refine ⟨_, rest, by simp [moveWaker, waker, waiter], scheduled, ?_⟩
    simp only [remaining, List.length_append, List.length_cons]
    omega
  | reading toWake =>
    rw [waker, WakerPhase.Fits] at fits
    cases leads : (state.element toWake).next with
    | none =>
      rw [leads] at fits
      cases fits
      refine ⟨{ state with waker := .removing }, [], by simp [moveWaker, waker, leads],
        { sound with fits := rfl }, ?_⟩
      simp [remaining]
    | some next =>
      rw [leads] at fits
      refine ⟨{ state with waker := .scheduling next }, pending,
        by simp [moveWaker, waker, leads], { sound with fits := fits }, ?_⟩
      simp [remaining]

theorem moveWaker_ends (sound : Sound stack state behind pending) :
    ∃ count after, (machine stack).exec state (List.replicate count .moveWaker) = some after ∧
      after.waker = .idle := by
  generalize bound : remaining (state.sleepers.members behind ++ pending) state.waker = left
  induction left using Nat.strongRecOn generalizing state pending with
  | ind left ih =>
    by_cases idle : state.waker = .idle
    · exact ⟨0, state, rfl, idle⟩
    · obtain ⟨next, rest, stepped, sound, less⟩ := moveWaker_remaining sound idle
      obtain ⟨count, after, executed, ended⟩ := ih _ (bound ▸ less) sound rfl
      refine ⟨count + 1, after, ?_, ended⟩
      rw [List.replicate_succ, Machine.exec]
      show (moveWaker state).bind _ = _
      rw [stepped]
      exact executed

variable {history : History Fiber Addr}

/-- As long as no fiber uses its element again before the last read of it, every call
of `fiber_event_wake_sleepers` comes to its end, and when it has, it has scheduled each
sleeper that was due once and no other; and whoever sleeps is in the tree. -/
theorem sleepers_woken (run : (machine stack).Run history state)
    (careful : ∀ taken ∈ history, Careful taken.1 taken.2) :
    (∃ count after, (machine stack).exec state (List.replicate count .moveWaker) = some after ∧
      after.waker = .idle) ∧
    (state.waker = .idle → ∀ call, lastCall history = some call → ∀ fiber addr,
      call.start.fiber fiber = .asleep addr →
        ((call.start.element addr).wakeTime < call.limit → call.scheduled.count fiber = 1) ∧
        (call.limit ≤ (call.start.element addr).wakeTime →
          call.scheduled.count fiber = 0 ∧ state.fiber fiber = .asleep addr)) ∧
    (state.waker = .idle → ∀ fiber addr, state.fiber fiber = .asleep addr → Stored state addr) := by
  obtain ⟨⟨behind, pending, sound⟩, called⟩ := run_keeps run careful
  refine ⟨moveWaker_ends sound, ?_, ?_⟩
  · intro idle call found fiber addr began
    rcases (called call found).settled fiber addr began with
      ⟨sleeps, _, none, late⟩ | ⟨due, once, _⟩
    · exact ⟨fun due => (Nat.not_lt.mpr (late idle) due).elim, fun _ => ⟨none, sleeps⟩⟩
    · exact ⟨fun _ => once, fun late => (Nat.not_lt.mpr late due).elim⟩
  · intro idle fiber addr sleeps
    obtain rfl := sound.pending_eq_nil (.inl idle)
    obtain ⟨placed, _⟩ := sound.placed fiber addr sleeps
    rw [List.append_nil] at placed
    exact sound.stored placed

end Results

/-- Two fibers sleep until the same time, one for longer. -/
def dozing : List (Action Nat Nat) :=
  [.sleep 0 0 0 0, .enter 0, .sleep 1 1 0 0, .enter 1, .sleep 2 2 1 0, .enter 2, .wake 5,
    .moveWaker, .moveWaker]

/-- The first fiber is resumed and sleeps again, behind the last read of its element. -/
def patient : List (Action Nat Nat) :=
  dozing ++ [.resume 0, .moveWaker, .sleep 0 0 0 0, .moveWaker, .moveWaker, .moveWaker]

def blank : State Nat Nat := init fun _ => ⟨0, none, none⟩

theorem careful_of_all {history : History Nat Nat}
    (checked : history.all (fun taken =>
      taken.2.writes.all fun addr => taken.1.waker != .reading addr)) :
    ∀ taken ∈ history, Careful taken.1 taken.2 := by
  intro taken member addr writes
  have one := List.all_eq_true.mp checked taken member
  simpa [writes] using one

theorem sleepers_woken_patient : ∃ history state call,
    (machine (id : Nat → Nat)).Run history state ∧
      (∀ taken ∈ history, Careful taken.1 taken.2) ∧ state.waker = .idle ∧
      lastCall history = some call ∧ call.scheduled = [0, 1] ∧
      state.fiber 2 = .asleep 2 ∧ Stored state 2 := by
  have run := Machine.run_of_isSome
    (show (machine (id : Nat → Nat)).initial blank from ⟨_, rfl⟩)
    (show ((machine (id : Nat → Nat)).exec blank patient).isSome by decide +kernel)
  have careful : ∀ taken ∈ (machine (id : Nat → Nat)).trail blank patient,
      Careful taken.1 taken.2 :=
    careful_of_all (by decide +kernel)
  have called := Option.some_get (show
    (lastCall ((machine (id : Nat → Nat)).trail blank patient)).isSome by decide +kernel)
  exact ⟨_, _, _, run, careful, by decide +kernel, called.symm, by decide +kernel,
    by decide +kernel,
    (sleepers_woken run careful).2.2 (by decide +kernel) 2 2 (by decide +kernel)⟩

/-- The first fiber is resumed on another manager and sleeps again, which clears its
element, between its scheduling and the read of its `next`. -/
def hasty : List (Action Nat Nat) :=
  dozing ++ [.resume 0, .sleep 0 0 0 0, .moveWaker, .moveWaker]

/-- The second fiber was due; it is not scheduled and not in the tree any more. -/
theorem sleepers_woken_hasty : ∃ history state call,
    (machine (id : Nat → Nat)).Run history state ∧ state.waker = .idle ∧
      lastCall history = some call ∧ call.start.fiber 1 = .asleep 1 ∧
      (call.start.element 1).wakeTime < call.limit ∧ call.scheduled.count 1 = 0 ∧
      state.fiber 1 = .asleep 1 ∧ ¬ Stored state 1 := by
  have run := Machine.run_of_isSome
    (show (machine (id : Nat → Nat)).initial blank from ⟨_, rfl⟩)
    (show ((machine (id : Nat → Nat)).exec blank hasty).isSome by decide +kernel)
  have called := Option.some_get (show
    (lastCall ((machine (id : Nat → Nat)).trail blank hasty)).isSome by decide +kernel)
  refine ⟨_, _, _, run, by decide +kernel, called.symm, by decide +kernel,
    by decide +kernel, by decide +kernel, by decide +kernel, ?_⟩
  have tops : (((machine (id : Nat → Nat)).exec blank hasty).get
      (by decide +kernel)).sleepers.tops = [2] := by
    decide +kernel
  have ends : ((((machine (id : Nat → Nat)).exec blank hasty).get
      (by decide +kernel)).element 2).next = none := by
    decide +kernel
  intro stored
  cases stored_of_single tops ends stored

end LibFiber.Sleep
