import LibFiber.Semantics.Machine
import Mathlib.Data.BitVec

namespace LibFiber.Io

open Semantics Function

/-! The flags that the shims of the system calls keep for each descriptor.

Every shim first asks `should_block` whether a call that would block is to park
the fiber.  The answer is read from two bits, which the creating calls set and
which `fcntl`, `ioctl` and `close` change.
-/

def flagBlocking : BitVec 8 := 1

def flagWaitable : BitVec 8 := 2

/-- `O_NDELAY` is the same bit on Linux. -/
def nonblock : BitVec 64 := 0x800

/-- What the kernel has under a number.  A descriptor that some other call
opened shares the flag array with those of the shims. -/
inductive Descriptor where
  | closed
  | shimmed
  | foreign
deriving DecidableEq, Repr

/-- `fdInfo` is the array of flags and `nonblocking` the `O_NONBLOCK` bit of
the open file, as the real `fcntl` leaves it. -/
structure State where
  fdInfo : Nat → BitVec 8
  descriptor : Nat → Descriptor
  nonblocking : Nat → Bool

/-- A creating call names the numbers the kernel returns.  `open` stands for
every call without a shim that opens a descriptor. -/
inductive Action where
  | socket (sock : Nat)
  | socketpair (first second : Nat)
  | accept (sock : Nat)
  | pipe (first second : Nat)
  | open (fd : Nat)
  | fcntl (fd : Nat) (val : BitVec 64)
  | ioctl (fd : Nat) (val : Option (BitVec 32))
  | close (fd : Nat)
deriving DecidableEq, Repr

def init : State where
  fdInfo := fun _ => 0
  descriptor := fun _ => .closed
  nonblocking := fun _ => false

def State.shouldBlock (state : State) (maxFd : Nat) (threadLocked : Bool) (fd : Nat) : Bool :=
  !threadLocked && decide (fd < maxFd) &&
    decide (state.fdInfo fd &&& (flagBlocking ||| flagWaitable) ≠ 0)

/-- The kernel opens a blocking file under the number. -/
def State.create (state : State) (kind : Descriptor) (fd : Nat) : State :=
  { state with
    descriptor := update state.descriptor fd kind
    nonblocking := update state.nonblocking fd false }

def State.realFcntl (state : State) (fd : Nat) (val : BitVec 64) : State :=
  { state with nonblocking := update state.nonblocking fd (decide (val &&& nonblock ≠ 0)) }

def State.fetchOr (state : State) (fd : Nat) (mask : BitVec 8) : State :=
  { state with fdInfo := update state.fdInfo fd (state.fdInfo fd ||| mask) }

def State.fetchAnd (state : State) (fd : Nat) (mask : BitVec 8) : State :=
  { state with fdInfo := update state.fdInfo fd (state.fdInfo fd &&& mask) }

def State.setupSocket (state : State) (threadLocked : Bool) (sock : Nat) : State :=
  if threadLocked then state
  else (state.fetchOr sock (flagBlocking ||| flagWaitable)).realFcntl sock nonblock

def State.socket (state : State) (threadLocked : Bool) (sock : Nat) : State :=
  (state.create .shimmed sock).setupSocket threadLocked sock

def State.socketpair (state : State) (threadLocked : Bool) (first second : Nat) : State :=
  let created := (state.create .shimmed first).create .shimmed second
  (created.setupSocket threadLocked first).setupSocket threadLocked second

/-- The test is `sock > 0`, so that descriptor zero is not set up. -/
def State.accept (state : State) (threadLocked : Bool) (sock : Nat) : State :=
  let created := state.create .shimmed sock
  if 0 < sock then created.setupSocket threadLocked sock else created

def State.pipe (state : State) (threadLocked : Bool) (first second : Nat) : State :=
  let created := (state.create .shimmed first).create .shimmed second
  if threadLocked then created
  else
    let nonblocked := (created.realFcntl first nonblock).realFcntl second nonblock
    (nonblocked.fetchOr first (flagBlocking ||| flagWaitable)).fetchOr second
      (flagBlocking ||| flagWaitable)

/-- `fcntl` with `F_SETFL`.  Only the exact word `O_NONBLOCK` is recorded; any
other word goes to the kernel with `O_NONBLOCK` added. -/
def State.fcntl (state : State) (threadLocked : Bool) (fd : Nat) (val : BitVec 64) : State :=
  if threadLocked then state.realFcntl fd val
  else if val = nonblock then state.fetchAnd fd (~~~flagBlocking)
  else state.realFcntl fd (val ||| nonblock)

/-- `ioctl` with `FIONBIO`, without the thread lock.  A null pointer is
`EINVAL`. -/
def State.ioctl (state : State) (fd : Nat) : Option (BitVec 32) → State
  | none => state
  | some val =>
    if val ≠ 0 then state.fetchAnd fd (~~~flagBlocking) else state.fetchOr fd flagBlocking

def State.close (state : State) (fd : Nat) : State :=
  { state with
    fdInfo := update state.fdInfo fd 0
    descriptor := update state.descriptor fd .closed }

/-- A creating call returns numbers that were closed, below the limit on
descriptors; the assertions of the other calls are the same limit.  No caller
holds the thread lock. -/
def step (maxFd : Nat) (state : State) : Action → Option State
  | .socket sock =>
    if sock < maxFd ∧ state.descriptor sock = .closed then some (state.socket false sock) else none
  | .socketpair first second =>
    if (first < maxFd ∧ state.descriptor first = .closed) ∧
        (second < maxFd ∧ state.descriptor second = .closed) ∧ first ≠ second then
      some (state.socketpair false first second)
    else none
  | .accept sock =>
    if sock < maxFd ∧ state.descriptor sock = .closed then some (state.accept false sock) else none
  | .pipe first second =>
    if (first < maxFd ∧ state.descriptor first = .closed) ∧
        (second < maxFd ∧ state.descriptor second = .closed) ∧ first ≠ second then
      some (state.pipe false first second)
    else none
  | .open fd =>
    if fd < maxFd ∧ state.descriptor fd = .closed then some (state.create .foreign fd) else none
  | .fcntl fd val => if fd < maxFd then some (state.fcntl false fd val) else none
  | .ioctl fd val => if fd < maxFd then some (state.ioctl fd val) else none
  | .close fd => if state.descriptor fd ≠ .closed then some (state.close fd) else none

def machine (maxFd : Nat) : Machine State Action where
  initial := fun state => state = init
  step := step maxFd

/-- The mode that an `F_SETFL` or `FIONBIO` request asks a descriptor to be
in, where `true` is blocking. -/
def Action.request (fd : Nat) : Action → Option Bool
  | .fcntl target val => if target = fd then some (decide (val &&& nonblock = 0)) else none
  | .ioctl target (some val) => if target = fd then some (decide (val = 0)) else none
  | _ => none

def Action.creates (fd : Nat) : Action → Bool
  | .socket sock => sock = fd
  | .socketpair first second => first = fd ∨ second = fd
  | .accept sock => sock = fd
  | .pipe first second => first = fd ∨ second = fd
  | .open target => target = fd
  | _ => false

/-- The last request on a descriptor since its creation. -/
def lastRequest (fd : Nat) (history : List (State × Action)) : Option Bool :=
  history.foldl (fun last taken =>
    if taken.2.creates fd then none else (taken.2.request fd).or last) none

/-- The mode a client expects: blocking until it asks for something else. -/
def expectedMode (fd : Nat) (history : List (State × Action)) : Bool :=
  (lastRequest fd history).getD true

def creation (fd : Nat) (history : List (State × Action)) : Option Action :=
  history.foldl (fun last taken => if taken.2.creates fd then some taken.2 else last) none

variable {state before after : State}

theorem lastRequest_snoc : lastRequest fd (history ++ [(state, action)]) =
      if action.creates fd then none else (action.request fd).or (lastRequest fd history) := by
  simp [lastRequest, List.foldl_append]

theorem waitable_of_setup : ∀ flags : BitVec 8,
    (flags ||| (flagBlocking ||| flagWaitable)) &&& flagWaitable ≠ 0 := by
  decide

theorem blocking_of_setup : ∀ flags : BitVec 8,
    (flags ||| (flagBlocking ||| flagWaitable)) &&& flagBlocking ≠ 0 := by
  decide

theorem waitable_cleared : ∀ flags : BitVec 8, flags &&& flagWaitable ≠ 0 →
    (flags &&& ~~~flagBlocking) &&& flagWaitable ≠ 0 := by
  decide

theorem waitable_set : ∀ flags : BitVec 8, flags &&& flagWaitable ≠ 0 →
    (flags ||| flagBlocking) &&& flagWaitable ≠ 0 := by
  decide

theorem blocks_of_waitable : ∀ flags : BitVec 8, flags &&& flagWaitable ≠ 0 →
    flags &&& (flagBlocking ||| flagWaitable) ≠ 0 := by
  decide

/-- The entries of one number in the three tables. -/
structure Entry where
  flags : BitVec 8
  descriptor : Descriptor
  nonblocking : Bool

def State.entry (state : State) (fd : Nat) : Entry :=
  ⟨state.fdInfo fd, state.descriptor fd, state.nonblocking fd⟩

theorem State.entry_create :
    (state.create kind target).entry fd =
      if fd = target then ⟨state.fdInfo fd, kind, false⟩ else state.entry fd := by
  by_cases same : fd = target
  · subst same
    simp [create, entry]
  · simp [create, entry, same]

theorem State.entry_setupSocket :
    (state.setupSocket false sock).entry fd =
      if fd = sock then
        ⟨state.fdInfo fd ||| (flagBlocking ||| flagWaitable), state.descriptor fd, true⟩
      else state.entry fd := by
  by_cases same : fd = sock
  · subst same
    simp [setupSocket, fetchOr, realFcntl, entry, nonblock]
  · simp [setupSocket, fetchOr, realFcntl, entry, same]

theorem State.pipe_eq_socketpair :
    state.pipe false first second = state.socketpair false first second := by
  simp [pipe, socketpair, setupSocket, fetchOr, realFcntl]

/-- What the tables say of a descriptor that was set up, given the last request
on it. -/
structure Entry.SetUp (last : Option Bool) (entry : Entry) : Prop where
  waitable : entry.flags &&& flagWaitable ≠ 0
  blocking : last = none → entry.flags &&& flagBlocking ≠ 0
  nonblocking : entry.nonblocking

theorem Entry.SetUp.fresh {flags : BitVec 8} :
    (⟨flags ||| (flagBlocking ||| flagWaitable), kind, true⟩ : Entry).SetUp last where
  waitable := waitable_of_setup flags
  blocking := fun _ => blocking_of_setup flags
  nonblocking := rfl

/-- A descriptor is in order when it was set up, unless it is not one of the
shims'. -/
def State.InOrder (state : State) (maxFd : Nat) (last : Option Bool) (fd : Nat) : Prop :=
  state.descriptor fd = .shimmed → fd < maxFd ∧ (state.entry fd).SetUp last

theorem State.InOrder.congr
    (inOrder : before.InOrder maxFd last fd) (same : after.entry fd = before.entry fd) :
    after.InOrder maxFd last fd := by
  intro shimmed
  have kind : after.descriptor fd = before.descriptor fd := congrArg Entry.descriptor same
  rw [same]
  exact inOrder (kind ▸ shimmed)

theorem State.InOrder.create (inOrder : state.InOrder maxFd last fd) (other : fd ≠ target) :
    (state.create kind target).InOrder maxFd last fd :=
  inOrder.congr (by rw [State.entry_create, if_neg other])

theorem State.inOrder_setupSocket
    (below : sock < maxFd) (inOrder : fd ≠ sock → state.InOrder maxFd last fd) :
    (state.setupSocket false sock).InOrder maxFd last fd := by
  by_cases same : fd = sock
  · subst same
    intro shimmed
    refine ⟨below, ?_⟩
    rw [State.entry_setupSocket, if_pos rfl]
    exact Entry.SetUp.fresh
  · exact (inOrder same).congr (by rw [State.entry_setupSocket, if_neg same])

theorem State.inOrder_socketpair (first_lt : first < maxFd) (second_lt : second < maxFd)
    (inOrder : fd ≠ first → fd ≠ second → state.InOrder maxFd last fd) :
    (state.socketpair false first second).InOrder maxFd last fd := by
  refine State.inOrder_setupSocket second_lt fun notSecond => ?_
  refine State.inOrder_setupSocket first_lt fun notFirst => ?_
  exact ((inOrder notFirst notSecond).create notFirst).create notSecond

theorem State.InOrder.request (inOrder : before.InOrder maxFd last fd)
    (elsewhere : fd ≠ target → after.entry fd = before.entry fd)
    (kind : after.descriptor = before.descriptor)
    (waitable : before.fdInfo target &&& flagWaitable ≠ 0 →
      after.fdInfo target &&& flagWaitable ≠ 0)
    (nonblocking : before.nonblocking target → after.nonblocking target) :
    after.InOrder maxFd ((if target = fd then some mode else none).or last) fd := by
  by_cases same : target = fd
  · subst same
    intro shimmed
    obtain ⟨below, setUp⟩ := inOrder (by rw [← kind]; exact shimmed)
    exact ⟨below, waitable setUp.waitable, by simp, nonblocking setUp.nonblocking⟩
  · rw [if_neg same, Option.none_or]
    exact inOrder.congr (elsewhere (Ne.symm same))

theorem State.InOrder.fetchAnd (inOrder : state.InOrder maxFd last fd) :
    (state.fetchAnd target (~~~flagBlocking)).InOrder maxFd
      ((if target = fd then some mode else none).or last) fd := by
  refine inOrder.request ?_ rfl ?_ id
  · intro other
    simp [State.fetchAnd, entry, other]
  · intro waitable
    simpa [State.fetchAnd] using waitable_cleared _ waitable

theorem State.InOrder.fetchOr (inOrder : state.InOrder maxFd last fd) :
    (state.fetchOr target flagBlocking).InOrder maxFd
      ((if target = fd then some mode else none).or last) fd := by
  refine inOrder.request ?_ rfl ?_ id
  · intro other
    simp [State.fetchOr, entry, other]
  · intro waitable
    simpa [State.fetchOr] using waitable_set _ waitable

theorem nonblock_of_or : (val ||| nonblock) &&& nonblock ≠ 0 := by
  have absorbed : (val ||| nonblock) &&& nonblock = nonblock := by
    ext index
    simpa using Or.inr
  rw [absorbed]
  decide

theorem State.InOrder.realFcntl (inOrder : state.InOrder maxFd last fd) :
    (state.realFcntl target (val ||| nonblock)).InOrder maxFd
      ((if target = fd then some mode else none).or last) fd := by
  refine inOrder.request ?_ rfl id ?_
  · intro other
    simp [State.realFcntl, entry, other]
  · intro nonblocking
    simpa [State.realFcntl] using nonblock_of_or

theorem State.InOrder.fcntl (inOrder : state.InOrder maxFd last fd) :
    (state.fcntl false target val).InOrder maxFd
      (((Action.fcntl target val).request fd).or last) fd := by
  by_cases exactly : val = nonblock
  · simp only [State.fcntl, Bool.false_eq_true, if_false, if_pos exactly]
    exact inOrder.fetchAnd
  · simp only [State.fcntl, Bool.false_eq_true, if_false, if_neg exactly]
    exact inOrder.realFcntl

theorem State.InOrder.ioctl {val : Option (BitVec 32)} (inOrder : state.InOrder maxFd last fd) :
    (state.ioctl target val).InOrder maxFd (((Action.ioctl target val).request fd).or last) fd := by
  cases val with
  | none => exact inOrder
  | some val =>
    simp only [State.ioctl]
    split
    · exact inOrder.fetchAnd
    · exact inOrder.fetchOr

theorem State.InOrder.close
    (inOrder : state.InOrder maxFd last fd) : (state.close target).InOrder maxFd last fd := by
  by_cases same : fd = target
  · subst same
    intro shimmed
    simp [State.close] at shimmed
  · exact inOrder.congr (by simp [State.close, entry, same])

theorem step_inOrder (stepped : step maxFd before action = some after)
    (positive : fd = 0 → action ≠ .accept 0) (inOrder : before.InOrder maxFd last fd) :
    after.InOrder maxFd
      (if action.creates fd then none else (action.request fd).or last) fd := by
  cases action with
  | socket sock =>
    obtain ⟨⟨below, _⟩, ⟨⟩⟩ := Option.ite_none_right_eq_some.mp stepped
    refine State.inOrder_setupSocket below fun other => ?_
    simpa [Action.creates, Action.request, Ne.symm other] using inOrder.create other
  | socketpair first second =>
    obtain ⟨⟨⟨first_lt, _⟩, ⟨second_lt, _⟩, _⟩, ⟨⟩⟩ := Option.ite_none_right_eq_some.mp stepped
    refine State.inOrder_socketpair first_lt second_lt fun notFirst notSecond => ?_
    simpa [Action.creates, Action.request, Ne.symm notFirst, Ne.symm notSecond] using inOrder
  | accept sock =>
    obtain ⟨⟨below, _⟩, ⟨⟩⟩ := Option.ite_none_right_eq_some.mp stepped
    rcases Nat.eq_zero_or_pos sock with zero | pos
    · subst zero
      have other : fd ≠ 0 := fun same => positive same rfl
      simpa [Action.creates, Action.request, Ne.symm other, State.accept]
        using inOrder.create other
    · rw [State.accept, if_pos pos]
      refine State.inOrder_setupSocket below fun other => ?_
      simpa [Action.creates, Action.request, Ne.symm other] using inOrder.create other
  | pipe first second =>
    obtain ⟨⟨⟨first_lt, _⟩, ⟨second_lt, _⟩, _⟩, ⟨⟩⟩ := Option.ite_none_right_eq_some.mp stepped
    rw [State.pipe_eq_socketpair]
    refine State.inOrder_socketpair first_lt second_lt fun notFirst notSecond => ?_
    simpa [Action.creates, Action.request, Ne.symm notFirst, Ne.symm notSecond] using inOrder
  | «open» target =>
    obtain ⟨_, ⟨⟩⟩ := Option.ite_none_right_eq_some.mp stepped
    by_cases same : fd = target
    · subst same
      intro shimmed
      simp [State.create] at shimmed
    · simpa [Action.creates, Action.request, Ne.symm same] using inOrder.create same
  | fcntl target val =>
    obtain ⟨_, ⟨⟩⟩ := Option.ite_none_right_eq_some.mp stepped
    exact inOrder.fcntl
  | ioctl target val =>
    obtain ⟨_, ⟨⟩⟩ := Option.ite_none_right_eq_some.mp stepped
    exact inOrder.ioctl
  | close target =>
    obtain ⟨_, ⟨⟩⟩ := Option.ite_none_right_eq_some.mp stepped
    exact inOrder.close

theorem closed_of_creates (stepped : step maxFd before action = some after)
    (creates : action.creates fd) : before.descriptor fd = .closed := by
  cases action with
  | socket sock | accept sock | «open» sock =>
    obtain ⟨⟨_, closed⟩, _⟩ := Option.ite_none_right_eq_some.mp stepped
    exact of_decide_eq_true creates ▸ closed
  | socketpair first second | pipe first second =>
    obtain ⟨⟨⟨_, closed⟩, ⟨_, closed'⟩, _⟩, _⟩ := Option.ite_none_right_eq_some.mp stepped
    rcases of_decide_eq_true creates with same | same
    · exact same ▸ closed
    · exact same ▸ closed'
  | fcntl | ioctl | close => cases creates

theorem run_inOrder (run : (machine maxFd).Run history state)
    (positive : creation fd history ≠ some (.accept 0)) :
    state.InOrder maxFd (lastRequest fd history) fd := by
  refine run.invariant (fun history state => creation fd history ≠ some (.accept 0) →
    state.InOrder maxFd (lastRequest fd history) fd) ?_ ?_ positive
  · intro state initial _ shimmed
    cases initial
    simp [init] at shimmed
  · intro history before action after inOrder stepped positive
    simp only [creation, List.foldl_append, List.foldl_cons, List.foldl_nil] at positive
    rw [lastRequest_snoc]
    by_cases creates : action.creates fd
    · rw [if_pos creates] at positive
      have closed := closed_of_creates stepped creates
      exact step_inOrder stepped (fun _ same => positive (congrArg some same))
        fun shimmed => by simp [closed] at shimmed
    · rw [if_neg creates] at positive
      refine step_inOrder stepped (fun zero same => creates ?_) (inOrder positive)
      simp [zero, same, Action.creates]

theorem State.InOrder.shouldBlock
    (inOrder : state.InOrder maxFd last fd) (shimmed : state.descriptor fd = .shimmed) :
    state.shouldBlock maxFd false fd := by
  obtain ⟨below, setUp⟩ := inOrder shimmed
  simpa [State.shouldBlock, below] using blocks_of_waitable (state.fdInfo fd) setUp.waitable

/-- A descriptor of the shims whose last request, if any, asked for blocking
mode does block, and one without a request has both flags set whatever was
asked of earlier descriptors with its number. -/
theorem should_block_of_expected {maxFd fd : Nat} {history : List (State × Action)} {state : State}
    (run : (machine maxFd).Run history state) (positive : creation fd history ≠ some (.accept 0))
    (shimmed : state.descriptor fd = .shimmed) (blocking : expectedMode fd history) :
    state.shouldBlock maxFd false fd = expectedMode fd history ∧ (lastRequest fd history = none →
        state.fdInfo fd &&& flagBlocking ≠ 0 ∧ state.fdInfo fd &&& flagWaitable ≠ 0) := by
  have inOrder := run_inOrder run positive
  obtain ⟨_, setUp⟩ := inOrder shimmed
  refine ⟨?_, fun fresh => ⟨setUp.blocking fresh, setUp.waitable⟩⟩
  rw [blocking]
  exact inOrder.shouldBlock shimmed

/-- A socket is made non-blocking and closed, and its number comes back as one
end of a pipe. -/
def reused : List Action :=
  [.socket 3, .fcntl 3 nonblock, .close 3, .pipe 3 4, .ioctl 4 (some 1), .ioctl 4 (some 0)]

theorem should_block_reused : ∃ history state, (machine 8).Run history state ∧
    state.shouldBlock 8 false 4 = expectedMode 4 history ∧
      state.fdInfo 3 &&& flagBlocking ≠ 0 ∧ state.fdInfo 3 &&& flagWaitable ≠ 0 := by
  have run := Machine.run_of_isSome (show (machine 8).initial init from rfl)
    (show ((machine 8).exec init reused).isSome by decide)
  exact ⟨_, _, run, (should_block_of_expected run (by decide) (by decide) (by decide)).1,
    (should_block_of_expected run (by decide) (by decide) (by decide)).2 (by decide)⟩

/-- A descriptor asked to be non-blocking with exactly `O_NONBLOCK` still
parks its callers, and descriptor zero does not although no request was made on
it. -/
theorem should_block_unexpected : ∃ history state, (machine 8).Run history state ∧
    (state.descriptor 3 = .shimmed ∧ expectedMode 3 history = false ∧
      state.shouldBlock 8 false 3) ∧
    state.descriptor 0 = .shimmed ∧ expectedMode 0 history ∧
      state.shouldBlock 8 false 0 = false := by
  have run := Machine.run_of_isSome (show (machine 8).initial init from rfl)
    (show ((machine 8).exec init [.socket 3, .fcntl 3 nonblock, .accept 0]).isSome by
      decide)
  exact ⟨_, _, run, by decide⟩

end LibFiber.Io
