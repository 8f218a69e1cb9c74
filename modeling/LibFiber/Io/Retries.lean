import LibFiber.Data.MachineInt

namespace LibFiber.Io

open Data

/-! The retries of the shims of calls that may block, while one is under way: the kernel
answers the real call again and again. -/

inductive Errno where
  | eagain
  | ewouldblock
  | other
deriving DecidableEq, Repr

structure Answer where
  ret : Int
  errno : Errno
deriving DecidableEq, Repr

def Answer.wouldBlock (answer : Answer) : Bool :=
  decide (answer.ret < 0 ∧ (answer.errno = .ewouldblock ∨ answer.errno = .eagain))

/-- `int ret = ...;` -/
def Answer.toInt (answer : Answer) : Answer :=
  { answer with ret := int32 answer.ret }

inductive Poll where
  | pollIn
  | pollOut
deriving DecidableEq, Repr

/-- What the calls of `should_block`, of `fiber_wait_for_event` and of `setup_socket` return,
the first two by how often they have been called. -/
structure Surroundings where
  dontWait : Bool
  shouldBlock : Nat → Bool
  waitForEvent : Poll → Nat → Bool
  setupSocket : Int → Bool

/-- `do { if(blocks) wait; ret = real call; } while(would block && blocks);`, which has
returned or needs another answer. -/
def waitFirst (surroundings : Surroundings) (blocks : Nat → Bool) (poll : Poll) :
    Nat → List Answer → Option Int
  | turn, answers =>
    if blocks (2 * turn) && !surroundings.waitForEvent poll turn then some (-1)
    else
      match answers with
      | [] => none
      | answer :: rest =>
        if answer.toInt.wouldBlock && blocks (2 * turn + 1) then
          waitFirst surroundings blocks poll (turn + 1) rest
        else some answer.toInt.ret

/-- `ret = real call; while(would block && blocks) { wait; ret = real call; }`; `narrow` is
the conversion to the type of `ret`. -/
def tryFirst (surroundings : Surroundings) (blocks : Nat → Bool) (poll : Poll)
    (narrow : Answer → Answer) : Nat → List Answer → Option Int
  | _, [] => none
  | turn, answer :: rest =>
    if (narrow answer).wouldBlock && blocks turn then
      if surroundings.waitForEvent poll turn then
        tryFirst surroundings blocks poll narrow (turn + 1) rest
      else some (-1)
    else some (narrow answer).ret

namespace Surroundings

variable (surroundings : Surroundings)

/-- `!(flags & MSG_DONTWAIT) && should_block(fd)` -/
def mayWait (count : Nat) : Bool := !surroundings.dontWait && surroundings.shouldBlock count

def accepted (sock : Int) : Int :=
  if 0 < sock ∧ surroundings.setupSocket sock = false then -1 else sock

/-- The only one without a loop. -/
def accept : List Answer → Option Int
  | [] => none
  | answer :: rest =>
    if answer.wouldBlock && surroundings.shouldBlock 0 then
      if surroundings.waitForEvent .pollIn 0 then
        rest.head?.map fun again => surroundings.accepted again.ret
      else some (-1)
    else some (surroundings.accepted answer.ret)

def read := waitFirst surroundings surroundings.shouldBlock .pollIn 0

def readv := waitFirst surroundings surroundings.shouldBlock .pollIn 0

def recv := waitFirst surroundings surroundings.mayWait .pollIn 0

def recvfrom := waitFirst surroundings surroundings.mayWait .pollIn 0

def recvmsg := waitFirst surroundings surroundings.mayWait .pollIn 0

def write := tryFirst surroundings surroundings.shouldBlock .pollOut Answer.toInt 0

def writev := tryFirst surroundings surroundings.shouldBlock .pollOut Answer.toInt 0

def send := tryFirst surroundings surroundings.mayWait .pollOut id 0

def sendto := tryFirst surroundings surroundings.mayWait .pollOut id 0

def sendmsg := tryFirst surroundings surroundings.mayWait .pollOut id 0

end Surroundings

inductive Shim where
  | accept | read | readv | recv | recvfrom | recvmsg | write | writev | send | sendto | sendmsg
deriving DecidableEq, Repr

def Shim.call (surroundings : Surroundings) : Shim → List Answer → Option Int
  | .accept => surroundings.accept
  | .read => surroundings.read
  | .readv => surroundings.readv
  | .recv => surroundings.recv
  | .recvfrom => surroundings.recvfrom
  | .recvmsg => surroundings.recvmsg
  | .write => surroundings.write
  | .writev => surroundings.writev
  | .send => surroundings.send
  | .sendto => surroundings.sendto
  | .sendmsg => surroundings.sendmsg

/-- The descriptor stays a blocking one, and every wait succeeds. -/
structure Surroundings.Blocking (surroundings : Surroundings) : Prop where
  flags : surroundings.dontWait = false
  shouldBlock : ∀ count, surroundings.shouldBlock count
  waits : ∀ poll count, surroundings.waitForEvent poll count

/-- A real call transfers less than `2 ^ 31` bytes. -/
def Answer.Fits (answer : Answer) : Prop := -2 ^ 31 ≤ answer.ret ∧ answer.ret < 2 ^ 31

theorem Answer.toInt_eq_self (fits : Answer.Fits answer) : answer.toInt = answer := by
  rw [toInt, int32_of_range fits.1 fits.2]

/-- No answer but those that would block, and then one more. -/
def Returns (call : List Answer → Option Int) (blocked : List Answer) (answer : Answer)
    (later : List Answer) : Prop :=
  call blocked = none ∧ call (blocked ++ answer :: later) = some answer.ret

section Retries

variable {surroundings : Surroundings} {blocks : Nat → Bool} {blocked : List Answer}
variable {answer : Answer}
variable (blocking : surroundings.Blocking) (willing : ∀ count, blocks count)
variable (would : ∀ answer ∈ blocked, answer.wouldBlock)
variable (done : answer.wouldBlock = false)
include blocking willing would done

theorem waitFirst_returns (fits : ∀ answer ∈ blocked, answer.Fits) (last : answer.Fits) :
    Returns (waitFirst surroundings blocks poll turn) blocked answer later := by
  induction blocked generalizing turn with
  | nil => simp [Returns, waitFirst, blocking.waits, Answer.toInt_eq_self last, done]
  | cons first rest ih =>
    obtain ⟨here, after⟩ := List.forall_mem_cons.mp would
    obtain ⟨short, fit⟩ := List.forall_mem_cons.mp fits
    simpa [Returns, waitFirst, blocking.waits, willing, Answer.toInt_eq_self short, here] using
      ih after fit

theorem tryFirst_returns (exact : ∀ answer ∈ blocked, narrow answer = answer)
    (last : narrow answer = answer) :
    Returns (tryFirst surroundings blocks poll narrow turn) blocked answer later := by
  induction blocked generalizing turn with
  | nil => simp [Returns, tryFirst, last, done]
  | cons first rest ih =>
    obtain ⟨here, after⟩ := List.forall_mem_cons.mp would
    obtain ⟨short, fit⟩ := List.forall_mem_cons.mp exact
    simpa [Returns, tryFirst, blocking.waits, willing, short, here] using ih after fit

end Retries

/-- Every shim returns the first answer that would not block, but for `accept`, which does
so if and only if at most one would, and the new socket is set up. -/
theorem shims_return_first (shim : Shim) (surroundings : Surroundings) (blocked : List Answer)
    (answer : Answer) (later : List Answer) (blocking : surroundings.Blocking)
    (would : ∀ answer ∈ blocked, answer.wouldBlock) (done : answer.wouldBlock = false)
    (fits : ∀ given ∈ answer :: blocked, given.Fits) :
    (shim.call surroundings blocked = none ∧
      shim.call surroundings (blocked ++ answer :: later) = some answer.ret) ↔
    (shim = .accept →
      blocked.length ≤ 1 ∧ (0 < answer.ret → surroundings.setupSocket answer.ret)) := by
  obtain ⟨last, fit⟩ := List.forall_mem_cons.mp fits
  have willing : ∀ count, surroundings.mayWait count := fun count => by
    simp [Surroundings.mayWait, blocking.flags, blocking.shouldBlock]
  have narrow := fun given member => Answer.toInt_eq_self (fit given member)
  cases shim with
  | accept =>
    have accepted : surroundings.accepted answer.ret = answer.ret ↔
        (0 < answer.ret → surroundings.setupSocket answer.ret) := by
      cases setup : surroundings.setupSocket answer.ret with
      | true => simp [Surroundings.accepted, setup]
      | false =>
        simp only [Surroundings.accepted, setup, and_true, Bool.false_eq_true, imp_false]
        split <;> omega
    rcases blocked with _ | ⟨first, _ | ⟨second, rest⟩⟩
    · simp [Shim.call, Surroundings.accept, done, accepted]
    · simp [Shim.call, Surroundings.accept, would, blocking.waits, blocking.shouldBlock, accepted]
    · simp [Shim.call, Surroundings.accept, would, blocking.waits, blocking.shouldBlock]
  | read | readv =>
    exact iff_of_true (waitFirst_returns blocking blocking.shouldBlock would done fit last)
      (by simp)
  | recv | recvfrom | recvmsg =>
    exact iff_of_true (waitFirst_returns blocking willing would done fit last) (by simp)
  | write | writev =>
    exact iff_of_true (tryFirst_returns blocking blocking.shouldBlock would done narrow
      (Answer.toInt_eq_self last)) (by simp)
  | send | sendto | sendmsg =>
    exact iff_of_true (tryFirst_returns blocking willing would done (fun _ _ => rfl) rfl) (by simp)

theorem shims_return_first_read :
    Shim.read.call ⟨false, fun _ => true, fun _ _ => true, fun _ => true⟩
      [⟨-1, .eagain⟩, ⟨-1, .ewouldblock⟩, ⟨5, .other⟩] = some 5 :=
  ((shims_return_first .read _ [⟨-1, .eagain⟩, ⟨-1, .ewouldblock⟩] ⟨5, .other⟩ []
    ⟨rfl, fun _ => rfl, fun _ _ => rfl⟩ (by decide) (by decide) (by simp [Answer.Fits])).mpr
    (by simp)).2

/-- Another fiber takes the connection twice. -/
theorem shims_return_first_accept :
    Shim.accept.call ⟨false, fun _ => true, fun _ _ => true, fun _ => true⟩
      [⟨-1, .eagain⟩, ⟨-1, .eagain⟩, ⟨5, .other⟩] = some (-1) := by
  decide

end LibFiber.Io
