import LibFiber.Data.CircularArray
import LibFiber.MultiChannel
import Mathlib.Algebra.Group.Int.Defs
import Mathlib.Algebra.Group.Nat.Defs

namespace LibFiber.MultiChannel

open Data Semantics Function

/-! The messages of a multi channel: what is received is what was sent, in the order of
the critical sections, and the rest is in the buffer. -/

variable {Fiber Msg : Type}

abbrev History (Fiber Msg : Type) := List (State Fiber Msg × Action Fiber Msg)

/-- The message that a critical section puts into the buffer. -/
def sends (exponent : Nat) (taken : State Fiber Msg × Action Fiber Msg) : Option (Option Msg) :=
  match taken.2 with
  | .call _ _ => none
  | .attempt fiber =>
    match taken.1.phase fiber with
    | .running (.send message) => if taken.1.hasRoom exponent then some message else none
    | .outside | .running .receive | .parked _ => none

/-- The message that a critical section returns. -/
def receives (exponent : Nat) (taken : State Fiber Msg × Action Fiber Msg) : Option (Option Msg) :=
  match taken.2 with
  | .call _ _ => none
  | .attempt fiber =>
    match taken.1.phase fiber with
    | .running .receive =>
      if taken.1.low < taken.1.high then
        some (taken.1.buffer (taken.1.low &&& (2 ^ exponent - 1)))
      else none
    | .outside | .running (.send _) | .parked _ => none

def sent (exponent : Nat) (history : History Fiber Msg) : List (Option Msg) :=
  history.filterMap (sends exponent)

def received (exponent : Nat) (history : History Fiber Msg) : List (Option Msg) :=
  history.filterMap (receives exponent)

/-- The buffer, with one slot for each residue of the counters. -/
def State.array (exponent : Nat) (state : State Fiber Msg) : CircularArray Msg :=
  ⟨exponent, state.buffer⟩

/-- The messages between the counters, the oldest first. -/
def State.contents (exponent : Nat) (state : State Fiber Msg) : List (Option Msg) :=
  (state.array exponent).entries state.low state.high

variable {exponent : Nat} {state after : State Fiber Msg} {fiber : Fiber}
variable {history : History Fiber Msg}

theorem size_array : (state.array exponent).size = ((2 ^ exponent : Nat) : Int) := by
  simp [State.array, CircularArray.size]

theorem slot_array (counter : Nat) :
    (state.array exponent).slot counter = counter &&& (2 ^ exponent - 1) := by
  rw [CircularArray.slot, size_array, Nat.and_two_pow_sub_one_eq_mod, ← Int.natCast_emod,
    Int.toNat_natCast]

theorem get_array (counter : Nat) :
    (state.array exponent).get counter = state.buffer (counter &&& (2 ^ exponent - 1)) := by
  rw [CircularArray.get, slot_array]
  rfl

theorem put_array (counter : Nat) (message : Option Msg) :
    (state.array exponent).put counter message =
      { state with
        buffer := update state.buffer (counter &&& (2 ^ exponent - 1)) message }.array
        exponent := by
  rw [CircularArray.put, slot_array]
  rfl

/-- The counters have counted the messages, and the buffer has those that are left. -/
structure Contents (exponent : Nat) (history : History Fiber Msg) (state : State Fiber Msg) :
    Prop where
  high : state.high = (sent exponent history).length
  ordered : state.low ≤ state.high
  bounded : state.high ≤ state.low + 2 ^ exponent
  kept : sent exponent history = received exponent history ++ state.contents exponent

theorem Contents.quiet (contents : Contents exponent history state)
    (silent : sends exponent (state, action) = none)
    (mute : receives exponent (state, action) = none) (high : after.high = state.high)
    (low : after.low = state.low) (buffer : after.buffer = state.buffer) :
    Contents exponent (history ++ [(state, action)]) after := by
  have sameSent : sent exponent (history ++ [(state, action)]) = sent exponent history := by
    simp [sent, silent]
  have sameReceived :
      received exponent (history ++ [(state, action)]) = received exponent history := by
    simp [received, mute]
  have same : after.contents exponent = state.contents exponent := by
    simp only [State.contents, State.array, high, low, buffer]
  refine ⟨?_, ?_, ?_, ?_⟩
  · rw [high, sameSent, contents.high]
  · rw [high, low]
    exact contents.ordered
  · rw [high, low]
    exact contents.bounded
  · rw [sameSent, sameReceived, same]
    exact contents.kept

theorem Contents.send (contents : Contents exponent history state)
    (sending : sends exponent (state, action) = some message)
    (mute : receives exponent (state, action) = none) (room : state.high < state.low + 2 ^ exponent)
    (high : after.high = state.high + 1) (low : after.low = state.low)
    (buffer : after.buffer = update state.buffer (state.high &&& (2 ^ exponent - 1)) message) :
    Contents exponent (history ++ [(state, action)]) after := by
  have ordered := contents.ordered
  have sentNow : sent exponent (history ++ [(state, action)]) =
      sent exponent history ++ [message] := by
    simp [sent, sending]
  have sameReceived :
      received exponent (history ++ [(state, action)]) = received exponent history := by
    simp [received, mute]
  have stored : after.array exponent = (state.array exponent).put state.high message := by
    rw [put_array, State.array, buffer]
    rfl
  have older : ((state.array exponent).put state.high message).entries state.low state.high =
      state.contents exponent := by
    refine CircularArray.entries_congr fun index above below => ?_
    refine CircularArray.get_put_of_ne message (by omega) ?_ ?_
    · rw [size_array]
      omega
    · rw [size_array]
      omega
  refine ⟨?_, ?_, ?_, ?_⟩
  · rw [high, sentNow, List.length_append, contents.high]
    rfl
  · omega
  · omega
  · have entries : after.contents exponent = state.contents exponent ++ [message] := by
      rw [State.contents, stored, high, low, Int.natCast_add, Int.natCast_one,
        CircularArray.entries_snoc (by omega), older, CircularArray.get_put_self]
    rw [sentNow, sameReceived, entries, contents.kept, List.append_assoc]

theorem Contents.receive (contents : Contents exponent history state)
    (silent : sends exponent (state, action) = none)
    (receiving : receives exponent (state, action) =
      some (state.buffer (state.low &&& (2 ^ exponent - 1))))
    (filled : state.low < state.high)
    (high : after.high = state.high) (low : after.low = state.low + 1)
    (buffer : after.buffer = update state.buffer (state.low &&& (2 ^ exponent - 1)) none) :
    Contents exponent (history ++ [(state, action)]) after := by
  have bounded := contents.bounded
  have sameSent : sent exponent (history ++ [(state, action)]) = sent exponent history := by
    simp [sent, silent]
  have receivedNow : received exponent (history ++ [(state, action)]) =
      received exponent history ++ [(state.array exponent).get state.low] := by
    rw [get_array]
    simp [received, receiving]
  have cleared : after.array exponent = (state.array exponent).put state.low none := by
    rw [put_array, State.array, buffer]
    rfl
  have newer : ((state.array exponent).put state.low none).entries (state.low + 1) state.high =
      (state.array exponent).entries (state.low + 1) state.high := by
    refine CircularArray.entries_congr fun index above below => ?_
    refine CircularArray.get_put_of_ne none (by omega) ?_ ?_
    · rw [size_array]
      omega
    · rw [size_array]
      omega
  refine ⟨?_, ?_, ?_, ?_⟩
  · rw [high, sameSent, contents.high]
  · omega
  · omega
  · have shape : state.contents exponent =
        (state.array exponent).get state.low :: after.contents exponent := by
      rw [State.contents, State.contents, cleared, high, low, Int.natCast_add, Int.natCast_one,
        newer, CircularArray.entries_cons (by omega)]
    rw [sameSent, receivedNow, contents.kept, shape, List.append_assoc, List.singleton_append]

variable [DecidableEq Fiber]

@[simp] theorem internalWake_high (state : State Fiber Msg) :
    (internalWake state).high = state.high := by
  unfold internalWake
  split <;> rfl

@[simp] theorem internalWake_low (state : State Fiber Msg) :
    (internalWake state).low = state.low := by
  unfold internalWake
  split <;> rfl

@[simp] theorem internalWake_buffer (state : State Fiber Msg) :
    (internalWake state).buffer = state.buffer := by
  unfold internalWake
  split <;> rfl

section

variable (contents : Contents exponent history state)
include contents

omit [DecidableEq Fiber] in
theorem Contents.hasRoom_iff (small : (sent exponent history).length < 2 ^ 64) :
    state.hasRoom exponent ↔ state.high < state.low + 2 ^ exponent := by
  have ordered := contents.ordered
  have high := contents.high
  have distance : (state.high + 2 ^ 64 - state.low) % 2 ^ 64 = state.high - state.low := by omega
  rw [State.hasRoom, distance, decide_eq_true_iff]
  omega

theorem Contents.attempt_send (running : state.phase fiber = .running (.send message))
    (small : (sent exponent (history ++ [(state, .attempt fiber)])).length < 2 ^ 64) :
    Contents exponent (history ++ [(state, .attempt fiber)])
      (MultiChannel.send exponent state fiber message) := by
  have mute : receives exponent (state, .attempt fiber) = none := by simp [receives, running]
  by_cases room : state.hasRoom exponent
  · have sending : sends exponent (state, .attempt fiber) = some message := by
      simp [sends, running, room]
    have longer : (sent exponent (history ++ [(state, .attempt fiber)])).length =
        (sent exponent history).length + 1 := by
      simp [sent, sending]
    have counted := contents.high
    refine contents.send sending mute ((contents.hasRoom_iff (by omega)).mp room) ?_ ?_ ?_
    · have fits : state.high + 1 < 2 ^ 64 := by omega
      simpa [MultiChannel.send, room, State.goto] using fits
    · simp [MultiChannel.send, room, State.goto]
    · simp [MultiChannel.send, room, State.goto]
  · have silent : sends exponent (state, .attempt fiber) = none := by simp [sends, running, room]
    refine contents.quiet silent mute ?_ ?_ ?_ <;> simp [MultiChannel.send, room, internalWait]

theorem Contents.attempt_receive (running : state.phase fiber = .running .receive)
    (small : (sent exponent history).length < 2 ^ 64) :
    Contents exponent (history ++ [(state, .attempt fiber)])
      (MultiChannel.receive exponent state fiber) := by
  have silent : sends exponent (state, .attempt fiber) = none := by simp [sends, running]
  by_cases filled : state.low < state.high
  · have high := contents.high
    refine contents.receive silent (by simp [receives, running, filled]) filled ?_ ?_ ?_
    · simp [MultiChannel.receive, filled, State.goto]
    · have fits : state.low + 1 < 2 ^ 64 := by omega
      simpa [MultiChannel.receive, filled, State.goto] using fits
    · simp [MultiChannel.receive, filled, State.goto]
  · have mute : receives exponent (state, .attempt fiber) = none := by
      simp [receives, running, filled]
    refine contents.quiet silent mute ?_ ?_ ?_ <;>
      simp [MultiChannel.receive, filled, internalWait]

theorem Contents.step (small : (sent exponent (history ++ [(state, action)])).length < 2 ^ 64)
    (stepped : step exponent state action = some after) :
    Contents exponent (history ++ [(state, action)]) after := by
  cases action with
  | call fiber call =>
    cases phase : state.phase fiber <;>
      simp only [MultiChannel.step, phase, reduceCtorEq] at stepped
    cases stepped
    exact contents.quiet rfl rfl rfl rfl rfl
  | attempt fiber =>
    have shorter : (sent exponent history).length < 2 ^ 64 := by
      refine Nat.lt_of_le_of_lt ?_ small
      simp [sent, List.filterMap_append]
    cases phase : state.phase fiber with
    | running call =>
      cases call with
      | send message =>
        simp only [MultiChannel.step, phase] at stepped
        cases stepped
        exact contents.attempt_send phase small
      | receive =>
        simp only [MultiChannel.step, phase] at stepped
        cases stepped
        exact contents.attempt_receive phase shorter
    | outside | parked => simp only [MultiChannel.step, phase, reduceCtorEq] at stepped

end

/-- Two places: a receiver sleeps at first, a sender when they are full, and the null
pointer is a message like the others. -/
def passed (receiver sender : Fiber) : List (Action Fiber Nat) :=
  [.call receiver .receive, .attempt receiver, .call sender (.send (some 1)), .attempt sender,
    .call sender (.send none), .attempt sender, .call sender (.send (some 3)), .attempt sender,
    .attempt receiver, .attempt sender, .call receiver .receive, .attempt receiver]

end LibFiber.MultiChannel
