import LibFiber.Mpmc.Machine
import LibFiber.Semantics.Progress

namespace LibFiber.Mpmc

open Semantics Function

variable {Thread Node Value : Type} [DecidableEq Node]

/-- The accesses that a call has left while `head` and `tail` stay as they are, those of
another round included when they are not what it has read. -/
def Phase.ahead (ends : Node × Node) : Phase Node Value → Nat
  | .idle | .returned _ => 0
  | .unpublishing | .leaving | .retiring _ _ => 1
  | .linking _ _ | .clearingPrev _ _ => 2
  | .clearingHead _ _ => 3
  | .swappingTail _ tail => if tail = ends.2 then 3 else 7
  | .checkingTail _ tail => if tail = ends.2 then 4 else 7
  | .publishingTail _ tail => if tail = ends.2 then 5 else 8
  | .loadingTail _ => 6
  | .resetting _ => 7
  | .swappingHead head _ _ => if head = ends.1 then 4 else 12
  | .readingValue head _ => if head = ends.1 then 5 else 13
  | .recheckingHead head _ => if head = ends.1 then 6 else 12
  | .publishingPrev head _ => if head = ends.1 then 7 else 13
  | .readingPrev head => if head = ends.1 then 8 else 14
  | .checkingHead head => if head = ends.1 then 9 else 12
  | .publishingHead head => if head = ends.1 then 10 else 13
  | .loadingHead => 11

def State.ends (state : State Thread Node Value) : Node × Node :=
  (state.head, state.tail)

def Phase.swaps : Phase Node Value → Bool
  | .swappingTail _ _ | .swappingHead _ _ _ => true
  | _ => false

theorem Phase.ahead_le (ends : Node × Node) (phase : Phase Node Value) : phase.ahead ends ≤ 14 := by
  unfold ahead
  split <;> first | decide | (split <;> decide)

theorem Reads.closer {state : State Thread Node Value} (reads : Reads state spurious now next)
    (honest : (spurious && now.swaps) = false) :
    next.ahead state.ends < now.ahead state.ends := by
  cases reads with
  | loadTail | loadHead | confirmTail | confirmHead | reconfirm => simp [Phase.ahead, State.ends]
  | rejectTail moved | rejectHead moved | rereject moved => simp [Phase.ahead, State.ends, moved]
  | readNull | readPrev | readValue =>
    simp only [Phase.ahead]
    split <;> decide
  | missTail missed | missHead missed =>
    rw [Phase.swaps, Bool.and_true] at honest
    rw [Phase.ahead, Phase.ahead, if_neg fun same => missed ⟨same.symm, honest⟩]
    decide

theorem Stores.closer (stores : Stores now index node next) (ends : Node × Node) :
    next.ahead ends < now.ahead ends := by
  cases stores <;> simp only [Phase.ahead] <;> first | decide | (split <;> decide)

variable [DecidableEq Thread]

/-- About to call `hazard_pointer_free`, which may scan all the threads' slots. -/
def Phase.retires : Phase Node Value → Bool
  | .retiring _ _ => true
  | _ => false

/-- The thread makes an access of `mpmc_fifo_push` or `mpmc_fifo_trypop` itself. -/
def acts (thread : Thread) (taken : State Thread Node Value × Action Thread Node Value) : Bool :=
  match taken.2 with
  | .move mover _ => mover = thread && !(taken.1.phase mover).retires
  | _ => false

/-- The thread begins a call, or its compare-and-swap fails for no reason. -/
def excused (thread : Thread) (taken : State Thread Node Value × Action Thread Node Value) :
    Bool :=
  match taken.2 with
  | .push caller _ | .trypop caller => caller = thread
  | .move mover spurious => mover = thread && (spurious && (taken.1.phase thread).swaps)
  | _ => false

omit [DecidableEq Node] in
theorem acts_move_le (thread mover : Thread) (state : State Thread Node Value) (spurious : Bool) :
    (if acts thread (state, .move mover spurious) then 1 else 0) ≤
      if decide (mover = thread) then 1 else 0 := by
  cases retires : (state.phase mover).retires <;> simp [acts, retires]

theorem mpmc_retries (thread : Thread) : (machine Thread Node Value).Retries State.ends
    (fun state => (state.phase thread).ahead state.ends) 14 (acts thread) (excused thread) where
  bounded state := Phase.ahead_le ..
  lowers before action after stepped unexcused same := by
    rw [same]
    cases step_moves stepped with
    | fill | dispose | reclaim => exact Nat.le_of_eq (Nat.zero_add _)
    | push | trypop =>
      have other := of_decide_eq_false unexcused
      simp [acts, State.goto, update_of_ne (Ne.symm other)]
    | read reads =>
      refine Nat.le_trans (Nat.add_le_add_right (acts_move_le ..) _) (lowers_update fun own => ?_)
      exact reads.closer (by simpa [excused, own] using unexcused)
    | store stores =>
      exact Nat.le_trans (Nat.add_le_add_right (acts_move_le ..) _)
        (lowers_update fun _ => stores.closer _)
    | reset phase | link phase | retire phase | swapTail phase | swapHead phase =>
      refine Nat.le_trans (Nat.add_le_add_right (acts_move_le ..) _) (lowers_update fun _ => ?_)
      simp [phase, Phase.ahead, State.ends]

/-- In any stretch of any run a thread makes at most 15 accesses, those inside of
`hazard_pointer_free` apart, for each call that it begins, each compare-and-swap of its
own that fails spuriously and each change of `head` or `tail`, and 14 more.  So while
a thread is held up, others come to their ends. -/
theorem mpmc_lock_free (thread : Thread) (state : State Thread Node Value)
    (schedule : List (Action Thread Node Value)) :
    ((machine Thread Node Value).trail state schedule).countP (acts thread) ≤
      14 + 15 * ((machine Thread Node Value).trail state schedule).countP fun taken =>
        excused thread taken || (machine Thread Node Value).changes State.ends taken :=
  (mpmc_retries thread).countP_le state schedule

end LibFiber.Mpmc
